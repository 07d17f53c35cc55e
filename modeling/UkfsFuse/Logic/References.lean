import UkfsFuse.Core.References
import UkfsFuse.Source.References
import UkfsFuse.Logic.Driver

/-!
# Who holds which reference

`RefInv s owed` says of a state that every count is the number of handles and
of live nodes that refer to the file, with one reference more for `owed`; that
a node is held exactly as long as its count is not zero; and that the releases
on the stacks are those of the nodes whose release has begun. Each call takes
a state with nothing owed to another one; inside, `uk_file_release` is what
gives back a reference that is owed.
-/

namespace UkfsFuse

open UkfsFuse.Core

section Definitions

variable {T F : Type}

/-- The node holds a reference to `x`. -/
def CountedNode.Refers (node : CountedNode T F) (x : FileRef F) : Prop :=
  node.life.Live ∧ node.file.upref = some x

instance [DecidableEq F] (node : CountedNode T F) (x : FileRef F) : Decidable (node.Refers x) := by
  unfold CountedNode.Refers
  infer_instance

/-- The node is freed once, and has an `upref` only if it is a root. -/
structure CountedNode.Ok [DecidableEq T] (node : CountedNode T F) : Prop where
  frees : node.frees = if node.life = .freed then 1 else 0
  upref : node.root = false → node.file.upref = none

/-- The node of a running release. -/
def Hook.node : Hook → Nat
  | .upref n | .free n => n

/-- How far the node's release has got when `t` is there. -/
def Hook.life (t : T) : Hook → Life T
  | .upref _ => .releasing t
  | .free _ => .freeing t

namespace RefState

/-- How far the release of node `n` has got. -/
def lifeOf (s : RefState T F) (n : Nat) : Option (Life T) := (s.nodes[n]?).map CountedNode.life

/-- The number of live nodes whose `upref` is `x`. -/
def grafted [DecidableEq F] (s : RefState T F) (x : FileRef F) : Nat :=
  s.nodes.countP fun node => decide (node.Refers x)

end RefState

/-- The running releases are those of the nodes in them. -/
structure HooksRun (s : RefState T F) : Prop where
  running : ∀ t hk, hk ∈ s.stack t ↔ s.lifeOf hk.node = some (hk.life t)
  nodup : ∀ t, (s.stack t).Nodup

/-- Every reference has its holder. -/
structure RefInv [DecidableEq T] [DecidableEq F] (s : RefState T F) (owed : Option (FileRef F)) :
    Prop where
  balanced : Balanced s.count s.handles s.grafted owed
  held : ∀ n, s.lifeOf n = some .held ↔ 0 < s.count (.fuse n)
  hooks : HooksRun s
  nodes : ∀ node ∈ s.nodes, node.Ok

end Definitions

/-! ## Nodes -/

section Nodes

variable {T F : Type} {s s' : RefState T F} {n m : Nat} {node node' : CountedNode T F}

theorem RefState.lifeOf_eq (hn : s.nodes[n]? = some node) : s.lifeOf n = some node.life := by
  rw [lifeOf, hn, Option.map_some]

theorem RefState.lifeOf_set (hn : s.nodes[n]? = some node)
    (hnodes : s'.nodes = s.nodes.set n node') :
    s'.lifeOf m = if m = n then some node'.life else s.lifeOf m := by
  have hlt := (List.getElem?_eq_some_iff.mp hn).1
  by_cases hmn : m = n
  · subst hmn
    rw [lifeOf, hnodes, List.getElem?_set_self hlt, if_pos rfl, Option.map_some]
  · rw [lifeOf, hnodes, List.getElem?_set_ne (Ne.symm hmn), if_neg hmn, lifeOf]

theorem RefState.lifeOf_append (hnodes : s'.nodes = s.nodes ++ [node]) :
    s'.lifeOf m = if m = s.nodes.length then some node.life else s.lifeOf m := by
  rcases lt_trichotomy m s.nodes.length with hlt | rfl | hgt
  · rw [lifeOf, hnodes, List.getElem?_append_left hlt, if_neg hlt.ne, lifeOf]
  · simp [lifeOf, hnodes]
  · rw [lifeOf, hnodes, List.getElem?_eq_none (by simp; omega), if_neg hgt.ne', lifeOf,
      List.getElem?_eq_none hgt.le]

variable [DecidableEq F] {x : FileRef F}

/-- A node is replaced: only what these two refer to changes. -/
theorem RefState.grafted_set (hn : s.nodes[n]? = some node)
    (hnodes : s'.nodes = s.nodes.set n node') :
    s'.grafted x + (if node.Refers x then 1 else 0) =
      s.grafted x + if node'.Refers x then 1 else 0 := by
  obtain ⟨hlt, hget⟩ := List.getElem?_eq_some_iff.mp hn
  have hle := List.boole_getElem_le_countP (p := fun node => decide (node.Refers x)) hlt
  rw [grafted, hnodes, List.countP_set hlt, grafted]
  simp only [hget, decide_eq_true_eq] at hle ⊢
  omega

theorem RefState.grafted_append (hnodes : s'.nodes = s.nodes ++ [node]) :
    s'.grafted x = s.grafted x + if node.Refers x then 1 else 0 := by
  rw [grafted, hnodes, List.countP_append, grafted]
  simp

theorem RefState.grafted_pos (hn : s.nodes[n]? = some node) (href : node.Refers x) :
    0 < s.grafted x :=
  List.countP_pos_iff.mpr ⟨node, List.mem_of_getElem? hn, by simpa using href⟩

end Nodes

/-! ## Running releases -/

section Hooks

variable {T F : Type} [DecidableEq T] {s s' : RefState T F} {n : Nat} {t : T}

omit [DecidableEq T] in
/-- A running release is that of one thread. -/
theorem Hook.life_ne {u : T} (hk hk' : Hook) (hu : u ≠ t) : hk.life t ≠ hk'.life u := by
  cases hk <;> cases hk' <;> simp [Hook.life, Ne.symm hu]

omit [DecidableEq T] in
/-- No stack and no life changes, but that a new node is held. -/
theorem HooksRun.congr (h : HooksRun s) (hstack : s'.stack = s.stack)
    (hlife : ∀ m, s'.lifeOf m = s.lifeOf m ∨ s.lifeOf m = none ∧ s'.lifeOf m = some .held) :
    HooksRun s' := by
  refine ⟨fun t hk => ?_, fun t => by rw [hstack]; exact h.nodup t⟩
  rw [hstack, h.running]
  rcases hlife hk.node with heq | ⟨hnone, hheld⟩
  · rw [heq]
  · rw [hnone, hheld]
    cases hk <;> simp [Hook.life]

/-- The life of node `n` changes with what thread `t` has of it on its stack;
no other thread has any, before or after. -/
theorem HooksRun.replace (h : HooksRun s) {old new : Life T} {top : List Hook}
    (hold : s.lifeOf n = some old)
    (hstack : s'.stack = Function.update s.stack t top)
    (hlife : ∀ m, s'.lifeOf m = if m = n then some new else s.lifeOf m)
    (hmine : ∀ u (hk : Hook), u ≠ t → old ≠ hk.life u ∧ new ≠ hk.life u)
    (hnode : ∀ hk : Hook, hk.node = n → (hk ∈ top ↔ new = hk.life t))
    (hother : ∀ hk : Hook, hk.node ≠ n → (hk ∈ top ↔ hk ∈ s.stack t))
    (hnodup : top.Nodup) : HooksRun s' := by
  refine ⟨fun u hk => ?_, fun u => ?_⟩
  · rw [hlife]
    by_cases hut : u = t
    · subst hut
      rw [hstack, Function.update_self]
      by_cases hn : hk.node = n
      · rw [if_pos hn, hnode hk hn, Option.some.injEq]
      · rw [if_neg hn, hother hk hn, h.running]
    · rw [hstack, Function.update_of_ne hut, h.running]
      by_cases hn : hk.node = n
      · rw [if_pos hn, hn, hold, Option.some.injEq, Option.some.injEq]
        exact iff_of_false (hmine u hk hut).1 (hmine u hk hut).2
      · rw [if_neg hn]
  · by_cases hut : u = t
    · subst hut
      rw [hstack, Function.update_self]
      exact hnodup
    · rw [hstack, Function.update_of_ne hut]
      exact h.nodup u

/-- A release begins. -/
theorem HooksRun.push (h : HooksRun s) (hheld : s.lifeOf n = some .held)
    (hstack : s'.stack = Function.update s.stack t (.upref n :: s.stack t))
    (hlife : ∀ m, s'.lifeOf m = if m = n then some (.releasing t) else s.lifeOf m) :
    HooksRun s' := by
  have hnot : ∀ hk : Hook, hk.node = n → hk ∉ s.stack t := by
    rintro hk hn hmem
    rw [h.running, hn, hheld] at hmem
    cases hk <;> simp [Hook.life] at hmem
  refine h.replace hheld hstack hlife ?_ ?_ ?_ (List.nodup_cons.mpr ⟨hnot _ rfl, h.nodup t⟩)
  · intro u hk hu
    exact ⟨by cases hk <;> simp [Hook.life], Hook.life_ne (.upref n) hk hu⟩
  · rintro (m | m) hm
    · obtain rfl : m = n := hm
      simp [Hook.life]
    · have hmem := hnot (.free m) hm
      simp [Hook.life, hmem]
  · rintro (m | m) hm
    · have hmn : m ≠ n := hm
      simp [hmn]
    · simp

/-- The innermost release of `t` goes on: to the `uk_free`, or to its end. -/
theorem HooksRun.turn (h : HooksRun s) {rest : List Hook} (hat : s.stack t = .upref n :: rest)
    (hstack : s'.stack = Function.update s.stack t (.free n :: rest))
    (hlife : ∀ m, s'.lifeOf m = if m = n then some (.freeing t) else s.lifeOf m) :
    HooksRun s' := by
  have hold := (h.running t (.upref n)).mp (by rw [hat]; exact List.mem_cons_self)
  have hnodup := h.nodup t
  rw [hat] at hnodup
  have hupref := (List.nodup_cons.mp hnodup).1
  have hfree : .free n ∉ rest := by
    intro hmem
    have := (h.running t (.free n)).mp (by rw [hat]; exact List.mem_cons_of_mem _ hmem)
    exact absurd (hold.symm.trans this) (by simp [Hook.life])
  refine h.replace hold hstack hlife ?_ ?_ ?_
    (List.nodup_cons.mpr ⟨hfree, (List.nodup_cons.mp hnodup).2⟩)
  · exact fun u hk hu => ⟨Hook.life_ne (.upref n) hk hu, Hook.life_ne (.free n) hk hu⟩
  · rintro (m | m) hm
    · obtain rfl : m = n := hm
      simp [Hook.life, hupref]
    · obtain rfl : m = n := hm
      simp [Hook.life]
  · rintro (m | m) hm
    · have hmn : m ≠ n := hm
      simp [hat, hmn]
    · have hmn : m ≠ n := hm
      simp [hat, hmn]

theorem HooksRun.pop (h : HooksRun s) {rest : List Hook} (hat : s.stack t = .free n :: rest)
    (hstack : s'.stack = Function.update s.stack t rest)
    (hlife : ∀ m, s'.lifeOf m = if m = n then some .freed else s.lifeOf m) :
    HooksRun s' := by
  have hold := (h.running t (.free n)).mp (by rw [hat]; exact List.mem_cons_self)
  have hnodup := h.nodup t
  rw [hat] at hnodup
  have hgone : ∀ hk : Hook, hk.node = n → hk ∉ rest := by
    rintro (m | m) hm hmem
    · have hmid := (h.running t (.upref m)).mp (by rw [hat]; exact List.mem_cons_of_mem _ hmem)
      obtain rfl : m = n := hm
      exact absurd (hold.symm.trans hmid) (by simp [Hook.life])
    · obtain rfl : m = n := hm
      exact (List.nodup_cons.mp hnodup).1 hmem
  refine h.replace hold hstack hlife ?_ ?_ ?_ (List.nodup_cons.mp hnodup).2
  · intro u hk hu
    exact ⟨Hook.life_ne (.free n) hk hu, by cases hk <;> simp [Hook.life]⟩
  · intro hk hm
    refine iff_of_false (hgone hk hm) ?_
    cases hk <;> simp [Hook.life]
  · rintro (m | m) hm
    · simp [hat]
    · have hmn : m ≠ n := hm
      simp [hat, hmn]

end Hooks

/-! ## What the calls do to the references -/

section Calls

variable {T F : Type} [DecidableEq T] [DecidableEq F] {s s' : RefState T F} {n : Nat} {t : T}
  {node : CountedNode T F} {x : FileRef F} {owed : Option (FileRef F)}

theorem RefInv.count_pos_of_refers (h : RefInv s owed) (hn : s.nodes[n]? = some node)
    (href : node.Refers x) : 0 < s.count x :=
  h.balanced.count_pos_of_link (RefState.grafted_pos hn href)

/-- A node with a handle on it is held. -/
theorem RefInv.held_of_handle (h : RefInv s owed) (hn : s.nodes[n]? = some node)
    (hx : 0 < s.handles (.fuse n)) : node.life = .held := by
  have hheld := (h.held n).mpr (h.balanced.count_pos_of_handle hx)
  rw [RefState.lifeOf_eq hn] at hheld
  exact Option.some.inj hheld

theorem RefInv.acquire (h : RefInv s none) (hx : 0 < s.count x) : RefInv (s.acquire x) none where
  balanced := h.balanced.acquire
  held n := by
    rw [show (s.acquire x).lifeOf n = s.lifeOf n from rfl, h.held n]
    by_cases hnx : FileRef.fuse n = x
    · subst hnx
      simp [RefState.acquire, hx]
    · simp [RefState.acquire, hnx]
  hooks := h.hooks.congr rfl fun _ => .inl rfl
  nodes := h.nodes

/-- A new node is as `fusefs_file_alloc` leaves it. -/
theorem RefInv.addNode (h : RefInv s none) {ff : FusefsFile (FileRef F)} {root : Bool}
    (hff : ff.upref = none) : RefInv (s.addNode ff root) none := by
  have hnodes : (s.addNode ff root).nodes = s.nodes ++ [⟨ff, root, .held, 0⟩] := rfl
  have hfresh : s.lifeOf s.nodes.length = none := by
    rw [RefState.lifeOf, List.getElem?_eq_none (Nat.le_refl _), Option.map_none]
  have hzero : s.count (.fuse s.nodes.length) = 0 := by
    by_contra hne
    have hheld := (h.held s.nodes.length).mpr (Nat.pos_of_ne_zero hne)
    exact absurd (hfresh.symm.trans hheld) (by simp)
  have hhandles : s.handles (.fuse s.nodes.length) = 0 := by
    have := h.balanced.eq (.fuse s.nodes.length)
    omega
  refine ⟨?_, fun n => ?_, ?_, ?_⟩
  · have hbalanced := h.balanced.acquire (x := .fuse s.nodes.length)
    rw [hzero, hhandles] at hbalanced
    exact hbalanced.congr fun y => by
      rw [RefState.grafted_append hnodes]
      simp [CountedNode.Refers, hff]
  · rw [RefState.lifeOf_append hnodes]
    by_cases hn : n = s.nodes.length
    · subst hn
      simp [RefState.addNode]
    · simp [RefState.addNode, hn, h.held]
  · refine h.hooks.congr rfl fun m => ?_
    rw [RefState.lifeOf_append hnodes]
    split_ifs with hm
    · subst hm
      exact .inr ⟨hfresh, rfl⟩
    · exact .inl rfl
  · intro node hmem
    rw [hnodes] at hmem
    rcases List.mem_append.mp hmem with hmem | hmem
    · exact h.nodes node hmem
    · obtain rfl := List.mem_singleton.mp hmem
      exact ⟨rfl, fun _ => hff⟩

omit [DecidableEq T] in
/-- `fusefs_graft` stores the reference it takes. -/
theorem RefState.graft_eq_some (h : s.graft n node x = some s') :
    node.file.upref = none ∧
      s'.nodes = s.nodes.set n { node with file := { node.file with upref := some x } } ∧
      s'.count = Function.update s.count x (s.count x + 1) ∧ s'.handles = s.handles ∧
      s'.stack = s.stack := by
  obtain ⟨ff, hff, rfl⟩ := Option.map_eq_some_iff.mp h
  rw [fusefsGraft] at hff
  split at hff
  · exact absurd hff (by simp)
  · obtain rfl := Option.some.inj hff
    exact ⟨‹_›, rfl, rfl, rfl, rfl⟩

/-- A count that is not zero may become another one. -/
theorem update_pos_iff {count : FileRef F → Nat} {c : Nat} {y : FileRef F} (hx : 0 < count x)
    (hc : 0 < c) : 0 < Function.update count x c y ↔ 0 < count y := by
  by_cases hyx : y = x
  · subst hyx
    simp [hx, hc]
  · simp [hyx]

/-- Node `n` is replaced: what is left to show. -/
theorem RefInv.replace (h : RefInv s owed) {node' : CountedNode T F} {owed' : Option (FileRef F)}
    (hn : s.nodes[n]? = some node) (hnodes : s'.nodes = s.nodes.set n node')
    (hbalanced : Balanced s'.count s'.handles s'.grafted owed') (hhooks : HooksRun s')
    (hok : node'.Ok) (hself : node'.life = .held ↔ 0 < s'.count (.fuse n))
    (hother : ∀ m, m ≠ n → (0 < s'.count (.fuse m) ↔ 0 < s.count (.fuse m))) :
    RefInv s' owed' := by
  refine ⟨hbalanced, fun m => ?_, hhooks, fun node₁ hmem => ?_⟩
  · rw [RefState.lifeOf_set hn hnodes]
    by_cases hmn : m = n
    · rw [if_pos hmn, hmn, Option.some.injEq, hself]
    · rw [if_neg hmn, h.held m, hother m hmn]
  · rw [hnodes] at hmem
    rcases List.mem_or_eq_of_mem_set hmem with hmem | rfl
    · exact h.nodes node₁ hmem
    · exact hok

/-- A root that is grafted refers to one more file. -/
theorem RefInv.graft (h : RefInv s none) (hn : s.nodes[n]? = some node) (hheld : node.life = .held)
    (hroot : node.root = true) (hx : 0 < s.count x) (hgraft : s.graft n node x = some s') :
    RefInv s' none := by
  obtain ⟨hnone, hnodes, hcount, hhandles, hstack⟩ := RefState.graft_eq_some hgraft
  have hlife : ∀ m, s'.lifeOf m = s.lifeOf m := fun m => by
    rw [RefState.lifeOf_set hn hnodes]
    split_ifs with hm
    · rw [hm, RefState.lifeOf_eq hn]
    · rfl
  have hset := fun y => RefState.grafted_set (x := y) hn hnodes
  refine h.replace hn hnodes ?_ (h.hooks.congr hstack fun m => .inl (hlife m)) ?_ ?_ fun m _ => ?_
  · rw [hcount, hhandles]
    exact h.balanced.link fun y => by
      simpa [CountedNode.Refers, hnone, hheld, Life.Live, eq_comm] using hset y
  · exact ⟨(h.nodes node (List.mem_of_getElem? hn)).frees, fun hr => by simp [hroot] at hr⟩
  · rw [hcount, update_pos_iff hx (Nat.succ_pos _), ← h.held n, RefState.lifeOf_eq hn,
      Option.some.injEq]
  · rw [hcount, update_pos_iff hx (Nat.succ_pos _)]

/-- `uk_file_release` counts down, and calls `fusefs_release` at zero. -/
theorem RefState.ukFileRelease_cases (h : s.ukFileRelease t x = some s') :
    s'.count = Function.update s.count x (s.count x - 1) ∧ s'.handles = s.handles ∧
      ((s'.nodes = s.nodes ∧ s'.stack = s.stack ∧ ∀ n, x = .fuse n → 1 < s.count x) ∨
        ∃ n node, x = .fuse n ∧ s.count x = 1 ∧ s.nodes[n]? = some node ∧
          s'.nodes = s.nodes.set n { node with life := .releasing t } ∧
          s'.stack = Function.update s.stack t (.upref n :: s.stack t)) := by
  unfold ukFileRelease at h
  split at h
  · exact absurd h (by simp)
  · rename_i hone
    cases x with
    | other f =>
        obtain rfl := Option.some.inj h
        exact ⟨by rw [hone], rfl, .inl ⟨rfl, rfl, by simp⟩⟩
    | fuse n =>
        obtain ⟨node, hn, rfl⟩ := Option.map_eq_some_iff.mp h
        exact ⟨by rw [hone]; rfl, rfl, .inr ⟨n, node, rfl, hone, hn, rfl, rfl⟩⟩
  · rename_i c hmore
    obtain rfl := Option.some.inj h
    exact ⟨by rw [hmore]; rfl, rfl, .inl ⟨rfl, rfl, fun _ _ => by omega⟩⟩

/-- A reference that is owed is given back. -/
theorem RefInv.giveBack (h : RefInv s (some x)) (hrel : s.ukFileRelease t x = some s') :
    RefInv s' none := by
  have hpos := h.balanced.count_pos_of_owed
  obtain ⟨hcount, hhandles, ⟨hnodes, hstack, hmore⟩ | ⟨n, node, rfl, hone, hn, hnodes, hstack⟩⟩ :=
    RefState.ukFileRelease_cases hrel
  · have hlife : ∀ m, s'.lifeOf m = s.lifeOf m := fun m => by
      rw [RefState.lifeOf, hnodes, RefState.lifeOf]
    refine ⟨?_, fun m => ?_, h.hooks.congr hstack fun m => .inl (hlife m),
      by rw [hnodes]; exact h.nodes⟩
    · rw [hcount, hhandles]
      exact h.balanced.giveBack.congr fun y => by rw [RefState.grafted, hnodes, RefState.grafted]
    · rw [hlife m, h.held m, hcount]
      by_cases hmx : FileRef.fuse m = x
      · have hlt := hmore m hmx.symm
        exact (update_pos_iff hpos (by omega)).symm
      · rw [Function.update_of_ne hmx]
  · have hheld := (h.held n).mpr hpos
    have hnode : node.life = .held := Option.some.inj ((RefState.lifeOf_eq hn).symm.trans hheld)
    have hlife : ∀ m, s'.lifeOf m = if m = n then some (.releasing t) else s.lifeOf m := fun m =>
      RefState.lifeOf_set hn hnodes
    have hok := h.nodes node (List.mem_of_getElem? hn)
    refine h.replace hn hnodes ?_ (h.hooks.push hheld hstack hlife) ?_ ?_ fun m hm => ?_
    · rw [hcount, hhandles]
      exact h.balanced.giveBack.congr fun y => by
        simpa [CountedNode.Refers, hnode, Life.Live] using
          RefState.grafted_set (x := y) hn hnodes
    · exact ⟨by simpa [hnode] using hok.frees, hok.upref⟩
    · simp [hcount, hone]
    · simp [hcount, hm]

/-- There is a reference to give back. -/
theorem RefInv.exists_ukFileRelease (h : RefInv s (some x)) (t : T) :
    ∃ s', s.ukFileRelease t x = some s' := by
  have hpos := h.balanced.count_pos_of_owed
  unfold RefState.ukFileRelease
  split
  · rename_i hzero
    omega
  · cases x with
    | other f => exact ⟨_, rfl⟩
    | fuse n =>
        obtain ⟨node, hn, -⟩ := Option.map_eq_some_iff.mp ((h.held n).mpr hpos)
        exact ⟨_, by rw [RefState.enter, hn]; rfl⟩
  · exact ⟨_, rfl⟩

/-- A caller takes a reference from a handle. -/
theorem RefInv.drop (h : RefInv s none) (hx : 0 < s.handles x) :
    RefInv { s with handles := Function.update s.handles x (s.handles x - 1) } (some x) where
  balanced := h.balanced.drop hx
  held := h.held
  hooks := h.hooks.congr rfl fun _ => .inl rfl
  nodes := h.nodes

/-- The innermost release of a thread has got where its node says. -/
theorem RefInv.life_of_top (h : RefInv s owed) {hk : Hook} {rest : List Hook}
    (hat : s.stack t = hk :: rest) (hn : s.nodes[hk.node]? = some node) :
    node.life = hk.life t := by
  have hlife := (h.hooks.running t hk).mp (by rw [hat]; exact List.mem_cons_self)
  exact Option.some.inj ((RefState.lifeOf_eq hn).symm.trans hlife)

/-- The release of a node takes the reference to its `upref`. -/
theorem RefInv.turn (h : RefInv s none) {rest : List Hook} (hat : s.stack t = .upref n :: rest)
    (hn : s.nodes[n]? = some node)
    (hnodes : s'.nodes = s.nodes.set n { node with life := .freeing t })
    (hcount : s'.count = s.count) (hhandles : s'.handles = s.handles)
    (hstack : s'.stack = Function.update s.stack t (.free n :: rest)) :
    RefInv s' node.file.upref := by
  have hnode : node.life = .releasing t := h.life_of_top hat hn
  have hlife : ∀ m, s'.lifeOf m = if m = n then some (.freeing t) else s.lifeOf m := fun m =>
    RefState.lifeOf_set hn hnodes
  have hok := h.nodes node (List.mem_of_getElem? hn)
  have hset := fun y => RefState.grafted_set (x := y) hn hnodes
  refine h.replace hn hnodes ?_ (h.hooks.turn hat hstack hlife)
    ⟨by simpa [hnode] using hok.frees, hok.upref⟩ ?_ fun m _ => by rw [hcount]
  · rw [hcount, hhandles]
    cases hupref : node.file.upref with
    | none =>
        exact h.balanced.congr fun y => by simpa [CountedNode.Refers, hupref] using hset y
    | some f =>
        refine h.balanced.unlink fun y => ?_
        simpa [CountedNode.Refers, hupref, hnode, Life.Live, eq_comm] using (hset y).symm
  · rw [hcount, ← h.held n, RefState.lifeOf_eq hn, hnode]
    simp

/-- A node is freed. -/
theorem RefInv.pop (h : RefInv s none) {rest : List Hook} (hat : s.stack t = .free n :: rest)
    (hn : s.nodes[n]? = some node)
    (hnodes : s'.nodes = s.nodes.set n { node with life := .freed, frees := node.frees + 1 })
    (hcount : s'.count = s.count) (hhandles : s'.handles = s.handles)
    (hstack : s'.stack = Function.update s.stack t rest) : RefInv s' none := by
  have hnode : node.life = .freeing t := h.life_of_top hat hn
  have hlife : ∀ m, s'.lifeOf m = if m = n then some .freed else s.lifeOf m := fun m =>
    RefState.lifeOf_set hn hnodes
  have hok := h.nodes node (List.mem_of_getElem? hn)
  refine h.replace hn hnodes ?_ (h.hooks.pop hat hstack hlife)
    ⟨by simpa [hnode] using hok.frees, hok.upref⟩ ?_ fun m _ => by rw [hcount]
  · rw [hcount, hhandles]
    exact h.balanced.congr fun y => by
      simpa [CountedNode.Refers, hnode, Life.Live] using RefState.grafted_set (x := y) hn hnodes
  · rw [hcount, ← h.held n, RefState.lifeOf_eq hn, hnode]
    simp

theorem RefInv.release (h : RefInv s none) (hrel : s.release t x = some s') : RefInv s' none := by
  unfold RefState.release at hrel
  split at hrel
  · exact absurd hrel (by simp)
  · exact (h.drop (Nat.pos_of_ne_zero ‹_›)).giveBack hrel

/-- `fusefs_release` is at its `upref` or at its end. -/
theorem RefState.hook_cases (h : s.hook t = some s') :
    (∃ n rest node s₁, s.stack t = .upref n :: rest ∧ s.nodes[n]? = some node ∧
      s₁.nodes = s.nodes.set n { node with life := .freeing t } ∧ s₁.count = s.count ∧
      s₁.handles = s.handles ∧ s₁.stack = Function.update s.stack t (.free n :: rest) ∧
      ((node.file.upref = none ∧ s' = s₁) ∨
        ∃ f, node.file.upref = some f ∧ s₁.ukFileRelease t f = some s')) ∨
    ∃ n rest node, s.stack t = .free n :: rest ∧ s.nodes[n]? = some node ∧
      s'.nodes = s.nodes.set n { node with life := .freed, frees := node.frees + 1 } ∧
      s'.count = s.count ∧ s'.handles = s.handles ∧ s'.stack = Function.update s.stack t rest := by
  unfold hook at h
  split at h
  · exact absurd h (by simp)
  · rename_i n rest hat
    obtain ⟨node, hn, hrest⟩ := Option.bind_eq_some_iff.mp h
    refine .inl ⟨n, rest, node, { s.setNode n { node with life := .freeing t } with
      stack := Function.update s.stack t (.free n :: rest) }, hat, hn, rfl, rfl, rfl, rfl, ?_⟩
    cases hupref : node.file.upref with
    | none =>
        simp only [hupref] at hrest
        exact .inl ⟨rfl, (Option.some.inj hrest).symm⟩
    | some f =>
        simp only [hupref] at hrest
        exact .inr ⟨f, rfl, hrest⟩
  · rename_i n rest hat
    obtain ⟨node, hn, rfl⟩ := Option.map_eq_some_iff.mp h
    exact .inr ⟨n, rest, node, hat, hn, rfl, rfl, rfl, rfl⟩

theorem RefInv.hook (h : RefInv s none) (hhook : s.hook t = some s') : RefInv s' none := by
  rcases RefState.hook_cases hhook with
    ⟨n, rest, node, s₁, hat, hn, hnodes, hcount, hhandles, hstack, hrest⟩ |
    ⟨n, rest, node, hat, hn, hnodes, hcount, hhandles, hstack⟩
  · have hturn := h.turn hat hn hnodes hcount hhandles hstack
    rcases hrest with ⟨hupref, rfl⟩ | ⟨f, hupref, hrel⟩
    · rwa [hupref] at hturn
    · rw [hupref] at hturn
      exact hturn.giveBack hrel
  · exact h.pop hat hn hnodes hcount hhandles hstack

/-- A release that is running goes on. -/
theorem RefInv.exists_hook (h : RefInv s none) (hrunning : s.stack t ≠ []) :
    ∃ s', s.hook t = some s' := by
  obtain ⟨hk, rest, hat⟩ := List.exists_cons_of_ne_nil hrunning
  obtain ⟨node, hn, -⟩ := Option.map_eq_some_iff.mp
    ((h.hooks.running t hk).mp (by rw [hat]; exact List.mem_cons_self))
  unfold RefState.hook
  cases hk with
  | free n => exact ⟨_, by simp only [hat]; exact Option.map_eq_some_iff.mpr ⟨node, hn, rfl⟩⟩
  | upref n =>
      have hget : s.nodes[n]? = some node := hn
      have hturn : RefInv { s.setNode n { node with life := .freeing t } with
          stack := Function.update s.stack t (.free n :: rest) } node.file.upref :=
        h.turn hat hn rfl rfl rfl rfl
      simp only [hat, hget, Option.bind_some]
      cases hupref : node.file.upref with
      | none => exact ⟨_, rfl⟩
      | some f =>
          rw [hupref] at hturn
          exact hturn.exists_ukFileRelease t

/-- What a lookup hands out is referenced by the handle its caller gets. -/
theorem RefInv.lookedUp (h : RefInv s none) (hn : s.nodes[n]? = some node)
    (hx : 0 < s.handles (.fuse n)) {r : LookupResult (FileRef F)}
    (hr : r.target = none ∨ r.target = some .self ∨
      (∃ f, node.file.upref = some f ∧ r.target = some (.upref f)) ∨
      ∃ ino, r.target = some (.child (fusefsFileAlloc _ ino))) : RefInv (s.lookedUp n r) none := by
  rcases hr with hr | hr | ⟨f, hupref, hr⟩ | ⟨ino, hr⟩ <;> simp only [RefState.lookedUp, hr]
  · exact h
  · exact h.acquire (h.balanced.count_pos_of_handle hx)
  · have hheld := h.held_of_handle hn hx
    exact h.acquire (h.count_pos_of_refers hn ⟨by rw [hheld]; trivial, hupref⟩)
  · exact h.addNode rfl

/-- Every step leaves every reference with a holder. -/
theorem RefInv.step [Platform] (h : RefInv s none) {a : RefAct T F} (hstep : s.step a = some s') :
    RefInv s' none := by
  cases a with
  | vopen allocOk =>
      obtain rfl := Option.some.inj hstep
      cases allocOk with
      | false => exact h
      | true => exact h.addNode rfl
  | graft n ref =>
      obtain ⟨node, hn, hrest⟩ := Option.bind_eq_some_iff.mp hstep
      split at hrest
      · rename_i hguard
        obtain ⟨hhandle, href, hroot⟩ := hguard
        exact h.graft hn (h.held_of_handle hn hhandle) hroot (h.balanced.count_pos_of_handle href)
          hrest
      · exact absurd hrest (by simp)
  | lookup n path len strndupOk answer allocOk =>
      obtain ⟨node, hn, hrest⟩ := Option.bind_eq_some_iff.mp hstep
      split at hrest
      · rename_i hhandle
        split at hrest
        · rename_i r henter
          obtain rfl := Option.some.inj hrest
          exact h.lookedUp hn hhandle (by
            rcases lookupEnter_target henter with hr | hr | hr
            · exact .inl hr
            · exact .inr (.inl hr)
            · exact .inr (.inr (.inl hr)))
        · obtain ⟨r, hfinish, rfl⟩ := Option.map_eq_some_iff.mp hrest
          exact h.lookedUp hn hhandle ((lookupFinish_target hfinish).imp_right fun hr =>
            .inr (.inr hr))
      · exact absurd hrest (by simp)
  | release t x => exact h.release hstep
  | hook t => exact h.hook hstep

theorem RefState.Start.inv (h : s.Start) : RefInv s none := by
  have hlife : ∀ n, s.lifeOf n = none := fun n => by simp [RefState.lifeOf, h.nodes]
  refine ⟨fun x => ?_, fun n => ?_, ⟨fun t hk => ?_, fun t => ?_⟩, ?_⟩
  · simp [h.count, RefState.grafted, h.nodes]
  · simp [hlife, h.fresh]
  · simp [h.stack, hlife]
  · simp [h.stack]
  · simp [h.nodes]

/-- In every reachable state every reference has its holder. -/
theorem refInv_reachable [Platform] (hs : (refSystem T F).Reachable s) : RefInv s none := by
  induction hs with
  | start hinit => exact hinit.inv
  | step _ hstep ih => exact ih.step hstep

end Calls

end UkfsFuse
