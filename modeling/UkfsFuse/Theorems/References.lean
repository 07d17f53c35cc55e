import Mathlib.Data.Set.Finite.Basic
import UkfsFuse.Logic.References

/-!
# References balance

Handles are obtained along different routes (a mount, a lookup of a name, of a
file itself, of what it is grafted on) and are all given back the same way,
while one more reference is held by every node that is grafted. In every run
the counts agree with both, no node is freed with a reference to it or twice,
and a release returns; so when no handle is left, what is left is a cycle of
grafts or nothing.
-/

namespace UkfsFuse

open UkfsFuse.Core

section Definitions

variable {T F : Type}

namespace RefState

/-- The `upref` of the live node `j` is node `i`. -/
def Upref (s : RefState T F) (j i : Nat) : Prop :=
  ∃ node, s.nodes[j]? = some node ∧ node.Refers (.fuse i)

/-- Every release has returned. -/
def Idle (s : RefState T F) : Prop := ∀ t, s.stack t = []

end RefState

/-- References to files, and the nodes they keep. -/
structure ReferencesBalance [DecidableEq T] [DecidableEq F] [Platform] (s : RefState T F) :
    Prop where
  /-- a count is the number of handles on the file and of live nodes grafted on it -/
  counted : ∀ x, s.count x = s.handles x + s.grafted x
  /-- outside releases, a node is live until it is freed -/
  live : s.Idle → ∀ node ∈ s.nodes, node.life.Live ↔ node.frees = 0
  /-- only then a release begins -/
  released : ∀ n node, s.nodes[n]? = some node → node.life ≠ .held → s.count (.fuse n) = 0
  freed : ∀ n node, s.nodes[n]? = some node → node.frees ≠ 0 → s.count (.fuse n) = 0
  once : ∀ node ∈ s.nodes, node.frees ≤ 1
  child : ∀ node ∈ s.nodes, node.root = false → node.file.upref = none
  /-- a handle can be released, and the release returns, whatever it leads to -/
  returns : ∀ t x, 0 < s.handles x → ∃ k s',
    TSys.exec RefState.step s (.release t x :: List.replicate k (.hook t)) = some s' ∧
      s'.stack t = []
  /-- the steps of the releases under way are bounded, in whatever order they are taken -/
  bounded : ∃ bound, ∀ (ts : List T) s', TSys.exec RefState.step s (ts.map .hook) = some s' →
    ts.length ≤ bound
  /-- and end with all of them returned -/
  idles : ∃ (ts : List T) (s' : RefState T F),
    TSys.exec RefState.step s (ts.map .hook) = some s' ∧ s'.Idle ∧ s'.handles = s.handles
  /-- without handles on nodes and cycles of grafts, every node has been freed
  and there are only handles on the other files -/
  gone : s.Idle → (∀ n, s.handles (.fuse n) = 0) → (∀ i, ¬ Relation.TransGen s.Upref i i) →
    (∀ node ∈ s.nodes, node.frees = 1) ∧ ∀ x, s.count x = s.handles x

end Definitions

section Balance

variable {T F : Type} [DecidableEq T] [DecidableEq F] {s s' : RefState T F} {t : T} {n : Nat}
  {node : CountedNode T F}

/-- Outside releases a node is held or freed. -/
theorem RefInv.held_or_freed (h : RefInv s none) (hidle : s.Idle) (hn : s.nodes[n]? = some node) :
    node.life = .held ∨ node.life = .freed := by
  have hnot : ∀ t hk, s.lifeOf hk.node ≠ some (Hook.life t hk) := fun t hk hlife => by
    have hmem := (h.hooks.running t hk).mpr hlife
    rw [hidle t] at hmem
    exact absurd hmem (by simp)
  have hlife := RefState.lifeOf_eq hn
  cases hcase : node.life with
  | held => exact .inl rfl
  | freed => exact .inr rfl
  | releasing t => exact absurd (hlife.trans (congrArg some hcase)) (hnot t (.upref n))
  | freeing t => exact absurd (hlife.trans (congrArg some hcase)) (hnot t (.free n))

theorem RefInv.count_eq_zero (h : RefInv s none) (hn : s.nodes[n]? = some node)
    (hlife : node.life ≠ .held) : s.count (.fuse n) = 0 := by
  by_contra hne
  have hheld := (h.held n).mpr (Nat.pos_of_ne_zero hne)
  exact hlife (Option.some.inj ((RefState.lifeOf_eq hn).symm.trans hheld))

/-- A node that is held without a handle has another one grafted on it. -/
theorem RefInv.exists_upref (h : RefInv s none) (hidle : s.Idle) (hnone : s.handles (.fuse n) = 0)
    (hheld : s.lifeOf n = some .held) : ∃ j, s.lifeOf j = some .held ∧ s.Upref j n := by
  have hcount := (h.held n).mp hheld
  rw [h.balanced.eq, hnone, Nat.zero_add] at hcount
  obtain ⟨node, hmem, href⟩ := List.countP_pos_iff.mp hcount
  obtain ⟨j, hj⟩ := List.mem_iff_getElem?.mp hmem
  have hrefers := of_decide_eq_true href
  refine ⟨j, ?_, node, hj, hrefers⟩
  rcases h.held_or_freed hidle hj with hlife | hlife
  · rw [RefState.lifeOf_eq hj, hlife]
  · rw [CountedNode.Refers, hlife] at hrefers
    exact hrefers.1.elim

/-- Without handles and cycles nothing keeps a node. -/
theorem RefInv.not_held (h : RefInv s none) (hidle : s.Idle) (hnone : ∀ n, s.handles (.fuse n) = 0)
    (hacyc : ∀ i, ¬ Relation.TransGen s.Upref i i) (n : Nat) : s.lifeOf n ≠ some .held := by
  refine none_of_acyclic s.Upref ?_ (fun i hcycle => ?_) (fun i hi =>
    h.exists_upref hidle (hnone i) hi) n
  · refine (Set.finite_lt_nat s.nodes.length).subset fun i hi => ?_
    obtain ⟨node, hn, -⟩ := Option.map_eq_some_iff.mp hi
    exact (List.getElem?_eq_some_iff.mp hn).1
  · exact hacyc i (Relation.TransGen.mono (fun _ _ => And.right) i i hcycle)

end Balance

/-! ## Releases return -/

section Returns

variable {T F : Type}

/-- The steps before the node is freed, if its last reference goes. -/
def Life.work : Life T → Nat
  | .held => 3
  | .releasing _ => 2
  | .freeing _ => 1
  | .freed => 0

/-- The steps before every node is freed. -/
def RefState.work (s : RefState T F) : Nat := (s.nodes.map fun node => node.life.work).sum

theorem sum_set {l : List Nat} {i a b : Nat} (h : l[i]? = some a) :
    (l.set i b).sum + a = l.sum + b := by
  induction l generalizing i with
  | nil => exact absurd h (by simp)
  | cons c l ih =>
      cases i with
      | zero =>
          obtain rfl : c = a := by simpa using h
          simp only [List.set_cons_zero, List.sum_cons]
          omega
      | succ i =>
          have := ih (i := i) (by simpa using h)
          simp only [List.set_cons_succ, List.sum_cons]
          omega

variable {s s' : RefState T F} {t : T} {n : Nat} {node node' : CountedNode T F} {x : FileRef F}

theorem RefState.work_set (hn : s.nodes[n]? = some node) (hnodes : s'.nodes = s.nodes.set n node') :
    s'.work + node.life.work = s.work + node'.life.work := by
  rw [work, hnodes, List.map_set, work]
  exact sum_set (by rw [List.getElem?_map, hn, Option.map_some])

variable [DecidableEq T] [DecidableEq F]

/-- To give back a reference makes no work. -/
theorem RefInv.giveBack_work (h : RefInv s (some x)) (hrel : s.ukFileRelease t x = some s') :
    s'.work ≤ s.work := by
  obtain ⟨-, -, ⟨hnodes, -⟩ | ⟨n, node, rfl, -, hn, hnodes, -⟩⟩ := RefState.ukFileRelease_cases hrel
  · rw [RefState.work, hnodes, RefState.work]
  · have hheld := (h.held n).mpr h.balanced.count_pos_of_owed
    have hnode : node.life = .held := Option.some.inj ((RefState.lifeOf_eq hn).symm.trans hheld)
    have hwork := RefState.work_set hn hnodes
    rw [hnode] at hwork
    simp only [Life.work] at hwork
    omega

/-- Every step of a release is one step less to do. -/
theorem RefInv.hook_work (h : RefInv s none) (hhook : s.hook t = some s') : s'.work < s.work := by
  rcases RefState.hook_cases hhook with
    ⟨n, rest, node, s₁, hat, hn, hnodes, hcount, hhandles, hstack, hrest⟩ |
    ⟨n, rest, node, hat, hn, hnodes, -⟩
  · have hturn := h.turn hat hn hnodes hcount hhandles hstack
    have hwork := RefState.work_set hn hnodes
    rw [h.life_of_top hat hn] at hwork
    simp only [Hook.life, Life.work] at hwork
    rcases hrest with ⟨-, rfl⟩ | ⟨f, hupref, hrel⟩
    · omega
    · rw [hupref] at hturn
      have hle := hturn.giveBack_work hrel
      omega
  · have hwork := RefState.work_set hn hnodes
    rw [h.life_of_top hat hn] at hwork
    simp only [Hook.life, Life.work] at hwork
    omega

/-- The steps of a release change no handle. -/
theorem RefState.hook_handles (hhook : s.hook t = some s') : s'.handles = s.handles := by
  rcases RefState.hook_cases hhook with
    ⟨n, rest, node, s₁, -, -, -, -, hhandles, -, ⟨-, rfl⟩ | ⟨f, -, hrel⟩⟩ |
    ⟨n, rest, node, -, -, -, -, hhandles, -⟩
  · exact hhandles
  · exact (RefState.ukFileRelease_cases hrel).2.1.trans hhandles
  · exact hhandles

/-- A thread that has nothing else to do ends the releases it is in. -/
theorem RefInv.hooks_return [Platform] (h : RefInv s none) (t : T) :
    ∃ k s', TSys.exec RefState.step s (List.replicate k (.hook t)) = some s' ∧ s'.stack t = [] := by
  induction hwork : s.work using Nat.strong_induction_on generalizing s with
  | _ w ih =>
      by_cases hdone : s.stack t = []
      · exact ⟨0, s, rfl, hdone⟩
      · obtain ⟨s₁, hhook⟩ := h.exists_hook hdone
        have hless := hwork ▸ h.hook_work hhook
        obtain ⟨k, s', hexec, hreturned⟩ := ih s₁.work hless (h.hook hhook) rfl
        refine ⟨k + 1, s', ?_, hreturned⟩
        rw [List.replicate_succ, TSys.exec, show s.step (.hook t) = some s₁ from hhook]
        exact hexec

theorem RefInv.release_returns [Platform] (h : RefInv s none) (t : T) (hx : 0 < s.handles x) :
    ∃ k s', TSys.exec RefState.step s (.release t x :: List.replicate k (.hook t)) = some s' ∧
      s'.stack t = [] := by
  obtain ⟨s₁, hrel⟩ := (h.drop hx).exists_ukFileRelease t
  have hrelease : s.step (.release t x) = some s₁ := (if_neg hx.ne').trans hrel
  obtain ⟨k, s', hexec, hreturned⟩ := (h.step hrelease).hooks_return t
  refine ⟨k, s', ?_, hreturned⟩
  rw [TSys.exec, hrelease]
  exact hexec

/-- The steps of releases come to an end, in whatever order they are taken. -/
theorem RefInv.hooks_bounded [Platform] (h : RefInv s none) {ts : List T}
    (hexec : TSys.exec RefState.step s (ts.map .hook) = some s') : ts.length ≤ s.work := by
  induction ts generalizing s with
  | nil => exact Nat.zero_le _
  | cons t ts ih =>
      obtain ⟨s₁, hhook, hrest⟩ := Option.bind_eq_some_iff.mp hexec
      have hless := h.hook_work hhook
      have hle := ih (h.hook hhook) hrest
      rw [List.length_cons]
      omega

/-- All releases return, and the handles are left alone. -/
theorem RefInv.idle_reached [Platform] (h : RefInv s none) :
    ∃ (ts : List T) (s' : RefState T F),
      TSys.exec RefState.step s (ts.map .hook) = some s' ∧ s'.Idle ∧ s'.handles = s.handles := by
  induction hwork : s.work using Nat.strong_induction_on generalizing s with
  | _ w ih =>
      by_cases hidle : s.Idle
      · exact ⟨[], s, rfl, hidle, rfl⟩
      · obtain ⟨t, hrunning⟩ := not_forall.mp hidle
        obtain ⟨s₁, hhook⟩ := h.exists_hook hrunning
        have hless := hwork ▸ h.hook_work hhook
        obtain ⟨ts, s', hexec, hdone, hhandles⟩ := ih s₁.work hless (h.hook hhook) rfl
        refine ⟨t :: ts, s', ?_, hdone, hhandles.trans (RefState.hook_handles hhook)⟩
        rw [List.map_cons, TSys.exec, show s.step (.hook t) = some s₁ from hhook]
        exact hexec

end Returns

/-! ## The balance -/

section Main

variable {T F : Type} [DecidableEq T] [DecidableEq F] [Platform] {s : RefState T F}

theorem RefInv.referencesBalance (h : RefInv s none) : ReferencesBalance s where
  counted := h.balanced.eq
  live hidle node hmem := by
    obtain ⟨n, hn⟩ := List.mem_iff_getElem?.mp hmem
    rw [(h.nodes node hmem).frees]
    rcases h.held_or_freed hidle hn with hlife | hlife <;> simp [hlife, Life.Live]
  released n node hn hlife := h.count_eq_zero hn hlife
  freed n node hn hfrees := by
    refine h.count_eq_zero hn fun hlife => hfrees ?_
    rw [(h.nodes node (List.mem_of_getElem? hn)).frees, hlife]
    rfl
  once node hmem := by
    rw [(h.nodes node hmem).frees]
    split <;> omega
  child node hmem := (h.nodes node hmem).upref
  returns t _ hx := h.release_returns t hx
  bounded := ⟨s.work, fun _ _ hexec => h.hooks_bounded hexec⟩
  idles := h.idle_reached
  gone hidle hnone hacyc := by
    have hfreed : ∀ node ∈ s.nodes, node.life = .freed := fun node hmem => by
      obtain ⟨n, hn⟩ := List.mem_iff_getElem?.mp hmem
      refine (h.held_or_freed hidle hn).resolve_left fun hlife => ?_
      exact h.not_held hidle hnone hacyc n (by rw [RefState.lifeOf_eq hn, hlife])
    refine ⟨fun node hmem => by rw [(h.nodes node hmem).frees, if_pos (hfreed node hmem)],
      fun x => ?_⟩
    have hlinks : s.grafted x = 0 := List.countP_eq_zero.mpr fun node hmem => by
      simp [CountedNode.Refers, hfreed node hmem, Life.Live]
    rw [h.balanced.eq, hlinks, Nat.add_zero]

end Main

/-- References balance in every run of mounts, grafts, lookups and releases. -/
theorem references_balance (T F : Type) [DecidableEq T] [DecidableEq F] [Platform] :
    (refSystem T F).Invariant ReferencesBalance :=
  fun _ hs => (refInv_reachable hs).referencesBalance

/-- A mount grafted on a file, which `..` then finds: all handles released, the
node is freed and the file has one reference as before. -/
example :
    letI := sampleHeaders
    (TSys.exec RefState.step
      (⟨[], fun x => if x = .other () then 1 else 0, fun x => if x = .other () then 1 else 0,
        fun _ => []⟩ : RefState Unit Unit)
      [.vopen true, .graft 0 (.other ()), .lookup 0 [0x2e, 0x2e] 2 true ⟨0, none, 0⟩ true,
        .release () (.other ()), .release () (.fuse 0), .hook (), .hook ()]).map
      (fun s => (s.nodes.map CountedNode.frees, s.count (.other ()), s.count (.fuse 0))) =
      some ([1], 1, 0) := by decide

end UkfsFuse
