import UkfsFuse.Core.Ownership
import UkfsFuse.Core.Window
import UkfsFuse.Source.Interrupt

/-!
# Who has a request

A request is allocated with one reference, which is handed on: from the thread
that received its message to the backend, or to `se->interrupts`, and back to a
thread that frees it. Threads in `find_interrupted` have references of their
own. `ReqInv` says where the first reference is (`owner`), that `ref_cnt` counts
the references, and which requests the two lists link: those of `xs` and `ys`.
-/

namespace UkfsFuse

open UkfsFuse.Core

/-! ## The lists -/

section Lists

variable {R : Type} [DecidableEq R] {L : Links (ReqNode R)} {xs ys l l' : List R} {P : R → Prop}
  {r : R}

/-- `se->list` links `xs`, `se->interrupts` links `ys`, and the requests of `P`
are linked to themselves. -/
def ReqLists (L : Links (ReqNode R)) (xs ys : List R) (P : R → Prop) : Prop :=
  ∃ lists, L.Rings lists ∧ lists .list = some (xs.map .req) ∧
    lists .interrupts = some (ys.map .req) ∧
    ∀ r, (P r → lists (.req r) = some []) ∧ (¬ P r → lists (.req r) = none)

omit [DecidableEq R] in
theorem mem_nodes {head : ReqNode R} (hhead : ∀ r, head ≠ .req r) {xs : List R} :
    .req r ∈ head :: xs.map .req ↔ r ∈ xs := by
  simp [Ne.symm (hhead r)]

namespace ReqLists

omit [DecidableEq R] in
theorem flight (h : ReqLists L xs ys P) : L.Ring .list (xs.map .req) := by
  obtain ⟨lists, hrings, hlist, -⟩ := h
  exact hrings.ring _ _ hlist

omit [DecidableEq R] in
theorem pending (h : ReqLists L xs ys P) : L.Ring .interrupts (ys.map .req) := by
  obtain ⟨lists, hrings, -, hintr, -⟩ := h
  exact hrings.ring _ _ hintr

omit [DecidableEq R] in
theorem own (h : ReqLists L xs ys P) (hr : P r) : L.Ring (.req r) [] := by
  obtain ⟨lists, hrings, -, -, hown⟩ := h
  exact hrings.ring _ _ ((hown r).1 hr)

omit [DecidableEq R] in
/-- No request is in both lists, and one linked to itself is in none. -/
theorem disjoint (h : ReqLists L xs ys P) :
    (r ∈ xs → r ∉ ys) ∧ (P r → r ∉ xs ∧ r ∉ ys) := by
  obtain ⟨lists, hrings, hlist, hintr, hown⟩ := h
  have hx : r ∈ xs → .req r ∈ ReqNode.list :: xs.map .req := (mem_nodes (by simp)).mpr
  have hy : r ∈ ys → .req r ∈ ReqNode.interrupts :: ys.map .req := (mem_nodes (by simp)).mpr
  refine ⟨fun hxs hys => ?_, fun hr => ⟨fun hxs => ?_, fun hys => ?_⟩⟩
  · exact absurd (hrings.disjoint _ _ _ _ _ hlist hintr (hx hxs) (hy hys)) (by simp)
  · exact absurd (hrings.disjoint _ _ _ _ _ hlist ((hown r).1 hr) (hx hxs) (by simp)) (by simp)
  · exact absurd (hrings.disjoint _ _ _ _ _ hintr ((hown r).1 hr) (hy hys) (by simp)) (by simp)

omit [DecidableEq R] in
/-- A request that is in no list is in none of the rings. -/
theorem fresh_of {lists : ReqNode R → Option (List (ReqNode R))}
    (hlist : lists .list = some (xs.map .req)) (hintr : lists .interrupts = some (ys.map .req))
    (hown : ∀ r, (P r → lists (.req r) = some []) ∧ (¬ P r → lists (.req r) = none))
    (hxs : r ∉ xs) (hys : r ∉ ys) (hr : ¬ P r) :
    ∀ h zs, lists h = some zs → .req r ∉ h :: zs := by
  intro h zs hz
  cases h with
  | list =>
      obtain rfl := Option.some.inj (hlist.symm.trans hz)
      exact fun hin => hxs ((mem_nodes (by simp)).mp hin)
  | interrupts =>
      obtain rfl := Option.some.inj (hintr.symm.trans hz)
      exact fun hin => hys ((mem_nodes (by simp)).mp hin)
  | req x =>
      by_cases hx : P x
      · obtain rfl := Option.some.inj (((hown x).1 hx).symm.trans hz)
        intro hin
        obtain rfl : r = x := by simpa using hin
        exact hr hx
      · rw [(hown x).2 hx] at hz
        exact absurd hz (by simp)

theorem delFlight (h : ReqLists L (l ++ r :: l') ys P) :
    ReqLists (L.del (.req r)) (l ++ l') ys P := by
  obtain ⟨lists, hrings, hlist, hintr, hown⟩ := h
  rw [List.map_append, List.map_cons] at hlist
  exact ⟨_, hrings.del hlist, by simp, by simpa using hintr, by simpa using hown⟩

theorem delPending (h : ReqLists L xs (l ++ r :: l') P) :
    ReqLists (L.del (.req r)) xs (l ++ l') P := by
  obtain ⟨lists, hrings, hlist, hintr, hown⟩ := h
  rw [List.map_append, List.map_cons] at hintr
  exact ⟨_, hrings.del hintr, by simpa using hlist, by simp, by simpa using hown⟩

/-- `list_del_req` on a request that is linked to itself -/
theorem delOwn (h : ReqLists L xs ys P) (hr : P r) : L.del (.req r) = L :=
  (h.own hr).del_self

theorem init (h : ReqLists L xs ys P) (hxs : r ∉ xs) (hys : r ∉ ys) (hr : ¬ P r) :
    ReqLists (L.init (.req r)) xs ys fun x => P x ∨ x = r := by
  obtain ⟨lists, hrings, hlist, hintr, hown⟩ := h
  refine ⟨_, hrings.init (fresh_of hlist hintr hown hxs hys hr), by simpa using hlist,
    by simpa using hintr, fun x => ?_⟩
  by_cases hx : x = r
  · subst hx
    simp
  · simpa [hx] using hown x

omit [DecidableEq R] in
/-- A request that is linked to itself need not be kept so. -/
theorem mono (h : ReqLists L xs ys P) {Q : R → Prop} (hQ : ∀ r, Q r → P r) :
    ReqLists L xs ys Q := by
  classical
  obtain ⟨lists, hrings, hlist, hintr, hown⟩ := h
  let lists' : ReqNode R → Option (List (ReqNode R)) := fun head =>
    if ∀ x, head = .req x → Q x then lists head else none
  have hlists' : ∀ x, lists' (.req x) = if Q x then lists (.req x) else none := fun x => by
    simp [lists']
  refine ⟨lists', hrings.mono fun head zs hz => (Option.ite_none_right_eq_some.mp hz).2,
    by simpa [lists'] using hlist, by simpa [lists'] using hintr,
    fun x => ⟨fun hx => ?_, fun hx => ?_⟩⟩
  · rw [hlists', if_pos hx]
    exact (hown x).1 (hQ x hx)
  · rw [hlists', if_neg hx]

theorem addFlight (h : ReqLists L xs ys P) (hr : P r) :
    ReqLists (L.add (.req r) .list) (xs ++ [r]) ys fun x => P x ∧ x ≠ r := by
  obtain ⟨hxs, hys⟩ := h.disjoint.2 hr
  have h' : ReqLists L xs ys fun x => P x ∧ x ≠ r := h.mono fun x hx => hx.1
  obtain ⟨lists, hrings, hlist, hintr, hown⟩ := h'
  have hfresh := fresh_of hlist hintr hown hxs hys (by simp)
  exact ⟨_, hrings.add hlist hfresh, by simp, by simpa using hintr, by simpa using hown⟩

theorem addPending (h : ReqLists L xs ys P) (hr : P r) :
    ReqLists (L.add (.req r) .interrupts) xs (ys ++ [r]) fun x => P x ∧ x ≠ r := by
  obtain ⟨hxs, hys⟩ := h.disjoint.2 hr
  have h' : ReqLists L xs ys fun x => P x ∧ x ≠ r := h.mono fun x hx => hx.1
  obtain ⟨lists, hrings, hlist, hintr, hown⟩ := h'
  have hfresh := fresh_of hlist hintr hown hxs hys (by simp)
  exact ⟨_, hrings.add hintr hfresh, by simpa using hlist, by simp, by simpa using hown⟩

end ReqLists

end Lists

/-! ## The invariant -/

/-- What a thread has a request for: to work on it, to dispatch it next, or to
destroy it. -/
inductive ReqPart
  | own
  | next
  | doomed
deriving DecidableEq, Repr

/-- Where the first reference of a request is. -/
inductive ReqPlace (T : Type)
  | thread (part : ReqPart) (t : T)
  | backend
  /-- in `se->interrupts` -/
  | pending
deriving DecidableEq, Repr

/-- The place counts as a reference: `destroy_req` is called without one. -/
def Counted {T : Type} : Option (ReqPlace T) → Prop
  | none | some (.thread .doomed _) => False
  | some _ => True

instance {T : Type} (o : Option (ReqPlace T)) : Decidable (Counted o) := by
  unfold Counted
  split <;> infer_instance

section Places

variable {T : Type} (t : T)

@[simp] theorem counted_none : Counted (none : Option (ReqPlace T)) ↔ False := .rfl
@[simp] theorem counted_own : Counted (some (.thread .own t)) ↔ True := .rfl
@[simp] theorem counted_next : Counted (some (.thread .next t)) ↔ True := .rfl
@[simp] theorem counted_doomed : Counted (some (.thread .doomed t)) ↔ False := .rfl
@[simp] theorem counted_backend : Counted (some (.backend : ReqPlace T)) ↔ True := .rfl
@[simp] theorem counted_pending : Counted (some (.pending : ReqPlace T)) ↔ True := .rfl

end Places

namespace ReqPc

variable {R Fn : Type}

def part : ReqPart → ReqPc R Fn → Option R
  | .own, check r | .own, free r _ | .own, interrupt r | .own, lockCurr r _ |
    .own, mark r _ => some r
  | .own, callCurr r _ _ | .own, unlockCurr r _ | .own, drop r _ => some r
  | .next, free _ next | .next, destroy _ next => next
  | .next, dispatch r => some r
  | .doomed, destroy r _ => some r
  | _, _ => none

/-- The request `find_interrupted` has found. -/
def curr : ReqPc R Fn → Option R
  | lockCurr _ r | mark _ r | callCurr _ r _ | unlockCurr _ r | drop _ r => some r
  | _ => none

/-- The interrupt the thread works on. -/
def asking : ReqPc R Fn → Option R
  | interrupt r | lockCurr r _ | mark r _ | callCurr r _ _ | unlockCurr r _ | drop r _ => some r
  | _ => none

/-- The request the backend has called a function on. -/
def used : ReqPc R Fn → Option R
  | lockReq r _ | setFunc r _ | test r _ | callReq r _ | unlockReq r | query r => some r
  | _ => none

/-- The request whose lock the thread has. -/
def locked : ReqPc R Fn → Option R
  | mark _ r | callCurr _ r _ | unlockCurr _ r => some r
  | setFunc r _ | test r _ | callReq r _ | unlockReq r => some r
  | _ => none

/-- The request the thread has interrupted. -/
def marked : ReqPc R Fn → Option R
  | callCurr _ r _ | unlockCurr _ r | drop _ r => some r
  | _ => none

/-- The request whose interrupt function the thread is in. -/
def calling : ReqPc R Fn → Option R
  | callCurr _ r _ | callReq r _ => some r
  | _ => none

theorem asking_own {v : ReqPc R Fn} {r : R} (h : v.asking = some r) : v.part .own = some r := by
  cases v <;> simp_all [asking, part]

theorem marked_curr {v : ReqPc R Fn} {r : R} (h : v.marked = some r) : v.curr = some r := by
  cases v <;> simp_all [marked, curr]

theorem locked_cases {v : ReqPc R Fn} {r : R} (h : v.locked = some r) :
    v.curr = some r ∨ v.used = some r := by
  cases v <;> simp_all [locked, curr, used]

end ReqPc

section Invariant

variable {T R Fn : Type}

/-- The first reference of `r` is at `p`; `ys` are the pending interrupts. -/
def ReqState.InPlace (s : ReqState T R Fn) (ys : List R) : ReqPlace T → R → Prop
  | .thread part t, r => (s.pc t).part part = some r
  | .backend, r => s.held r = true
  | .pending, r => r ∈ ys

/-- `lock` is with the thread that has locked it. -/
def LockOk (live : List R) (req : R → LlReq T Fn) (pc : T → ReqPc R Fn) : Prop :=
  ∀ r ∈ live, ∀ t, (req r).lock = some t ↔ (pc t).locked = some r

/-- The request was interrupted and has a function: the function was called, or
will be at the `if` that the thread which registered it is at. -/
def ReqState.Told (s : ReqState T R Fn) (r : R) : Prop :=
  r ∈ s.live → (s.req r).interrupted = true → ∀ f, (s.req r).u = .ni (some f) →
    f ∈ s.called r ∨ ∃ t, s.pc t = .test r (some f)

/-- What holds of a request `r`; its first reference is at `o`. -/
structure ReqOk (noInterrupt : Bool) (s : ReqState T R Fn) (xs ys : List R)
    (o : Option (ReqPlace T)) (r : R) : Prop where
  /-- requests in flight are with the backend, or on the way to it or from it -/
  flight : r ∈ xs → noInterrupt = false ∧ (o = some .backend ∨
    (∃ t, o = some (.thread .next t)) ∨ ∃ t next, s.pc t = .free r next)
  live : r ∈ s.live ↔ o ≠ none ∨ ∃ t, (s.pc t).curr = some r
  count : ∃ n, Counts s.pc (fun v => v.curr = some r) n ∧
    (r ∈ s.live → (s.req r).refCnt = n + if Counted o then 1 else 0)
  doomed : ∀ t, o = some (.thread .doomed t) → (s.req r).refCnt = 0
  lock : r ∈ s.live → ∀ t, (s.req r).lock = some t ↔ (s.pc t).locked = some r
  uses : ∀ t, (s.pc t).used = some r → o = some .backend
  ch : r ∈ s.live → ¬ Counted o → (s.req r).ch = false
  asks : (r ∈ ys ∨ ∃ t, (s.pc t).asking = some r) → ∃ unique, (s.req r).u = .i unique
  normal : (r ∈ xs ∨ ∃ t, (s.pc t).curr = some r) → ∃ func, (s.req r).u = .ni func
  fresh : ∀ t, s.pc t = .check r → noInterrupt = false ∧ (s.req r).u = .ni none
  marked : ∀ t, (s.pc t).marked = some r → (s.req r).interrupted = true
  told : s.Told r

/-- No two pending interrupts are for the same request, and none is for one that
is in flight. -/
structure Apart (req : R → LlReq T Fn) (xs ys : List R) : Prop where
  targets : (ys.map fun q => (req q).u).Nodup
  flight : ∀ q ∈ ys, ∀ r ∈ xs, (req q).u ≠ .i (req r).unique

/-- What holds of the requests of a session. -/
structure ReqInv (noInterrupt : Bool) (s : ReqState T R Fn) (xs ys : List R)
    (owner : R → Option (ReqPlace T)) : Prop where
  lists : ReqLists s.links xs ys fun r => Counted (owner r) ∧ r ∉ xs ∧ r ∉ ys
  places : Owned (s.InPlace ys) owner
  nodup : s.live.Nodup
  ok : ∀ r, ReqOk noInterrupt s xs ys (owner r) r
  apart : Apart s.req xs ys

end Invariant

/-! ## Reading the invariant -/

section Reading

variable {T R Fn : Type} {noInterrupt : Bool} {s : ReqState T R Fn} {xs ys : List R}
  {owner : R → Option (ReqPlace T)} {t : T} {r : R}

theorem counted_ne_none {o : Option (ReqPlace T)} (ho : Counted o) : o ≠ none := by
  rintro rfl
  exact ho

/-- The last node of a list, or its head, is there. -/
theorem valid_prev {links : Links (ReqNode R)} (head : ReqNode R) {zs : List R}
    (hhead : s.Valid head) (hring : links.Ring head (zs.map .req))
    (hzs : ∀ r ∈ zs, r ∈ s.live) : s.Valid (links.prev head) := by
  rcases List.mem_cons.mp hring.prev_head_mem with heq | hin
  · rw [heq]
    exact hhead
  · obtain ⟨r, hr, heq⟩ := List.mem_map.mp hin
    rw [← heq]
    exact hzs r hr

namespace ReqInv

theorem atThread (h : ReqInv noInterrupt s xs ys owner) {p : ReqPart}
    (hpart : (s.pc t).part p = some r) : owner r = some (.thread p t) :=
  (h.places (.thread p t) r).mp hpart

theorem owned_live (h : ReqInv noInterrupt s xs ys owner) (hr : owner r ≠ none) : r ∈ s.live :=
  (h.ok r).live.mpr (.inl hr)

theorem curr_live (h : ReqInv noInterrupt s xs ys owner) (hr : (s.pc t).curr = some r) :
    r ∈ s.live := (h.ok r).live.mpr (.inr ⟨t, hr⟩)

theorem used_live (h : ReqInv noInterrupt s xs ys owner) (hr : (s.pc t).used = some r) :
    owner r = some .backend ∧ r ∈ s.live := by
  have hown := (h.ok r).uses t hr
  exact ⟨hown, h.owned_live (by rw [hown]; simp)⟩

theorem flight_counted (h : ReqInv noInterrupt s xs ys owner) (hr : r ∈ xs) :
    Counted (owner r) := by
  rcases ((h.ok r).flight hr).2 with hown | ⟨t, hown⟩ | ⟨t, next, hpc⟩
  · rw [hown]; trivial
  · rw [hown]; trivial
  · rw [h.atThread (t := t) (p := .own) (by rw [hpc]; rfl)]; trivial

theorem pending_owner (h : ReqInv noInterrupt s xs ys owner) (hr : r ∈ ys) :
    owner r = some .pending := (h.places .pending r).mp hr

theorem not_pending (h : ReqInv noInterrupt s xs ys owner) (hown : owner r ≠ some .pending) :
    r ∉ ys := fun hin => hown (h.pending_owner hin)

theorem not_held (h : ReqInv noInterrupt s xs ys owner) (hown : owner r ≠ some .backend) :
    s.held r = false :=
  Bool.eq_false_iff.mpr fun hheld => hown ((h.places .backend r).mp hheld)

theorem flight_live (h : ReqInv noInterrupt s xs ys owner) (hr : r ∈ xs) : r ∈ s.live :=
  h.owned_live (counted_ne_none (h.flight_counted hr))

theorem pending_live (h : ReqInv noInterrupt s xs ys owner) (hr : r ∈ ys) : r ∈ s.live :=
  h.owned_live (by rw [h.pending_owner hr]; simp)

theorem lock (h : ReqInv noInterrupt s xs ys owner) : LockOk s.live s.req s.pc :=
  fun r hr t => (h.ok r).lock hr t

/-- A request that nobody has found and the backend does not have is not locked. -/
theorem unlocked (h : ReqInv noInterrupt s xs ys owner) (hr : r ∈ s.live)
    (hcurr : ∀ t, (s.pc t).curr ≠ some r) (hown : owner r ≠ some .backend) :
    (s.req r).lock = none := by
  refine Option.eq_none_iff_forall_ne_some.mpr fun t ht => ?_
  rcases ReqPc.locked_cases (((h.ok r).lock hr t).mp ht) with hc | hu
  · exact hcurr t hc
  · exact hown ((h.ok r).uses t hu)

/-- Only normal requests are found, and an interrupt is none. -/
theorem not_found (h : ReqInv noInterrupt s xs ys owner) {unique : UInt64}
    (hu : (s.req r).u = .i unique) (t : T) : (s.pc t).curr ≠ some r := by
  intro hc
  obtain ⟨func, hfunc⟩ := (h.ok r).normal (.inr ⟨t, hc⟩)
  rw [hu] at hfunc
  exact absurd hfunc (by simp)

variable [DecidableEq R]

/-- `list_del_req` writes to memory that is there. -/
theorem neighbours_valid (h : ReqInv noInterrupt s xs ys owner) (hr : Counted (owner r)) :
    s.Valid (s.links.prev (.req r)) ∧ s.Valid (s.links.next (.req r)) := by
  have hlive := h.owned_live (counted_ne_none hr)
  have hnode : ∀ head : ReqNode R, (∀ x, head ≠ .req x) → ∀ zs : List R,
      (∀ x ∈ zs, x ∈ s.live) →
      ∀ a ∈ head :: zs.map .req, s.Valid a := by
    intro head hhead zs hzs a ha
    rcases List.mem_cons.mp ha with rfl | ha
    · cases a with
      | req x => exact absurd rfl (hhead x)
      | _ => trivial
    · obtain ⟨x, hx, rfl⟩ := List.mem_map.mp ha
      exact hzs x hx
  by_cases hxs : r ∈ xs
  · obtain ⟨l, l', rfl⟩ := List.append_of_mem hxs
    have hring := h.lists.flight
    rw [List.map_append, List.map_cons] at hring
    obtain ⟨hprev, hnext⟩ := hring.neighbours
    rw [List.cons_append, ← List.map_cons, ← List.map_append] at hprev hnext
    have hval := hnode .list (by simp) _ fun x hx => h.flight_live hx
    exact ⟨hval _ hprev, hval _ hnext⟩
  · by_cases hys : r ∈ ys
    · obtain ⟨l, l', rfl⟩ := List.append_of_mem hys
      have hring := h.lists.pending
      rw [List.map_append, List.map_cons] at hring
      obtain ⟨hprev, hnext⟩ := hring.neighbours
      rw [List.cons_append, ← List.map_cons, ← List.map_append] at hprev hnext
      have hval := hnode .interrupts (by simp) _ fun x hx => h.pending_live hx
      exact ⟨hval _ hprev, hval _ hnext⟩
    · obtain ⟨hnext, hprev⟩ := (h.lists.own ⟨hr, hxs, hys⟩).of_nil
      rw [hnext, hprev]
      exact ⟨hlive, hlive⟩

omit [DecidableEq R] in
/-- The last of the pending interrupts, or the head, is there. -/
theorem last_valid (h : ReqInv noInterrupt s xs ys owner) :
    s.Valid (s.links.prev .interrupts) :=
  valid_prev _ trivial h.lists.pending fun _ hr => h.pending_live hr

end ReqInv

/-- What a test `q` of requests says of a node of a list. -/
def ReqNode.test (q : R → Bool) : ReqNode R → Bool
  | .req r => q r
  | _ => false

/-- A loop over a list ends, and finds what it looks for. -/
theorem findReq_eq [DecidableEq R] {head : ReqNode R} {zs : List R}
    {p : LlReq T Fn → Option Bool} {q : R → Bool} (hring : s.links.Ring head (zs.map .req))
    (hzs : ∀ r ∈ zs, r ∈ s.live ∧ p (s.req r) = some (q r)) :
    s.findReq head p = some ((zs.find? q).map .req) := by
  have hzsNodup : zs.Nodup := (List.nodup_cons.mp hring.nodup).2.of_map
  have hlen : zs.length ≤ s.live.length :=
    (hzsNodup.subperm fun r hr => (hzs r hr).1).length_le
  have hread : ∀ a ∈ zs.map ReqNode.req, s.readNode p a = some (a.test q) := by
    intro a ha
    obtain ⟨r, hr, rfl⟩ := List.mem_map.mp ha
    simp [ReqState.readNode, ReqState.get, ReqNode.test, (hzs r hr).1, (hzs r hr).2]
  rw [ReqState.findReq, hring.find_eq hread (by simpa using Nat.lt_succ_of_le hlen),
    List.find?_map]
  rfl

end Reading

/-! ## One request changes -/

/-- Nothing that `ReqOk` says of `y` depends on where between `w` and `v` a
thread is. -/
structure SameFor {R Fn : Type} (y : R) (w v : ReqPc R Fn) : Prop where
  curr : v.curr = some y ↔ w.curr = some y
  locked : v.locked = some y ↔ w.locked = some y
  used : v.used = some y → w.used = some y
  asking : v.asking = some y → w.asking = some y
  marked : v.marked = some y → w.marked = some y
  check : v = .check y → w = .check y
  free : ∀ next, w = .free y next → ∃ next', v = .free y next'
  test : ∀ f, w = .test y f → v = .test y f

/-- The requests for which it matters that a thread is at a place. -/
def ReqPc.subjects {R Fn : Type} : ReqPc R Fn → List R
  | idle | dispatch _ | destroy _ _ => []
  | check r | free r _ | interrupt r => [r]
  | lockCurr r c | mark r c | callCurr r c _ | unlockCurr r c | drop r c => [r, c]
  | lockReq r _ | setFunc r _ | test r _ | callReq r _ | unlockReq r | query r => [r]

section Changes

variable {T R Fn : Type} [DecidableEq T] [DecidableEq R] {noInterrupt : Bool}
  {s s' : ReqState T R Fn} {xs xs' ys ys' : List R} {owner : R → Option (ReqPlace T)}
  {o : Option (ReqPlace T)} {t u : T} {w v : ReqPc R Fn} {r y : R}

omit [DecidableEq T] [DecidableEq R] in
theorem not_mem_subjects (hv : y ∉ v.subjects) : v.curr ≠ some y ∧ v.locked ≠ some y ∧
    v.used ≠ some y ∧ v.asking ≠ some y ∧ v ≠ .check y ∧ v.marked ≠ some y ∧
    (∀ next, v ≠ .free y next) ∧ ∀ f, v ≠ .test y f := by
  cases v <;>
    simp_all [ReqPc.subjects, ReqPc.curr, ReqPc.locked, ReqPc.used, ReqPc.asking, ReqPc.marked,
      eq_comm]

omit [DecidableEq T] [DecidableEq R] in
theorem sameFor_of_not_mem (hw : y ∉ w.subjects) (hv : y ∉ v.subjects) : SameFor y w v := by
  obtain ⟨hwc, hwl, -, -, -, -, hwf, hwt⟩ := not_mem_subjects hw
  obtain ⟨hvc, hvl, hvu, hva, hvk, hvm, -, -⟩ := not_mem_subjects hv
  exact ⟨iff_of_false hvc hwc, iff_of_false hvl hwl, fun h => absurd h hvu,
    fun h => absurd h hva, fun h => absurd h hvm, fun h => absurd h hvk,
    fun next h => absurd h (hwf next),
    fun f h => absurd h (hwt f)⟩

/-- Request `y` is as it was, or in fewer lists, and it does not matter for it
what thread `t` does. -/
structure ReqKept (s s' : ReqState T R Fn) (xs xs' ys ys' : List R) (t : T) (v : ReqPc R Fn)
    (y : R) : Prop where
  live : y ∈ s'.live ↔ y ∈ s.live
  req : s'.req y = s.req y
  called : s'.called y = s.called y
  flight : y ∈ xs' → y ∈ xs
  pending : y ∈ ys' → y ∈ ys
  same : SameFor y (s.pc t) v

/-- Thread `t` goes on to `v`, and request `r` changes, but no other. -/
structure ReqChange (s s' : ReqState T R Fn) (xs xs' ys ys' : List R) (t : T) (v : ReqPc R Fn)
    (r : R) : Prop where
  pc : s'.pc = Function.update s.pc t v
  nodup : s'.live.Nodup
  kept : ∀ y, y ≠ r → ReqKept s s' xs xs' ys ys' t v y

omit [DecidableEq R] in
/-- What a thread was in before, it is in still, and nothing else is new. -/
theorem pc_view (hpc : s'.pc = Function.update s.pc t v) {p : ReqPc R Fn → Prop} :
    ((p v → p (s.pc t)) → p (s'.pc u) → p (s.pc u)) ∧
      ((p (s.pc t) → p v) → p (s.pc u) → p (s'.pc u)) := by
  rw [hpc]
  by_cases hut : u = t
  · subst hut
    rw [Function.update_self]
    exact ⟨id, id⟩
  · rw [Function.update_of_ne hut]
    exact ⟨fun _ h => h, fun _ h => h⟩

omit [DecidableEq R] in
theorem ReqOk.frame (h : ReqOk noInterrupt s xs ys o y) (hpc : s'.pc = Function.update s.pc t v)
    (hk : ReqKept s s' xs xs' ys ys' t v y) : ReqOk noInterrupt s' xs' ys' o y := by
  have hcurr : ∀ u, (s'.pc u).curr = some y ↔ (s.pc u).curr = some y := fun u =>
    ⟨(pc_view hpc (p := fun w => w.curr = some y)).1 hk.same.curr.mp,
      (pc_view hpc (p := fun w => w.curr = some y)).2 hk.same.curr.mpr⟩
  have hlocked : ∀ u, (s'.pc u).locked = some y ↔ (s.pc u).locked = some y := fun u =>
    ⟨(pc_view hpc (p := fun w => w.locked = some y)).1 hk.same.locked.mp,
      (pc_view hpc (p := fun w => w.locked = some y)).2 hk.same.locked.mpr⟩
  exact {
    flight := fun hx => by
      obtain ⟨hno, hwhere⟩ := h.flight (hk.flight hx)
      refine ⟨hno, hwhere.imp_right (Or.imp_right fun ⟨u, hfree⟩ => ⟨u, ?_⟩)⟩
      exact (pc_view hpc (p := fun w => ∃ next, w = .free y next)).2
        (fun ⟨next, hw⟩ => hk.same.free next hw) hfree
    live := by
      rw [hk.live, h.live]
      simp only [hcurr]
    count := by
      obtain ⟨n, hn, href⟩ := h.count
      refine ⟨n, ?_, fun hlive => ?_⟩
      · rw [hpc]
        exact hn.stay hk.same.curr
      · rw [hk.req]
        exact href (hk.live.mp hlive)
    doomed := fun u hown => by rw [hk.req]; exact h.doomed u hown
    lock := fun hlive u => by
      rw [hk.req, hlocked]
      exact h.lock (hk.live.mp hlive) u
    uses := fun u hu => h.uses u ((pc_view hpc (p := fun w => w.used = some y)).1 hk.same.used hu)
    ch := fun hlive => by rw [hk.req]; exact h.ch (hk.live.mp hlive)
    asks := fun hasks => by
      rw [hk.req]
      refine h.asks (hasks.imp hk.pending fun ⟨u, hu⟩ => ⟨u, ?_⟩)
      exact (pc_view hpc (p := fun w => w.asking = some y)).1 hk.same.asking hu
    normal := fun hnormal => by
      rw [hk.req]
      exact h.normal (hnormal.imp hk.flight fun ⟨u, hu⟩ => ⟨u, (hcurr u).mp hu⟩)
    fresh := fun u hu => by
      rw [hk.req]
      exact h.fresh u ((pc_view hpc (p := fun w => w = .check y)).1 hk.same.check hu)
    marked := fun u hu => by
      rw [hk.req]
      exact h.marked u ((pc_view hpc (p := fun w => w.marked = some y)).1 hk.same.marked hu)
    told := fun hlive hint f hf => by
      rw [hk.req] at hint hf
      rw [hk.called]
      refine (h.told (hk.live.mp hlive) hint f hf).imp_right fun ⟨u, hu⟩ => ⟨u, ?_⟩
      exact (pc_view hpc (p := fun w => w = .test y (some f))).2 (hk.same.test (some f)) hu }

omit [DecidableEq T] [DecidableEq R] in
/-- The first reference goes to another place. -/
theorem ReqOk.hand (h : ReqOk noInterrupt s xs ys o r) {p : ReqPlace T} (hold : Counted o)
    (hnew : Counted (some p)) (hflight : r ∈ xs → p = .backend ∨ (∃ t, p = .thread .next t) ∨
      ∃ t next, s.pc t = .free r next)
    (huses : p ≠ .backend → ∀ t, (s.pc t).used ≠ some r) :
    ReqOk noInterrupt s xs ys (some p) r where
  flight := fun hx => ⟨(h.flight hx).1, by simpa using hflight hx⟩
  live := by rw [h.live]; simp [counted_ne_none hold]
  count := by
    obtain ⟨n, hn, href⟩ := h.count
    rw [if_pos hold] at href
    exact ⟨n, hn, by rwa [if_pos hnew]⟩
  doomed := fun t hown => by
    rw [hown] at hnew
    exact absurd hnew id
  lock := h.lock
  uses := fun t hu => by
    by_cases hp : p = .backend
    · rw [hp]
    · exact absurd hu (huses hp t)
  ch := fun _ hno => absurd hnew hno
  asks := h.asks
  normal := h.normal
  fresh := h.fresh
  marked := h.marked
  told := h.told

omit [DecidableEq T] in
theorem counted_put (hold : Counted (owner r)) (hy : Counted (Function.update owner r o y)) :
    Counted (owner y) := by
  by_cases hyr : y = r
  · subst hyr
    exact hold
  · rwa [Function.update_of_ne hyr] at hy

/-- The first reference of `r` comes to `o`, the others stay where they are. -/
theorem places_put (h : Owned (s.InPlace ys) owner) (hpc : s'.pc = Function.update s.pc t v)
    (hpart : ∀ part y, y ≠ r → (v.part part = some y ↔ (s.pc t).part part = some y))
    (hheld : ∀ y, y ≠ r → s'.held y = s.held y) (hys : ∀ y, y ≠ r → (y ∈ ys' ↔ y ∈ ys))
    (hthread : ∀ part, v.part part = some r ↔ o = some (.thread part t))
    (hother : ∀ part u, u ≠ t → owner r ≠ some (.thread part u) ∧ o ≠ some (.thread part u))
    (hbackend : s'.held r = true ↔ o = some .backend)
    (hpending : r ∈ ys' ↔ o = some .pending) :
    Owned (s'.InPlace ys') (Function.update owner r o) := by
  intro p y
  by_cases hy : y = r
  · subst hy
    rw [Function.update_self]
    cases p with
    | thread part u =>
        show (s'.pc u).part part = some y ↔ _
        rw [hpc]
        by_cases hut : u = t
        · subst hut
          rw [Function.update_self]
          exact hthread part
        · rw [Function.update_of_ne hut]
          obtain ⟨hold, hnew⟩ := hother part u hut
          exact iff_of_false (fun hu => hold ((h (.thread part u) y).mp hu)) hnew
    | backend => exact hbackend
    | pending => exact hpending
  · rw [Function.update_of_ne hy, ← h p y]
    cases p with
    | thread part u =>
        show (s'.pc u).part part = some y ↔ (s.pc u).part part = some y
        rw [hpc]
        by_cases hut : u = t
        · subst hut
          rw [Function.update_self]
          exact hpart part y hy
        · rw [Function.update_of_ne hut]
    | backend => simp [ReqState.InPlace, hheld y hy]
    | pending => exact hys y hy

omit [DecidableEq R] in
/-- It does not become pending, and not get in flight either. -/
theorem Apart.sub (h : Apart s.req xs ys) (hc : ReqChange s s' xs xs' ys ys' t v r)
    (hsub : ys'.Sublist ys) (hys : r ∉ ys')
    (hxs : r ∈ xs' → r ∈ xs ∧ (s'.req r).unique = (s.req r).unique) :
    Apart s'.req xs' ys' := by
  have hsame : ∀ q ∈ ys', s'.req q = s.req q := fun q hq =>
    (hc.kept q fun heq => hys (heq ▸ hq)).req
  refine ⟨?_, fun q hq y hy => ?_⟩
  · rw [List.map_congr_left fun q hq => by rw [hsame q hq]]
    exact h.targets.sublist (hsub.map _)
  · rw [hsame q hq]
    by_cases hyr : y = r
    · subst hyr
      obtain ⟨hin, hunique⟩ := hxs hy
      rw [hunique]
      exact h.flight q (hsub.subset hq) y hin
    · rw [(hc.kept y hyr).req]
      exact h.flight q (hsub.subset hq) y ((hc.kept y hyr).flight hy)

/-- What has to be shown when one request changes. -/
theorem ReqInv.change (h : ReqInv noInterrupt s xs ys owner)
    (hc : ReqChange s s' xs xs' ys ys' t v r)
    (hlists : ReqLists s'.links xs' ys' fun y =>
      Counted (Function.update owner r o y) ∧ y ∉ xs' ∧ y ∉ ys')
    (hplaces : Owned (s'.InPlace ys') (Function.update owner r o))
    (hok : ReqOk noInterrupt s' xs' ys' o r)
    (hapart : Apart s'.req xs' ys') :
    ReqInv noInterrupt s' xs' ys' (Function.update owner r o) where
  lists := hlists
  places := hplaces
  nodup := hc.nodup
  ok := fun y => by
    by_cases hy : y = r
    · subst hy
      rwa [Function.update_self]
    · rw [Function.update_of_ne hy]
      exact (h.ok y).frame hc.pc (hc.kept y hy)
  apart := hapart

end Changes

end UkfsFuse
