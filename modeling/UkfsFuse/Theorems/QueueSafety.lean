import UkfsFuse.Logic.QueueInv

/-!
# Queue safety

One `fuse_ukfs_queue_init`, then any number of threads calling push and pop in
any interleaving of their statements: the assertion in pop never fails, the
list is a FIFO that loses, repeats and invents nothing, and a non-empty list
is always announced by the count or claimed by a popper.
-/

namespace UkfsFuse

open UkfsFuse.Core QueuePc

/-- Pushing and popping on a queue that was initialised once. -/
def pushPopSystem (T R : Type) [DecidableEq T] : TSys (QueueState T R) (QueueAct T R) :=
  (queueSystem T R).restrict fun _ a => ∀ t, a ≠ .callInit t

/-- What the users of a queue rely on. -/
structure QueueSafe {T R : Type} [DecidableEq T] (s : QueueState T R) : Prop where
  /-- `UK_ASSERT(req)` has not failed in any thread. -/
  assertHolds : ∀ t, s.pc t ≠ .assertFailed
  /-- Requests leave in the order of their insertion, each insertion once. -/
  removedInOrder : s.inserted.map Prod.snd = s.removed.map Prod.snd ++ s.q.head
  /-- Each thread's pushes are its insertions and the one it is busy with. -/
  pushedInserted : ∀ t, eventsOf t s.pushed = eventsOf t s.inserted ++ (s.pc t).toInsert
  /-- Each thread's pops return what it removed. -/
  removedReturned : ∀ t, eventsOf t s.removed = eventsOf t s.returned ++ (s.pc t).inHand
  /-- A request nobody is about to announce has been announced. -/
  noLostWakeup : s.q.head ≠ [] → (∀ t, ¬ BeforeUp (s.pc t)) →
    0 < s.q.count ∨ ∃ t, PastDown (s.pc t)

/-- The thread is inside `fuse_ukfs_queue_init`. -/
def QueuePc.InInit {R : Type} : QueuePc R → Prop
  | .initHead | .initLock | .initCount => True
  | _ => False

section

variable {T R : Type} [DecidableEq T] {s s' : QueueState T R}

/-- The queue invariant says everything a user relies on. -/
theorem QueueInv.safe (h : QueueInv s) : QueueSafe s where
  assertHolds := h.noAssert
  removedInOrder := h.fifo
  pushedInserted := h.pushes
  removedReturned := h.pops
  noLostWakeup := by
    intro hhead hnobody
    obtain ⟨m, n, hm, hn, hlen⟩ := h.balance
    have hpos : 0 < s.q.head.length := List.length_pos_iff.mpr hhead
    rcases Nat.eq_zero_or_pos m with rfl | hmpos
    · rcases Nat.eq_zero_or_pos n with rfl | hnpos
      · left
        omega
      · obtain ⟨t, ht⟩ := hn.exists_of_pos hnpos
        exact absurd ht (hnobody t)
    · exact .inr (hm.exists_of_pos hmpos)

/-- Without a call of `fuse_ukfs_queue_init` nobody gets into it. -/
theorem noInit_step {a : QueueAct T R} (h : ∀ t, ¬ InInit (s.pc t))
    (ha : ∀ t, a ≠ .callInit t) (hs : s.step a = some s') : ∀ t, ¬ InInit (s'.pc t) := by
  have moved : ∀ (t : T) (v : QueuePc R), ¬ InInit v →
      ∀ u, ¬ InInit (Function.update s.pc t v u) := by
    intro t v hv u
    by_cases hut : u = t
    · subst hut; simpa using hv
    · simpa [hut] using h u
  cases a with
  | callInit t => exact absurd rfl (ha t)
  | callPush t req =>
      simp only [QueueState.step, QueueState.callPush] at hs
      split at hs
      · obtain rfl := Option.some.inj hs
        exact moved t _ id
      · exact absurd hs (by simp)
  | callPop t =>
      simp only [QueueState.step, QueueState.callPop] at hs
      split at hs
      · obtain rfl := Option.some.inj hs
        exact moved t _ id
      · exact absurd hs (by simp)
  | ret t =>
      simp only [QueueState.step, QueueState.ret] at hs
      split at hs
      · obtain rfl := Option.some.inj hs
        exact moved t _ id
      · exact absurd hs (by simp)
  | tick t =>
      have ht := h t
      simp only [QueueState.step, QueueState.tick] at hs
      split at hs
      case h_2 => obtain ⟨q, -, rfl⟩ := Option.map_eq_some_iff.mp hs; exact moved t _ id
      case h_6 => obtain ⟨q, -, rfl⟩ := Option.map_eq_some_iff.mp hs; exact moved t _ id
      case h_7 => obtain ⟨q, -, rfl⟩ := Option.map_eq_some_iff.mp hs; exact moved t _ id
      case h_8 =>
        split at hs
        · obtain rfl := Option.some.inj hs; exact moved t _ id
        · obtain rfl := Option.some.inj hs; exact moved t _ id
      all_goals
        first
          | (obtain rfl := Option.some.inj hs; exact moved t _ id)
          | simp_all [InInit]

omit [DecidableEq T] in
theorem quietInit_of_noInit {a : QueueAct T R} (h : ∀ t, ¬ InInit (s.pc t)) : QuietInit s a := by
  cases a with
  | tick t =>
      have ht := h t
      cases hpc : s.pc t <;> simp_all [QuietInit, InInit]
  | _ => trivial

end

/-- Queue safety, for any number of threads and any interleaving. -/
theorem queue_safety (T R : Type) [DecidableEq T] :
    (pushPopSystem T R).Invariant QueueSafe := by
  have hboth : (pushPopSystem T R).Invariant
      fun s => QueueInv s ∧ ∀ t, ¬ InInit (s.pc t) := by
    apply TSys.Inductive.invariant
    constructor
    · rintro s ⟨q, rfl⟩
      exact ⟨.fresh q, fun _ => id⟩
    · rintro s a s' ⟨hinv, hnone⟩ ⟨hnotInit, hstep⟩
      exact ⟨hinv.step (quietInit_of_noInit hnone) hstep, noInit_step hnone hnotInit hstep⟩
  intro s hs
  exact (hboth s hs).1.safe

end UkfsFuse
