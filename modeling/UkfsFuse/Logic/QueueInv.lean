import UkfsFuse.Core.Window
import UkfsFuse.Source.Queue

/-!
# The queue invariant

The semaphore is raised after the lock is dropped and lowered before it is
taken, so count and list length disagree in most reachable states. What
balances them is the number of threads in two windows: pushers between their
insert and their `uk_semaphore_up`, and poppers past `uk_semaphore_down` that
have not yet taken the head.

A re-initialisation is harmless exactly when each of its three statements
resets what is already reset (`QuietInit`); the invariant is proved for every
run in which it is.
-/

namespace UkfsFuse

open UkfsFuse.Core

variable {T R : Type}

namespace QueuePc

/-- A pusher that has inserted and not yet raised the count. -/
def BeforeUp : QueuePc R → Prop
  | .pushUnlock _ | .pushUp _ => True
  | _ => False

/-- A popper that has lowered the count and not yet taken the head. -/
def PastDown : QueuePc R → Prop
  | .popLock | .popRemove => True
  | _ => False

/-- The thread holds the lock. -/
def InCritical : QueuePc R → Prop
  | .pushInsert _ | .pushUnlock _ | .popRemove | .popUnlock _ => True
  | _ => False

/-- The request a pusher has yet to insert. -/
def toInsert : QueuePc R → List R
  | .pushLock req | .pushInsert req => [req]
  | _ => []

/-- The request a popper has removed and not yet returned. -/
def inHand : QueuePc R → List R
  | .popUnlock req | .popReturn req => [req]
  | _ => []

end QueuePc

open QueuePc

/-- The statement `t` executes next is either not part of
`fuse_ukfs_queue_init` or resets what is already reset. -/
def QuietInit (s : QueueState T R) : QueueAct T R → Prop
  | .tick t =>
      match s.pc t with
      | .initHead => s.q.head = []
      | .initLock => s.q.lock = none
      | .initCount => s.q.count = 0
      | _ => True
  | _ => True

/-- What holds of a queue whose re-initialisations are quiet. -/
structure QueueInv [DecidableEq T] (s : QueueState T R) : Prop where
  balance : ∃ m n, Counts s.pc PastDown m ∧ Counts s.pc BeforeUp n ∧
    s.q.head.length = s.q.count + m + n
  fifo : s.inserted.map Prod.snd = s.removed.map Prod.snd ++ s.q.head
  pushes : Tracks s.pc toInsert s.pushed s.inserted
  pops : Tracks s.pc inHand s.removed s.returned
  owner : ∀ t, InCritical (s.pc t) → s.q.lock = some t
  noAssert : ∀ t, s.pc t ≠ .assertFailed

section Moves

variable [DecidableEq T] {s : QueueState T R} {t : T} {v : QueuePc R}

theorem owner_outside {q : FuseUkfsQueue T R} (h : QueueInv s) (hlock : q.lock = s.q.lock)
    (hv : ¬ InCritical v) :
    ∀ u, InCritical (Function.update s.pc t v u) → q.lock = some u := by
  intro u hu
  rw [hlock]
  by_cases hut : u = t
  · subst hut; simp [hv] at hu
  · exact h.owner u (by simpa [hut] using hu)

/-- Inside the lock the owner moves on; nobody else is inside. -/
theorem owner_inside {q : FuseUkfsQueue T R} (h : QueueInv s) (hlock : q.lock = s.q.lock)
    (ht : InCritical (s.pc t)) :
    ∀ u, InCritical (Function.update s.pc t v u) → q.lock = some u := by
  intro u hu
  rw [hlock]
  by_cases hut : u = t
  · subst hut; exact h.owner u ht
  · exact h.owner u (by simpa [hut] using hu)

theorem owner_unlock (h : QueueInv s) (ht : InCritical (s.pc t)) (hv : ¬ InCritical v) :
    ∀ u, InCritical (Function.update s.pc t v u) → s.q.mutexUnlock.lock = some u := by
  intro u hu
  by_cases hut : u = t
  · subst hut; simp [hv] at hu
  · have hu' : InCritical (s.pc u) := by simpa [hut] using hu
    have := (h.owner u hu').symm.trans (h.owner t ht)
    exact absurd (Option.some.inj this) hut

theorem owner_lock {q : FuseUkfsQueue T R} (h : QueueInv s) (hq : s.q.mutexLock t = some q) :
    ∀ u, InCritical (Function.update s.pc t v u) → q.lock = some u := by
  unfold FuseUkfsQueue.mutexLock at hq
  split at hq
  · rename_i hfree
    obtain rfl := Option.some.inj hq
    intro u hu
    by_cases hut : u = t
    · subst hut; rfl
    · have := h.owner u (by simpa [hut] using hu)
      rw [hfree] at this
      exact absurd this (by simp)
  · exact absurd hq (by simp)

theorem noAssert_move (h : QueueInv s) (hv : v ≠ .assertFailed) :
    ∀ u, Function.update s.pc t v u ≠ .assertFailed := by
  intro u
  by_cases hut : u = t
  · subst hut; simpa using hv
  · simpa [hut] using h.noAssert u

omit [DecidableEq T] in
/-- Taking the lock leaves list and count alone. -/
theorem mutexLock_frame {q q' : FuseUkfsQueue T R} (h : q.mutexLock t = some q') :
    q'.head = q.head ∧ q'.count = q.count := by
  unfold FuseUkfsQueue.mutexLock at h
  split at h
  · obtain rfl := Option.some.inj h
    exact ⟨rfl, rfl⟩
  · exact absurd h (by simp)

end Moves

section Steps

variable [DecidableEq T] {s s' : QueueState T R} {t : T}

theorem QueueInv.fresh (q : FuseUkfsQueue T R) :
    QueueInv (QueueState.fresh (T := T) (fuseUkfsQueueInit q)) where
  balance := ⟨0, 0, .zero fun _ => id, .zero fun _ => id, rfl⟩
  fifo := rfl
  pushes := fun _ => rfl
  pops := fun _ => rfl
  owner := fun _ h => h.elim
  noAssert := fun _ h => by cases h

/-- A thread that stays on its side of every window and leaves list and count
alone keeps the balance. -/
theorem balance_stay (h : QueueInv s) {v : QueuePc R} {q : FuseUkfsQueue T R}
    (hhead : q.head = s.q.head) (hcount : q.count = s.q.count)
    (hdown : PastDown v ↔ PastDown (s.pc t)) (hup : BeforeUp v ↔ BeforeUp (s.pc t)) :
    ∃ m n, Counts (Function.update s.pc t v) PastDown m ∧
      Counts (Function.update s.pc t v) BeforeUp n ∧
      q.head.length = q.count + m + n := by
  obtain ⟨m, n, hm, hn, hlen⟩ := h.balance
  refine ⟨m, n, hm.stay hdown, hn.stay hup, ?_⟩
  rw [hhead, hcount]
  exact hlen

/-- A statement that touches neither list nor count and begins or ends
nothing: the mutex operations and the quiet re-initialisations. -/
theorem QueueInv.frame (h : QueueInv s) {v : QueuePc R} {q : FuseUkfsQueue T R}
    (hhead : q.head = s.q.head) (hcount : q.count = s.q.count)
    (hdown : PastDown v ↔ PastDown (s.pc t)) (hup : BeforeUp v ↔ BeforeUp (s.pc t))
    (hins : toInsert v = toInsert (s.pc t)) (hhand : inHand v = inHand (s.pc t))
    (howner : ∀ u, InCritical (Function.update s.pc t v u) → q.lock = some u)
    (hv : v ≠ .assertFailed) : QueueInv (s.move t v q) where
  balance := balance_stay h hhead hcount hdown hup
  fifo := by rw [show (s.move t v q).q.head = s.q.head from hhead]; exact h.fifo
  pushes := h.pushes.keep hins
  pops := h.pops.keep hhand
  owner := howner
  noAssert := noAssert_move h hv

/-- The four calls and returns leave the queue alone. -/
theorem QueueInv.callPush (h : QueueInv s) {req : R} (hs : s.callPush t req = some s') :
    QueueInv s' := by
  unfold QueueState.callPush at hs
  split at hs
  · rename_i hpc
    obtain rfl := Option.some.inj hs
    exact {
      balance := balance_stay h rfl rfl (by simp [hpc, PastDown]) (by simp [hpc, BeforeUp])
      fifo := h.fifo
      pushes := h.pushes.begins (by simp [hpc, toInsert]) rfl
      pops := h.pops.keep (by simp [hpc, inHand])
      owner := owner_outside h rfl id
      noAssert := noAssert_move h (by simp) }
  · exact absurd hs (by simp)

theorem QueueInv.callPop (h : QueueInv s) (hs : s.callPop t = some s') : QueueInv s' := by
  unfold QueueState.callPop at hs
  split at hs
  · rename_i hpc
    obtain rfl := Option.some.inj hs
    exact h.frame rfl rfl (by simp [hpc, PastDown]) (by simp [hpc, BeforeUp])
      (by simp [hpc, toInsert]) (by simp [hpc, inHand]) (owner_outside h rfl id) (by simp)
  · exact absurd hs (by simp)

theorem QueueInv.callInit (h : QueueInv s) (hs : s.callInit t = some s') : QueueInv s' := by
  unfold QueueState.callInit at hs
  split at hs
  · rename_i hpc
    obtain rfl := Option.some.inj hs
    exact h.frame rfl rfl (by simp [hpc, PastDown]) (by simp [hpc, BeforeUp])
      (by simp [hpc, toInsert]) (by simp [hpc, inHand]) (owner_outside h rfl id) (by simp)
  · exact absurd hs (by simp)

theorem QueueInv.ret (h : QueueInv s) (hs : s.ret t = some s') : QueueInv s' := by
  unfold QueueState.ret at hs
  split at hs
  · rename_i req hpc
    obtain rfl := Option.some.inj hs
    exact {
      balance := balance_stay h rfl rfl (by simp [hpc, PastDown]) (by simp [hpc, BeforeUp])
      fifo := h.fifo
      pushes := h.pushes.keep (by simp [hpc, toInsert])
      pops := h.pops.ends (by simp [hpc, inHand]) rfl
      owner := owner_outside h rfl id
      noAssert := noAssert_move h (by simp) }
  · exact absurd hs (by simp)

/-- The insertion opens the window before `uk_semaphore_up`. -/
theorem QueueInv.pushInsert (h : QueueInv s) {req : R} (hpc : s.pc t = .pushInsert req) :
    QueueInv { s.move t (.pushUnlock req) (s.q.insertTail req) with
      inserted := s.inserted ++ [(t, req)] } := by
  obtain ⟨m, n, hm, hn, hlen⟩ := h.balance
  exact {
    balance := by
      refine ⟨m, n + 1, hm.stay (by simp [hpc, PastDown]),
        hn.enter (by simp [hpc, BeforeUp]) trivial, ?_⟩
      show (s.q.head ++ [req]).length = s.q.count + m + (n + 1)
      rw [List.length_append, hlen]
      simp only [List.length_singleton]
      omega
    fifo := by
      show (s.inserted ++ [(t, req)]).map Prod.snd = _ ++ (s.q.head ++ [req])
      rw [List.map_append, h.fifo, List.append_assoc]
      rfl
    pushes := h.pushes.ends (by simp [hpc, toInsert]) rfl
    pops := h.pops.keep (by simp [hpc, inHand])
    owner := owner_inside h rfl (by simp [hpc, InCritical])
    noAssert := noAssert_move h (by simp) }

/-- `uk_semaphore_up` closes it. -/
theorem QueueInv.pushUp (h : QueueInv s) {req : R} (hpc : s.pc t = .pushUp req) :
    QueueInv (s.move t .out s.q.semaphoreUp) := by
  obtain ⟨m, n, hm, hn, hlen⟩ := h.balance
  have hin : BeforeUp (s.pc t) := by simp [hpc, BeforeUp]
  obtain ⟨k, rfl⟩ : ∃ k, n = k + 1 := Nat.exists_eq_succ_of_ne_zero (hn.pos hin).ne'
  exact {
    balance := by
      refine ⟨m, k, hm.stay (by simp [hpc, PastDown]), hn.leave hin id, ?_⟩
      show s.q.head.length = s.q.count + 1 + m + k
      omega
    fifo := h.fifo
    pushes := h.pushes.keep (by simp [hpc, toInsert])
    pops := h.pops.keep (by simp [hpc, inHand])
    owner := owner_outside h rfl id
    noAssert := noAssert_move h (by simp) }

/-- `uk_semaphore_down` opens the window before the removal. -/
theorem QueueInv.popDown (h : QueueInv s) {q : FuseUkfsQueue T R} (hpc : s.pc t = .popDown)
    (hq : s.q.semaphoreDown = some q) : QueueInv (s.move t .popLock q) := by
  obtain ⟨m, n, hm, hn, hlen⟩ := h.balance
  unfold FuseUkfsQueue.semaphoreDown at hq
  split at hq
  · exact absurd hq (by simp)
  · rename_i c hc
    obtain rfl := Option.some.inj hq
    exact {
      balance := by
        refine ⟨m + 1, n, hm.enter (by simp [hpc, PastDown]) trivial,
          hn.stay (by simp [hpc, BeforeUp]), ?_⟩
        show s.q.head.length = c + (m + 1) + n
        omega
      fifo := h.fifo
      pushes := h.pushes.keep (by simp [hpc, toInsert])
      pops := h.pops.keep (by simp [hpc, inHand])
      owner := owner_outside h rfl id
      noAssert := noAssert_move h (by simp) }

/-- A popper past `uk_semaphore_down` finds a head: its own window accounts
for one element of the list. -/
theorem QueueInv.head_ne_nil (h : QueueInv s) (ht : PastDown (s.pc t)) : s.q.head ≠ [] := by
  obtain ⟨m, n, hm, hn, hlen⟩ := h.balance
  have := hm.pos ht
  intro hnil
  rw [hnil] at hlen
  simp only [List.length_nil] at hlen
  omega

theorem QueueInv.popRemove (h : QueueInv s) {req : R} {rest : List R}
    (hpc : s.pc t = .popRemove) (hhead : s.q.head = req :: rest) :
    QueueInv { s.move t (.popUnlock req) { s.q with head := rest } with
      removed := s.removed ++ [(t, req)] } := by
  obtain ⟨m, n, hm, hn, hlen⟩ := h.balance
  have hin : PastDown (s.pc t) := by simp [hpc, PastDown]
  obtain ⟨k, rfl⟩ : ∃ k, m = k + 1 := Nat.exists_eq_succ_of_ne_zero (hm.pos hin).ne'
  exact {
    balance := by
      refine ⟨k, n, hm.leave hin id, hn.stay (by simp [hpc, BeforeUp]), ?_⟩
      show rest.length = s.q.count + k + n
      rw [hhead, List.length_cons] at hlen
      omega
    fifo := by
      show s.inserted.map Prod.snd = (s.removed ++ [(t, req)]).map Prod.snd ++ rest
      rw [h.fifo, hhead]
      simp
    pushes := h.pushes.keep (by simp [hpc, toInsert])
    pops := h.pops.begins (by simp [hpc, inHand]) rfl
    owner := owner_inside h rfl (by simp [hpc, InCritical])
    noAssert := noAssert_move h (by simp) }

theorem QueueInv.tick (h : QueueInv s) (hquiet : QuietInit s (.tick t))
    (hs : s.tick t = some s') : QueueInv s' := by
  unfold QueueState.tick at hs
  unfold QuietInit at hquiet
  cases hpc : s.pc t with
  | out => simp [hpc] at hs
  | popReturn req => simp [hpc] at hs
  | assertFailed => simp [hpc] at hs
  | pushLock req =>
      simp only [hpc] at hs
      obtain ⟨q, hq, rfl⟩ := Option.map_eq_some_iff.mp hs
      obtain ⟨hhead, hcount⟩ := mutexLock_frame hq
      exact h.frame hhead hcount (by simp [hpc, PastDown]) (by simp [hpc, BeforeUp])
        (by simp [hpc, toInsert]) (by simp [hpc, inHand]) (owner_lock h hq) (by simp)
  | pushInsert req =>
      simp only [hpc, Option.some.injEq] at hs
      subst hs
      exact h.pushInsert hpc
  | pushUnlock req =>
      simp only [hpc, Option.some.injEq] at hs
      subst hs
      exact h.frame rfl rfl (by simp [hpc, PastDown]) (by simp [hpc, BeforeUp])
        (by simp [hpc, toInsert]) (by simp [hpc, inHand])
        (owner_unlock h (by simp [hpc, InCritical]) id) (by simp)
  | pushUp req =>
      simp only [hpc, Option.some.injEq] at hs
      subst hs
      exact h.pushUp hpc
  | popDown =>
      simp only [hpc] at hs
      obtain ⟨q, hq, rfl⟩ := Option.map_eq_some_iff.mp hs
      exact h.popDown hpc hq
  | popLock =>
      simp only [hpc] at hs
      obtain ⟨q, hq, rfl⟩ := Option.map_eq_some_iff.mp hs
      obtain ⟨hhead, hcount⟩ := mutexLock_frame hq
      exact h.frame hhead hcount (by simp [hpc, PastDown]) (by simp [hpc, BeforeUp])
        (by simp [hpc, toInsert]) (by simp [hpc, inHand]) (owner_lock h hq) (by simp)
  | popRemove =>
      simp only [hpc] at hs
      cases hhead : s.q.head with
      | nil => exact absurd hhead (h.head_ne_nil (t := t) (by simp [hpc, PastDown]))
      | cons req rest =>
          simp only [hhead, Option.some.injEq] at hs
          subst hs
          exact h.popRemove hpc hhead
  | popUnlock req =>
      simp only [hpc, Option.some.injEq] at hs
      subst hs
      exact h.frame rfl rfl (by simp [hpc, PastDown]) (by simp [hpc, BeforeUp])
        (by simp [hpc, toInsert]) (by simp [hpc, inHand])
        (owner_unlock h (by simp [hpc, InCritical]) id) (by simp)
  -- the three statements of a re-initialisation, each quiet
  | initHead =>
      simp only [hpc, Option.some.injEq] at hs hquiet
      subst hs
      exact h.frame (by simp [FuseUkfsQueue.tailqInit, hquiet]) rfl (by simp [hpc, PastDown])
        (by simp [hpc, BeforeUp]) (by simp [hpc, toInsert]) (by simp [hpc, inHand])
        (owner_outside h rfl id) (by simp)
  | initLock =>
      simp only [hpc, Option.some.injEq] at hs hquiet
      subst hs
      exact h.frame rfl rfl (by simp [hpc, PastDown]) (by simp [hpc, BeforeUp])
        (by simp [hpc, toInsert]) (by simp [hpc, inHand])
        (owner_outside h (by simp [FuseUkfsQueue.mutexInit, hquiet]) id) (by simp)
  | initCount =>
      simp only [hpc, Option.some.injEq] at hs hquiet
      subst hs
      exact h.frame rfl (by simp [FuseUkfsQueue.semaphoreInit, hquiet]) (by simp [hpc, PastDown])
        (by simp [hpc, BeforeUp]) (by simp [hpc, toInsert]) (by simp [hpc, inHand])
        (owner_outside h rfl id) (by simp)

/-- Every quiet step preserves the queue invariant. -/
theorem QueueInv.step (h : QueueInv s) {a : QueueAct T R} (hquiet : QuietInit s a)
    (hs : s.step a = some s') : QueueInv s' := by
  cases a with
  | callPush t req => exact h.callPush hs
  | callPop t => exact h.callPop hs
  | callInit t => exact h.callInit hs
  | tick t => exact h.tick hquiet hs
  | ret t => exact h.ret hs

/-- Along every run whose re-initialisations are quiet. -/
theorem queueInv_invariant (T R : Type) [DecidableEq T] :
    ((queueSystem T R).restrict QuietInit).Invariant QueueInv := by
  apply TSys.Inductive.invariant
  constructor
  · rintro s ⟨q, rfl⟩
    exact .fresh q
  · intro s a s' h hstep
    exact h.step hstep.1 hstep.2

end Steps

end UkfsFuse
