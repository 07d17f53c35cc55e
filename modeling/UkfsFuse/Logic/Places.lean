import UkfsFuse.Core.Ownership
import UkfsFuse.Logic.Steps

/-!
# Where a request record is

The record of a client thread is a token: it is about to be pushed, in the
queue, in a daemon's hands, held by the backend or completed. Nothing in the
program says which; `Sys.InPlace` reads it off queue, threads and handles.

`Placed s owner` is the invariant of every run, whatever fails in it: no record
is in two places, only outstanding records are in any, and `done` has been
raised once for a completed record and not at all for any other. A record may
be lost (by a re-initialised queue or a reply to the device), then it is in no
place and its client waits forever.
-/

namespace UkfsFuse

open UkfsFuse.Core QueuePc

/-- Where the record of an outstanding request can be. -/
inductive Place (T : Type)
  /-- about to be pushed -/
  | pushing
  | queued
  /-- in the hands of daemon `d` -/
  | daemon (d : T)
  /-- held by the backend, behind handle `h` -/
  | backend (h : Nat)
  | completed
deriving DecidableEq, Repr

section Views

variable {T S : Type}

/-- The call of a queue function a thread can be in. -/
def Pc.fn (t : T) : Pc T S → Option (QueueFn T)
  | .waiting _ => some (.push t)
  | .daemon _ _ .loop => some .pop
  | .vopenInit => some .init
  | _ => none

/-- The record a daemon works on. -/
def DaemonPc.inHand : DaemonPc T → List T
  | .popped req | .failing req _ | .handover req | .device req | .overrun req => [req]
  | .loop | .inCallback _ => []

def Pc.inHand : Pc T S → List T
  | .daemon _ _ pc => pc.inHand
  | _ => []

/-- `done` was raised for the request the thread waits for, `done` being what
is left of it. -/
def Pc.Completed (done : Nat) : Pc T S → Prop
  | .waiting _ => 0 < done
  | .woken _ => True
  | _ => False

def Pc.Failing : Pc T S → Prop
  | .daemon _ _ (.failing _ _) => True
  | _ => False

/-- A reply function that has yet to raise `done`, or has yet to be called. -/
def Handle.Pending (hd : Handle T S) : Prop :=
  hd.answer = none ∨ .up ∈ hd.todo

section Points

variable (k : Cont) (se : S) (buf : Mem) (pc : DaemonPc T) (n : Nat)

@[simp] theorem Pc.inHand_waiting : (waiting k : Pc T S).inHand = [] := rfl
@[simp] theorem Pc.inHand_woken : (woken k : Pc T S).inHand = [] := rfl
@[simp] theorem Pc.inHand_idle : (idle : Pc T S).inHand = [] := rfl
@[simp] theorem Pc.inHand_vopenInit : (vopenInit : Pc T S).inHand = [] := rfl
@[simp] theorem Pc.inHand_daemon : (daemon se buf pc : Pc T S).inHand = pc.inHand := rfl

@[simp] theorem Pc.completed_waiting : (waiting k : Pc T S).Completed n ↔ 0 < n := .rfl
@[simp] theorem Pc.completed_woken : (woken k : Pc T S).Completed n ↔ True := .rfl
@[simp] theorem Pc.completed_idle : (idle : Pc T S).Completed n ↔ False := .rfl
@[simp] theorem Pc.completed_vopenInit : (vopenInit : Pc T S).Completed n ↔ False := .rfl
@[simp] theorem Pc.completed_daemon : (daemon se buf pc : Pc T S).Completed n ↔ False := .rfl

end Points

theorem Pc.fn_push {t req : T} {p : Pc T S} (h : some (QueueFn.push req) = p.fn t) :
    req = t ∧ ∃ k, p = .waiting k := by
  unfold Pc.fn at h
  split at h <;> simp_all

theorem Pc.fn_pop {t : T} {p : Pc T S} (h : some QueueFn.pop = p.fn t) :
    ∃ se buf, p = .daemon se buf .loop := by
  unfold Pc.fn at h
  split at h <;> simp_all

theorem Pc.fn_init {t : T} {p : Pc T S} (h : some QueueFn.init = p.fn t) : p = .vopenInit := by
  unfold Pc.fn at h
  split at h <;> simp_all

theorem Pc.Free.not_outstanding {p : Pc T S} (h : p.Free) : ¬ p.Outstanding := by
  cases p <;> first | exact id | exact h.elim

theorem Pc.Free.inHand {p : Pc T S} (h : p.Free) : p.inHand = [] := by
  cases p <;> first | rfl | exact h.elim

theorem Pc.Free.fn {t : T} {p : Pc T S} (h : p.Free) : p.fn t = none := by
  cases p <;> first | rfl | exact h.elim

theorem Pc.Free.not_failing {p : Pc T S} (h : p.Free) : ¬ p.Failing := by
  cases p <;> first | exact id | exact h.elim

theorem Pc.Completed.outstanding {n : Nat} {p : Pc T S} (h : p.Completed n) : p.Outstanding := by
  cases p <;> first | exact h.elim | trivial

end Views

/-- The rest of a reply function: after `done` is raised the record is not
touched, and a function that does not raise `done` changes nothing. -/
def Tidy : List ReplyAct → Prop
  | [] => True
  | .up :: rest => rest = [.freeReq]
  | act :: rest => (.up ∈ rest ∨ act = .deviceWrite ∨ act = .freeReq) ∧ Tidy rest

/-- What `Placed` says of a handle: effects come from a reply call only, and
they are those of a reply function. -/
structure Handle.Ok {T S : Type} (hd : Handle T S) : Prop where
  unanswered : hd.answer = none → hd.todo = []
  tidy : Tidy hd.todo

namespace Sys

variable {T S F : Type}

/-- The record a daemon has taken from the queue. -/
def hands (s : Sys T S F) (d : T) : List T :=
  QueuePc.inHand (s.queue.pc d) ++ (s.pc d).inHand

/-- The record of `t` is in place `p`. -/
def InPlace (s : Sys T S F) : Place T → T → Prop
  | .pushing, t => t ∈ toInsert (s.queue.pc t)
  | .queued, t => t ∈ s.queue.q.head
  | .daemon d, t => t ∈ s.hands d
  | .backend h, t => ∃ hd, s.handles[h]? = some hd ∧ hd.ukfsReq = t ∧ hd.Pending
  | .completed, t => (s.pc t).Completed (s.record t).done

end Sys

/-- What `Placed` says of one thread: where it is inside and outside the queue
functions, its record, how often `done` was raised, and the record's place. -/
structure ThreadOk {T S : Type} (t : T) (q : QueuePc T) (p : Pc T S) (req : FuseUkfsRequest)
    (raised : Nat) (place : Option (Place T)) : Prop where
  sync : q.fn = none ∨ q.fn = p.fn t
  outstanding : place ≠ none → p.Outstanding
  once : place = some .completed → raised = 1
  never : p.Outstanding → place ≠ some .completed → raised = 0
  semaphore : ∀ k, p = .waiting k → req.done = raised
  known : p.Outstanding → req.input.Known
  notFailing : ¬ p.Failing

/-- Every record is in at most one place, and `done` was raised for it if and
only if it is completed. -/
structure Placed {T S F : Type} (s : Sys T S F) (owner : T → Option (Place T)) : Prop where
  places : Owned s.InPlace owner
  nodup : s.queue.q.head.Nodup
  threads : ∀ t, ThreadOk t (s.queue.pc t) (s.pc t) (s.record t) (s.raised t) (owner t)
  handles : ∀ hd ∈ s.handles, hd.Ok

/-- At most the thread `t` has moved, and its record changed. -/
structure OnlyMoved {T S F : Type} (t : T) (s s' : Sys T S F) : Prop where
  queue : ∀ u, u ≠ t → s'.queue.pc u = s.queue.pc u
  pc : ∀ u, u ≠ t → s'.pc u = s.pc u
  record : ∀ u, u ≠ t → s'.record u = s.record u
  raised : ∀ u, u ≠ t → s'.raised u = s.raised u

section Frames

variable {T S F : Type} {s s' : Sys T S F} {t : T} {owner owner' : T → Option (Place T)}

/-- Nothing a place can be read off has changed. -/
theorem inPlace_same (hm : OnlyMoved t s s') (hhead : s'.queue.q.head = s.queue.q.head)
    (hins : toInsert (s'.queue.pc t) = toInsert (s.queue.pc t)) (hhands : s'.hands t = s.hands t)
    (hback : ∀ h u, s'.InPlace (.backend h) u ↔ s.InPlace (.backend h) u)
    (hcomp : (s'.pc t).Completed (s'.record t).done ↔ (s.pc t).Completed (s.record t).done) :
    ∀ p u, s'.InPlace p u ↔ s.InPlace p u := by
  intro p u
  cases p with
  | pushing =>
      by_cases hu : u = t
      · subst hu; simp [Sys.InPlace, hins]
      · simp [Sys.InPlace, hm.queue u hu]
  | queued => simp [Sys.InPlace, hhead]
  | daemon d =>
      by_cases hd : d = t
      · subst hd; simp [Sys.InPlace, hhands]
      · simp [Sys.InPlace, Sys.hands, hm.queue d hd, hm.pc d hd]
  | backend h => exact hback h u
  | completed =>
      by_cases hu : u = t
      · subst hu; exact hcomp
      · simp [Sys.InPlace, hm.pc u hu, hm.record u hu]

/-- The record's new place says the same about `done`. -/
theorem ThreadOk.reown {q : QueuePc T} {p : Pc T S} {req : FuseUkfsRequest} {n : Nat}
    {o o' : Option (Place T)} (h : ThreadOk t q p req n o) (hsome : o' ≠ none → o ≠ none)
    (hcomp : o' = some .completed ↔ o = some .completed) : ThreadOk t q p req n o' :=
  { h with
    outstanding := fun ho => h.outstanding (hsome ho)
    once := fun ho => h.once (hcomp.mp ho)
    never := fun hp ho => h.never hp fun hold => ho (hcomp.mpr hold) }

/-- A thread that waits for nothing. -/
theorem ThreadOk.idle {q : QueuePc T} {p : Pc T S} {req : FuseUkfsRequest} {n : Nat}
    (hsync : q.fn = none ∨ q.fn = p.fn t) (hp : ¬ p.Outstanding) (hfail : ¬ p.Failing) :
    ThreadOk t q p req n none where
  sync := hsync
  outstanding ho := absurd rfl ho
  once ho := absurd ho (by simp)
  never ho := absurd ho hp
  semaphore k hk := by subst hk; exact absurd trivial hp
  known ho := absurd ho hp
  notFailing := hfail

/-- A step that moves one thread: its own case has to be shown, and that no
other record is completed or brought into a place. -/
theorem Placed.next (h : Placed s owner) (hm : OnlyMoved t s s')
    (hplaces : Owned s'.InPlace owner') (hnodup : s'.queue.q.head.Nodup)
    (hthread : ThreadOk t (s'.queue.pc t) (s'.pc t) (s'.record t) (s'.raised t) (owner' t))
    (hsome : ∀ u, u ≠ t → owner' u ≠ none → owner u ≠ none)
    (hcomp : ∀ u, u ≠ t → (owner' u = some .completed ↔ owner u = some .completed))
    (hhandles : ∀ hd ∈ s'.handles, hd.Ok) : Placed s' owner' where
  places := hplaces
  nodup := hnodup
  handles := hhandles
  threads := by
    intro u
    by_cases hu : u = t
    · subst hu; exact hthread
    · rw [hm.queue u hu, hm.pc u hu, hm.record u hu, hm.raised u hu]
      exact (h.threads u).reown (hsome u hu) (hcomp u hu)

/-- A step after which every record is where it was. -/
theorem Placed.stay (h : Placed s owner) (hm : OnlyMoved t s s')
    (hhead : s'.queue.q.head = s.queue.q.head)
    (hins : toInsert (s'.queue.pc t) = toInsert (s.queue.pc t)) (hhands : s'.hands t = s.hands t)
    (hback : ∀ h u, s'.InPlace (.backend h) u ↔ s.InPlace (.backend h) u)
    (hcomp : (s'.pc t).Completed (s'.record t).done ↔ (s.pc t).Completed (s.record t).done)
    (hthread : ThreadOk t (s'.queue.pc t) (s'.pc t) (s'.record t) (s'.raised t) (owner t))
    (hhandles : ∀ hd ∈ s'.handles, hd.Ok) : Placed s' owner :=
  h.next hm (h.places.same (inPlace_same hm hhead hins hhands hback hcomp))
    (by rw [hhead]; exact h.nodup) hthread (fun _ _ => id) (fun _ _ => .rfl) hhandles

/-! ### Reading the invariant -/

theorem Placed.outstanding_of (h : Placed s owner) {p : Place T} (hp : s.InPlace p t) :
    (s.pc t).Outstanding :=
  (h.threads t).outstanding (by rw [(h.places p t).mp hp]; simp)

/-- A free thread has no record anywhere. -/
theorem Placed.owner_none (h : Placed s owner) (ht : ¬ (s.pc t).Outstanding) : owner t = none := by
  by_contra hne
  exact ht ((h.threads t).outstanding hne)

/-- A pusher pushes its own record, and waits for it. -/
theorem Placed.pusher (h : Placed s owner) {req : T} (hq : (s.queue.pc t).fn = some (.push req)) :
    req = t ∧ ∃ k, s.pc t = .waiting k := by
  rcases (h.threads t).sync with hnone | hsome
  · rw [hq] at hnone; exact absurd hnone (by simp)
  · exact Pc.fn_push (hq.symm.trans hsome)

theorem Placed.popper (h : Placed s owner) (hq : (s.queue.pc t).fn = some .pop) :
    ∃ se buf, s.pc t = .daemon se buf .loop := by
  rcases (h.threads t).sync with hnone | hsome
  · rw [hq] at hnone; exact absurd hnone (by simp)
  · exact Pc.fn_pop (hq.symm.trans hsome)

theorem Placed.initializer (h : Placed s owner) (hq : (s.queue.pc t).fn = some .init) :
    s.pc t = .vopenInit := by
  rcases (h.threads t).sync with hnone | hsome
  · rw [hq] at hnone; exact absurd hnone (by simp)
  · exact Pc.fn_init (hq.symm.trans hsome)

/-- Outside the operations that call a queue function a thread is in none. -/
theorem Placed.queue_out (h : Placed s owner) (ht : (s.pc t).fn t = none) :
    s.queue.pc t = .out := by
  have hnone : (s.queue.pc t).fn = none := by
    rcases (h.threads t).sync with hn | hs
    · exact hn
    · rw [hs, ht]
  cases hq : s.queue.pc t <;> simp_all [QueuePc.fn]

end Frames

end UkfsFuse
