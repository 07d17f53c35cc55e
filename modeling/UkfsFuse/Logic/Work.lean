import Mathlib.Algebra.BigOperators.Group.Finset.Basic
import Mathlib.Algebra.BigOperators.Group.Finset.Piecewise
import Mathlib.Tactic.Ring
import UkfsFuse.Logic.Steps

/-!
# What is left to do

Every statement of a client, a daemon or a reply function brings an operation
nearer to its end. `Sys.work` counts the statements that are left at most, for
the threads of a finite set: those of a thread where it is, those of the daemon
for every request that is announced by `count`, and those of the reply
functions. A push pays for the pass of the daemon it causes, and the hand-over
to libfuse for the reply.
-/

namespace UkfsFuse

open UkfsFuse.Core

variable {T S F : Type}

/-! ## Counting -/

/-- What the daemon does for a request whose push has raised `count`. -/
def passWork : Nat := 16

/-- No reply function has more effects. -/
def replyWork : Nat := 6

/-- Statements left in a queue function, and for what it has announced. -/
def QueuePc.work : QueuePc T → Nat
  | .pushLock _ => 21
  | .pushInsert _ => 20
  | .pushUnlock _ => 19
  | .pushUp _ => 18
  | .popLock => 15
  | .popRemove => 14
  | .popUnlock _ => 13
  | .popReturn _ => 12
  | .initHead => 4
  | .initLock => 3
  | .initCount => 2
  | .out => 1
  | .popDown | .assertFailed => 0

/-- Statements left after `done` was raised: a read may follow an open. -/
def Cont.work : Cont → Nat
  | .open_ .. => 24
  | _ => 1

/-- Statements left of the pass of a daemon. -/
def DaemonPc.work : DaemonPc T → Nat
  | .popped _ => 10
  | .handover _ => 9
  | .failing _ acts => acts.length + 1
  | .inCallback _ | .device _ => 1
  | .loop | .overrun _ => 0

/-- Statements left outside the queue functions. -/
def Pc.work : Pc T S → Nat
  | .readTest .. => 46
  | .readSubmit .. => 23
  | .waiting k => k.work + 1
  | .woken k => k.work
  | .daemon _ _ pc => pc.work
  | .idle | .undefined_ | .vopenInit => 0

/-- Effects left of a reply, or of one to come. -/
def Handle.work (hd : Handle T S) : Nat :=
  match hd.answer with
  | none => replyWork + 1
  | some _ => hd.todo.length

namespace Sys

/-- Statements left of thread `t`. -/
def threadWork (s : Sys T S F) (t : T) : Nat := (s.pc t).work + (s.queue.pc t).work

/-- Statements left for requests no thread works on. -/
def sharedWork (s : Sys T S F) : Nat :=
  passWork * s.queue.q.count + (s.handles.map Handle.work).sum

/-- Statements left, of the threads in `A`. -/
def work (A : Finset T) (s : Sys T S F) : Nat := ∑ t ∈ A, s.threadWork t + s.sharedWork

/-- Nobody outside `A` has begun anything. -/
def Within (A : Finset T) (s : Sys T S F) : Prop :=
  ∀ t, t ∉ A → s.pc t = .idle ∧ s.queue.pc t = .out

end Sys

section Counting

variable [DecidableEq T] {s s' : Sys T S F} {t : T} {A : Finset T}

/-- Thread `t` takes a step: it is at another place now, and less is left. -/
structure Advances (t : T) (s s' : Sys T S F) : Prop where
  pc : ∀ u, u ≠ t → s'.pc u = s.pc u
  queue : ∀ u, u ≠ t → s'.queue.pc u = s.queue.pc u
  less : s'.threadWork t + s'.sharedWork < s.threadWork t + s.sharedWork

omit [DecidableEq T] in
theorem Advances.within (h : Advances t s s') (hA : s.Within A) (ht : t ∈ A) : s'.Within A := by
  intro u hu
  have hut : u ≠ t := fun heq => hu (heq ▸ ht)
  rw [h.pc u hut, h.queue u hut]
  exact hA u hu

theorem Advances.work_lt (h : Advances t s s') (ht : t ∈ A) : s'.work A < s.work A := by
  have hrest : ∑ u ∈ A.erase t, s'.threadWork u = ∑ u ∈ A.erase t, s.threadWork u := by
    refine Finset.sum_congr rfl fun u hu => ?_
    have hut := (Finset.mem_erase.mp hu).1
    rw [Sys.threadWork, Sys.threadWork, h.pc u hut, h.queue u hut]
  have hless := h.less
  rw [Sys.work, Sys.work, ← Finset.add_sum_erase A s'.threadWork ht,
    ← Finset.add_sum_erase A s.threadWork ht, hrest]
  omega

omit [DecidableEq T] in
/-- No thread has moved, and less is left of the replies. -/
theorem work_lt_of_shared (hpc : s'.pc = s.pc) (hqueue : s'.queue = s.queue)
    (hless : s'.sharedWork < s.sharedWork) : s'.work A < s.work A := by
  have hsame : ∀ u, s'.threadWork u = s.threadWork u := fun u => by
    rw [Sys.threadWork, Sys.threadWork, hpc, hqueue]
  simp only [Sys.work, hsame]
  omega

end Counting

/-! ## Inside the queue functions -/

section Queue

variable [DecidableEq T] {s : Sys T S F} {t : T} {queue : QueueState T T}

/-- A statement inside the queue functions. -/
theorem advances_tick {v : QueuePc T} {n : Nat}
    (hpc : queue.pc = Function.update s.queue.pc t v) (hcount : queue.q.count = n)
    (hless : passWork * n + v.work < passWork * s.queue.q.count + (s.queue.pc t).work) :
    Advances t s { s with queue := queue } where
  pc _ _ := rfl
  queue u hu := by simp [hpc, hu]
  less := by
    simp only [Sys.threadWork, Sys.sharedWork, hpc, hcount, Function.update_self]
    omega

/-- A statement that leaves the count alone. -/
theorem advances_move {v : QueuePc T} (hpc : queue.pc = Function.update s.queue.pc t v)
    (hcount : queue.q.count = s.queue.q.count) (hless : v.work < (s.queue.pc t).work) :
    Advances t s { s with queue := queue } :=
  advances_tick hpc hcount (Nat.add_lt_add_left hless _)

theorem tick_advances (hs : s.queue.tick t = some queue) :
    Advances t s { s with queue := queue } := by
  unfold QueueState.tick at hs
  cases hat : s.queue.pc t with
  | out => simp [hat] at hs
  | popReturn req => simp [hat] at hs
  | assertFailed => simp [hat] at hs
  | pushLock req =>
      simp only [hat] at hs
      obtain ⟨q, hq, rfl⟩ := Option.map_eq_some_iff.mp hs
      exact advances_move rfl (mutexLock_frame hq).2 (by simp [hat, QueuePc.work])
  | popLock =>
      simp only [hat] at hs
      obtain ⟨q, hq, rfl⟩ := Option.map_eq_some_iff.mp hs
      exact advances_move rfl (mutexLock_frame hq).2 (by simp [hat, QueuePc.work])
  | popDown =>
      simp only [hat] at hs
      obtain ⟨q, hq, rfl⟩ := Option.map_eq_some_iff.mp hs
      unfold FuseUkfsQueue.semaphoreDown at hq
      split at hq
      · exact absurd hq (by simp)
      · rename_i n hcount
        obtain rfl := Option.some.inj hq
        -- what was left for some request is now left of this call
        refine advances_tick (n := n) rfl rfl ?_
        simp only [hcount, hat, QueuePc.work, passWork]
        omega
  | popRemove =>
      simp only [hat] at hs
      split at hs
      · obtain rfl := Option.some.inj hs
        exact advances_move rfl rfl (by simp [hat, QueuePc.work])
      · rename_i req rest _
        obtain rfl := Option.some.inj hs
        exact advances_move (v := .popUnlock req) rfl rfl (by simp [hat, QueuePc.work])
  | pushUp req =>
      simp only [hat, Option.some.injEq] at hs
      subst hs
      refine advances_tick (n := s.queue.q.count + 1) rfl rfl ?_
      simp only [hat, QueuePc.work, passWork]
      omega
  | pushInsert req =>
      simp only [hat, Option.some.injEq] at hs
      subst hs
      exact advances_move (v := .pushUnlock req) rfl rfl (by simp [hat, QueuePc.work])
  | pushUnlock req =>
      simp only [hat, Option.some.injEq] at hs
      subst hs
      exact advances_move rfl rfl (by simp [hat, QueuePc.work])
  | popUnlock req =>
      simp only [hat, Option.some.injEq] at hs
      subst hs
      exact advances_move rfl rfl (by simp [hat, QueuePc.work])
  | initHead =>
      simp only [hat, Option.some.injEq] at hs
      subst hs
      exact advances_move rfl rfl (by simp [hat, QueuePc.work])
  | initLock =>
      simp only [hat, Option.some.injEq] at hs
      subst hs
      exact advances_move rfl rfl (by simp [hat, QueuePc.work])
  | initCount =>
      simp only [hat, Option.some.injEq] at hs
      subst hs
      refine advances_tick (n := 0) rfl rfl ?_
      simp only [hat, QueuePc.work]
      omega

end Queue

/-! ## Clients, daemons and replies -/

section Steps

variable [DecidableEq T] {ops : S → FuseLowlevelOps} {s s' : Sys T S F} {t : T}

/-- A thread goes on outside the queue functions. -/
theorem advances_setPc {v : Pc T S} (hpc : s'.pc = Function.update s.pc t v)
    (hqueue : s'.queue = s.queue) (hhandles : s'.handles = s.handles)
    (hless : v.work < (s.pc t).work) : Advances t s s' where
  pc u hu := by simp [hpc, hu]
  queue u _ := by rw [hqueue]
  less := by
    simp only [Sys.threadWork, Sys.sharedWork, hpc, hqueue, hhandles, Function.update_self]
    omega

/-- A client that asks goes on to wait for the answer. -/
theorem submit_advances {n : Nat} {input : RequestIn} {k : Cont}
    (hs : s.submit t n input k = some s') (hless : k.work + 21 < (s.pc t).work) :
    Advances t s s' := by
  obtain ⟨queue, hq, rfl⟩ := Option.map_eq_some_iff.mp hs
  obtain ⟨hout, rfl⟩ := QueueState.callPush_eq hq
  refine ⟨fun u hu => by simp [hu], fun u hu => by simp [QueueState.move, hu], ?_⟩
  have hwait : (Pc.waiting k : Pc T S).work = k.work + 1 := rfl
  simp only [Sys.threadWork, Sys.sharedWork, QueueState.move, Function.update_self, hout,
    QueuePc.work, hwait]
  omega

variable [Platform]

theorem finish_advances {k : Cont} (answer : Answer) (ok : Bool) (hpc : s.pc t = .woken k) :
    Advances t s (s.finish t answer ok k) := by
  rcases Sys.finish_cases (s := s) (t := t) answer ok k with ⟨v, hv, heq⟩ |
    ⟨n, iov, off, e, fh, rfl, -, heq⟩ | ⟨n, path, len, e, rfl, -, heq⟩
  · rw [heq]
    refine advances_setPc rfl rfl rfl ?_
    have hzero : v.work = 0 := by cases v <;> first | rfl | exact hv.elim
    rw [hzero, hpc]
    cases k <;> simp [Pc.work, Cont.work]
  · rw [heq]
    exact advances_setPc rfl rfl rfl (by simp [hpc, Pc.work, Cont.work])
  · rw [heq]
    exact advances_setPc rfl rfl rfl (by simp [hpc, Pc.work, Cont.work])

theorem runClient_advances {ok : Bool} (hs : s.runClient t ok = some s') : Advances t s s' := by
  unfold Sys.runClient at hs
  cases hpc : s.pc t with
  | readTest n iov off =>
      simp only [hpc] at hs
      obtain ⟨node, hn, hs⟩ := Option.bind_eq_some_iff.mp hs
      split_ifs at hs with hunset
      · exact submit_advances hs (by simp [hpc, Pc.work, Cont.work])
      · obtain rfl := Option.some.inj hs
        exact advances_setPc rfl rfl rfl (by simp [hpc, Pc.work])
  | readSubmit n iov off =>
      simp only [hpc] at hs
      obtain ⟨node, hn, hs⟩ := Option.bind_eq_some_iff.mp hs
      split at hs
      · obtain rfl := Option.some.inj hs
        exact advances_setPc rfl rfl rfl (by simp [hpc, Pc.work])
      · exact submit_advances hs (by simp [hpc, Pc.work, Cont.work])
  | waiting k =>
      simp only [hpc, Sys.down] at hs
      split at hs
      · obtain rfl := Option.some.inj hs
        exact advances_setPc rfl rfl rfl (by simp [hpc, Pc.work])
      · exact absurd hs (by simp)
  | woken k =>
      simp only [hpc, Option.some.injEq] at hs
      subst hs
      exact finish_advances _ ok hpc
  | _ => simp [hpc] at hs

omit [DecidableEq T] [Platform] in
theorem sharedWork_append (hd : Handle T S) (nodes : List (Handle T S)) :
    ((nodes ++ [hd]).map Handle.work).sum = (nodes.map Handle.work).sum + hd.work := by
  simp

omit [Platform] in
theorem runDaemon_advances {se : S} {buf : Mem} {pc : DaemonPc T} {ok : Bool}
    (hpc : s.pc t = .daemon se buf pc) (hs : s.runDaemon ops t se buf ok pc = some s') :
    Advances t s s' := by
  cases pc with
  | loop =>
      simp only [Sys.runDaemon] at hs
      split at hs
      · rename_i req hat
        obtain ⟨queue, hq, rfl⟩ := Option.map_eq_some_iff.mp hs
        obtain ⟨req', -, rfl⟩ := QueueState.ret_eq hq
        refine ⟨fun u hu => by simp [Sys.setPc, hu],
          fun u hu => by simp [QueueState.move, hu], ?_⟩
        simp only [Sys.threadWork, Sys.sharedWork, Sys.setPc, QueueState.move,
          Function.update_self, hat, hpc, Pc.work, DaemonPc.work, QueuePc.work]
        omega
      · obtain ⟨queue, hq, rfl⟩ := Option.map_eq_some_iff.mp hs
        obtain ⟨hout, rfl⟩ := QueueState.callPop_eq hq
        exact advances_move rfl rfl (by simp [hout, QueuePc.work])
  | popped req =>
      simp only [Sys.runDaemon] at hs
      split at hs
      · obtain rfl := Option.some.inj hs
        exact advances_setPc rfl rfl rfl
          (by simp [hpc, Pc.work, DaemonPc.work, unknownOpcodeActs])
      · obtain rfl := Option.some.inj hs
        exact advances_setPc rfl rfl rfl (by simp [hpc, Pc.work, DaemonPc.work])
      · obtain rfl := Option.some.inj hs
        exact advances_setPc rfl rfl rfl (by simp [hpc, Pc.work, DaemonPc.work])
  | failing req acts =>
      cases acts with
      | nil =>
          obtain rfl := Option.some.inj hs
          exact advances_setPc rfl rfl rfl (by simp [hpc, Pc.work, DaemonPc.work])
      | cons act acts =>
          obtain rfl := Option.some.inj hs
          exact advances_setPc rfl rfl rfl (by simp [hpc, Pc.work, DaemonPc.work])
  | handover req =>
      simp only [Sys.runDaemon] at hs
      split at hs
      · obtain rfl := Option.some.inj hs
        exact advances_setPc rfl rfl rfl (by simp [hpc, Pc.work, DaemonPc.work])
      · rename_i r what hproc
        obtain rfl := Option.some.inj hs
        refine ⟨fun u hu => by simp [Sys.setPc, hu], fun u _ => rfl, ?_⟩
        simp only [Sys.threadWork, Sys.sharedWork, Sys.setPc, Function.update_self,
          sharedWork_append, hpc, Pc.work, DaemonPc.work, Handle.work, replyWork]
        omega
  | inCallback h =>
      obtain ⟨hd, -, hs⟩ := Option.bind_eq_some_iff.mp hs
      split_ifs at hs
      obtain rfl := Option.some.inj hs
      exact advances_setPc rfl rfl rfl (by simp [hpc, Pc.work, DaemonPc.work])
  | device req =>
      obtain rfl := Option.some.inj hs
      exact advances_setPc rfl rfl rfl (by simp [hpc, Pc.work, DaemonPc.work])
  | overrun req => exact absurd hs (by simp [Sys.runDaemon])

/-- A statement of a thread outside the queue functions. -/
theorem run_advances {ok : Bool} (hs : s.run ops t ok = some s') : Advances t s s' := by
  unfold Sys.run at hs
  split at hs
  · exact runDaemon_advances ‹_› hs
  · exact runClient_advances hs

theorem Reply.length_acts_le (r : Reply) (se : FuseSession) (mallocOk : Bool) :
    (r.acts se mallocOk).length ≤ replyWork := by
  cases r <;>
    simp only [Reply.acts, fuseReplyErr, fuseReplyEntry, fuseReplyAttr, fuseReplyOpen,
      fuseReplyBuf, fuseReplyIov, fuseReplyData, replyObject, replyWork] <;>
    (repeat' split) <;> simp

omit [DecidableEq T] [Platform] in
/-- A handle with less left to do. -/
theorem sum_work_set {hs : List (Handle T S)} {b : Nat} {hd hd' : Handle T S}
    (hh : hs[b]? = some hd) (hless : hd'.work < hd.work) :
    ((hs.set b hd').map Handle.work).sum < (hs.map Handle.work).sum := by
  induction hs generalizing b with
  | nil => exact absurd hh (by simp)
  | cons x hs ih =>
      cases b with
      | zero =>
          obtain rfl := Option.some.inj (List.getElem?_cons_zero.symm.trans hh)
          simpa using hless
      | succ b => simpa using ih (by simpa using hh)

omit [DecidableEq T] in
theorem reply_sharedWork_lt {b : Nat} {r : Reply} {ok : Bool}
    (hs : s.reply ops b r ok = some s') :
    s'.pc = s.pc ∧ s'.queue = s.queue ∧ s'.sharedWork < s.sharedWork := by
  obtain ⟨hd, hh, hs⟩ := Option.bind_eq_some_iff.mp hs
  split_ifs at hs with hacc
  obtain rfl := Option.some.inj hs
  refine ⟨rfl, rfl, Nat.add_lt_add_left (sum_work_set hh ?_) _⟩
  have hlen := r.length_acts_le (fuseSessionNewVersioned (ops hd.se)) ok
  simp only [Handle.work, hacc.1]
  omega

omit [Platform] in
theorem replyStep_sharedWork_lt {b : Nat} (hs : s.replyStep b = some s')
    (hcalled : ∀ hd ∈ s.handles, hd.answer = none → hd.todo = []) :
    s'.pc = s.pc ∧ s'.queue = s.queue ∧ s'.sharedWork < s.sharedWork := by
  obtain ⟨hd, hh, hs⟩ := Option.bind_eq_some_iff.mp hs
  split at hs
  · exact absurd hs (by simp)
  · rename_i act rest htodo
    obtain rfl := Option.some.inj hs
    refine ⟨rfl, rfl, Nat.add_lt_add_left (sum_work_set hh ?_) _⟩
    cases hanswer : hd.answer with
    | none =>
        have hnil := hcalled hd (List.mem_of_getElem? hh) hanswer
        rw [htodo] at hnil
        exact absurd hnil (by simp)
    | some r => simp [Handle.work, hanswer, htodo]

end Steps

end UkfsFuse
