import UkfsFuse.Logic.Answers
import UkfsFuse.Logic.Work

/-!
# Who can go on

For every place a thread can be at, what it takes to go on from there. Inside
the queue functions a thread waits for the lock or for the count, and the lock
is with a thread that can go on (`LockHeld`). Outside them a daemon waits for
the callback it has called, and nobody else for anything but its semaphore.
-/

namespace UkfsFuse

open UkfsFuse.Core QueuePc

/-! ## Inside the queue functions -/

section Queue

variable {T R : Type} {s s' : QueueState T R} {t u : T}

/-- Who has the lock is between its two calls. -/
def LockHeld (s : QueueState T R) : Prop :=
  ∀ u, s.q.lock = some u → InCritical (s.pc u)

/-- The thread is in no queue function, has a request to return, or waits for
a request or for the lock. -/
def QueuePc.Stops (q : FuseUkfsQueue T R) : QueuePc R → Prop
  | .out | .popReturn _ | .assertFailed => True
  | .popDown => q.count = 0
  | .pushLock _ | .popLock => q.lock ≠ none
  | _ => False

variable [DecidableEq T]

theorem stops_of_tick (h : s.tick t = none) : (s.pc t).Stops s.q := by
  unfold QueueState.tick at h
  cases hpc : s.pc t with
  | pushLock req =>
      intro hfree
      simp [hpc, FuseUkfsQueue.mutexLock, hfree] at h
  | popLock =>
      intro hfree
      simp [hpc, FuseUkfsQueue.mutexLock, hfree] at h
  | popDown =>
      simp only [hpc, Option.map_eq_none_iff, FuseUkfsQueue.semaphoreDown] at h
      split at h
      · assumption
      · exact absurd h (by simp)
  | popRemove =>
      simp only [hpc] at h
      split at h <;> exact absurd h (by simp)
  | out => trivial
  | popReturn req => trivial
  | assertFailed => trivial
  | _ => simp [hpc] at h

/-- The holder of the lock moves on inside, or it is another thread that moves
outside. -/
theorem LockHeld.move (h : LockHeld s) {v : QueuePc R}
    (hpc : s'.pc = Function.update s.pc t v) (hlock : s'.q.lock = s.q.lock)
    (hv : InCritical (s.pc t) → InCritical v) : LockHeld s' := by
  intro u hu
  rw [hlock] at hu
  rw [hpc]
  by_cases hut : u = t
  · subst hut
    rw [Function.update_self]
    exact hv (h u hu)
  · rw [Function.update_of_ne hut]
    exact h u hu

omit [DecidableEq T] in
theorem lockHeld_free (hlock : s'.q.lock = none) : LockHeld s' := fun u hu => by
  rw [hlock] at hu
  exact absurd hu (by simp)

theorem LockHeld.lock {q : FuseUkfsQueue T R} (v : QueuePc R)
    (hpc : s'.pc = Function.update s.pc t v) (hq : s.q.mutexLock t = some q)
    (hlock : s'.q.lock = q.lock) (hv : InCritical v) : LockHeld s' := by
  unfold FuseUkfsQueue.mutexLock at hq
  split at hq
  · obtain rfl := Option.some.inj hq
    intro u hu
    obtain rfl := Option.some.inj (hlock.symm.trans hu)
    rw [hpc, Function.update_self]
    exact hv
  · exact absurd hq (by simp)

theorem LockHeld.tick (h : LockHeld s) (hinv : QueueInv s) (hs : s.tick t = some s') :
    LockHeld s' := by
  unfold QueueState.tick at hs
  cases hpc : s.pc t with
  | out => simp [hpc] at hs
  | popReturn req => simp [hpc] at hs
  | assertFailed => simp [hpc] at hs
  | pushLock req =>
      simp only [hpc] at hs
      obtain ⟨q, hq, rfl⟩ := Option.map_eq_some_iff.mp hs
      exact .lock (.pushInsert req) rfl hq rfl trivial
  | popLock =>
      simp only [hpc] at hs
      obtain ⟨q, hq, rfl⟩ := Option.map_eq_some_iff.mp hs
      exact .lock .popRemove rfl hq rfl trivial
  | popDown =>
      simp only [hpc] at hs
      obtain ⟨q, hq, rfl⟩ := Option.map_eq_some_iff.mp hs
      refine h.move rfl ?_ (by simp [hpc, InCritical])
      unfold FuseUkfsQueue.semaphoreDown at hq
      split at hq
      · exact absurd hq (by simp)
      · obtain rfl := Option.some.inj hq
        rfl
  | popRemove =>
      simp only [hpc] at hs
      split at hs
      · exact absurd ‹_› (hinv.head_ne_nil (t := t) (by rw [hpc]; trivial))
      · rename_i req rest _
        obtain rfl := Option.some.inj hs
        exact h.move (v := .popUnlock req) rfl rfl fun _ => trivial
  | pushInsert req =>
      simp only [hpc, Option.some.injEq] at hs
      subst hs
      exact h.move (v := .pushUnlock req) rfl rfl fun _ => trivial
  | pushUnlock req =>
      simp only [hpc, Option.some.injEq] at hs
      subst hs
      exact lockHeld_free rfl
  | popUnlock req =>
      simp only [hpc, Option.some.injEq] at hs
      subst hs
      exact lockHeld_free rfl
  | initLock =>
      simp only [hpc, Option.some.injEq] at hs
      subst hs
      exact lockHeld_free rfl
  | pushUp req =>
      simp only [hpc, Option.some.injEq] at hs
      subst hs
      exact h.move rfl rfl (by simp [hpc, InCritical])
  | initHead =>
      simp only [hpc, Option.some.injEq] at hs
      subst hs
      exact h.move rfl rfl (by simp [hpc, InCritical])
  | initCount =>
      simp only [hpc, Option.some.injEq] at hs
      subst hs
      exact h.move rfl rfl (by simp [hpc, InCritical])

/-- The calls and returns of the queue functions leave the lock alone. -/
theorem LockHeld.step (h : LockHeld s) (hinv : QueueInv s) {a : QueueAct T R}
    (hs : s.step a = some s') : LockHeld s' := by
  cases a with
  | tick t => exact h.tick hinv hs
  | callPush t req =>
      obtain ⟨hout, rfl⟩ := QueueState.callPush_eq hs
      exact h.move (v := .pushLock req) rfl rfl (by simp [hout, InCritical])
  | callPop t =>
      obtain ⟨hout, rfl⟩ := QueueState.callPop_eq hs
      exact h.move rfl rfl (by simp [hout, InCritical])
  | callInit t =>
      obtain ⟨hout, rfl⟩ := QueueState.callInit_eq hs
      exact h.move rfl rfl (by simp [hout, InCritical])
  | ret t =>
      obtain ⟨req, hat, rfl⟩ := QueueState.ret_eq hs
      exact h.move (v := .out) rfl rfl (by simp [hat, InCritical])

/-- If nobody goes on inside the queue functions, nobody waits for the lock,
and no request is on its way into the queue. -/
theorem QueueInv.idle_of_stops (h : QueueInv s) (hheld : LockHeld s)
    (hstops : ∀ u, (s.pc u).Stops s.q) (u : T) :
    s.pc u = .out ∨ (∃ req, s.pc u = .popReturn req) ∨
      (s.pc u = .popDown ∧ s.q.count = 0 ∧ s.q.head = []) := by
  have hfree : s.q.lock = none := by
    by_contra hne
    obtain ⟨w, hw⟩ := Option.ne_none_iff_exists'.mp hne
    have hin := hheld w hw
    have hstop := hstops w
    cases hpc : s.pc w <;> rw [hpc] at hin hstop <;> first | exact hin.elim | exact hstop.elim
  have hnot : ∀ w, ¬ PastDown (s.pc w) ∧ ¬ BeforeUp (s.pc w) := by
    intro w
    have hstop := hstops w
    constructor <;> intro hin <;> cases hpc : s.pc w <;> rw [hpc] at hin hstop <;>
      first | exact hin.elim | exact hstop.elim | exact hstop hfree
  have hstop := hstops u
  cases hpc : s.pc u with
  | out => exact .inl rfl
  | popReturn req => exact .inr (.inl ⟨req, rfl⟩)
  | popDown =>
      rw [hpc] at hstop
      have hzero : s.q.count = 0 := hstop
      obtain ⟨m, n, hm, hn, hlen⟩ := h.balance
      have hm0 : m = 0 := by
        by_contra hne
        obtain ⟨w, hw⟩ := hm.exists_of_pos (Nat.pos_of_ne_zero hne)
        exact (hnot w).1 hw
      have hn0 : n = 0 := by
        by_contra hne
        obtain ⟨w, hw⟩ := hn.exists_of_pos (Nat.pos_of_ne_zero hne)
        exact (hnot w).2 hw
      exact .inr (.inr ⟨rfl, hzero, List.length_eq_zero_iff.mp (by omega)⟩)
  | assertFailed => exact absurd hpc (h.noAssert u)
  | pushLock req => rw [hpc] at hstop; exact absurd hfree hstop
  | popLock => rw [hpc] at hstop; exact absurd hfree hstop
  | _ => rw [hpc] at hstop; exact hstop.elim

end Queue

/-! ## Outside them -/

section Steps

variable {T S F : Type}

/-- The node a reader reads, until it has asked for it. -/
def Pc.reading : Pc T S → Option Nat
  | .readTest n _ _ | .readSubmit n _ _ => some n
  | .waiting (.open_ n _ _) | .woken (.open_ n _ _) => some n
  | _ => none

theorem Pc.Returned.reading {p : Pc T S} (h : p.Returned) : p.reading = none := by
  cases p <;> first | rfl | exact h.elim

/-- The step is one of `fusefs_vopen`. -/
def SysAct.Mounts : SysAct T S F → Prop
  | .vopen .. | .start .. => True
  | _ => False

/-- The thread is a daemon. -/
def Pc.IsDaemon : Pc T S → Prop
  | .daemon .. => True
  | _ => False

theorem Pc.Free.not_isDaemon {p : Pc T S} (h : p.Free) : ¬ p.IsDaemon := by
  cases p <;> first | exact id | exact h.elim

variable [DecidableEq T] [Platform] {ops : S → FuseLowlevelOps} {s s' : Sys T S F}
  {a : SysAct T S F} {t : T}

/-- What a step does to the threads: nothing, a thread that is no daemon is
none afterwards, or a daemon goes on. -/
inductive PcEffect (s s' : Sys T S F) : Prop
  | same (hpc : s'.pc = s.pc)
  | client (t : T) (v : Pc T S) (ht : ¬ (s.pc t).IsDaemon) (hv : ¬ v.IsDaemon)
      (hpc : s'.pc = Function.update s.pc t v)
  | daemon (d : T) (se : S) (buf buf' : Mem) (pc pc' : DaemonPc T)
      (hd : s.pc d = .daemon se buf pc)
      (hpc : s'.pc = Function.update s.pc d (.daemon se buf' pc'))
      (hrunning : ∀ b, pc' = .inCallback b → b < s'.handles.length)
      (hjammed : ∀ req, pc' = .overrun req →
        pc = .popped req ∧ daemonMessage buf (s.record req) = .overrun)

/-- Outside `fusefs_vopen` no thread begins its life as a daemon. -/
theorem Sys.Step.pcEffect (h : s.Step ops a s')
    (hstart : ¬ a.Mounts) : PcEffect s s' := by
  cases h with
  | stay a => exact .same rfl
  | mount se => exact .same rfl
  | graft a n node f hn => exact .same rfl
  | vopen t queue hpc hq => exact absurd trivial hstart
  | startNone t d buf startOk hpc hq => exact absurd trivial hstart
  | startDaemon t d buf se hpc hq hreg hd => exact absurd trivial hstart
  | goto a t v hpc hv => exact .client t v hpc.not_isDaemon hv.not_isDaemon rfl
  | submit a t n node input k s' hact hpc hn hasks hopen hs =>
      obtain ⟨queue, -, rfl⟩ := Option.map_eq_some_iff.mp hs
      exact .client t (.waiting k) hpc.not_isDaemon id rfl
  | down t k m ok hpc hq hdone => exact .client t (.woken k) (by rw [hpc]; exact id) id rfl
  | finish t k ok hpc =>
      obtain ⟨v, nodes, hv, heq⟩ := Sys.finish_eq (s := s) (t := t) (s.record t).answer ok k
      exact .client t v (by rw [hpc]; exact id) hv.not_isDaemon (by rw [heq]; rfl)
  | callPop d se buf ok queue hpc hq => exact .same rfl
  | ret d se buf ok req queue hpc hat hq =>
      exact .daemon d se buf buf .loop (.popped req) hpc rfl (by simp) (by simp)
  | unknown d se buf ok req hpc hmsg =>
      exact .daemon d se buf _ _ (.failing req unknownOpcodeActs) hpc rfl (by simp) (by simp)
  | overrun d se buf ok req hpc hmsg =>
      refine .daemon d se buf buf _ (.overrun req) hpc rfl (by simp) fun req' heq => ?_
      obtain rfl := DaemonPc.overrun.inj heq
      exact ⟨rfl, hmsg⟩
  | message d se buf msg ok req hpc hmsg =>
      exact .daemon d se buf msg _ (.handover req) hpc rfl (by simp) (by simp)
  | failed d se buf ok req hpc => exact .daemon d se buf buf _ .loop hpc rfl (by simp) (by simp)
  | fail d se buf ok req act acts hpc =>
      exact .daemon d se buf buf _ (.failing req acts) hpc rfl (by simp) (by simp)
  | noReq d se buf ok req hpc hproc =>
      exact .daemon d se buf buf _ (.device req) hpc rfl (by simp) (by simp)
  | handle d se buf ok req r what hpc hproc =>
      refine .daemon d se buf buf _ (.inCallback s.handles.length) hpc rfl ?_ (by simp)
      intro b heq
      obtain rfl := DaemonPc.inCallback.inj heq
      simp
  | returned d se buf ok b hpc => exact .daemon d se buf buf _ .loop hpc rfl (by simp) (by simp)
  | device d se buf ok req hpc => exact .daemon d se buf buf _ .loop hpc rfl (by simp) (by simp)
  | queue t queue hq => exact .same rfl
  | reply b hd r mallocOk hh hacc => exact .same rfl
  | replyStep b hd act rest hh htodo => exact .same rfl

omit [Platform] in
/-- A daemon is where it was, or has just gone on. -/
theorem PcEffect.daemon_cases (h : PcEffect s s') {d : T} {se : S} {buf : Mem} {pc : DaemonPc T}
    (hd : s'.pc d = .daemon se buf pc) :
    s.pc d = .daemon se buf pc ∨ ((∀ b, pc = .inCallback b → b < s'.handles.length) ∧
      ∀ req, pc = .overrun req → ∃ buf', s.pc d = .daemon se buf' (.popped req) ∧
        daemonMessage buf' (s.record req) = .overrun) := by
  cases h with
  | same hpc => exact .inl (by rw [← hpc, hd])
  | client t v ht hv hpc =>
      rw [hpc] at hd
      by_cases hdt : d = t
      · subst hdt
        rw [Function.update_self] at hd
        rw [hd] at hv
        exact absurd trivial hv
      · exact .inl (by rwa [Function.update_of_ne hdt] at hd)
  | daemon e se' old buf' pc₀ pc' he hpc hrunning hjammed =>
      rw [hpc] at hd
      by_cases hde : d = e
      · subst hde
        rw [Function.update_self] at hd
        obtain ⟨rfl, rfl, rfl⟩ := Pc.daemon.inj hd
        refine .inr ⟨hrunning, fun req heq => ?_⟩
        obtain ⟨rfl, hmsg⟩ := hjammed req heq
        exact ⟨old, he, hmsg⟩
      · exact .inl (by rwa [Function.update_of_ne hde] at hd)

omit [Platform] in
/-- A daemon stays one. -/
theorem PcEffect.isDaemon (h : PcEffect s s') {d : T} (hd : (s.pc d).IsDaemon) :
    (s'.pc d).IsDaemon := by
  cases h with
  | same hpc => rw [hpc]; exact hd
  | client t v ht hv hpc =>
      have hdt : d ≠ t := fun heq => ht (heq ▸ hd)
      rw [hpc, Function.update_of_ne hdt]
      exact hd
  | daemon e se old buf' pc pc' he hpc hrunning hjammed =>
      rw [hpc]
      by_cases hde : d = e
      · subst hde
        rw [Function.update_self]
        trivial
      · rw [Function.update_of_ne hde]
        exact hd

/-- Only a client between two requests writes a new one into its record. -/
theorem Sys.Step.input_kept (h : s.Step ops a s') (u : T) (hu : ¬ (s.pc u).Free) :
    (s'.record u).input = (s.record u).input := by
  cases h with
  | submit a t n node input k s' hact hpc hn hasks hopen hs =>
      obtain ⟨queue, -, rfl⟩ := Option.map_eq_some_iff.mp hs
      have hut : u ≠ t := fun heq => hu (heq ▸ hpc)
      simp [hut]
  | down t k m ok hpc hq hdone =>
      by_cases hut : u = t
      · subst hut; simp
      · simp [hut]
  | finish t k ok hpc =>
      obtain ⟨v, nodes, -, heq⟩ := Sys.finish_eq (s := s) (t := t) (s.record t).answer ok k
      rw [heq]
      rfl
  | fail d se buf ok req act acts hpc => exact input_applyAct act req u
  | replyStep b hd act rest hh htodo => exact input_applyAct act hd.ukfsReq u
  | _ => rfl

/-- The queue is changed by its functions only. -/
theorem Sys.Step.queue_eq (h : s.Step ops a s') :
    s'.queue = s.queue ∨ (∃ t, a = .queue t ∧ s.queue.tick t = some s'.queue) ∨
      ∃ qa, (∀ t, qa ≠ .tick t) ∧ s.queue.step qa = some s'.queue := by
  cases h with
  | vopen t queue hpc hq => exact .inr (.inr ⟨.callInit t, by simp, hq⟩)
  | submit a t n node input k s' hact hpc hn hasks hopen hs =>
      obtain ⟨queue, hq, rfl⟩ := Option.map_eq_some_iff.mp hs
      exact .inr (.inr ⟨.callPush t t, by simp, hq⟩)
  | finish t k ok hpc =>
      obtain ⟨v, nodes, -, heq⟩ := Sys.finish_eq (s := s) (t := t) (s.record t).answer ok k
      exact .inl (by rw [heq]; rfl)
  | callPop d se buf ok queue hpc hq => exact .inr (.inr ⟨.callPop d, by simp, hq⟩)
  | ret d se buf ok req queue hpc hat hq => exact .inr (.inr ⟨.ret d, by simp, hq⟩)
  | queue t queue hq => exact .inr (.inl ⟨t, rfl, hq⟩)
  | _ => exact .inl rfl

/-- The file of a node stays. -/
theorem Sys.Step.nodes_length_le (h : s.Step ops a s') : s.nodes.length ≤ s'.nodes.length := by
  cases h with
  | submit a t n node input k s' hact hpc hn hasks hopen hs =>
      obtain ⟨queue, -, rfl⟩ := Option.map_eq_some_iff.mp hs
      exact Nat.le_refl _
  | finish t k ok hpc =>
      rcases Sys.finish_cases (s := s) (t := t) (s.record t).answer ok k with ⟨v, hv, heq⟩ |
        ⟨n, iov, off, e, fh, rfl, -, heq⟩ | ⟨n, path, len, e, rfl, -, heq⟩ <;> rw [heq]
      · exact Nat.le_refl _
      · simp [Sys.setFh, Sys.setPc]
      · simp [Sys.addChild, Sys.setPc]
  | graft a n node f hn => simp [Sys.setFile]
  | startNone t d buf startOk hpc hq hnone => simp
  | startDaemon t d buf se hpc hq hreg hd => simp [Sys.setPc]
  | _ => exact Nat.le_refl _

omit [Platform] in
theorem queueStep_moves {q q' : QueueState T T} {qa : QueueAct T T} (hs : q.step qa = some q') :
    ∃ t v, q'.pc = Function.update q.pc t v := by
  cases qa with
  | tick t =>
      cases QueueState.tickEffect hs with
      | move v hpc => exact ⟨t, v, hpc⟩
      | insert req hat hpc => exact ⟨t, _, hpc⟩
      | remove req rest hat hreq hpc => exact ⟨t, _, hpc⟩
      | reset hat hpc => exact ⟨t, _, hpc⟩
  | callPush t req =>
      obtain ⟨-, rfl⟩ := QueueState.callPush_eq hs
      exact ⟨t, _, rfl⟩
  | callPop t =>
      obtain ⟨-, rfl⟩ := QueueState.callPop_eq hs
      exact ⟨t, _, rfl⟩
  | callInit t =>
      obtain ⟨-, rfl⟩ := QueueState.callInit_eq hs
      exact ⟨t, _, rfl⟩
  | ret t =>
      obtain ⟨req, -, rfl⟩ := QueueState.ret_eq hs
      exact ⟨t, _, rfl⟩

/-- Finitely many threads have begun anything. -/
theorem Sys.Step.within (h : s.Step ops a s') (hmounts : ¬ a.Mounts) {A : Finset T}
    (hA : s.Within A) : ∃ A', s'.Within A' := by
  obtain ⟨B, hB⟩ : ∃ B : Finset T, ∀ u, u ∉ B → s'.pc u = s.pc u := by
    cases h.pcEffect hmounts with
    | same hpc => exact ⟨∅, fun u _ => by rw [hpc]⟩
    | client t v ht hv hpc =>
        exact ⟨{t}, fun u hu => by rw [hpc, Function.update_of_ne (by simpa using hu)]⟩
    | daemon d se old buf' pc pc' hd hpc =>
        exact ⟨{d}, fun u hu => by rw [hpc, Function.update_of_ne (by simpa using hu)]⟩
  have hqueue : s'.queue = s.queue ∨ ∃ qa, s.queue.step qa = some s'.queue := by
    rcases h.queue_eq with heq | ⟨t, -, hq⟩ | ⟨qa, -, hq⟩
    · exact .inl heq
    · exact .inr ⟨.tick t, hq⟩
    · exact .inr ⟨qa, hq⟩
  obtain ⟨C, hC⟩ : ∃ C : Finset T, ∀ u, u ∉ C → s'.queue.pc u = s.queue.pc u := by
    rcases hqueue with heq | ⟨qa, hq⟩
    · exact ⟨∅, fun u _ => by rw [heq]⟩
    · obtain ⟨t, v, hpc⟩ := queueStep_moves hq
      exact ⟨{t}, fun u hu => by rw [hpc, Function.update_of_ne (by simpa using hu)]⟩
  refine ⟨A ∪ B ∪ C, fun u hu => ?_⟩
  simp only [Finset.mem_union, not_or] at hu
  rw [hB u hu.1.2, hC u hu.2]
  exact hA u hu.1.1

/-- Who reads a node has read it before, or has found it. -/
def ReadsNode (s s' : Sys T S F) : Prop :=
  ∀ u n, (s'.pc u).reading = some n → (s.pc u).reading = some n ∨ n < s.nodes.length

omit [Platform] in
theorem readsNode_update {v : Pc T S} (hpc : s'.pc = Function.update s.pc t v)
    (hv : ∀ n, v.reading = some n → (s.pc t).reading = some n ∨ n < s.nodes.length) :
    ReadsNode s s' := by
  intro u n hn
  rw [hpc] at hn
  by_cases hut : u = t
  · subst hut
    rw [Function.update_self] at hn
    exact hv n hn
  · rw [Function.update_of_ne hut] at hn
    exact .inl hn

omit [Platform] in
theorem readsNode_submit {n : Nat} {input : RequestIn} {k : Cont}
    (hs : s.submit t n input k = some s')
    (hk : ∀ i, (Pc.waiting k : Pc T S).reading = some i → i < s.nodes.length) :
    ReadsNode s s' := by
  obtain ⟨queue, -, rfl⟩ := Option.map_eq_some_iff.mp hs
  exact readsNode_update rfl fun i hi => .inr (hk i hi)

theorem call_readsNode {op : ClientOp F} {ok : Bool} (hs : s.call t op ok = some s') :
    ReadsNode s s' := by
  unfold Sys.call at hs
  cases hpc : s.pc t with
  | idle =>
      simp only [hpc] at hs
      cases op with
      | lookup n path len =>
          obtain ⟨node, hn, hs⟩ := Option.bind_eq_some_iff.mp hs
          split at hs
          · obtain rfl := Option.some.inj hs
            exact fun _ _ hi => .inl hi
          · exact readsNode_submit hs fun i hi => absurd hi (by simp [Pc.reading])
      | getstat n =>
          obtain ⟨node, hn, hs⟩ := Option.bind_eq_some_iff.mp hs
          exact readsNode_submit hs fun i hi => absurd hi (by simp [Pc.reading])
      | read n iov off =>
          obtain ⟨node, hn, rfl⟩ := Option.map_eq_some_iff.mp hs
          refine readsNode_update rfl fun i hi => .inr ?_
          obtain rfl := Option.some.inj hi
          exact (List.getElem?_eq_some_iff.mp hn).1
      | listdir n curp len =>
          obtain ⟨node, hn, hs⟩ := Option.bind_eq_some_iff.mp hs
          exact readsNode_submit hs fun i hi => absurd hi (by simp [Pc.reading])
      | graft n ref =>
          obtain ⟨node, hn, hs⟩ := Option.bind_eq_some_iff.mp hs
          obtain ⟨ff, -, rfl⟩ := Option.map_eq_some_iff.mp hs
          exact fun _ _ hi => .inl hi
  | _ => simp [hpc] at hs

theorem runClient_readsNode {ok : Bool} (hs : s.runClient t ok = some s') : ReadsNode s s' := by
  unfold Sys.runClient at hs
  cases hpc : s.pc t with
  | readTest n iov off =>
      simp only [hpc] at hs
      obtain ⟨node, hn, hs⟩ := Option.bind_eq_some_iff.mp hs
      have hlt := (List.getElem?_eq_some_iff.mp hn).1
      split_ifs at hs with hunset
      · exact readsNode_submit hs fun i hi => Option.some.inj hi ▸ hlt
      · obtain rfl := Option.some.inj hs
        exact readsNode_update rfl fun i hi => .inr (Option.some.inj hi ▸ hlt)
  | readSubmit n iov off =>
      simp only [hpc] at hs
      obtain ⟨node, hn, hs⟩ := Option.bind_eq_some_iff.mp hs
      split at hs
      · obtain rfl := Option.some.inj hs
        exact readsNode_update rfl fun i hi => absurd hi (by simp [Pc.reading])
      · exact readsNode_submit hs fun i hi => absurd hi (by simp [Pc.reading])
  | waiting k =>
      simp only [hpc, Sys.down] at hs
      split at hs
      · obtain rfl := Option.some.inj hs
        refine readsNode_update rfl fun i hi => .inl ?_
        rw [hpc]
        cases k <;> exact hi
      · exact absurd hs (by simp)
  | woken k =>
      simp only [hpc, Option.some.injEq] at hs
      subst hs
      rcases Sys.finish_cases (s := s) (t := t) (s.record t).answer ok k with ⟨v, hv, heq⟩ |
        ⟨n, iov, off, e, fh, rfl, -, heq⟩ | ⟨n, path, len, e, rfl, -, heq⟩ <;> rw [heq]
      · exact readsNode_update rfl fun i hi => absurd hi (by simp [hv.reading])
      · exact readsNode_update rfl fun i hi => .inl (by rw [hpc]; exact hi)
      · exact readsNode_update rfl fun i hi => absurd hi (by simp [Pc.reading])
  | _ => simp [hpc] at hs

theorem step_readsNode (hs : s.step ops a = some s') (hstart : ¬ a.Mounts) :
    ReadsNode s s' := by
  have heff := (Sys.Step.of_step hs).pcEffect hstart
  cases a with
  | call t op ok => exact call_readsNode hs
  | run t ok =>
      simp only [Sys.step, Sys.run] at hs
      split at hs
      · rename_i se buf pc hpc
        intro u n hn
        have hadv := runDaemon_advances hpc hs
        by_cases hut : u = t
        · subst hut
          have hdaemon := heff.isDaemon (d := u) (by rw [hpc]; trivial)
          cases hv : s'.pc u <;> rw [hv] at hdaemon hn <;>
            first | exact hdaemon.elim | exact absurd hn (by simp [Pc.reading])
        · rw [hadv.pc u hut] at hn
          exact .inl hn
      · exact runClient_readsNode hs
  | start t d buf ok => exact absurd trivial hstart
  | vopen t ok => exact absurd trivial hstart
  | mount se =>
      obtain rfl := Option.some.inj hs
      exact fun _ _ hn => .inl hn
  | queue t =>
      obtain ⟨queue, -, rfl⟩ := Option.map_eq_some_iff.mp hs
      exact fun _ _ hn => .inl hn
  | reply b r ok =>
      have hpc := (reply_sharedWork_lt hs).1
      exact fun u n hn => .inl (by rwa [hpc] at hn)
  | replyStep b =>
      obtain ⟨hd, hh, hs⟩ := Option.bind_eq_some_iff.mp hs
      split at hs
      · exact absurd hs (by simp)
      · obtain rfl := Option.some.inj hs
        exact fun _ _ hn => .inl hn

end Steps

end UkfsFuse
