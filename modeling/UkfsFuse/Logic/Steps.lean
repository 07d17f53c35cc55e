import UkfsFuse.Logic.Completion
import UkfsFuse.Logic.Driver
import UkfsFuse.Logic.QueueInv
import UkfsFuse.Source.System

/-!
# What a step can do

`TickEffect` and `Sys.Step` say once what the statements inside and outside
the queue functions do, with the guards the source has. Every invariant of the
system is proved over their constructors, never by unfolding a step function.
-/

namespace UkfsFuse

open UkfsFuse.Core

/-! ## Inside the queue functions -/

/-- A call of one of the queue functions. -/
inductive QueueFn (R : Type)
  | push (req : R)
  | pop
  | init

/-- The call a thread is in. -/
def QueuePc.fn {R : Type} : QueuePc R → Option (QueueFn R)
  | .out => none
  | .pushLock req | .pushInsert req | .pushUnlock req | .pushUp req => some (.push req)
  | .popDown | .popLock | .popRemove | .popUnlock _ | .popReturn _ | .assertFailed => some .pop
  | .initHead | .initLock | .initCount => some .init

open QueuePc

/-- What a statement of `t` does to the requests. -/
inductive TickEffect {T R : Type} [DecidableEq T] (s : QueueState T R) (t : T)
    (s' : QueueState T R) : Prop
  /-- they stay where they are, and the thread stays in its call or leaves it -/
  | move (v : QueuePc R) (hpc : s'.pc = Function.update s.pc t v)
      (hhead : s'.q.head = s.q.head) (hins : toInsert v = toInsert (s.pc t))
      (hhand : inHand v = inHand (s.pc t)) (hfn : v.fn = none ∨ v.fn = (s.pc t).fn)
  | insert (req : R) (hat : s.pc t = .pushInsert req)
      (hpc : s'.pc = Function.update s.pc t (.pushUnlock req))
      (hhead : s'.q.head = s.q.head ++ [req])
  | remove (req : R) (rest : List R) (hat : s.pc t = .popRemove) (hreq : s.q.head = req :: rest)
      (hpc : s'.pc = Function.update s.pc t (.popUnlock req)) (hhead : s'.q.head = rest)
  | reset (hat : s.pc t = .initHead) (hpc : s'.pc = Function.update s.pc t .initLock)
      (hhead : s'.q.head = [])

section Queue

variable {T R : Type} [DecidableEq T] {s s' : QueueState T R} {t : T}

omit [DecidableEq T] in
theorem semaphoreDown_frame {q q' : FuseUkfsQueue T R} (h : q.semaphoreDown = some q') :
    q'.head = q.head := by
  unfold FuseUkfsQueue.semaphoreDown at h
  split at h
  · exact absurd h (by simp)
  · obtain rfl := Option.some.inj h
    rfl

theorem QueueState.tickEffect (hs : s.tick t = some s') : TickEffect s t s' := by
  unfold QueueState.tick at hs
  cases hpc : s.pc t with
  | out => simp [hpc] at hs
  | popReturn req => simp [hpc] at hs
  | assertFailed => simp [hpc] at hs
  | pushLock req =>
      simp only [hpc] at hs
      obtain ⟨q, hq, rfl⟩ := Option.map_eq_some_iff.mp hs
      exact .move (.pushInsert req) rfl (mutexLock_frame hq).1 (by simp [hpc, toInsert])
        (by simp [hpc, inHand]) (.inr (by simp [hpc, fn]))
  | popDown =>
      simp only [hpc] at hs
      obtain ⟨q, hq, rfl⟩ := Option.map_eq_some_iff.mp hs
      exact .move .popLock rfl (semaphoreDown_frame hq) (by simp [hpc, toInsert])
        (by simp [hpc, inHand]) (.inr (by simp [hpc, fn]))
  | popLock =>
      simp only [hpc] at hs
      obtain ⟨q, hq, rfl⟩ := Option.map_eq_some_iff.mp hs
      exact .move .popRemove rfl (mutexLock_frame hq).1 (by simp [hpc, toInsert])
        (by simp [hpc, inHand]) (.inr (by simp [hpc, fn]))
  | popRemove =>
      simp only [hpc] at hs
      cases hhead : s.q.head with
      | nil =>
          simp only [hhead, Option.some.injEq] at hs
          subst hs
          exact .move .assertFailed rfl rfl (by simp [hpc, toInsert]) (by simp [hpc, inHand])
            (.inr (by simp [hpc, fn]))
      | cons req rest =>
          simp only [hhead, Option.some.injEq] at hs
          subst hs
          exact .remove req rest hpc hhead rfl rfl
  | pushInsert req =>
      simp only [hpc, Option.some.injEq] at hs
      subst hs
      exact .insert req hpc rfl rfl
  | pushUnlock req =>
      simp only [hpc, Option.some.injEq] at hs
      subst hs
      exact .move (.pushUp req) rfl rfl (by simp [hpc, toInsert]) (by simp [hpc, inHand])
        (.inr (by simp [hpc, fn]))
  | pushUp req =>
      simp only [hpc, Option.some.injEq] at hs
      subst hs
      exact .move .out rfl rfl (by simp [hpc, toInsert]) (by simp [hpc, inHand]) (.inl rfl)
  | popUnlock req =>
      simp only [hpc, Option.some.injEq] at hs
      subst hs
      exact .move (.popReturn req) rfl rfl (by simp [hpc, toInsert]) (by simp [hpc, inHand])
        (.inr (by simp [hpc, fn]))
  | initHead =>
      simp only [hpc, Option.some.injEq] at hs
      subst hs
      exact .reset hpc rfl rfl
  | initLock =>
      simp only [hpc, Option.some.injEq] at hs
      subst hs
      exact .move .initCount rfl rfl (by simp [hpc, toInsert]) (by simp [hpc, inHand])
        (.inr (by simp [hpc, fn]))
  | initCount =>
      simp only [hpc, Option.some.injEq] at hs
      subst hs
      exact .move .out rfl rfl (by simp [hpc, toInsert]) (by simp [hpc, inHand]) (.inl rfl)

/-- The calls and returns: the thread was outside, or has a request to return. -/
theorem QueueState.callPush_eq {req : R} (hs : s.callPush t req = some s') :
    s.pc t = .out ∧
      s' = { s.move t (.pushLock req) s.q with pushed := s.pushed ++ [(t, req)] } := by
  unfold QueueState.callPush at hs
  split at hs
  · exact ⟨‹_›, (Option.some.inj hs).symm⟩
  · exact absurd hs (by simp)

theorem QueueState.callPop_eq (hs : s.callPop t = some s') :
    s.pc t = .out ∧ s' = s.move t .popDown s.q := by
  unfold QueueState.callPop at hs
  split at hs
  · exact ⟨‹_›, (Option.some.inj hs).symm⟩
  · exact absurd hs (by simp)

theorem QueueState.callInit_eq (hs : s.callInit t = some s') :
    s.pc t = .out ∧ s' = s.move t .initHead s.q := by
  unfold QueueState.callInit at hs
  split at hs
  · exact ⟨‹_›, (Option.some.inj hs).symm⟩
  · exact absurd hs (by simp)

theorem QueueState.ret_eq (hs : s.ret t = some s') :
    ∃ req, s.pc t = .popReturn req ∧
      s' = { s.move t .out s.q with returned := s.returned ++ [(t, req)] } := by
  unfold QueueState.ret at hs
  split at hs
  · exact ⟨_, ‹_›, (Option.some.inj hs).symm⟩
  · exact absurd hs (by simp)

end Queue

/-! ## The whole system -/

/-- The thread is a client between two requests, or between two operations. -/
def Pc.Free {T S : Type} : Pc T S → Prop
  | .idle | .readTest .. | .readSubmit .. | .undefined_ => True
  | _ => False

/-- The thread has returned from its operation, or has stopped in it where the
source is undefined. -/
def Pc.Returned {T S : Type} : Pc T S → Prop
  | .idle | .undefined_ => True
  | _ => False

theorem Pc.Returned.free {T S : Type} {p : Pc T S} (h : p.Returned) : p.Free := by
  cases p <;> trivial

/-- The thread waits for a request or reads its answer. -/
def Pc.Outstanding {T S : Type} : Pc T S → Prop
  | .waiting _ | .woken _ => True
  | _ => False

/-- Request `input` on the file `ff` of node `n`, and the function that waits
for it. -/
inductive Asks {F : Type} (ff : FusefsFile F) (n : Nat) : RequestIn → Cont → Prop
  | lookup (path : List UInt8) (len : Nat) :
      Asks ff n (.lookup ff.nodeid (.strndup path len)) (.lookup n path len)
  | getstat : Asks ff n (.getattr ff.nodeid) (.getstat n)
  | listdir (curp : UInt64) (len : Nat) :
      Asks ff n (.readdir ff.nodeid 0 curp 4096) (.listdir n curp len)
  | open_ (iov : List UInt64) (off : UInt64) (hunset : ff.fh = FH_UNSET) :
      Asks ff n (.open_ ff.nodeid 0) (.open_ n iov off)
  | read (iov : List UInt64) (off : UInt64) :
      Asks ff n (.read ff.nodeid ff.fh off (iovTotal iov).toUInt32) (.read n iov off)

theorem Asks.known {F : Type} {ff : FusefsFile F} {n : Nat} {input : RequestIn} {k : Cont}
    (h : Asks ff n input k) : input.Known := by
  cases h <;> trivial

namespace Sys

variable {T S F : Type} [DecidableEq T] [Platform]

/-- What the steps of the system do. -/
inductive Step (ops : S → FuseLowlevelOps) (s : Sys T S F) : SysAct T S F → Sys T S F → Prop
  /-- an operation or a mount that returns at once -/
  | stay (a : SysAct T S F) : Step ops s a s
  | mount (se : S) : Step ops s (.mount se) { s with registered := some se }
  | vopen (t : T) (queue : QueueState T T) (hpc : s.pc t = .idle)
      (hq : s.queue.callInit t = some queue) :
      Step ops s (.vopen t true) { s.setPc t .vopenInit with queue := queue }
  | startNone (t d : T) (buf : Mem) (startOk : Bool) (hpc : s.pc t = .vopenInit)
      (hq : s.queue.pc t = .out) (hnone : s.registered = none ∨ startOk = false) :
      Step ops s (.start t d buf startOk)
        { s.setPc t .idle with nodes := s.nodes ++ [⟨fusefsFileAlloc F 1, s.registered⟩] }
  | startDaemon (t d : T) (buf : Mem) (se : S) (hpc : s.pc t = .vopenInit)
      (hq : s.queue.pc t = .out) (hreg : s.registered = some se) (hd : s.pc d = .idle) :
      Step ops s (.start t d buf true)
        (Sys.setPc { s.setPc t .idle with
          nodes := s.nodes ++ [⟨fusefsFileAlloc F 1, s.registered⟩] } d (.daemon se buf .loop))
  | graft (a : SysAct T S F) (n : Nat) (node : Node S F) (f : F) (hn : s.nodes[n]? = some node) :
      Step ops s a (s.setFile n { node.file with upref := some f })
  | goto (a : SysAct T S F) (t : T) (v : Pc T S) (hpc : (s.pc t).Free) (hv : v.Free)
      (hset : ∀ n iov off, v = .readSubmit n iov off →
        ∃ node, s.nodes[n]? = some node ∧ node.file.fh ≠ FH_UNSET)
      (hdefined : v ≠ .undefined_) :
      Step ops s a (s.setPc t v)
  | submit (a : SysAct T S F) (t : T) (n : Nat) (node : Node S F) (input : RequestIn) (k : Cont)
      (s' : Sys T S F) (hact : (∃ op ok, a = .call t op ok) ∨ ∃ ok, a = .run t ok)
      (hpc : (s.pc t).Free) (hn : s.nodes[n]? = some node)
      (hasks : Asks node.file n input k)
      (hopen : ∀ iov off, k = .open_ n iov off →
        s.pc t = .readTest n iov off ∧ ∃ ok, a = .run t ok)
      (hs' : s.submit t n input k = some s')
      (hread : ∀ iov off, k = .read n iov off → s.pc t = .readSubmit n iov off)
      (hname : ∀ path len, k = .lookup n path len → ∃ ok, a = .call t (.lookup n path len) ok) :
      Step ops s a s'
  | down (t : T) (k : Cont) (m : Nat) (ok : Bool) (hpc : s.pc t = .waiting k)
      (hq : s.queue.pc t = .out) (hdone : (s.record t).done = m + 1) :
      Step ops s (.run t ok) { s.setPc t (.woken k) with
        record := Function.update s.record t { s.record t with done := m } }
  | finish (t : T) (k : Cont) (ok : Bool) (hpc : s.pc t = .woken k) :
      Step ops s (.run t ok) (s.finish t (s.record t).answer ok k)
  | callPop (d : T) (se : S) (buf : Mem) (ok : Bool) (queue : QueueState T T)
      (hpc : s.pc d = .daemon se buf .loop) (hq : s.queue.callPop d = some queue) :
      Step ops s (.run d ok) { s with queue := queue }
  | ret (d : T) (se : S) (buf : Mem) (ok : Bool) (req : T) (queue : QueueState T T)
      (hpc : s.pc d = .daemon se buf .loop) (hat : s.queue.pc d = .popReturn req)
      (hq : s.queue.ret d = some queue) :
      Step ops s (.run d ok) { s.setPc d (.daemon se buf (.popped req)) with queue := queue }
  | unknown (d : T) (se : S) (buf : Mem) (ok : Bool) (req : T)
      (hpc : s.pc d = .daemon se buf (.popped req))
      (hmsg : daemonMessage buf (s.record req) = .unknownOpcode) :
      Step ops s (.run d ok) (s.setPc d
        (.daemon se (fuseInHeader buf (s.record req)) (.failing req unknownOpcodeActs)))
  | overrun (d : T) (se : S) (buf : Mem) (ok : Bool) (req : T)
      (hpc : s.pc d = .daemon se buf (.popped req))
      (hmsg : daemonMessage buf (s.record req) = .overrun) :
      Step ops s (.run d ok) (s.setPc d (.daemon se buf (.overrun req)))
  | message (d : T) (se : S) (buf msg : Mem) (ok : Bool) (req : T)
      (hpc : s.pc d = .daemon se buf (.popped req))
      (hmsg : daemonMessage buf (s.record req) = .message msg) :
      Step ops s (.run d ok) (s.setPc d (.daemon se msg (.handover req)))
  | failed (d : T) (se : S) (buf : Mem) (ok : Bool) (req : T)
      (hpc : s.pc d = .daemon se buf (.failing req [])) :
      Step ops s (.run d ok) (s.setPc d (.daemon se buf .loop))
  | fail (d : T) (se : S) (buf : Mem) (ok : Bool) (req : T) (act : ReplyAct) (acts : List ReplyAct)
      (hpc : s.pc d = .daemon se buf (.failing req (act :: acts))) :
      Step ops s (.run d ok) ((s.applyAct act req).setPc d (.daemon se buf (.failing req acts)))
  | noReq (d : T) (se : S) (buf : Mem) (ok : Bool) (req : T)
      (hpc : s.pc d = .daemon se buf (.handover req))
      (hproc : fuseSessionProcessBufInternal (fuseSessionNewVersioned (ops se)) buf
        FUSE_DAEMON_BUF_SIZE ok = .noReq) :
      Step ops s (.run d ok) (s.setPc d (.daemon se buf (.device req)))
  | handle (d : T) (se : S) (buf : Mem) (ok : Bool) (req : T) (r : FuseReq) (what : Handled)
      (hpc : s.pc d = .daemon se buf (.handover req))
      (hproc : fuseSessionProcessBufInternal (fuseSessionNewVersioned (ops se)) buf
        FUSE_DAEMON_BUF_SIZE ok = .handled r what) :
      Step ops s (.run d ok) { s.setPc d (.daemon se buf (.inCallback s.handles.length)) with
        handles := s.handles ++ [⟨req, se, r, what, none, [], s.origin req⟩] }
  | returned (d : T) (se : S) (buf : Mem) (ok : Bool) (h : Nat)
      (hpc : s.pc d = .daemon se buf (.inCallback h)) :
      Step ops s (.run d ok) (s.setPc d (.daemon se buf .loop))
  | device (d : T) (se : S) (buf : Mem) (ok : Bool) (req : T)
      (hpc : s.pc d = .daemon se buf (.device req)) :
      Step ops s (.run d ok) (s.setPc d (.daemon se buf .loop))
  | queue (t : T) (queue : QueueState T T) (hq : s.queue.tick t = some queue) :
      Step ops s (.queue t) { s with queue := queue }
  | reply (h : Nat) (hd : Handle T S) (r : Reply) (mallocOk : Bool) (hh : s.handles[h]? = some hd)
      (hacc : hd.Accepts r) :
      Step ops s (.reply h r mallocOk) { s with handles := s.handles.set h { hd with
        answer := some (r, mallocOk)
        todo := r.acts (fuseSessionNewVersioned (ops hd.se)) mallocOk } }
  | replyStep (h : Nat) (hd : Handle T S) (act : ReplyAct) (rest : List ReplyAct)
      (hh : s.handles[h]? = some hd) (htodo : hd.todo = act :: rest) :
      Step ops s (.replyStep h)
        { s.applyAct act hd.ukfsReq with handles := s.handles.set h { hd with todo := rest } }

variable {ops : S → FuseLowlevelOps} {s s' : Sys T S F} {t : T}

omit [DecidableEq T] [Platform] in
/-- One handle is replaced by another. -/
theorem forall_mem_set {P : Handle T S → Prop} {b : Nat} {hd : Handle T S}
    (hall : ∀ x ∈ s.handles, P x) (hhd : P hd) : ∀ x ∈ s.handles.set b hd, P x := by
  intro x hmem
  rcases List.mem_or_eq_of_mem_set hmem with hold | rfl
  · exact hall x hold
  · exact hhd

omit [Platform] in
theorem setPc_idle {d : T} (h : s.pc d = .idle) : (s.setPc t .idle).pc d = .idle := by
  by_cases hdt : d = t
  · subst hdt; simp [Sys.setPc]
  · simp [Sys.setPc, hdt, h]

omit [DecidableEq T] in
/-- The file of a successful lookup is new, and named by the entry. -/
theorem fusefsLookupFinish_child {len : Nat} {answer : Answer} {allocOk : Bool} {ret : Int32}
    {ff : FusefsFile F} {nout : Option Nat}
    (h : fusefsLookupFinish len answer allocOk = some ⟨ret, some (.child ff), nout⟩) :
    ∃ e, answer.replyData = some (.entry e) ∧ ff = fusefsFileAlloc F e.ino := by
  rcases lookupFinish_cases h with ⟨-, hr⟩ | ⟨-, -, hr⟩ | ⟨e, -, hdata, ⟨-, hr⟩ | ⟨-, hr⟩⟩
  · exact absurd hr (by simp [LookupResult.fail])
  · exact absurd hr (by simp [LookupResult.fail])
  · exact absurd hr (by simp [LookupResult.fail])
  · obtain ⟨-, hchild, -⟩ := LookupResult.mk.inj hr
    exact ⟨e, hdata, Target.child.inj (Option.some.inj hchild)⟩

/-- What a client does with its answer: nothing that lasts, store the handle
of its file, or make a file for the child. -/
theorem finish_cases (answer : Answer) (allocOk : Bool) (k : Cont) :
    (∃ v, v.Returned ∧ s.finish t answer allocOk k = s.setPc t v) ∨
    (∃ n iov off e fh, k = .open_ n iov off ∧ fusefsDoOpenFinish answer = some (e, some fh) ∧
      s.finish t answer allocOk k = (s.setFh n fh).setPc t (.readSubmit n iov off)) ∨
    (∃ n path len e, k = .lookup n path len ∧ answer.replyData = some (.entry e) ∧
      s.finish t answer allocOk k = (s.addChild n (fusefsFileAlloc F e.ino)).setPc t .idle) := by
  cases k with
  | open_ n iov off =>
      simp only [Sys.finish]
      split
      · exact .inl ⟨.undefined_, trivial, rfl⟩
      · exact .inl ⟨.idle, trivial, rfl⟩
      · exact .inr (.inl ⟨n, iov, off, _, _, rfl, ‹_›, rfl⟩)
  | lookup n path len =>
      simp only [Sys.finish]
      split
      · exact .inl ⟨.undefined_, trivial, rfl⟩
      · rename_i ret ff nout hfin
        obtain ⟨e, hdata, rfl⟩ := fusefsLookupFinish_child hfin
        exact .inr (.inr ⟨n, path, len, e, rfl, hdata, rfl⟩)
      · exact .inl ⟨.idle, trivial, rfl⟩
  | read n iov off =>
      simp only [Sys.finish]
      split
      · exact .inl ⟨.undefined_, trivial, rfl⟩
      · exact .inl ⟨.idle, trivial, rfl⟩
  | getstat n =>
      simp only [Sys.finish]
      split
      · exact .inl ⟨.undefined_, trivial, rfl⟩
      · exact .inl ⟨.idle, trivial, rfl⟩
  | listdir n curp len =>
      simp only [Sys.finish]
      split
      · exact .inl ⟨.undefined_, trivial, rfl⟩
      · exact .inl ⟨.idle, trivial, rfl⟩

/-- The node table changes and the thread is free afterwards. -/
theorem finish_eq (answer : Answer) (allocOk : Bool) (k : Cont) :
    ∃ v nodes, v.Free ∧ s.finish t answer allocOk k = { s.setPc t v with nodes := nodes } := by
  rcases finish_cases (s := s) (t := t) answer allocOk k with ⟨v, hv, heq⟩ |
    ⟨n, iov, off, e, fh, -, -, heq⟩ | ⟨n, path, len, e, -, -, heq⟩
  · exact ⟨v, s.nodes, hv.free, heq⟩
  · exact ⟨.readSubmit n iov off, _, trivial, heq⟩
  · exact ⟨.idle, _, trivial, heq⟩

theorem Step.of_call {op : ClientOp F} {ok : Bool} (hs : s.call t op ok = some s') :
    Step ops s (.call t op ok) s' := by
  unfold Sys.call at hs
  cases hpc : s.pc t with
  | idle =>
      simp only [hpc] at hs
      have hfree : (s.pc t).Free := by rw [hpc]; trivial
      cases op with
      | lookup n path len =>
          obtain ⟨node, hn, hs⟩ := Option.bind_eq_some_iff.mp hs
          split at hs
          · obtain rfl := Option.some.inj hs
            exact .stay _
          · rename_i input henter
            have hasks : Asks node.file n input (.lookup n path len) := by
              rw [lookupEnter_submit henter]
              exact .lookup _ _
            exact .submit _ t n node input _ s' (.inl ⟨_, _, rfl⟩) hfree hn hasks
              (fun _ _ h => absurd h (by simp)) hs (fun _ _ h => absurd h (by simp))
              fun path' len' h => by
                obtain ⟨-, rfl, rfl⟩ := Cont.lookup.inj h
                exact ⟨ok, rfl⟩
      | getstat n =>
          obtain ⟨node, hn, hs⟩ := Option.bind_eq_some_iff.mp hs
          exact .submit _ t n node _ _ s' (.inl ⟨_, _, rfl⟩) hfree hn .getstat
            (fun _ _ h => absurd h (by simp)) hs (fun _ _ h => absurd h (by simp))
            fun _ _ h => absurd h (by simp)
      | read n iov off =>
          obtain ⟨node, hn, rfl⟩ := Option.map_eq_some_iff.mp hs
          exact .goto _ t _ hfree trivial (fun _ _ _ h => absurd h (by simp)) (by simp)
      | listdir n curp len =>
          obtain ⟨node, hn, hs⟩ := Option.bind_eq_some_iff.mp hs
          exact .submit _ t n node _ _ s' (.inl ⟨_, _, rfl⟩) hfree hn (.listdir curp len)
            (fun _ _ h => absurd h (by simp)) hs (fun _ _ h => absurd h (by simp))
            fun _ _ h => absurd h (by simp)
      | graft n ref =>
          obtain ⟨node, hn, hs⟩ := Option.bind_eq_some_iff.mp hs
          obtain ⟨ff, hgraft, rfl⟩ := Option.map_eq_some_iff.mp hs
          unfold fusefsGraft at hgraft
          split at hgraft
          · exact absurd hgraft (by simp)
          · obtain rfl := Option.some.inj hgraft
            exact .graft _ n node ref hn
  | _ => simp [hpc] at hs

theorem Step.of_runClient {ok : Bool} (hs : s.runClient t ok = some s') :
    Step ops s (.run t ok) s' := by
  unfold Sys.runClient at hs
  cases hpc : s.pc t with
  | readTest n iov off =>
      simp only [hpc] at hs
      have hfree : (s.pc t).Free := by rw [hpc]; trivial
      obtain ⟨node, hn, hs⟩ := Option.bind_eq_some_iff.mp hs
      split_ifs at hs with hunset
      · refine .submit _ t n node _ _ s' (.inr ⟨_, rfl⟩) hfree hn (.open_ iov off hunset) ?_ hs
          (fun _ _ h => absurd h (by simp)) fun _ _ h => absurd h (by simp)
        intro iov' off' hk
        obtain ⟨-, rfl, rfl⟩ := Cont.open_.inj hk
        exact ⟨hpc, _, rfl⟩
      · obtain rfl := Option.some.inj hs
        refine .goto _ t _ hfree trivial (fun n' iov' off' h => ?_) (by simp)
        obtain ⟨rfl, -, -⟩ := Pc.readSubmit.inj h
        exact ⟨node, hn, hunset⟩
  | readSubmit n iov off =>
      simp only [hpc] at hs
      have hfree : (s.pc t).Free := by rw [hpc]; trivial
      obtain ⟨node, hn, hs⟩ := Option.bind_eq_some_iff.mp hs
      split at hs
      · obtain rfl := Option.some.inj hs
        exact .goto _ t _ hfree trivial (fun _ _ _ h => absurd h (by simp)) (by simp)
      · rename_i input henter
        have hasks : Asks node.file n input (.read n iov off) := by
          rw [(readEnter_submit henter).2]
          exact .read iov off
        refine .submit _ t n node input _ s' (.inr ⟨_, rfl⟩) hfree hn hasks
          (fun _ _ h => absurd h (by simp)) hs ?_ fun _ _ h => absurd h (by simp)
        intro iov' off' hk
        obtain ⟨-, rfl, rfl⟩ := Cont.read.inj hk
        exact hpc
  | waiting k =>
      simp only [hpc, Sys.down] at hs
      split at hs
      · obtain rfl := Option.some.inj hs
        exact .down t k _ ok hpc ‹_› ‹_›
      · exact absurd hs (by simp)
  | woken k =>
      simp only [hpc, Option.some.injEq] at hs
      subst hs
      exact .finish t k ok hpc
  | _ => simp [hpc] at hs

theorem Step.of_runDaemon {se : S} {buf : Mem} {pc : DaemonPc T} {ok : Bool}
    (hpc : s.pc t = .daemon se buf pc) (hs : s.runDaemon ops t se buf ok pc = some s') :
    Step ops s (.run t ok) s' := by
  cases pc with
  | loop =>
      simp only [Sys.runDaemon] at hs
      split at hs
      · obtain ⟨queue, hq, rfl⟩ := Option.map_eq_some_iff.mp hs
        exact .ret t se buf ok _ queue hpc ‹_› hq
      · obtain ⟨queue, hq, rfl⟩ := Option.map_eq_some_iff.mp hs
        exact .callPop t se buf ok queue hpc hq
  | popped req =>
      simp only [Sys.runDaemon] at hs
      split at hs
      · obtain rfl := Option.some.inj hs
        exact .unknown t se buf ok req hpc ‹_›
      · obtain rfl := Option.some.inj hs
        exact .overrun t se buf ok req hpc ‹_›
      · obtain rfl := Option.some.inj hs
        exact .message t se buf _ ok req hpc ‹_›
  | failing req acts =>
      cases acts with
      | nil =>
          obtain rfl := Option.some.inj hs
          exact .failed t se buf ok req hpc
      | cons act acts =>
          obtain rfl := Option.some.inj hs
          exact .fail t se buf ok req act acts hpc
  | handover req =>
      simp only [Sys.runDaemon] at hs
      split at hs
      · obtain rfl := Option.some.inj hs
        exact .noReq t se buf ok req hpc ‹_›
      · obtain rfl := Option.some.inj hs
        exact .handle t se buf ok req _ _ hpc ‹_›
  | inCallback h =>
      obtain ⟨hd, -, hs⟩ := Option.bind_eq_some_iff.mp hs
      split_ifs at hs
      obtain rfl := Option.some.inj hs
      exact .returned t se buf ok h hpc
  | device req =>
      obtain rfl := Option.some.inj hs
      exact .device t se buf ok req hpc
  | overrun req => exact absurd hs (by simp [Sys.runDaemon])

/-- The step function does nothing else. -/
theorem Step.of_step {a : SysAct T S F} (hs : s.step ops a = some s') : Step ops s a s' := by
  cases a with
  | mount se =>
      obtain rfl := Option.some.inj hs
      exact .mount se
  | vopen t allocOk =>
      simp only [Sys.step, Sys.vopen] at hs
      split at hs
      · split_ifs at hs with hok
        · subst hok
          obtain ⟨queue, hq, rfl⟩ := Option.map_eq_some_iff.mp hs
          exact .vopen t queue ‹_› hq
        · obtain rfl := Option.some.inj hs
          exact .stay _
      · exact absurd hs (by simp)
  | start t d buf startOk =>
      simp only [Sys.step, Sys.start] at hs
      split at hs
      · cases hreg : s.registered with
        | none =>
            simp only [hreg] at hs
            obtain rfl := Option.some.inj hs
            rw [← hreg]
            exact .startNone t d buf _ ‹_› ‹_› (.inl hreg)
        | some se =>
            cases startOk with
            | false =>
                simp only [hreg] at hs
                obtain rfl := Option.some.inj hs
                rw [← hreg]
                exact .startNone t d buf _ ‹_› ‹_› (.inr rfl)
            | true =>
                simp only [hreg] at hs
                split at hs
                · obtain rfl := Option.some.inj hs
                  rw [← hreg]
                  exact .startDaemon t d buf _ ‹_› ‹_› hreg ‹_›
                · exact absurd hs (by simp)
      · exact absurd hs (by simp)
  | call t op strndupOk => exact .of_call hs
  | run t allocOk =>
      simp only [Sys.step, Sys.run] at hs
      split at hs
      · exact .of_runDaemon ‹_› hs
      · exact .of_runClient hs
  | queue t =>
      obtain ⟨queue, hq, rfl⟩ := Option.map_eq_some_iff.mp hs
      exact .queue t queue hq
  | reply h r mallocOk =>
      obtain ⟨hd, hh, hs⟩ := Option.bind_eq_some_iff.mp hs
      split_ifs at hs with hacc
      obtain rfl := Option.some.inj hs
      exact .reply h hd r mallocOk hh hacc
  | replyStep h =>
      obtain ⟨hd, hh, hs⟩ := Option.bind_eq_some_iff.mp hs
      split at hs
      · exact absurd hs (by simp)
      · obtain rfl := Option.some.inj hs
        exact .replyStep h hd _ _ hh ‹_›

end Sys

end UkfsFuse
