import UkfsFuse.Source.Queue
import UkfsFuse.Source.Driver

/-!
# Clients, daemons and backends together

All threads of a running system, one statement at a time. A request record
lives in the frame of the client thread that waits for it, so the threads `T`
are also the addresses of the records, and the one global queue holds threads.
Sessions are addresses `S`; the callbacks of a session are its `ops`.

A request handle is kept with the effects its reply function has still to
make, so any thread may run between two of them. A backend replies to a handle
when it likes, inside its callback or later.

`serial`, `origin` and `raised` are not part of the program: they number the
requests, say which request a record or a handle belongs to, and count how
often `done` was raised since the record was initialised.
-/

namespace UkfsFuse

open UkfsFuse.Core

/-- Which request of which node, as numbered by `serial`. -/
structure Origin where
  serial : Nat
  node : Nat
deriving DecidableEq, Repr

/-- An operation a client thread calls; files are indices of nodes. -/
inductive ClientOp (F : Type)
  | lookup (node : Nat) (path : List UInt8) (len : Nat)
  | getstat (node : Nat)
  | read (node : Nat) (iov : List UInt64) (off : UInt64)
  | listdir (node : Nat) (curp : UInt64) (len : Nat)
  | graft (node : Nat) (ref : F)

/-- The function that waits for the request, with what it needs afterwards. -/
inductive Cont
  | open_ (node : Nat) (iov : List UInt64) (off : UInt64)
  | read (node : Nat) (iov : List UInt64) (off : UInt64)
  | getstat (node : Nat)
  | lookup (node : Nat) (path : List UInt8) (len : Nat)
  | listdir (node : Nat) (curp : UInt64) (len : Nat)
deriving DecidableEq, Repr

/-- Where `fuse_daemon_thread` is in its loop. -/
inductive DaemonPc (T : Type)
  /-- calling or inside `fuse_ukfs_queue_pop` -/
  | loop
  | popped (req : T)
  /-- completing a request of unknown opcode -/
  | failing (req : T) (acts : List ReplyAct)
  /-- about to call `fuse_session_process_buf_internal` -/
  | handover (req : T)
  /-- the handler of handle `h` runs -/
  | inCallback (h : Nat)
  /-- in `fuse_send_msg`, without a request handle -/
  | device (req : T)
  /-- a fill function ran over the end of the buffer -/
  | overrun (req : T)
deriving DecidableEq, Repr

/-- Where a thread is, outside the queue functions. -/
inductive Pc (T S : Type)
  | idle
  /-- in `fusefs_read`, about to test `ff->fh` -/
  | readTest (node : Nat) (iov : List UInt64) (off : UInt64)
  /-- in `fusefs_read`, `ff->fh` is set -/
  | readSubmit (node : Nat) (iov : List UInt64) (off : UInt64)
  /-- in `fuse_ukfs_queue_push` or `uk_semaphore_down(&req.done)` -/
  | waiting (k : Cont)
  /-- after `uk_semaphore_down(&req.done)` -/
  | woken (k : Cont)
  /-- the source reads a reply object of another type, or behind its end -/
  | undefined_
  /-- in `fusefs_vopen`, at its call of `fuse_ukfs_queue_init` -/
  | vopenInit
  | daemon (se : S) (buf : Mem) (pc : DaemonPc T)

/-- A `struct fuse_req` and the reply to it. -/
structure Handle (T S : Type) where
  ukfsReq : T
  se : S
  req : FuseReq
  what : Handled
  /-- the reply call and the outcome of its allocation -/
  answer : Option (Reply × Bool)
  /-- the effects the reply function has still to make -/
  todo : List ReplyAct
  origin : Origin

/-- A `struct fusefs_file`, and the session that was registered when the
`fusefs_vopen` of its mount ran. -/
structure Node (S F : Type) where
  file : FusefsFile F
  home : Option S

/-- The whole system. -/
structure Sys (T S F : Type) where
  queue : QueueState T T
  pc : T → Pc T S
  record : T → FuseUkfsRequest
  /-- `fuse_req_unique` -/
  unique : UInt64
  nodes : List (Node S F)
  handles : List (Handle T S)
  /-- `fuse_registered_session` -/
  registered : Option S
  serial : Nat
  origin : T → Origin
  raised : T → Nat

/-- One step of the system. -/
inductive SysAct (T S F : Type)
  /-- `fuse_session_mount(se)` -/
  | mount (se : S)
  /-- `fusefs_vopen` up to `fuse_ukfs_queue_init` -/
  | vopen (t : T) (allocOk : Bool)
  /-- the rest of `fusefs_vopen`; `d` is the new daemon thread, `buf` its buffer -/
  | start (t d : T) (buf : Mem) (startOk : Bool)
  | call (t : T) (op : ClientOp F) (strndupOk : Bool)
  /-- the next statement of `t` outside the queue functions -/
  | run (t : T) (allocOk : Bool)
  /-- the next statement of `t` inside them -/
  | queue (t : T)
  /-- a reply function is called on handle `h` -/
  | reply (h : Nat) (r : Reply) (mallocOk : Bool)
  /-- its next effect -/
  | replyStep (h : Nat)

namespace Handle

variable {T S : Type}

/-- A reply function with reply `r` may be called on the handle: it has not
been replied to, and it is the backend's to reply to or `r` is libfuse's own. -/
def Accepts (hd : Handle T S) (r : Reply) : Prop :=
  hd.answer = none ∧
    match hd.what with
    | .callback _ => True
    | .own r' => r = r'
    | .unterminated | .otherHandler _ => False

/-- The handler may return to the daemon: a callback at any time, libfuse
after its own reply. -/
def Returns (hd : Handle T S) : Prop :=
  match hd.what with
  | .callback _ => True
  | .own _ => hd.answer ≠ none ∧ hd.todo = []
  | .unterminated | .otherHandler _ => False

instance (hd : Handle T S) (r : Reply) : Decidable (hd.Accepts r) := by
  unfold Accepts
  cases hd.what <;> infer_instance

instance (hd : Handle T S) : Decidable hd.Returns := by
  unfold Returns
  cases hd.what <;> infer_instance

end Handle

namespace Sys

variable {T S F : Type} [DecidableEq T]

def setPc (s : Sys T S F) (t : T) (v : Pc T S) : Sys T S F :=
  { s with pc := Function.update s.pc t v }

def setFile (s : Sys T S F) (n : Nat) (ff : FusefsFile F) : Sys T S F :=
  { s with nodes := s.nodes.modify n fun node => { node with file := ff } }

/-- `ff->fh = fh` -/
def setFh (s : Sys T S F) (n : Nat) (fh : UInt64) : Sys T S F :=
  { s with nodes := s.nodes.modify n fun node => { node with file := { node.file with fh := fh } } }

/-- A node for a child of node `n`, in the mount of `n`. -/
def addChild (s : Sys T S F) (n : Nat) (ff : FusefsFile F) : Sys T S F :=
  { s with nodes := s.nodes ++ [⟨ff, (s.nodes[n]?).bind Node.home⟩] }

/-- An effect of a reply function on the record of `t`. -/
def applyAct (s : Sys T S F) (act : ReplyAct) (t : T) : Sys T S F :=
  { s with
    record := Function.update s.record t (act.apply (s.record t))
    raised := if act = .up then Function.update s.raised t (s.raised t + 1) else s.raised }

/-- The record of `t` is initialised with a request of node `n`, and
`fuse_ukfs_queue_push` is called on it. -/
def submit (s : Sys T S F) (t : T) (n : Nat) (input : RequestIn) (k : Cont) :
    Option (Sys T S F) :=
  (s.queue.callPush t t).map fun queue =>
    { s with
      queue := queue
      pc := Function.update s.pc t (.waiting k)
      record := Function.update s.record t (.init s.unique input)
      unique := s.unique + 1
      serial := s.serial + 1
      origin := Function.update s.origin t ⟨s.serial, n⟩
      raised := Function.update s.raised t 0 }

section Clients

variable [Platform]

/-- A client thread calls an operation. -/
def call (s : Sys T S F) (t : T) (op : ClientOp F) (strndupOk : Bool) : Option (Sys T S F) :=
  match s.pc t with
  | .idle =>
      match op with
      | .lookup n path len =>
          (s.nodes[n]?).bind fun node =>
            match fusefsLookupEnter node.file path len strndupOk with
            | .ret _ => some s
            | .submit input => s.submit t n input (.lookup n path len)
      | .getstat n =>
          (s.nodes[n]?).bind fun node =>
            s.submit t n (fusefsGetstatEnter node.file) (.getstat n)
      | .read n iov off =>
          (s.nodes[n]?).map fun _ => s.setPc t (.readTest n iov off)
      | .listdir n curp len =>
          (s.nodes[n]?).bind fun node =>
            s.submit t n (fusefsListdirEnter node.file curp) (.listdir n curp len)
      | .graft n ref =>
          (s.nodes[n]?).bind fun node => (fusefsGraft node.file ref).map (s.setFile n)
  | _ => none

/-- The client goes on with its answer. -/
def finish (s : Sys T S F) (t : T) (answer : Answer) (allocOk : Bool) : Cont → Sys T S F
  | .open_ n iov off =>
      match fusefsDoOpenFinish answer with
      | none => s.setPc t .undefined_
      | some (_, none) => s.setPc t .idle
      | some (_, some fh) => (s.setFh n fh).setPc t (.readSubmit n iov off)
  | .read _ iov _ =>
      match fusefsReadFinish iov answer with
      | none => s.setPc t .undefined_
      | some _ => s.setPc t .idle
  | .getstat _ =>
      match fusefsGetstatFinish answer with
      | none => s.setPc t .undefined_
      | some _ => s.setPc t .idle
  | .lookup n _ len =>
      match fusefsLookupFinish (F := F) len answer allocOk with
      | none => s.setPc t .undefined_
      | some ⟨_, some (.child ff), _⟩ => (s.addChild n ff).setPc t .idle
      | some _ => s.setPc t .idle
  | .listdir _ curp len =>
      match fusefsListdirFinish curp len answer with
      | none => s.setPc t .undefined_
      | some _ => s.setPc t .idle

/-- `uk_semaphore_down(&req.done)`, after `fuse_ukfs_queue_push` has returned. -/
def down (s : Sys T S F) (t : T) (k : Cont) : Option (Sys T S F) :=
  match s.queue.pc t, (s.record t).done with
  | .out, n + 1 =>
      some { s.setPc t (.woken k) with
        record := Function.update s.record t { s.record t with done := n } }
  | _, _ => none

/-- The next statement of a client in its operation. -/
def runClient (s : Sys T S F) (t : T) (allocOk : Bool) : Option (Sys T S F) :=
  match s.pc t with
  | .readTest n iov off =>
      (s.nodes[n]?).bind fun node =>
        if node.file.fh = FH_UNSET then
          s.submit t n (fusefsDoOpenEnter node.file) (.open_ n iov off)
        else some (s.setPc t (.readSubmit n iov off))
  | .readSubmit n iov off =>
      (s.nodes[n]?).bind fun node =>
        match fusefsReadEnter node.file iov off with
        | .ret _ => some (s.setPc t .idle)
        | .submit input => s.submit t n input (.read n iov off)
  | .waiting k => s.down t k
  | .woken k => some (s.finish t (s.record t).answer allocOk k)
  | _ => none

end Clients

section Daemons

variable (ops : S → FuseLowlevelOps)

/-- The next statement of a daemon with session `se` and buffer `buf`. -/
def runDaemon (s : Sys T S F) (d : T) (se : S) (buf : Mem) (callocOk : Bool) :
    DaemonPc T → Option (Sys T S F)
  | .loop =>
      match s.queue.pc d with
      | .popReturn req =>
          (s.queue.ret d).map fun queue =>
            { s.setPc d (.daemon se buf (.popped req)) with queue := queue }
      | _ => (s.queue.callPop d).map fun queue => { s with queue := queue }
  | .popped req =>
      match daemonMessage buf (s.record req) with
      | .unknownOpcode =>
          some (s.setPc d
            (.daemon se (fuseInHeader buf (s.record req)) (.failing req unknownOpcodeActs)))
      | .overrun => some (s.setPc d (.daemon se buf (.overrun req)))
      | .message msg => some (s.setPc d (.daemon se msg (.handover req)))
  | .failing _ [] => some (s.setPc d (.daemon se buf .loop))
  | .failing req (act :: acts) =>
      some ((s.applyAct act req).setPc d (.daemon se buf (.failing req acts)))
  | .handover req =>
      match fuseSessionProcessBufInternal (fuseSessionNewVersioned (ops se)) buf
          FUSE_DAEMON_BUF_SIZE callocOk with
      | .noReq => some (s.setPc d (.daemon se buf (.device req)))
      | .handled r what =>
          some { s.setPc d (.daemon se buf (.inCallback s.handles.length)) with
            handles := s.handles ++ [⟨req, se, r, what, none, [], s.origin req⟩] }
  | .inCallback h =>
      (s.handles[h]?).bind fun hd =>
        if hd.Returns then some (s.setPc d (.daemon se buf .loop)) else none
  | .device _ => some (s.setPc d (.daemon se buf .loop))
  | .overrun _ => none

variable [Platform]

/-- A reply function is called on handle `h`. -/
def reply (s : Sys T S F) (h : Nat) (r : Reply) (mallocOk : Bool) : Option (Sys T S F) :=
  (s.handles[h]?).bind fun hd =>
    if hd.Accepts r then
      some { s with handles := s.handles.set h { hd with
        answer := some (r, mallocOk)
        todo := r.acts (fuseSessionNewVersioned (ops hd.se)) mallocOk } }
    else none

omit [Platform] in
/-- The next effect of the reply function that was called on handle `h`. -/
def replyStep (s : Sys T S F) (h : Nat) : Option (Sys T S F) :=
  (s.handles[h]?).bind fun hd =>
    match hd.todo with
    | [] => none
    | act :: rest =>
        some { s.applyAct act hd.ukfsReq with handles := s.handles.set h { hd with todo := rest } }

end Daemons

section Mounting

/-- `fusefs_vopen` up to its call of `fuse_ukfs_queue_init`. -/
def vopen (s : Sys T S F) (t : T) (allocOk : Bool) : Option (Sys T S F) :=
  match s.pc t with
  | .idle =>
      if allocOk then
        (s.queue.callInit t).map fun queue => { s.setPc t .vopenInit with queue := queue }
      else some s
  | _ => none

/-- The rest of `fusefs_vopen`: the registered session is read, and a daemon
is started for it on the thread `d`. -/
def start (s : Sys T S F) (t d : T) (buf : Mem) (startOk : Bool) : Option (Sys T S F) :=
  match s.pc t, s.queue.pc t with
  | .vopenInit, .out =>
      let s' := { s.setPc t .idle with nodes := s.nodes ++ [⟨fusefsFileAlloc F 1, s.registered⟩] }
      match s.registered, startOk with
      | some se, true =>
          match s.pc d with
          | .idle => some (s'.setPc d (.daemon se buf .loop))
          | _ => none
      | _, _ => some s'
  | _, _ => none

end Mounting

variable [Platform] (ops : S → FuseLowlevelOps)

/-- The next statement of thread `t` outside the queue functions. -/
def run (s : Sys T S F) (t : T) (allocOk : Bool) : Option (Sys T S F) :=
  match s.pc t with
  | .daemon se buf pc => s.runDaemon ops t se buf allocOk pc
  | _ => s.runClient t allocOk

/-- One step of the system. -/
def step (s : Sys T S F) : SysAct T S F → Option (Sys T S F)
  | .mount se => some { s with registered := some se }
  | .vopen t allocOk => s.vopen t allocOk
  | .start t d buf startOk => s.start t d buf startOk
  | .call t op strndupOk => s.call t op strndupOk
  | .run t allocOk => s.run ops t allocOk
  | .queue t => (s.queue.tick t).map fun queue => { s with queue := queue }
  | .reply h r mallocOk => s.reply ops h r mallocOk
  | .replyStep h => s.replyStep h

omit [DecidableEq T] [Platform] in
/-- The records that queue, daemon and libfuse code reads or writes in a step. -/
def touched (s : Sys T S F) : SysAct T S F → List T
  | .run d _ =>
      match s.pc d, s.queue.pc d with
      -- the debug output at the end of fuse_ukfs_queue_pop
      | .daemon _ _ .loop, .popReturn req => [req]
      | .daemon _ _ (.popped req), _ => [req]
      | .daemon _ _ (.failing req (_ :: _)), _ => [req]
      | .daemon _ _ (.device req), _ => [req]
      | _, _ => []
  | .queue t =>
      match s.queue.pc t with
      -- the list links of the record and of the last one
      | .pushInsert req => req :: s.queue.q.head.getLast?.toList
      -- the list links of the first record and of the second one
      | .popRemove => s.queue.q.head.take 2
      | _ => []
  | .replyStep h =>
      match s.handles[h]? with
      | some ⟨req, _, _, _, _, act :: _, _⟩ => if act.touches then [req] else []
      | _ => []
  | _ => []

/-- Before the first mount; the stacks hold anything. -/
def boot (record : T → FuseUkfsRequest) : Sys T S F where
  queue := .fresh ⟨[], none, 0⟩
  pc := fun _ => .idle
  record := record
  unique := 1
  nodes := []
  handles := []
  registered := none
  serial := 0
  origin := fun _ => ⟨0, 0⟩
  raised := fun _ => 0

end Sys

/-- Any number of threads, mounts and sessions, from boot on. -/
def fuseSystem (T S F : Type) [DecidableEq T] [Platform] (ops : S → FuseLowlevelOps) :
    TSys (Sys T S F) (SysAct T S F) :=
  .ofFun (fun s => ∃ record, s = .boot record) (Sys.step ops)

end UkfsFuse
