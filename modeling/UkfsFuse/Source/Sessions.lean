import UkfsFuse.Core.TSys
import UkfsFuse.Source.Daemon

/-!
# Sessions from creation to destruction (`fuse_lowlevel.c`, `hello_ll.c`)

The calls a backend's `main` makes on its session, for any number of backends,
between the mounts of `fusefs_vopen` and the requests of its daemons. A session
is the number of those created before it, so a freed one is not mistaken for a
later one at the same address.

`main`, `invoked` and `closed` are not fields of the program: they say where
the `main` of a session is, which of its backend's callbacks were invoked, and
which descriptors were closed for it.
-/

namespace UkfsFuse

open UkfsFuse.Core

/-- `struct fuse_lowlevel_ops`: the callbacks for requests, and the two others. -/
structure BackendOps where
  init : Bool := false
  destroy : Bool := false
  requests : FuseLowlevelOps := {}
deriving DecidableEq, Repr

/-- Where a backend's `main` is with its session: at which call. -/
inductive MainPc
  | fuseSetSignalHandlers
  | fuseSessionMount
  /-- at `fuse_session_loop` or `fuse_session_loop_mt` -/
  | loop
  /-- inside `fuse_session_loop`, which does not return -/
  | looping
  | fuseSessionUnmount
  | fuseRemoveSignalHandlers
  | fuseSessionDestroy
  | done
deriving DecidableEq, Repr

/-- A callback that was invoked. -/
inductive Invoked
  | init
  | request (call : Call)
  | destroy
deriving DecidableEq

/-- A `struct fuse_session`; `io` and `mountpoint` are not `NULL`. -/
structure SessionObject where
  op : BackendOps
  gotInit : Bool
  gotDestroy : Bool
  fd : Int32
  io : Bool
  mountpoint : Bool
  main : MainPc
  invoked : List Invoked
  closed : List Int32
deriving DecidableEq

def FUSE_DESTROY : UInt32 := 38
def EBADF : Int32 := 9

/-- `fuse_session_new_versioned`; `op` is `none` for an empty op list. -/
def fuseSessionNew (op : Option BackendOps) (callocOk : Bool) : Option SessionObject :=
  match op, callocOk with
  | some op, true => some {
      op := op
      gotInit := true
      gotDestroy := false
      fd := 0
      io := false
      mountpoint := false
      main := .fuseSetSignalHandlers
      invoked := []
      closed := [] }
  | _, _ => none

/-- How far `do_init` gets: it may refuse the message before it calls
`op.init`, or what the backend asks for after that. -/
inductive InitOutcome
  | refused
  | invalidWishes
  | accepted
deriving DecidableEq, Repr

namespace SessionObject

/-- The fields request processing reads. -/
def processing (se : SessionObject) : FuseSession :=
  { fuseSessionNewVersioned se.op.requests with gotInit := se.gotInit }

/-- A callback is invoked if it is set. -/
def invoke (se : SessionObject) (isSet : Bool) (what : Invoked) : SessionObject :=
  if isSet then { se with invoked := se.invoked ++ [what] } else se

/-- `fuse_session_custom_io_317`; `io` says whether `read` and `writev` are set. -/
def fuseSessionCustomIo (se : SessionObject) (fd : Int32) (io : Option Bool) (callocOk : Bool) :
    Int32 × SessionObject :=
  if fd < 0 then (-EBADF, se)
  else if io ≠ some true then (-EINVAL, se)
  else if callocOk then (0, { se with io := true, fd := fd })
  else (-ENOMEM, { se with io := false })

/-- `fuse_session_unmount` -/
def fuseSessionUnmount (se : SessionObject) : SessionObject :=
  if se.mountpoint then { se with mountpoint := false, fd := -1 } else se

/-- `fuse_session_destroy` up to `free(se)`; the port's `pthread_getspecific`
returns `NULL`, so there is no pipe to free. -/
def fuseSessionDestroy (se : SessionObject) : SessionObject :=
  let se := if se.gotInit && !se.gotDestroy then se.invoke se.op.destroy .destroy else se
  { se with closed := if se.fd ≠ -1 then se.closed ++ [se.fd] else se.closed }

/-- `do_init` -/
def doInit (se : SessionObject) : InitOutcome → SessionObject
  | .refused => se
  | .invalidWishes => se.invoke se.op.init .init
  | .accepted => { se.invoke se.op.init .init with gotInit := true }

/-- `do_destroy` -/
def doDestroy (se : SessionObject) : SessionObject :=
  { se with mountpoint := false, gotDestroy := true, gotInit := false }.invoke se.op.destroy
    .destroy

/-- One request served by a daemon of the session; `none` where the message
overruns the daemon's buffer or ends in the middle of a name. -/
def serve (se : SessionObject) (buf : Mem) (req : FuseUkfsRequest) (callocOk : Bool)
    (outcome : InitOutcome) : Option SessionObject :=
  match daemonPass se.processing buf req callocOk with
  | .failed _ => some se
  | .overrun => none
  | .processed _ .noReq => some se
  | .processed _ (.handled _ (.callback call)) => some (se.invoke true (.request call))
  | .processed _ (.handled _ (.own _)) => some se
  | .processed _ (.handled _ .unterminated) => none
  | .processed _ (.handled _ (.otherHandler opcode)) =>
      some (if opcode = FUSE_INIT then se.doInit outcome
        else if opcode = FUSE_DESTROY then se.doDestroy else se)

/-- The `main` of `hello_ll.c`, from the session on. The stub that sets signal
handlers and `fuse_session_mount` return 0. -/
def mainNext (se : SessionObject) (singlethread : Bool) : Option SessionObject :=
  match se.main with
  | .fuseSetSignalHandlers => some { se with main := .fuseSessionMount }
  | .fuseSessionMount => some { se with main := .loop }
  -- fuse_session_loop_mt_312 is a stub that returns -1
  | .loop => some { se with main := if singlethread then .looping else .fuseSessionUnmount }
  | .looping => none
  | .fuseSessionUnmount => some { se.fuseSessionUnmount with main := .fuseRemoveSignalHandlers }
  | .fuseRemoveSignalHandlers => some { se with main := .fuseSessionDestroy }
  | .fuseSessionDestroy => some { se.fuseSessionDestroy with main := .done }
  | .done => none

end SessionObject

/-- A daemon thread: its session, and whether that was alive when
`fusefs_vopen` handed it over. -/
structure HandedOver where
  session : Nat
  alive : Bool
deriving DecidableEq, Repr

/-- All sessions ever created, and those in use. -/
structure Sessions where
  all : List SessionObject
  /-- `fuse_registered_session` -/
  registered : Option Nat
  daemons : List HandedOver
deriving DecidableEq

inductive SessionAct
  | new (op : Option BackendOps) (callocOk : Bool)
  | customIo (i : Nat) (fd : Int32) (io : Option Bool) (callocOk : Bool)
  /-- the next call of the `main` of session `i` -/
  | main (i : Nat) (singlethread : Bool)
  /-- `fusefs_vopen`; `startOk` is the outcome of `fuse_daemon_start` -/
  | vopen (startOk : Bool)
  /-- daemon `d` serves a request -/
  | request (d : Nat) (buf : Mem) (req : FuseUkfsRequest) (callocOk : Bool) (outcome : InitOutcome)

namespace Sessions

variable (s : Sessions)

def set (i : Nat) (se : SessionObject) : Sessions := { s with all := s.all.set i se }

/-- Created and not yet destroyed. -/
def alive (i : Nat) : Bool := (s.all[i]?).any fun se => se.main != .done

/-- The next call of the `main` of session `i`; `fuse_session_mount` registers
the session. -/
def main (i : Nat) (singlethread : Bool) : Option Sessions :=
  (s.all[i]?).bind fun se =>
    (se.mainNext singlethread).map fun se' => { s.set i se' with
      registered := if se.main = .fuseSessionMount then some i else s.registered }

/-- The part of `fusefs_vopen` that starts a daemon. -/
def vopen (startOk : Bool) : Sessions :=
  match s.registered, startOk with
  | some i, true => { s with daemons := s.daemons ++ [⟨i, s.alive i⟩] }
  | _, _ => s

/-- One step; a request for a session that was freed has no meaning. -/
def step : SessionAct → Option Sessions
  | .new op callocOk =>
      some (match fuseSessionNew op callocOk with
        | some se => { s with all := s.all ++ [se] }
        | none => s)
  | .customIo i fd io callocOk =>
      (s.all[i]?).bind fun se =>
        if s.alive i then some (s.set i (se.fuseSessionCustomIo fd io callocOk).2) else none
  | .main i singlethread => s.main i singlethread
  | .vopen startOk => some (s.vopen startOk)
  | .request d buf req callocOk outcome =>
      (s.daemons[d]?).bind fun h =>
        (s.all[h.session]?).bind fun se =>
          if s.alive h.session then
            (se.serve buf req callocOk outcome).map (s.set h.session)
          else none

end Sessions

/-! ## The calls by themselves -/

/-- A call of the session functions, in whatever order; sessions are numbered
as they were created. -/
inductive SessionCall
  | new (op : Option BackendOps) (callocOk : Bool)
  | customIo (i : Nat) (fd : Int32) (io : Option Bool) (callocOk : Bool)
  | mount (i : Nat)
  | unmount (i : Nat)
  | destroy (i : Nat)

namespace Sessions

/-- A function is called on session `i`; on a freed one that has no meaning. -/
def onSession (s : Sessions) (i : Nat) (f : SessionObject → SessionObject) : Option Sessions :=
  (s.all[i]?).bind fun se => if se.main = .done then none else some (s.set i (f se))

/-- One call. -/
def call (s : Sessions) : SessionCall → Option Sessions
  | .new op callocOk => s.step (.new op callocOk)
  | .customIo i fd io callocOk =>
      s.onSession i fun se => (se.fuseSessionCustomIo fd io callocOk).2
  | .mount i => (s.onSession i id).map fun s => { s with registered := some i }
  | .unmount i => s.onSession i .fuseSessionUnmount
  | .destroy i => s.onSession i fun se => { se.fuseSessionDestroy with main := .done }

end Sessions

/-- Any number of backends and mounts. -/
def sessionSystem : TSys Sessions SessionAct :=
  .ofFun (fun s => s = ⟨[], none, []⟩) Sessions.step

end UkfsFuse
