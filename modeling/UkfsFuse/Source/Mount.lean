import UkfsFuse.Source.System

/-!
# A mount and what may fail in it (`fusefs_vopen`, `fuse_daemon.c`)

Three functions take part in a mount, the last of them in a thread of its own.
In the system of threads the file allocation is the outcome of a `vopen` step;
`MountEnv.daemonOk` says of the others what a `start` step has to know: whether
there is a daemon afterwards.
-/

namespace UkfsFuse

/-- The outcomes of the allocations of a mount and of its thread creation. -/
structure MountEnv where
  /-- `fusefs_file_alloc` -/
  fileOk : Bool
  /-- `uk_alloc_get_default` in `fuse_daemon_start` -/
  allocatorOk : Bool
  /-- `uk_malloc` of the daemon's arguments -/
  daOk : Bool
  /-- `uk_thread_create_fn1` -/
  threadOk : Bool
  /-- `uk_malloc` of the daemon's buffer -/
  bufOk : Bool
deriving DecidableEq, Repr

/-- `fuse_daemon_start(q, se)`: its return value, and whether the new thread
was added to the scheduler. -/
def fuseDaemonStart (env : MountEnv) : Int32 × Bool :=
  if !env.allocatorOk then (-ENOMEM, false)
  else if !env.daOk then (-ENOMEM, false)
  else if !env.threadOk then (-ENOMEM, false)
  else (0, true)

/-- `fuse_daemon_thread` up to its loop: without a buffer it returns. -/
def fuseDaemonThread (env : MountEnv) : Bool := env.bufOk

/-- A daemon has been started and has reached its loop. -/
def MountEnv.daemonOk (env : MountEnv) : Bool := (fuseDaemonStart env).2 && fuseDaemonThread env

/-- What `fusefs_vopen` leaves behind. -/
structure VopenResult (S F : Type) where
  /-- the root node, or the error of an error pointer -/
  ret : Except Int32 (FusefsFile F)
  /-- the value of `fuse_daemon_start`, if it was called; nobody reads it -/
  started : Option Int32
  /-- the session of the daemon that has reached its loop -/
  daemon : Option S

/-- `fusefs_vopen`; `registered` is what `fuse_session_get_registered` returns. -/
def fusefsVopen {S F : Type} (env : MountEnv) (registered : Option S) : VopenResult S F :=
  if !env.fileOk then ⟨.error (-ENOMEM), none, none⟩
  else
    let n := fusefsFileAlloc F 1
    match registered with
    | some se =>
        ⟨.ok n, some (fuseDaemonStart env).1,
          if (fuseDaemonStart env).2 && fuseDaemonThread env then some se else none⟩
    | none => ⟨.ok n, none, none⟩

end UkfsFuse
