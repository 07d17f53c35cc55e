import UkfsFuse.Source.Request

/-!
# Sessions and backend callbacks (`fuse_lowlevel.c`, `fuse_i.h`)

The part of `struct fuse_session` that request processing reads. A callback of
`struct fuse_lowlevel_ops` is present or `NULL`; what a backend does when one
is invoked is not the session's business.
-/

namespace UkfsFuse

/-- Which of the callbacks the daemon's opcodes lead to are set. -/
structure FuseLowlevelOps where
  lookup : Bool := false
  getattr : Bool := false
  open_ : Bool := false
  read : Bool := false
  readdir : Bool := false
deriving DecidableEq, Repr

/-- A backend with all five callbacks. -/
def FuseLowlevelOps.full : FuseLowlevelOps := ⟨true, true, true, true, true⟩

/-- The fields of `struct fuse_session` that processing a request reads. -/
structure FuseSession where
  op : FuseLowlevelOps
  gotInit : Bool
  cuseData : Bool
  denyOthers : Bool
  owner : UInt32
  protoMinor : UInt32
  wantExt : UInt64
deriving DecidableEq, Repr

/-- `fuse_session_new_versioned` when its `calloc` succeeds: everything zero
but `got_init`, the protocol version and the copied callbacks. -/
def fuseSessionNewVersioned (op : FuseLowlevelOps) : FuseSession where
  op := op
  gotInit := true
  cuseData := false
  denyOthers := false
  owner := 0
  protoMinor := 31
  wantExt := 0

def FUSE_CAP_NO_OPEN_SUPPORT : UInt64 := (1 : UInt64) <<< 17

end UkfsFuse
