import UkfsFuse.Core.Words
import UkfsFuse.Source.Request

/-!
# Capability flags of a connection (`fuse_lowlevel.c`, `fuse_uring_stub.c`, `fuse_config.h`)

A backend may ask for capabilities in a 32-bit field, `want`, or in a 64-bit
one, `want_ext`. `do_init` sets its defaults in both, calls `op.init`, and
converts what that left in `want`. The defaults are kept in the session, so
that a change can be told from them.
-/

namespace UkfsFuse

/-- The flags of `struct fuse_conn_info`. -/
structure FuseConnInfo where
  capableExt : UInt64
  want : UInt32
  wantExt : UInt64
deriving DecidableEq, Repr

/-- The fields of `struct fuse_session` these functions reach through
`container_of`: the connection and its defaults. -/
structure ConnSession where
  conn : FuseConnInfo
  connWant : UInt32
  connWantExt : UInt64
deriving DecidableEq, Repr

/-- `fuse_higher_32_bits` of the port, which returns a `uint32_t` -/
def fuseHigher32Bits (n : UInt64) : UInt32 := (n >>> 32).toUInt32

/-- `fuse_lower_32_bits` -/
def fuseLower32Bits (n : UInt64) : UInt32 := n.toUInt32

namespace ConnSession

variable (se : ConnSession)

/-- The last part of `fuse_convert_to_conn_want_ext`. -/
def settleWant : ConnSession :=
  { se with conn := { se.conn with want := fuseLower32Bits se.conn.wantExt } }

/-- `fuse_convert_to_conn_want_ext` -/
def fuseConvertToConnWantExt : Int32 × ConnSession :=
  if se.conn.want ≠ se.connWant ∧ fuseLower32Bits se.conn.wantExt ≠ se.conn.want then
    if se.conn.wantExt ≠ se.connWantExt then (-EINVAL, se)
    else
      -- an `|` of two uint32_t, widened by the assignment
      let wantExt := (fuseHigher32Bits se.conn.wantExt ||| se.conn.want).toUInt64
      (0, settleWant { se with conn := { se.conn with wantExt := wantExt } })
  else (0, se.settleWant)

/-- `fuse_set_feature_flag` -/
def fuseSetFeatureFlag (flag : UInt64) : Bool × ConnSession :=
  if se.conn.capableExt &&& flag ≠ 0 then
    (true, {
      conn := { se.conn with
        wantExt := se.conn.wantExt ||| flag
        want := se.conn.want ||| flag.toUInt32 }
      connWantExt := se.connWantExt ||| flag
      connWant := se.connWant ||| flag.toUInt32 })
  else (false, se)

/-- `fuse_unset_feature_flag` -/
def fuseUnsetFeatureFlag (flag : UInt64) : ConnSession where
  conn := { se.conn with
    wantExt := se.conn.wantExt &&& ~~~flag
    want := se.conn.want &&& (~~~flag).toUInt32 }
  connWantExt := se.connWantExt &&& ~~~flag
  connWant := se.connWant &&& (~~~flag).toUInt32

end ConnSession

end UkfsFuse
