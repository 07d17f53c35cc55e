import UkfsFuse.Core.Spans
import UkfsFuse.Source.Operation

/-!
# `fusefs_read` over memory (`ukfs-fuse.c`)

The same function with the addresses it computes: the buffers of the `iovec`
list and the reply object lie in one memory, and `memcpy` moves bytes between
them. The ranges it reads are recorded.
-/

namespace UkfsFuse

open UkfsFuse.Core

/-- `struct iovec` -/
structure Iovec where
  iovBase : UInt64
  iovLen : UInt64
deriving DecidableEq, Repr

/-- The bytes of a buffer. -/
def Iovec.span (v : Iovec) : Span := ⟨v.iovBase.toNat, v.iovLen.toNat⟩

/-- The memory, and the ranges read by `memcpy` so far. -/
structure Copied where
  mem : Mem
  sources : List Span

/-- `memcpy(dst, src, n)` -/
def memcpy (c : Copied) (dst src n : UInt64) : Copied where
  mem := c.mem.write dst.toNat (c.mem.read src.toNat n.toNat)
  sources := c.sources ++ [⟨src.toNat, n.toNat⟩]

/-- The scatter loop: `src`, `remaining` and `copied` as the source moves them. -/
def scatterInto : List Iovec → UInt64 → UInt64 → Int64 → Copied → Int64 × Copied
  | [], _, _, copied, c => (copied, c)
  | v :: iov, src, remaining, copied, c =>
      if remaining = 0 then (copied, c)
      else
        let n := if v.iovLen < remaining then v.iovLen else remaining
        scatterInto iov (src + n) (remaining - n) (copied + n.toInt64) (memcpy c v.iovBase src n)

namespace Op

variable {F : Type} (submit : RequestIn → Option Answer)

/-- `fusefs_read` once the file has a handle. When the client wakes up the
memory is `m`, and `addr` is the address of the reply object. -/
def fusefsReadOpenedInto (iov : List Iovec) (off addr : UInt64) (m : Mem) :
    Op F (Int64 × Copied) := do
  match fusefsReadEnter (← get).file (iov.map Iovec.iovLen) off with
  | .ret result => return (result, ⟨m, []⟩)
  | .submit input =>
      let req ← request submit input
      if req.error ≠ 0 then return (req.error.toInt64, ⟨m, []⟩)
      else
        match req.replyData with
        | none => return (0, ⟨m, []⟩)
        | some p =>
            let result := scatterInto iov addr (.ofNat req.replyLen) 0 ⟨m, []⟩
            free (some p)
            return result

/-- `fusefs_read` -/
def fusefsReadInto (iov : List Iovec) (off addr : UInt64) (m : Mem) : Op F (Int64 × Copied) := do
  if (← get).file.fh = FH_UNSET then
    let err ← fusefsDoOpen submit
    if err ≠ 0 then return (err.toInt64, ⟨m, []⟩)
    else fusefsReadOpenedInto submit iov off addr m
  else fusefsReadOpenedInto submit iov off addr m

end Op

end UkfsFuse
