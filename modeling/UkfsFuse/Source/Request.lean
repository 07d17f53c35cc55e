import UkfsFuse.Source.Kernel

/-!
# Request records and replies (`uk/fuse.h`, `fuse_lowlevel.h`)

`struct fuse_ukfs_request` lives in the frame of the client thread that waits
for it. Its `in` union is a sum over the opcode, so a record whose union
member does not match its opcode cannot be built. `reply_data` points to the
object a reply function allocated; the object is kept by what was copied into
it.
-/

namespace UkfsFuse

open UkfsFuse.Core

/-! ## Error numbers -/

def ENOENT : Int32 := 2
def EIO : Int32 := 5
def ENOMEM : Int32 := 12
def EACCES : Int32 := 13
def EINVAL : Int32 := 22
def ERANGE : Int32 := 34
def ENOSYS : Int32 := 38

/-! ## What the repository takes from outside -/

/-- Constants of headers that are not part of the repository: `sizeof(struct
stat)`, `UKFS_DIRENT_RECLEN` with the offset of `d_name` it has to cover, and
two of the values a lookup returns. -/
class Platform where
  sizeofStat : Nat
  offsetofDName : Nat
  UKFS_DIRENT_RECLEN : Nat → Nat
  reclen_covers : ∀ n, offsetofDName + n + 1 ≤ UKFS_DIRENT_RECLEN n
  UKFS_STOP_FILE : Int32
  UKFS_STOP_MNT : Int32
  stop_nonneg : 0 ≤ UKFS_STOP_FILE ∧ 0 ≤ UKFS_STOP_MNT
  stop_ne : UKFS_STOP_FILE ≠ UKFS_STOP_MNT

/-- Header constants to run concrete inputs with. -/
@[reducible] def sampleHeaders : Platform where
  sizeofStat := 144
  offsetofDName := 19
  UKFS_DIRENT_RECLEN n := 19 + n + 1
  reclen_covers _ := Nat.le_refl _
  UKFS_STOP_FILE := 0
  UKFS_STOP_MNT := 1
  stop_nonneg := by decide
  stop_ne := by decide

/-! ## Reply objects -/

/-- The fields of `struct stat` that are read on the way to the client. -/
structure Stat where
  stIno : UInt64 := 0
  stMode : UInt32 := 0
  stNlink : UInt64 := 0
  stUid : UInt32 := 0
  stGid : UInt32 := 0
  stSize : Int64 := 0
deriving DecidableEq, Repr

/-- `struct fuse_entry_param`; the two timeouts by their bits. -/
structure FuseEntryParam where
  ino : UInt64
  generation : UInt64 := 0
  attr : Stat := {}
  attrTimeout : UInt64 := 0
  entryTimeout : UInt64 := 0
deriving DecidableEq, Repr

/-- `struct fuse_file_info` -/
structure FuseFileInfo where
  flags : Int32 := 0
  writepage : Bool := false
  directIo : Bool := false
  keepCache : Bool := false
  flush : Bool := false
  nonseekable : Bool := false
  flockRelease : Bool := false
  cacheReaddir : Bool := false
  noflush : Bool := false
  parallelDirectWrites : Bool := false
  fh : UInt64 := 0
  lockOwner : UInt64 := 0
  pollEvents : UInt32 := 0
  backingId : Int32 := 0
  compatFlags : UInt64 := 0
deriving DecidableEq, Repr

/-- The object behind `reply_data`. -/
inductive ReplyData
  | entry (e : FuseEntryParam)
  | attr (st : Stat)
  | openOut (out : FuseOpenOut)
  | bytes (bs : List UInt8)
deriving DecidableEq, Repr

/-! ## The request record -/

/-- Opcode and `in` union of a `struct fuse_ukfs_request`. -/
inductive RequestIn
  | lookup (parentIno : UInt64) (name : CStr)
  | getattr (ino : UInt64)
  | open_ (ino : UInt64) (flags : UInt32)
  | read (ino fh offset : UInt64) (size : UInt32)
  | readdir (ino fh offset : UInt64) (size : UInt32)
  /-- an opcode that is none of the five -/
  | other (opcode : UInt32) (hopcode : opcode = 0 ∨ 5 < opcode)
deriving DecidableEq

def FUSE_UKFS_LOOKUP : UInt32 := 1
def FUSE_UKFS_GETATTR : UInt32 := 2
def FUSE_UKFS_OPEN : UInt32 := 3
def FUSE_UKFS_READ : UInt32 := 4
def FUSE_UKFS_READDIR : UInt32 := 5

/-- `req->opcode` -/
def RequestIn.opcode : RequestIn → UInt32
  | .lookup .. => FUSE_UKFS_LOOKUP
  | .getattr .. => FUSE_UKFS_GETATTR
  | .open_ .. => FUSE_UKFS_OPEN
  | .read .. => FUSE_UKFS_READ
  | .readdir .. => FUSE_UKFS_READDIR
  | .other n _ => n

/-- The request is of one of the five kinds of `enum fuse_ukfs_opcode`. -/
def RequestIn.Known : RequestIn → Prop
  | .other .. => False
  | _ => True

/-- `struct fuse_ukfs_request`; `done` is the count of its semaphore. -/
structure FuseUkfsRequest where
  unique : UInt64
  input : RequestIn
  error : Int32
  replyData : Option ReplyData
  replyLen : Nat
  done : Nat
deriving DecidableEq

/-- `memset(&req, 0, sizeof(req))`, the assignments of opcode, unique and
input, and `uk_semaphore_init(&req.done, 0)`. -/
def FuseUkfsRequest.init (unique : UInt64) (input : RequestIn) : FuseUkfsRequest where
  unique := unique
  input := input
  error := 0
  replyData := none
  replyLen := 0
  done := 0

/-- What the client reads after `uk_semaphore_down(&req.done)`. -/
structure Answer where
  error : Int32
  replyData : Option ReplyData
  replyLen : Nat
deriving DecidableEq, Repr

def FuseUkfsRequest.answer (req : FuseUkfsRequest) : Answer :=
  ⟨req.error, req.replyData, req.replyLen⟩

end UkfsFuse
