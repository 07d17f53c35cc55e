import UkfsFuse.Source.Daemon
import UkfsFuse.Source.Dirent

/-!
# The driver operations (`ukfs-fuse.c`)

Each operation is cut where it waits for `done`: `..Enter` runs up to the push
of a request (or returns without one), `..Finish` runs from
`uk_semaphore_down` to the return. A `Finish` function is `none` where the
source would read a reply object of another type or beyond its end.

`F` is the type of the files of other file systems.
-/

namespace UkfsFuse

open UkfsFuse.Core

/-- `struct fusefs_file` -/
structure FusefsFile (F : Type) where
  nodeid : UInt64
  fh : UInt64
  upref : Option F
deriving DecidableEq, Repr

/-- The value of `fh` that stands for "not yet opened". -/
def FH_UNSET : UInt64 := 0xffffffffffffffff

/-- `fusefs_file_alloc` -/
def fusefsFileAlloc (F : Type) (nodeid : UInt64) : FusefsFile F := ⟨nodeid, FH_UNSET, none⟩

/-- An operation before its first wait. -/
inductive Enter (R : Type)
  | ret (result : R)
  | submit (input : RequestIn)
deriving DecidableEq

section Driver

variable [Platform] {F : Type}

/-! ## `fusefs_lookup`, `fusefs_graft` -/

/-- `out->target` -/
inductive Target (F : Type)
  | self
  | upref (f : F)
  | child (ff : FusefsFile F)
deriving DecidableEq, Repr

/-- Return value, `out->target` and `*nout`. -/
structure LookupResult (F : Type) where
  ret : Int32
  target : Option (Target F)
  nout : Option Nat
deriving DecidableEq, Repr

/-- A lookup that returns an error. -/
def LookupResult.fail (error : Int32) : LookupResult F := ⟨error, none, none⟩

/-- `fusefs_lookup` up to its request; `strndupOk` is the outcome of `strndup`. -/
def fusefsLookupEnter (ff : FusefsFile F) (path : List UInt8) (len : Nat) (strndupOk : Bool) :
    Enter (LookupResult F) :=
  if len = 0 ∨ (len = 1 ∧ path[0]? = some 0x2e) then
    .ret ⟨Platform.UKFS_STOP_FILE, some .self, some len⟩
  else if len = 2 ∧ path[0]? = some 0x2e ∧ path[1]? = some 0x2e then
    match ff.upref with
    | some f => .ret ⟨Platform.UKFS_STOP_MNT, some (.upref f), some len⟩
    | none => .ret ⟨Platform.UKFS_STOP_MNT, some .self, some len⟩
  else if !strndupOk then .ret (.fail (-ENOMEM))
  else .submit (.lookup ff.nodeid (CStr.strndup path len))

/-- `fusefs_lookup` from its answer on; `allocOk` is the outcome of
`fusefs_file_alloc`. -/
def fusefsLookupFinish (len : Nat) (answer : Answer) (allocOk : Bool) : Option (LookupResult F) :=
  if answer.error ≠ 0 then some (.fail answer.error)
  else
    match answer.replyData with
    | none => some (.fail (- EIO))
    | some (.entry e) =>
        if allocOk then
          some ⟨Platform.UKFS_STOP_FILE, some (.child (fusefsFileAlloc F e.ino)), some len⟩
        else some (.fail (-ENOMEM))
    | some _ => none

/-- `fusefs_graft`; `none` when `UK_ASSERT(!ff->upref)` fails. -/
def fusefsGraft (ff : FusefsFile F) (ref : F) : Option (FusefsFile F) :=
  match ff.upref with
  | some _ => none
  | none => some { ff with upref := some ref }

/-! ## `fusefs_do_open`, `fusefs_read` -/

/-- The request of `fusefs_do_open`. -/
def fusefsDoOpenEnter (ff : FusefsFile F) : RequestIn := .open_ ff.nodeid 0

/-- `fusefs_do_open` from its answer on: the return value and the handle that
is stored. -/
def fusefsDoOpenFinish (answer : Answer) : Option (Int32 × Option UInt64) :=
  if answer.error ≠ 0 then some (answer.error, none)
  else
    match answer.replyData with
    | none => some (- EIO, none)
    | some (.openOut out) => some (0, some out.fh)
    | some _ => none

/-- The sum of the `iov_len`, a `size_t`. -/
def iovTotal (iov : List UInt64) : UInt64 := iov.foldl (· + ·) 0

/-- `fusefs_read` once the file has a handle: no bytes wanted, or a request. -/
def fusefsReadEnter (ff : FusefsFile F) (iov : List UInt64) (off : UInt64) : Enter Int64 :=
  let total := iovTotal iov
  if total = 0 then .ret 0
  else .submit (.read ff.nodeid ff.fh off total.toUInt32)

/-- The scatter loop: what is copied into each buffer. -/
def scatter : List UInt64 → List UInt8 → List (List UInt8)
  | [], _ => []
  | len :: iov, src =>
      if src.length = 0 then []
      else
        let n := if len.toNat < src.length then len.toNat else src.length
        src.take n :: scatter iov (src.drop n)

/-- Return value of `fusefs_read` and the bytes written to each buffer. -/
structure ReadResult where
  ret : Int64
  written : List (List UInt8)
deriving DecidableEq, Repr

/-- `fusefs_read` from its answer on. -/
def fusefsReadFinish (iov : List UInt64) (answer : Answer) : Option ReadResult :=
  if answer.error ≠ 0 then some ⟨answer.error.toInt64, []⟩
  else
    match answer.replyData with
    | none => some ⟨0, []⟩
    | some (.bytes src) =>
        if answer.replyLen ≤ src.length then
          let written := scatter iov (src.take answer.replyLen)
          some ⟨.ofNat (written.map List.length).sum, written⟩
        else none
    | some _ => none

/-! ## `fusefs_getstat` -/

/-- `UK_STATX_MODE` and so on, of which only the names are known. -/
inductive UkStatxFlag
  | mode
  | size
  | ino
  | nlink
deriving DecidableEq, Repr

/-- The `struct uk_statx` fields the driver sets, as wide as what it stores in
them; of `stx_mask`, its flags. -/
structure UkStatx where
  stxMask : List UkStatxFlag
  stxMode : UInt32
  stxSize : Int64
  stxIno : UInt64
  stxNlink : UInt64
  stxUid : UInt32
  stxGid : UInt32
deriving DecidableEq, Repr

/-- The request of `fusefs_getstat`. -/
def fusefsGetstatEnter (ff : FusefsFile F) : RequestIn := .getattr ff.nodeid

/-- `UK_STATX_MODE | UK_STATX_SIZE | UK_STATX_INO | UK_STATX_NLINK` -/
def getstatMask : List UkStatxFlag := [.mode, .size, .ino, .nlink]

/-- `fusefs_getstat` from its answer on. -/
def fusefsGetstatFinish (answer : Answer) : Option (Int32 × Option UkStatx) :=
  if answer.error ≠ 0 then some (answer.error, none)
  else
    match answer.replyData with
    | none => some (- EIO, none)
    | some (.attr st) =>
        some (0, some
          ⟨getstatMask, st.stMode, st.stSize, st.stIno, st.stNlink, st.stUid, st.stGid⟩)
    | some _ => none

/-! ## `fusefs_listdir` -/

/-- `struct uk_fs_dirent`; the name with its NUL. -/
structure UkFsDirent where
  dIno : UInt64
  dOff : Int64
  dReclen : UInt16
  dType : UInt8
  dName : List UInt8
deriving DecidableEq, Repr

/-- Return value, `*curp` afterwards, and the record written to the buffer. -/
structure ListdirResult where
  ret : Int
  curp : UInt64
  out : Option UkFsDirent
deriving DecidableEq, Repr

/-- The request of `fusefs_listdir`. -/
def fusefsListdirEnter (ff : FusefsFile F) (curp : UInt64) : RequestIn :=
  .readdir ff.nodeid 0 curp 4096

/-- `fusefs_listdir` from its answer on, with a buffer of `len` bytes. -/
def fusefsListdirFinish (curp : UInt64) (len : Nat) (answer : Answer) : Option ListdirResult :=
  if answer.error ≠ 0 then some ⟨answer.error.toInt, curp, none⟩
  else if answer.replyData = none ∨ answer.replyLen = 0 then some ⟨0, curp, none⟩
  else
    match answer.replyData with
    | some (.bytes reply) =>
        match FuseDirent.firstNamelen reply with
        | none => none
        | some namelen =>
            let reclen := Platform.UKFS_DIRENT_RECLEN namelen.toNat
            if len < reclen then some ⟨(-EINVAL).toInt, curp, none⟩
            else
              (FuseDirent.first reply).map fun fd => {
                ret := reclen
                curp := fd.off
                out := some {
                  dIno := fd.ino
                  dOff := fd.off.toInt64
                  dReclen := .ofNat reclen
                  dType := fd.type.toUInt8
                  dName := fd.name ++ [0] } }
    | _ => none

/-! ## An operation and its answer -/

/-- The answer to a request that is served by a backend answering in its
callback; `none` when the client is not woken. -/
def roundTrip (op : FuseLowlevelOps) (buf : Mem) (unique : UInt64) (callocOk mallocOk : Bool)
    (backend : FuseReq → Call → Reply) (input : RequestIn) : Option Answer :=
  let req := FuseUkfsRequest.init unique input
  match serveRequest (fuseSessionNewVersioned op) buf req callocOk mallocOk backend with
  | none => none
  | some acts => if .up ∈ acts then some (atUp acts req).answer else none

/-- `fusefs_listdir`, its request answered by `submit`. -/
def fusefsListdir (submit : RequestIn → Option Answer) (ff : FusefsFile F) (curp : UInt64)
    (len : Nat) : Option ListdirResult :=
  (submit (fusefsListdirEnter ff curp)).bind (fusefsListdirFinish curp len)

/-- `fusefs_lookup`, its request answered by `submit`. -/
def fusefsLookup (submit : RequestIn → Option Answer) (ff : FusefsFile F) (path : List UInt8)
    (len : Nat) (strndupOk allocOk : Bool) : Option (LookupResult F) :=
  match fusefsLookupEnter ff path len strndupOk with
  | .ret result => some result
  | .submit input => (submit input).bind fun answer => fusefsLookupFinish len answer allocOk

end Driver

end UkfsFuse
