import UkfsFuse.Core.Heap
import UkfsFuse.Source.Driver

/-!
# The operations whole (`ukfs-fuse.c`)

`fusefs_read`, `fusefs_getstat`, `fusefs_lookup` and `fusefs_listdir` from
their call to their return, statement by statement: what they store for the
caller and in the node, and what they allocate, load and free on the heap.
`submit` is the way of a request through queue, daemon, libfuse and backend;
the object the reply function allocated for it appears on the heap when the
client wakes up.
-/

namespace UkfsFuse

open UkfsFuse.Core

/-- Why an operation does not return. -/
inductive Stuck
  /-- `uk_semaphore_down(&req.done)` waits for ever -/
  | waits
  /-- an object is read as one of another type, or beyond its end -/
  | badLoad
  | heap (fault : Fault)
deriving DecidableEq, Repr

/-- An object on the heap: one a reply function allocated, or a copy of a name. -/
inductive HeapObject
  | reply (data : ReplyData)
  | name (name : CStr)
deriving DecidableEq

/-- What the callers of the operations handed in to be written to. -/
structure Outputs (F : Type) where
  /-- what has been stored in the `iovec` buffers, in order -/
  stored : List (List UInt8)
  statx : UkStatx
  /-- `out->target` -/
  target : Option (Target F)
  /-- `*nout`, unless `nout` is `NULL` -/
  nout : Option Nat
  /-- the record in the directory buffer -/
  dirent : Option UkFsDirent
  /-- `*curp` -/
  curp : UInt64

/-- What an operation works on. -/
structure OpState (F : Type) where
  file : FusefsFile F
  out : Outputs F
  heap : Heap HeapObject

/-- A piece of an operation. -/
abbrev Op (F : Type) := StateT (OpState F) (Except Stuck)

/-- The answer in `req`; `reply_data` is an address on the heap. -/
structure Woken where
  error : Int32
  replyData : Option Nat
  replyLen : Nat

namespace Op

variable {F : Type}

/-! ## Heap and outputs -/

def setOut (f : Outputs F → Outputs F) : Op F Unit :=
  modify fun s => { s with out := f s.out }

/-- An allocation that succeeds. -/
def alloc (obj : HeapObject) : Op F Nat := do
  let s ← get
  set ({ s with heap := s.heap.alloc obj } : OpState F)
  return s.heap.next

def load (p : Nat) : Op F HeapObject := do
  match (← get).heap.load p with
  | .ok obj => return obj
  | .error fault => throw (.heap fault)

/-- `free`, which ignores `NULL`. -/
def free : Option Nat → Op F Unit
  | none => pure ()
  | some p => do
      let s ← get
      match s.heap.free p with
      | .ok heap => set ({ s with heap := heap } : OpState F)
      | .error fault => throw (.heap fault)

/-- The bytes of a reply of `fuse_reply_buf`. -/
def loadBytes (p : Nat) : Op F (List UInt8) := do
  match ← load p with
  | .reply (.bytes bs) => return bs
  | _ => throw .badLoad

/-- The source of `memcpy(.., p + off, n)`. -/
def loadSlice (p off n : Nat) : Op F (List UInt8) := do
  let bs ← loadBytes p
  if off + n ≤ bs.length then return (bs.drop off).take n else throw .badLoad

/-! ## A request -/

variable (submit : RequestIn → Option Answer)

/-- `fuse_ukfs_queue_push` and `uk_semaphore_down`. -/
def request (input : RequestIn) : Op F Woken := do
  match submit input with
  | none => throw .waits
  | some answer =>
      match answer.replyData with
      | none => return ⟨answer.error, none, answer.replyLen⟩
      | some data =>
          let p ← alloc (.reply data)
          return ⟨answer.error, some p, answer.replyLen⟩

/-! ## `fusefs_do_open`, `fusefs_read` -/

def fusefsDoOpen : Op F Int32 := do
  let req ← request submit (fusefsDoOpenEnter (← get).file)
  if req.error ≠ 0 then return req.error
  else
    match req.replyData with
    | none => return - EIO
    | some p =>
        match ← load p with
        | .reply (.openOut out) =>
            modify fun s => { s with file := { s.file with fh := out.fh } }
            free (some p)
            return 0
        | _ => throw .badLoad

/-- The scatter loop, from `src` on with `remaining` bytes to go. -/
def scatterLoop (p : Nat) : List UInt64 → Nat → Nat → Int64 → Op F Int64
  | [], _, _, copied => return copied
  | iovLen :: iov, src, remaining, copied =>
      if remaining = 0 then return copied
      else do
        let n := if iovLen.toNat < remaining then iovLen.toNat else remaining
        let bs ← loadSlice p src n
        setOut fun out => { out with stored := out.stored ++ [bs] }
        scatterLoop p iov (src + n) (remaining - n) (copied + .ofNat n)

/-- `fusefs_read` once the file has a handle. -/
def fusefsReadOpened (iov : List UInt64) (off : UInt64) : Op F Int64 := do
  match fusefsReadEnter (← get).file iov off with
  | .ret result => return result
  | .submit input =>
      let req ← request submit input
      if req.error ≠ 0 then return req.error.toInt64
      else
        match req.replyData with
        | none => return 0
        | some p =>
            let _src ← loadBytes p
            let copied ← scatterLoop p iov 0 req.replyLen 0
            free (some p)
            return copied

/-- `fusefs_read` -/
def fusefsRead (iov : List UInt64) (off : UInt64) : Op F Int64 := do
  if (← get).file.fh = FH_UNSET then
    let err ← fusefsDoOpen submit
    if err ≠ 0 then return err.toInt64
    else fusefsReadOpened submit iov off
  else fusefsReadOpened submit iov off

/-! ## `fusefs_getstat` -/

def fusefsGetstat : Op F Int32 := do
  let req ← request submit (fusefsGetstatEnter (← get).file)
  if req.error ≠ 0 then return req.error
  else
    match req.replyData with
    | none => return - EIO
    | some p =>
        match ← load p with
        | .reply (.attr st) =>
            setOut fun out => { out with
              statx := ⟨getstatMask, st.stMode, st.stSize, st.stIno, st.stNlink, st.stUid,
                st.stGid⟩ }
            free (some p)
            return 0
        | _ => throw .badLoad

variable [Platform]

/-! ## `fusefs_lookup` -/

/-- `out->target` and `*nout` of a lookup. -/
def storeLookup (result : LookupResult F) : Op F Unit :=
  setOut fun out => { out with
    target := result.target.or out.target
    nout := out.nout.map result.nout.getD }

/-- `fusefs_lookup`; `strndupOk` and `allocOk` are the outcomes of `strndup`
and of `fusefs_file_alloc`. -/
def fusefsLookup (path : List UInt8) (len : Nat) (strndupOk allocOk : Bool) : Op F Int32 := do
  match fusefsLookupEnter (← get).file path len strndupOk with
  | .ret result =>
      storeLookup result
      return result.ret
  | .submit input =>
      let name ← alloc (.name (CStr.strndup path len))
      let req ← request submit input
      free (some name)
      if req.error ≠ 0 then return req.error
      else
        match req.replyData with
        | none => return - EIO
        | some p =>
            match ← load p with
            | .reply (.entry e) =>
                if allocOk then
                  storeLookup ⟨Platform.UKFS_STOP_FILE,
                    some (.child (fusefsFileAlloc F e.ino)), some len⟩
                  free (some p)
                  return Platform.UKFS_STOP_FILE
                else
                  free (some p)
                  return -ENOMEM
            | _ => throw .badLoad

/-! ## `fusefs_listdir` -/

/-- `fd->namelen` -/
def loadNamelen (p : Nat) : Op F UInt32 := do
  match FuseDirent.firstNamelen (← loadBytes p) with
  | some namelen => return namelen
  | none => throw .badLoad

/-- The fields of `*fd` and its name. -/
def loadDirent (p : Nat) : Op F FuseDirent := do
  match FuseDirent.first (← loadBytes p) with
  | some fd => return fd
  | none => throw .badLoad

/-- `fusefs_listdir` with a buffer of `len` bytes. -/
def fusefsListdir (len : Nat) : Op F Int := do
  let s ← get
  let req ← request submit (fusefsListdirEnter s.file s.out.curp)
  if req.error ≠ 0 then return req.error.toInt
  else
    match req.replyData with
    | none => return 0
    | some p =>
        if req.replyLen = 0 then
          free (some p)
          return 0
        else
          let namelen ← loadNamelen p
          let reclen := Platform.UKFS_DIRENT_RECLEN namelen.toNat
          if len < reclen then
            free (some p)
            return (-EINVAL).toInt
          else
            let fd ← loadDirent p
            setOut fun out => { out with dirent := some {
              dIno := fd.ino
              dOff := fd.off.toInt64
              dReclen := .ofNat reclen
              dType := fd.type.toUInt8
              dName := fd.name ++ [0] } }
            free (some p)
            setOut fun out => { out with curp := fd.off }
            return reclen

end Op

end UkfsFuse
