import UkfsFuse.Source.Session

/-!
# Reply functions (`fuse_lowlevel.c`, `buffer.c`)

Each reply function is the list of its effects on the record behind
`req->ukfs_req`, in the order of the source; other threads may run between
any two. `deviceWrite` is the path of `fuse_send_msg`: it evaluates `ch->fd`
on the channel pointer, which is the record in disguise, and raises nothing.

A reply function makes at most one allocation; whether it succeeds is the
argument `mallocOk`.
-/

namespace UkfsFuse

/-- One effect of a reply function. -/
inductive ReplyAct
  | setError (error : Int32)
  | setReplyLen (len : Nat)
  | setReplyData (data : Option ReplyData)
  /-- `uk_semaphore_up(&ukfs_req->done)` -/
  | up
  /-- `fuse_write_msg_dev(se, req->ch, ..)` -/
  | deviceWrite
  /-- `fuse_free_req(req)`; the record is not touched -/
  | freeReq
deriving DecidableEq, Repr

/-- The effect on the record. -/
def ReplyAct.apply : ReplyAct → FuseUkfsRequest → FuseUkfsRequest
  | .setError e, req => { req with error := e }
  | .setReplyLen n, req => { req with replyLen := n }
  | .setReplyData d, req => { req with replyData := d }
  | .up, req => { req with done := req.done + 1 }
  | .deviceWrite, req => req
  | .freeReq, req => req

/-- The effect reads or writes the record. -/
def ReplyAct.touches : ReplyAct → Bool
  | .freeReq => false
  | _ => true

/-- The effects one after the other. -/
def applyActs (acts : List ReplyAct) (req : FuseUkfsRequest) : FuseUkfsRequest :=
  acts.foldl (fun req act => act.apply req) req

/-- The record at the moment `done` is first raised. -/
def atUp (acts : List ReplyAct) (req : FuseUkfsRequest) : FuseUkfsRequest :=
  applyActs (acts.takeWhile (· ≠ .up)) req

/-! ## `struct fuse_bufvec` of memory buffers -/

structure FuseBufvec where
  buf : List (List UInt8)
  idx : Nat
  off : Nat
deriving DecidableEq, Repr

def SIZE_MAX : Nat := 2 ^ 64 - 1

/-- `fuse_buf_size` -/
def fuseBufSize (bufv : FuseBufvec) : Nat :=
  bufv.buf.foldl (fun size b =>
    if b.length ≥ SIZE_MAX - size then SIZE_MAX else size + b.length) 0

/-- The copying loop of `fuse_buf_copy` into one memory buffer with `room`
bytes left, from the unread tails `srcs` of the source segments. -/
def fuseBufCopyLoop : List (List UInt8) → Nat → List UInt8
  | [], _ => []
  | src :: rest, room =>
      let len := min src.length room
      if len < room then src.take len ++ fuseBufCopyLoop rest (room - len)
      else src.take len

/-- `fuse_buf_copy(&mem_buf, buf, 0)` with `FUSE_BUFVEC_INIT(len)` as target:
the bytes copied. -/
def fuseBufCopy (len : Nat) (bufv : FuseBufvec) : List UInt8 :=
  match bufv.buf.drop bufv.idx with
  | [] => []
  | src :: rest => fuseBufCopyLoop (src.drop bufv.off :: rest) len

/-! ## The reply functions -/

section ReplyFunctions

variable [Platform]

/-- `fuse_reply_err` -/
def fuseReplyErr (err : Int32) : List ReplyAct :=
  [.setError (-err), .setReplyData none, .setReplyLen 0, .up, .freeReq]

/-- The error `fuse_send_reply_iov_nofree` puts into the header of a reply to
the device. `fuse_reply_err(req, err)` is `send_reply(req, -err, NULL, 0)` on
that path. -/
def fuseSendReplyIovNofree (error : Int32) : Int32 :=
  if error ≤ -1000 ∨ error > 0 then -ERANGE else error

/-- The common body of `fuse_reply_entry` and `fuse_reply_attr`: the object
`data` of `size` bytes is copied into a fresh allocation. -/
def replyObject (size : Nat) (data : ReplyData) (mallocOk : Bool) : List ReplyAct :=
  [.setError 0, .setReplyLen size] ++
    (if mallocOk then [.setReplyData (some data)]
    else [.setReplyData none, .setError (-ENOMEM)]) ++
    [.up, .freeReq]

/-- `sizeof(struct fuse_entry_param)` -/
def sizeofFuseEntryParam : Nat := 16 + Platform.sizeofStat + 16

/-- `fuse_reply_entry` -/
def fuseReplyEntry (se : FuseSession) (e : FuseEntryParam) (mallocOk : Bool) : List ReplyAct :=
  -- before 7.4 a zero inode was reported as ENOENT
  if e.ino = 0 ∧ se.protoMinor < 4 then fuseReplyErr ENOENT
  else replyObject sizeofFuseEntryParam (.entry e) mallocOk

/-- `fuse_reply_attr` -/
def fuseReplyAttr (attr : Stat) (mallocOk : Bool) : List ReplyAct :=
  replyObject Platform.sizeofStat (.attr attr) mallocOk

/-- `fill_open` on a zeroed `struct fuse_open_out` -/
def fillOpenOut (f : FuseFileInfo) : FuseOpenOut where
  fh := f.fh
  backingId := if f.backingId > 0 then f.backingId else 0
  openFlags :=
    (if f.backingId > 0 then FOPEN_PASSTHROUGH else 0) |||
    (if f.directIo then FOPEN_DIRECT_IO else 0) |||
    (if f.keepCache then FOPEN_KEEP_CACHE else 0) |||
    (if f.cacheReaddir then FOPEN_CACHE_DIR else 0) |||
    (if f.nonseekable then FOPEN_NONSEEKABLE else 0) |||
    (if f.noflush then FOPEN_NOFLUSH else 0) |||
    (if f.parallelDirectWrites then FOPEN_PARALLEL_DIRECT_WRITES else 0)

/-- `fuse_reply_open` on a request that carries a record -/
def fuseReplyOpen (f : FuseFileInfo) (mallocOk : Bool) : List ReplyAct :=
  (if mallocOk then
    [.setError 0, .setReplyData (some (.openOut (fillOpenOut f))), .setReplyLen sizeofFuseOpenOut]
  else [.setError (-ENOMEM), .setReplyData none, .setReplyLen 0]) ++
    [.up, .freeReq]

/-- `fuse_reply_buf(req, buf, size)` with `buf` of `size` bytes; no bytes is
also `fuse_reply_buf(req, NULL, 0)`. `malloc(0)` may return `NULL`. -/
def fuseReplyBuf (buf : List UInt8) (mallocOk : Bool) : List ReplyAct :=
  [.setError 0, .setReplyLen buf.length] ++
    (if mallocOk then [.setReplyData (some (.bytes buf))]
    else if 0 < buf.length then [.setReplyData none, .setError (-ENOMEM)]
    else [.setReplyData none]) ++
    [.up, .freeReq]

/-- `fuse_reply_iov`: not rewritten for records, it sends to the device. -/
def fuseReplyIov (_iov : List (List UInt8)) (mallocOk : Bool) : List ReplyAct :=
  if mallocOk then [.deviceWrite, .freeReq] else fuseReplyErr ENOMEM

/-- `fuse_reply_data` with `fuse_send_data_iov_fallback` (there is no splice in
this port). A positive result of the latter is passed to `fuse_reply_err`. -/
def fuseReplyData (bufv : FuseBufvec) (mallocOk : Bool) : List ReplyAct :=
  if bufv.buf.length = 1 ∧ bufv.idx = 0 ∧ bufv.off = 0 then [.deviceWrite, .freeReq]
  else if !mallocOk then fuseReplyErr ENOMEM
  else
    -- the byte count is stored in an int
    let res : Int32 := .ofNat (fuseBufCopy (fuseBufSize bufv) bufv).length
    if res < 0 then
      if -res ≤ 0 then [.freeReq] else fuseReplyErr (-res)
    else [.deviceWrite, .freeReq]

end ReplyFunctions

/-- A call of one of the reply functions. -/
inductive Reply
  | err (err : Int32)
  | entry (e : FuseEntryParam)
  | attr (attr : Stat)
  | open_ (f : FuseFileInfo)
  | buf (buf : List UInt8)
  | iov (iov : List (List UInt8))
  | data (bufv : FuseBufvec)
deriving DecidableEq, Repr

/-- The effects of a reply call on a request of session `se`. -/
def Reply.acts [Platform] (se : FuseSession) (mallocOk : Bool) : Reply → List ReplyAct
  | .err n => fuseReplyErr n
  | .entry p => fuseReplyEntry se p mallocOk
  | .attr st => fuseReplyAttr st mallocOk
  | .open_ f => fuseReplyOpen f mallocOk
  | .buf bs => fuseReplyBuf bs mallocOk
  | .iov segs => fuseReplyIov segs mallocOk
  | .data v => fuseReplyData v mallocOk

end UkfsFuse
