import UkfsFuse.Source.Reply

/-!
# Decoding a message (`fuse_session_process_buf_internal`)

The message lies in a memory object of `size` bytes; the decoder reads the
header fields and hands the payload to the opcode's handler, which decodes it
in place. No length of the message is checked on the way.
-/

namespace UkfsFuse

open UkfsFuse.Core

/-- A backend callback with its arguments. -/
inductive Call
  | lookup (parent : UInt64) (name : CStr)
  | getattr (ino : UInt64) (fi : Option FuseFileInfo)
  | open_ (ino : UInt64) (fi : FuseFileInfo)
  | read (ino size : UInt64) (off : Int64) (fi : FuseFileInfo)
  | readdir (ino size : UInt64) (off : Int64) (fi : FuseFileInfo)
deriving DecidableEq

/-- What a `struct fuse_req` carries besides its session and its record. -/
structure FuseReq where
  unique : UInt64
  uid : UInt32
  gid : UInt32
  pid : UInt32
deriving DecidableEq, Repr

/-- What an opcode's handler does with the request. -/
inductive Handled
  | callback (call : Call)
  /-- libfuse replies itself -/
  | own (reply : Reply)
  /-- a string that does not end inside the message object -/
  | unterminated
  /-- a handler of an opcode outside the daemon's table -/
  | otherHandler (opcode : UInt32)
deriving DecidableEq

def FUSE_GETATTR_FH : UInt32 := (1 : UInt32) <<< 0

section Handlers

variable (se : FuseSession) (nodeid : UInt64) (buf : Mem) (inarg size : Nat)

/-- `do_lookup` -/
def doLookup : Handled :=
  if se.op.lookup then
    match buf.cstrAt inarg (size - inarg) with
    | some name => .callback (.lookup nodeid name)
    | none => .unterminated
  else .own (.err ENOSYS)

/-- `do_getattr` -/
def doGetattr : Handled :=
  let arg := FuseGetattrIn.ofMem buf inarg
  let fip : Option FuseFileInfo :=
    if se.protoMinor ≥ 9 ∧ arg.getattrFlags &&& FUSE_GETATTR_FH ≠ 0 then some { fh := arg.fh }
    else none
  if se.op.getattr then .callback (.getattr nodeid fip) else .own (.err ENOSYS)

/-- `do_open` -/
def doOpen : Handled :=
  let arg := FuseOpenIn.ofMem buf inarg
  let fi : FuseFileInfo := { flags := arg.flags.toInt32 }
  if se.op.open_ then .callback (.open_ nodeid fi)
  else if se.wantExt &&& FUSE_CAP_NO_OPEN_SUPPORT ≠ 0 then .own (.err ENOSYS)
  else .own (.open_ fi)

/-- `do_read` -/
def doRead : Handled :=
  let arg := FuseReadIn.ofMem buf inarg
  let fi : FuseFileInfo :=
    if se.protoMinor ≥ 9 then
      { fh := arg.fh, lockOwner := arg.lockOwner, flags := arg.flags.toInt32 }
    else { fh := arg.fh }
  if se.op.read then .callback (.read nodeid arg.size.toUInt64 arg.offset.toInt64 fi)
  else .own (.err ENOSYS)

/-- `do_readdir` -/
def doReaddir : Handled :=
  let arg := FuseReadIn.ofMem buf inarg
  if se.op.readdir then
    .callback (.readdir nodeid arg.size.toUInt64 arg.offset.toInt64 { fh := arg.fh })
  else .own (.err ENOSYS)

end Handlers

def FUSE_MAXOP : UInt32 := CUSE_INIT + 1

/-- `fuse_req_opcode_sanity_ok`; 0 when the opcode may be processed. -/
def fuseReqOpcodeSanityOk (se : FuseSession) (inOp : UInt32) : Int32 :=
  if !se.gotInit then
    if inOp ≠ (if se.cuseData then CUSE_INIT else FUSE_INIT) then EIO else 0
  else if inOp = FUSE_INIT ∨ inOp = CUSE_INIT then EIO
  else 0

/-- The opcodes `fuse_req_check_allow_root` lets any user use. -/
def allowRootExempt : List UInt32 :=
  -- INIT, READ, WRITE, FSYNC, RELEASE, READDIR, FSYNCDIR, RELEASEDIR, NOTIFY_REPLY, READDIRPLUS
  [FUSE_INIT, FUSE_READ, 16, 20, 18, FUSE_READDIR, 30, 29, 41, 44]

/-- `fuse_req_check_allow_root` -/
def fuseReqCheckAllowRoot (se : FuseSession) (inOp inUid : UInt32) : Int32 :=
  if se.denyOthers ∧ inUid ≠ se.owner ∧ inUid ≠ 0 ∧ inOp ∉ allowRootExempt then EACCES else 0

/-- The opcodes with a `func` in `fuse_ll_ops`; 0, 7, 19, `FUSE_SETUPMAPPING`,
`FUSE_REMOVEMAPPING`, `FUSE_SYNCFS` and all between 53 and `CUSE_INIT` have none. -/
def fuseLlOpsFunc : List UInt32 :=
  [FUSE_LOOKUP, 2, FUSE_GETATTR, 4, 5, 6, 8, 9, 10, 11, 12, 13, FUSE_OPEN, FUSE_READ, 16, 17, 18,
    20, 21, 22, 23, 24, 25, FUSE_INIT, 27, FUSE_READDIR, 29, 30, 31, 32, 33, 34, 35,
    FUSE_INTERRUPT, 37, 38, 39, 40, 41, 42, 43, 44, 45, 46, 47, 51, 52, 53, CUSE_INIT]

/-- `fuse_ll_ops[opcode].func` for the opcodes of the daemon's table. -/
def fuseLlOps (se : FuseSession) (opcode : UInt32) (nodeid : UInt64) (buf : Mem)
    (inarg size : Nat) : Handled :=
  if opcode = FUSE_LOOKUP then doLookup se nodeid buf inarg size
  else if opcode = FUSE_GETATTR then doGetattr se nodeid buf inarg
  else if opcode = FUSE_OPEN then doOpen se nodeid buf inarg
  else if opcode = FUSE_READ then doRead se nodeid buf inarg
  else if opcode = FUSE_READDIR then doReaddir se nodeid buf inarg
  else .otherHandler opcode

/-- What became of a message. -/
inductive Processed
  /-- `fuse_ll_alloc_req` failed: an error header goes to
  `fuse_send_msg(se, ch, ..)`, there is no request handle -/
  | noReq
  | handled (req : FuseReq) (what : Handled)
deriving DecidableEq

/-- `fuse_session_process_buf_internal(se, buf, ch)` for a memory buffer and a
channel that is not `NULL`; `callocOk` is the outcome of `fuse_ll_alloc_req`.
`se->interrupts` is empty: no message of the daemon is a `FUSE_INTERRUPT`. -/
def fuseSessionProcessBufInternal (se : FuseSession) (buf : Mem) (size : Nat)
    (callocOk : Bool) : Processed :=
  let hdr := FuseInHeader.ofMem buf
  if !callocOk then .noReq
  else
    -- fuse_session_in2req
    let req : FuseReq := ⟨hdr.unique, hdr.uid, hdr.gid, hdr.pid⟩
    let sanity := fuseReqOpcodeSanityOk se hdr.opcode
    let allow := fuseReqCheckAllowRoot se hdr.opcode hdr.uid
    if sanity ≠ 0 then .handled req (.own (.err sanity))
    else if allow ≠ 0 then .handled req (.own (.err allow))
    else if hdr.opcode ≥ FUSE_MAXOP ∨ hdr.opcode ∉ fuseLlOpsFunc then
      .handled req (.own (.err ENOSYS))
    else .handled req (fuseLlOps se hdr.opcode hdr.nodeid buf sizeofFuseInHeader size)

end UkfsFuse
