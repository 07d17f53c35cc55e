import UkfsFuse.Source.Dispatch

/-!
# The daemon (`fuse_daemon.c`)

One pass of the loop of `fuse_daemon_thread` over a popped request: header,
dispatch table, `fill_*`, and the hand-over to libfuse. The buffer is
allocated once and only its header is cleared between requests.
-/

namespace UkfsFuse

open UkfsFuse.Core HeaderField

def FUSE_DAEMON_BUF_SIZE : Nat := 8192

/-! ## The fill functions -/

/-- The body shared by the five: `in->nodeid = nodeid`, the payload is copied
to `buf + in->len`, `in->len` grows by its size. `none` when the copy runs over
the end of the buffer. -/
def fillPayload (buf : Mem) (nodeid : UInt64) (payload : List UInt8) : Option Mem :=
  let buf := setNodeid buf nodeid
  let len := (FuseInHeader.ofMem buf).len
  (buf.writeIn FUSE_DAEMON_BUF_SIZE len.toNat payload).map fun buf =>
    setLen buf (len + .ofNat payload.length)

/-- `fill_lookup` -/
def fillLookup (buf : Mem) : RequestIn → Option Mem
  | .lookup parentIno name => fillPayload buf parentIno name.toBytes
  | _ => none

/-- `fill_getattr` -/
def fillGetattr (buf : Mem) : RequestIn → Option Mem
  | .getattr ino => fillPayload buf ino (FuseGetattrIn.toBytes { getattrFlags := 0 })
  | _ => none

/-- `fill_open` -/
def fillOpen (buf : Mem) : RequestIn → Option Mem
  | .open_ ino flags => fillPayload buf ino (FuseOpenIn.toBytes { flags := flags })
  | _ => none

/-- `fill_read` -/
def fillRead (buf : Mem) : RequestIn → Option Mem
  | .read ino fh offset size =>
      fillPayload buf ino (FuseReadIn.toBytes { fh := fh, offset := offset, size := size })
  | _ => none

/-- `fill_readdir` -/
def fillReaddir (buf : Mem) : RequestIn → Option Mem
  | .readdir ino fh offset size =>
      fillPayload buf ino (FuseReadIn.toBytes { fh := fh, offset := offset, size := size })
  | _ => none

structure FuseDispatchEntry where
  ukfsOpcode : UInt32
  fuseOpcode : UInt32
  fill : Mem → RequestIn → Option Mem

def dispatchTable : List FuseDispatchEntry :=
  [⟨FUSE_UKFS_LOOKUP, FUSE_LOOKUP, fillLookup⟩,
   ⟨FUSE_UKFS_GETATTR, FUSE_GETATTR, fillGetattr⟩,
   ⟨FUSE_UKFS_OPEN, FUSE_OPEN, fillOpen⟩,
   ⟨FUSE_UKFS_READ, FUSE_READ, fillRead⟩,
   ⟨FUSE_UKFS_READDIR, FUSE_READDIR, fillReaddir⟩]

/-! ## One pass of the loop -/

/-- The header of the message for `req`, over whatever the buffer holds. -/
def fuseInHeader (buf : Mem) (req : FuseUkfsRequest) : Mem :=
  let buf := buf.write 0 (List.replicate sizeofFuseInHeader 0)
  let buf := setUnique buf req.unique
  let buf := setUid buf 0
  let buf := setGid buf 0
  let buf := setPid buf 1
  setLen buf (.ofNat sizeofFuseInHeader)

/-- The buffer before it is handed to libfuse. -/
inductive Built
  /-- no entry of the table has the request's opcode -/
  | unknownOpcode
  /-- a fill function ran over the end of the buffer -/
  | overrun
  | message (buf : Mem)

/-- The message for `req`, built over whatever the buffer holds. -/
def daemonMessage (buf : Mem) (req : FuseUkfsRequest) : Built :=
  let buf := fuseInHeader buf req
  match dispatchTable.find? (·.ukfsOpcode = req.input.opcode) with
  | none => .unknownOpcode
  | some de =>
      match de.fill (setOpcode buf de.fuseOpcode) req.input with
      | none => .overrun
      | some buf => .message buf

/-- What the daemon does itself with a request of unknown opcode. -/
def unknownOpcodeActs : List ReplyAct :=
  [.setError (-ENOSYS), .setReplyData none, .setReplyLen 0, .up]

/-- How a pass of the loop over a popped request ends. -/
inductive Served
  /-- the daemon completes the request itself -/
  | failed (acts : List ReplyAct)
  | overrun
  /-- the message was handed to `fuse_session_process_buf_internal` -/
  | processed (buf : Mem) (result : Processed)

/-- The loop body of `fuse_daemon_thread` after `fuse_ukfs_queue_pop`. -/
def daemonPass (se : FuseSession) (buf : Mem) (req : FuseUkfsRequest) (callocOk : Bool) :
    Served :=
  match daemonMessage buf req with
  | .unknownOpcode => .failed unknownOpcodeActs
  | .overrun => .overrun
  | .message msg =>
      .processed msg (fuseSessionProcessBufInternal se msg FUSE_DAEMON_BUF_SIZE callocOk)

/-- All effects on the record of a popped request, when the backend answers
inside its callback. `none` when the message runs over the daemon's buffer. -/
def serveRequest [Platform] (se : FuseSession) (buf : Mem) (req : FuseUkfsRequest)
    (callocOk mallocOk : Bool) (backend : FuseReq → Call → Reply) : Option (List ReplyAct) :=
  match daemonPass se buf req callocOk with
  | .failed acts => some acts
  | .overrun => none
  | .processed _ .noReq => some [.deviceWrite]
  | .processed _ (.handled r (.callback call)) => some ((backend r call).acts se mallocOk)
  | .processed _ (.handled _ (.own reply)) => some (reply.acts se mallocOk)
  | .processed _ (.handled _ .unterminated) => none
  | .processed _ (.handled _ (.otherHandler _)) => none

end UkfsFuse
