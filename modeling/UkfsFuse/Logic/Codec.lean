import UkfsFuse.Source.Daemon

/-!
# The message as libfuse finds it

`wireMessage` is the buffer after a pass of the daemon's encoder, for any
opcode and payload. Its header fields read back as they were assigned, and a
read of its payload sees what the fill function copied: nothing depends on
what the buffer held before.
-/

namespace UkfsFuse

open UkfsFuse.Core HeaderField

/-- The buffer after header, dispatch and a fill function with `payload`. -/
def wireMessage (buf : Mem) (req : FuseUkfsRequest) (opcode : UInt32) (nodeid : UInt64)
    (payload : List UInt8) : Mem :=
  setLen ((setNodeid (setOpcode (fuseInHeader buf req) opcode) nodeid).write
    sizeofFuseInHeader payload) (.ofNat sizeofFuseInHeader + .ofNat payload.length)

section Wire

variable {buf : Mem} {req : FuseUkfsRequest} {opcode : UInt32} {nodeid : UInt64}
  {payload : List UInt8}

/-- The header after `memset`, the assignments and those of the fill function. -/
theorem ofMem_filledHeader :
    FuseInHeader.ofMem (setNodeid (setOpcode (fuseInHeader buf req) opcode) nodeid) =
      ⟨40, opcode, req.unique, nodeid, 0, 0, 1⟩ := by
  simp (disch := omega) only [FuseInHeader.ofMem, setNodeid, setOpcode, fuseInHeader, setLen,
    setPid, setGid, setUid, setUnique, sizeofFuseInHeader, u32At_write, u64At_write,
    u32At_write_u32, u32At_write_u64, u64At_write_u32, u64At_write_u64]
  rfl

theorem fillPayload_eq (hfit : sizeofFuseInHeader + payload.length ≤ FUSE_DAEMON_BUF_SIZE) :
    fillPayload (setOpcode (fuseInHeader buf req) opcode) nodeid payload =
      some (wireMessage buf req opcode nodeid payload) := by
  have hlen : (FuseInHeader.ofMem
      (setNodeid (setOpcode (fuseInHeader buf req) opcode) nodeid)).len = 40 := by
    rw [ofMem_filledHeader]
  have hin : (40 : UInt32).toNat + payload.length ≤ FUSE_DAEMON_BUF_SIZE := hfit
  simp only [fillPayload, hlen]
  rw [Mem.writeIn_eq_some hin]
  rfl

/-- A payload that does not fit runs over the buffer. -/
theorem fillPayload_overrun
    (hover : FUSE_DAEMON_BUF_SIZE < sizeofFuseInHeader + payload.length) :
    fillPayload (setOpcode (fuseInHeader buf req) opcode) nodeid payload = none := by
  have hlen : (FuseInHeader.ofMem
      (setNodeid (setOpcode (fuseInHeader buf req) opcode) nodeid)).len = 40 := by
    rw [ofMem_filledHeader]
  have hout : ¬ (40 : UInt32).toNat + payload.length ≤ FUSE_DAEMON_BUF_SIZE := Nat.not_le.mpr hover
  simp only [fillPayload, hlen, Mem.writeIn]
  rw [if_neg hout]
  rfl

theorem wireMessage_header :
    FuseInHeader.ofMem (wireMessage buf req opcode nodeid payload) =
      ⟨.ofNat sizeofFuseInHeader + .ofNat payload.length, opcode, req.unique, nodeid, 0, 0, 1⟩ := by
  have hfilled : FuseInHeader.ofMem
      (setNodeid (setOpcode (fuseInHeader buf req) opcode) nodeid) =
      ⟨40, opcode, req.unique, nodeid, 0, 0, 1⟩ := ofMem_filledHeader
  simp only [FuseInHeader.ofMem, FuseInHeader.mk.injEq] at hfilled
  obtain ⟨-, hopcode, hunique, hnodeid, huid, hgid, hpid⟩ := hfilled
  -- the payload lies behind the header and the length field before the others
  simp (disch := omega) only [FuseInHeader.ofMem, wireMessage, setLen, sizeofFuseInHeader,
    u32At_write, u32At_write_u32, u64At_write_u32, u32At_write_disjoint, u64At_write_disjoint,
    hopcode, hunique, hnodeid, huid, hgid, hpid]

/-! ### The payload, at the place libfuse looks for it -/

theorem wireMessage_getattrIn (a : FuseGetattrIn) :
    FuseGetattrIn.ofMem (wireMessage buf req opcode nodeid a.toBytes) sizeofFuseInHeader = a := by
  rw [wireMessage, setLen, FuseGetattrIn.ofMem_write_before (by simp [sizeofFuseInHeader]),
    FuseGetattrIn.ofMem_write]

theorem wireMessage_openIn (a : FuseOpenIn) :
    FuseOpenIn.ofMem (wireMessage buf req opcode nodeid a.toBytes) sizeofFuseInHeader = a := by
  rw [wireMessage, setLen, FuseOpenIn.ofMem_write_before (by simp [sizeofFuseInHeader]),
    FuseOpenIn.ofMem_write]

theorem wireMessage_readIn (a : FuseReadIn) :
    FuseReadIn.ofMem (wireMessage buf req opcode nodeid a.toBytes) sizeofFuseInHeader = a := by
  rw [wireMessage, setLen, FuseReadIn.ofMem_write_before (by simp [sizeofFuseInHeader]),
    FuseReadIn.ofMem_write]

theorem wireMessage_name (name : CStr)
    (hfit : sizeofFuseInHeader + (name.strlen + 1) ≤ FUSE_DAEMON_BUF_SIZE) :
    (wireMessage buf req opcode nodeid name.toBytes).cstrAt sizeofFuseInHeader
      (FUSE_DAEMON_BUF_SIZE - sizeofFuseInHeader) = some name := by
  have hlt : name.strlen < FUSE_DAEMON_BUF_SIZE - sizeofFuseInHeader := by omega
  exact cstrAt_write name hlt (by simp [sizeofFuseInHeader])

/-- libfuse gets past its checks and to the opcode's handler. -/
theorem processBuf_wireMessage {op : FuseLowlevelOps} (hinit : opcode ≠ FUSE_INIT)
    (hcuse : opcode ≠ CUSE_INIT) (hmax : opcode < FUSE_MAXOP) (hfunc : opcode ∈ fuseLlOpsFunc) :
    fuseSessionProcessBufInternal (fuseSessionNewVersioned op)
        (wireMessage buf req opcode nodeid payload) FUSE_DAEMON_BUF_SIZE true =
      .handled ⟨req.unique, 0, 0, 1⟩
        (fuseLlOps (fuseSessionNewVersioned op) opcode nodeid
          (wireMessage buf req opcode nodeid payload) sizeofFuseInHeader
          FUSE_DAEMON_BUF_SIZE) := by
  have hsanity : fuseReqOpcodeSanityOk (fuseSessionNewVersioned op) opcode = 0 := by
    simp [fuseReqOpcodeSanityOk, fuseSessionNewVersioned, hinit, hcuse]
  have hallow : fuseReqCheckAllowRoot (fuseSessionNewVersioned op) opcode 0 = 0 := by
    simp [fuseReqCheckAllowRoot, fuseSessionNewVersioned]
  have hop : ¬ (opcode ≥ FUSE_MAXOP ∨ opcode ∉ fuseLlOpsFunc) := by
    rintro (hge | hnone)
    · exact UInt32.not_le.mpr hmax hge
    · exact hnone hfunc
  simp only [fuseSessionProcessBufInternal, wireMessage_header, hsanity, hallow, if_neg hop]
  simp

end Wire

/-! ## Requests and the callbacks they ask for -/

/-- The callback a request asks for: its own parameters, every other field of
the `struct fuse_file_info` zero. -/
def RequestIn.call : RequestIn → Option Call
  | .lookup parentIno name => some (.lookup parentIno name)
  | .getattr ino => some (.getattr ino none)
  | .open_ ino flags => some (.open_ ino { flags := flags.toInt32 })
  | .read ino fh offset size =>
      some (.read ino size.toUInt64 offset.toInt64 { fh := fh, flags := 0, lockOwner := 0 })
  | .readdir ino fh offset size =>
      some (.readdir ino size.toUInt64 offset.toInt64 { fh := fh })
  | .other .. => none

/-- The message of the request fits the daemon's buffer. -/
def RequestIn.Fits : RequestIn → Prop
  | .lookup _ name => sizeofFuseInHeader + name.strlen + 1 ≤ FUSE_DAEMON_BUF_SIZE
  | _ => True

instance (input : RequestIn) : Decidable input.Fits := by
  cases input <;> unfold RequestIn.Fits <;> infer_instance

/-- The callback of the request's opcode is set. -/
def FuseLowlevelOps.implements (op : FuseLowlevelOps) : RequestIn → Bool
  | .lookup .. => op.lookup
  | .getattr .. => op.getattr
  | .open_ .. => op.open_
  | .read .. => op.read
  | .readdir .. => op.readdir
  | .other .. => false

/-- What libfuse does with a request: it invokes the callback, or answers
itself when the callback is not set. -/
def RequestIn.handling (op : FuseLowlevelOps) (input : RequestIn) : Handled :=
  match input.call with
  | none => .otherHandler input.opcode
  | some call =>
      if op.implements input then .callback call
      else
        match call with
        | .open_ _ fi => .own (.open_ fi)
        | _ => .own (.err ENOSYS)

/-- Opcode, nodeid and payload of a request's message. -/
def RequestIn.wire : RequestIn → UInt32 × UInt64 × List UInt8
  | .lookup parentIno name => (FUSE_LOOKUP, parentIno, name.toBytes)
  | .getattr ino => (FUSE_GETATTR, ino, FuseGetattrIn.toBytes {})
  | .open_ ino flags => (FUSE_OPEN, ino, FuseOpenIn.toBytes { flags := flags })
  | .read ino fh offset size =>
      (FUSE_READ, ino, FuseReadIn.toBytes { fh := fh, offset := offset, size := size })
  | .readdir ino fh offset size =>
      (FUSE_READDIR, ino, FuseReadIn.toBytes { fh := fh, offset := offset, size := size })
  | .other n _ => (n, 0, [])

/-- The message of a request over whatever the buffer holds. -/
def requestMessage (buf : Mem) (req : FuseUkfsRequest) : Mem :=
  wireMessage buf req req.input.wire.1 req.input.wire.2.1 req.input.wire.2.2

section Requests

variable (buf : Mem) {req : FuseUkfsRequest}

/-- The pass of the dispatch loop, entry by entry. -/
theorem daemonMessage_of_entry (de : FuseDispatchEntry)
    (hfind : dispatchTable.find? (fun de => decide (de.ukfsOpcode = req.input.opcode)) = some de) :
    daemonMessage buf req =
      match de.fill (setOpcode (fuseInHeader buf req) de.fuseOpcode) req.input with
      | none => .overrun
      | some msg => .message msg := by
  cases hfill : de.fill (setOpcode (fuseInHeader buf req) de.fuseOpcode) req.input with
  | none => simp [daemonMessage, hfind, hfill]
  | some msg => simp [daemonMessage, hfind, hfill]

theorem daemonMessage_of_fits (hknown : req.input.Known) (hfits : req.input.Fits) :
    daemonMessage buf req = .message (requestMessage buf req) := by
  unfold requestMessage
  cases hin : req.input with
  | other n h => rw [hin] at hknown; exact hknown.elim
  | lookup parentIno name =>
      rw [hin] at hfits
      have hlen : sizeofFuseInHeader + name.toBytes.length ≤ FUSE_DAEMON_BUF_SIZE := by
        rw [CStr.length_toBytes]
        exact hfits
      rw [daemonMessage_of_entry buf ⟨FUSE_UKFS_LOOKUP, FUSE_LOOKUP, fillLookup⟩
        (by rw [hin]; rfl)]
      simp only [hin, fillLookup, fillPayload_eq hlen, RequestIn.wire]
  | getattr ino =>
      rw [daemonMessage_of_entry buf ⟨FUSE_UKFS_GETATTR, FUSE_GETATTR, fillGetattr⟩
        (by rw [hin]; rfl)]
      simp only [hin, fillGetattr, RequestIn.wire]
      rw [fillPayload_eq (by simp [sizeofFuseInHeader, FUSE_DAEMON_BUF_SIZE])]
  | open_ ino flags =>
      rw [daemonMessage_of_entry buf ⟨FUSE_UKFS_OPEN, FUSE_OPEN, fillOpen⟩
        (by rw [hin]; rfl)]
      simp only [hin, fillOpen, RequestIn.wire]
      rw [fillPayload_eq (by simp [sizeofFuseInHeader, FUSE_DAEMON_BUF_SIZE])]
  | read ino fh offset size =>
      rw [daemonMessage_of_entry buf ⟨FUSE_UKFS_READ, FUSE_READ, fillRead⟩
        (by rw [hin]; rfl)]
      simp only [hin, fillRead, RequestIn.wire]
      rw [fillPayload_eq (by simp [sizeofFuseInHeader, FUSE_DAEMON_BUF_SIZE])]
  | readdir ino fh offset size =>
      rw [daemonMessage_of_entry buf ⟨FUSE_UKFS_READDIR, FUSE_READDIR, fillReaddir⟩
        (by rw [hin]; rfl)]
      simp only [hin, fillReaddir, RequestIn.wire]
      rw [fillPayload_eq (by simp [sizeofFuseInHeader, FUSE_DAEMON_BUF_SIZE])]

theorem daemonMessage_overrun (hfits : ¬ req.input.Fits) : daemonMessage buf req = .overrun := by
  cases hin : req.input with
  | lookup parentIno name =>
      rw [hin] at hfits
      have hlen : FUSE_DAEMON_BUF_SIZE < sizeofFuseInHeader + name.toBytes.length := by
        rw [CStr.length_toBytes]
        exact Nat.not_le.mp hfits
      rw [daemonMessage_of_entry buf ⟨FUSE_UKFS_LOOKUP, FUSE_LOOKUP, fillLookup⟩
        (by rw [hin]; rfl)]
      simp only [hin, fillLookup, fillPayload_overrun hlen]
  | _ => rw [hin] at hfits; exact absurd trivial hfits

theorem daemonMessage_unknown (hknown : ¬ req.input.Known) :
    daemonMessage buf req = .unknownOpcode := by
  cases hin : req.input with
  | other n h =>
      have hmiss : dispatchTable.find? (fun de => decide (de.ukfsOpcode = n)) = none := by
        have hn : 1 ≠ n ∧ 2 ≠ n ∧ 3 ≠ n ∧ 4 ≠ n ∧ 5 ≠ n := by
          rcases h with rfl | hgt
          · decide
          · refine ⟨?_, ?_, ?_, ?_, ?_⟩ <;> rintro rfl <;> exact absurd hgt (by decide)
        obtain ⟨h1, h2, h3, h4, h5⟩ := hn
        simp [dispatchTable, FUSE_UKFS_LOOKUP, FUSE_UKFS_GETATTR, FUSE_UKFS_OPEN, FUSE_UKFS_READ,
          FUSE_UKFS_READDIR, h1, h2, h3, h4, h5]
      simp only [daemonMessage, hin, RequestIn.opcode, hmiss]
  | _ => rw [hin] at hknown; exact absurd trivial hknown

/-- The five opcodes pass libfuse's checks. -/
theorem RequestIn.wire_opcode {input : RequestIn} (hknown : input.Known) :
    input.wire.1 ≠ FUSE_INIT ∧ input.wire.1 ≠ CUSE_INIT ∧ input.wire.1 < FUSE_MAXOP ∧
      input.wire.1 ∈ fuseLlOpsFunc := by
  cases input with
  | other n h => exact hknown.elim
  | _ => simp only [RequestIn.wire]; decide

/-- The handler finds the request's parameters in the message. -/
theorem process_requestMessage (op : FuseLowlevelOps) (hknown : req.input.Known)
    (hfits : req.input.Fits) :
    fuseSessionProcessBufInternal (fuseSessionNewVersioned op) (requestMessage buf req)
        FUSE_DAEMON_BUF_SIZE true =
      .handled ⟨req.unique, 0, 0, 1⟩ (req.input.handling op) := by
  obtain ⟨hinit, hcuse, hmax, hfunc⟩ := RequestIn.wire_opcode hknown
  rw [requestMessage, processBuf_wireMessage hinit hcuse hmax hfunc]
  congr 1
  cases hin : req.input with
  | other n h => rw [hin] at hknown; exact hknown.elim
  | lookup parentIno name =>
      rw [hin] at hfits
      show doLookup _ _ _ _ _ = _
      cases hop : op.lookup <;>
        simp [doLookup, RequestIn.wire, wireMessage_name name hfits, fuseSessionNewVersioned,
          RequestIn.handling, RequestIn.call, FuseLowlevelOps.implements, hop]
  | getattr ino =>
      show doGetattr _ _ _ _ = _
      cases hop : op.getattr <;>
        simp [doGetattr, RequestIn.wire, wireMessage_getattrIn, fuseSessionNewVersioned,
          RequestIn.handling, RequestIn.call, FuseLowlevelOps.implements, hop]
  | open_ ino flags =>
      show doOpen _ _ _ _ = _
      cases hop : op.open_ <;>
        simp [doOpen, RequestIn.wire, wireMessage_openIn, fuseSessionNewVersioned,
          RequestIn.handling, RequestIn.call, FuseLowlevelOps.implements, hop]
  | read ino fh offset size =>
      show doRead _ _ _ _ = _
      cases hop : op.read <;>
        simp [doRead, RequestIn.wire, wireMessage_readIn, fuseSessionNewVersioned,
          RequestIn.handling, RequestIn.call, FuseLowlevelOps.implements, hop]
  | readdir ino fh offset size =>
      show doReaddir _ _ _ _ = _
      cases hop : op.readdir <;>
        simp [doReaddir, RequestIn.wire, wireMessage_readIn, fuseSessionNewVersioned,
          RequestIn.handling, RequestIn.call, FuseLowlevelOps.implements, hop]

/-- Without a request handle there is only the device to tell. -/
theorem process_noReq (se : FuseSession) (msg : Mem) (size : Nat) :
    fuseSessionProcessBufInternal se msg size false = .noReq := by
  simp [fuseSessionProcessBufInternal]

end Requests

end UkfsFuse
