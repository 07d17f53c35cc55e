import UkfsFuse.Logic.Codec
import UkfsFuse.Logic.Driver

/-!
# The size of a message

The daemon builds every message in a buffer of `FUSE_DAEMON_BUF_SIZE` bytes.
The payloads of four operations are small structures; the payload of a LOOKUP
is a name as long as the caller of `fusefs_lookup` likes, and nothing compares
its length with the room behind the header.
-/

namespace UkfsFuse

open UkfsFuse.Core HeaderField

/-- An operation of the driver that may push a request. -/
inductive DriverOp (F : Type)
  | lookup (ff : FusefsFile F) (path : List UInt8) (len : Nat)
  | getstat (ff : FusefsFile F)
  | doOpen (ff : FusefsFile F)
  | read (ff : FusefsFile F) (iov : List UInt64) (off : UInt64)
  | listdir (ff : FusefsFile F) (curp : UInt64)

namespace DriverOp

variable {F : Type}

/-- The operation gets to its push, with this request. -/
inductive Pushes [Platform] : DriverOp F → RequestIn → Prop
  | lookup (ff : FusefsFile F) (path : List UInt8) (len : Nat) (strndupOk : Bool)
      (input : RequestIn) (h : fusefsLookupEnter ff path len strndupOk = .submit input) :
      Pushes (.lookup ff path len) input
  | getstat (ff : FusefsFile F) : Pushes (.getstat ff) (fusefsGetstatEnter ff)
  | doOpen (ff : FusefsFile F) : Pushes (.doOpen ff) (fusefsDoOpenEnter ff)
  | read (ff : FusefsFile F) (iov : List UInt64) (off : UInt64) (input : RequestIn)
      (h : fusefsReadEnter ff iov off = .submit input) : Pushes (.read ff iov off) input
  | listdir (ff : FusefsFile F) (curp : UInt64) :
      Pushes (.listdir ff curp) (fusefsListdirEnter ff curp)

/-- The name of a LOOKUP, which is its path up to `len` bytes or a NUL, has at
most 8151 bytes. -/
def NameFits : DriverOp F → Prop
  | .lookup _ path len => ((path.take len).takeWhile (· ≠ 0)).length ≤ 8151
  | _ => True

variable {op : DriverOp F} {input : RequestIn}

theorem Pushes.known [Platform] (h : op.Pushes input) : input.Known := by
  cases h with
  | lookup ff path len strndupOk _ h => rw [lookupEnter_submit h]; trivial
  | read ff iov off _ h => rw [(readEnter_submit h).2]; trivial
  | _ => trivial

/-- The request fits the buffer if the name does. -/
theorem Pushes.fits_iff [Platform] (h : op.Pushes input) : input.Fits ↔ op.NameFits := by
  cases h with
  | lookup ff path len strndupOk _ h =>
      rw [lookupEnter_submit h]
      show 40 + (CStr.strndup path len).strlen + 1 ≤ 8192 ↔
        (CStr.strndup path len).strlen ≤ 8151
      omega
  | read ff iov off _ h => rw [(readEnter_submit h).2]; exact Iff.rfl
  | _ => exact Iff.rfl

end DriverOp

/-- `msg` is the message for `req`, built in a buffer that held `buf`: its
`in->len` is the end of the bytes written, and the buffer does not end before. -/
structure MessageFits (buf : Mem) (req : FuseUkfsRequest) (msg : Mem) : Prop where
  built : daemonMessage buf req = .message msg
  ends : (FuseInHeader.ofMem msg).len.toNat =
    sizeofFuseInHeader + req.input.wire.2.2.length
  untouched : ∀ i, (FuseInHeader.ofMem msg).len.toNat ≤ i → msg i = buf i
  within : (FuseInHeader.ofMem msg).len.toNat ≤ FUSE_DAEMON_BUF_SIZE

section Size

variable {buf : Mem} {req : FuseUkfsRequest}

/-- Header and payload of a request that fits. -/
theorem RequestIn.Fits.size_le {input : RequestIn} (h : input.Fits) :
    sizeofFuseInHeader + input.wire.2.2.length ≤ FUSE_DAEMON_BUF_SIZE := by
  cases input with
  | lookup ino name =>
      show sizeofFuseInHeader + name.toBytes.length ≤ FUSE_DAEMON_BUF_SIZE
      rw [CStr.length_toBytes]
      exact h
  | _ => simp [RequestIn.wire, sizeofFuseInHeader, FUSE_DAEMON_BUF_SIZE]

theorem wireMessage_len {opcode : UInt32} {nodeid : UInt64} {payload : List UInt8}
    (h : sizeofFuseInHeader + payload.length ≤ FUSE_DAEMON_BUF_SIZE) :
    (FuseInHeader.ofMem (wireMessage buf req opcode nodeid payload)).len.toNat =
      sizeofFuseInHeader + payload.length := by
  rw [sizeofFuseInHeader, FUSE_DAEMON_BUF_SIZE] at h
  rw [wireMessage_header, UInt32.toNat_add, UInt32.toNat_ofNat', UInt32.toNat_ofNat',
    sizeofFuseInHeader]
  omega

/-- The encoder writes header and payload only. -/
theorem wireMessage_untouched {opcode : UInt32} {nodeid : UInt64} {payload : List UInt8} {i : Nat}
    (hi : sizeofFuseInHeader + payload.length ≤ i) :
    wireMessage buf req opcode nodeid payload i = buf i := by
  have hheader : sizeofFuseInHeader ≤ i := Nat.le_trans (Nat.le_add_right _ _) hi
  rw [sizeofFuseInHeader] at hi hheader
  simp (disch := first | omega | (simp; omega)) only [wireMessage, setLen, setNodeid,
    setOpcode, fuseInHeader, setPid, setGid, setUid, setUnique, sizeofFuseInHeader,
    Mem.write_of_le]

theorem messageFits_of_fits (hknown : req.input.Known) (hfits : req.input.Fits) :
    MessageFits buf req (requestMessage buf req) := by
  have hsize := hfits.size_le
  have hlen : (FuseInHeader.ofMem (requestMessage buf req)).len.toNat =
      sizeofFuseInHeader + req.input.wire.2.2.length := wireMessage_len hsize
  refine ⟨daemonMessage_of_fits buf hknown hfits, hlen, fun i hi => ?_, by rwa [hlen]⟩
  rw [hlen] at hi
  exact wireMessage_untouched hi

/-- A name that is too long is written over the end of the buffer. -/
theorem not_messageFits_of_overrun (hfits : ¬ req.input.Fits) (msg : Mem) :
    ¬ MessageFits buf req msg := by
  intro h
  have hbuilt := h.built
  rw [daemonMessage_overrun buf hfits] at hbuilt
  exact absurd hbuilt (by simp)

end Size

/-- Whatever the buffer holds, the message of a request that an operation
pushes fits it if and only if the name in it does. -/
theorem message_fits_iff [Platform] {F : Type} (op : DriverOp F) (input : RequestIn)
    (hpush : op.Pushes input) (buf : Mem) (unique : UInt64) :
    (∃ msg, MessageFits buf (.init unique input) msg) ↔ op.NameFits := by
  rw [← hpush.fits_iff]
  constructor
  · rintro ⟨msg, hmsg⟩
    by_contra hfits
    exact not_messageFits_of_overrun hfits msg hmsg
  · intro hfits
    exact ⟨_, messageFits_of_fits hpush.known hfits⟩

/-- The message of a lookup of one letter fits. -/
theorem message_fits_letter :
    ∃ msg, MessageFits (fun _ => 0) (.init 1 (.lookup 1 (CStr.strndup [0x61] 1))) msg := by
  let := sampleHeaders
  refine (message_fits_iff (.lookup (F := Unit) ⟨1, FH_UNSET, none⟩ [0x61] 1) _
    (.lookup _ _ _ true _ rfl) _ _).mpr ?_
  show (1 : Nat) ≤ 8151
  decide

/-- A name of `n` bytes. -/
def nameOf (n : Nat) : List UInt8 := List.replicate n 0x61

theorem pushes_nameOf [Platform] (ff : FusefsFile Unit) {n : Nat} (h : 2 < n) :
    (DriverOp.lookup ff (nameOf n) n).Pushes (.lookup ff.nodeid (.strndup (nameOf n) n)) := by
  refine .lookup _ _ _ true _ ?_
  simp [fusefsLookupEnter, show n ≠ 0 by omega, show n ≠ 1 by omega, show n ≠ 2 by omega]

theorem nameFits_nameOf (ff : FusefsFile Unit) (n : Nat) :
    (DriverOp.lookup ff (nameOf n) n).NameFits ↔ n ≤ 8151 := by
  simp [DriverOp.NameFits, nameOf]

/-- The message of a lookup of 8152 bytes does not fit. -/
theorem long_name_overruns :
    letI := sampleHeaders
    ¬ ∀ (op : DriverOp Unit) (input : RequestIn), op.Pushes input →
      ∀ (buf : Mem) (unique : UInt64), ∃ msg, MessageFits buf (.init unique input) msg := by
  let := sampleHeaders
  intro hall
  have hpush := pushes_nameOf ⟨1, FH_UNSET, none⟩ (n := 8152) (by omega)
  obtain ⟨msg, hmsg⟩ := hall _ _ hpush (fun _ => 0) 1
  refine not_messageFits_of_overrun (fun hfits => ?_) msg hmsg
  have hle := (nameFits_nameOf _ 8152).mp (hpush.fits_iff.mp hfits)
  omega

end UkfsFuse
