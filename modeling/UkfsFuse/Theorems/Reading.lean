import UkfsFuse.Logic.Scatter
import UkfsFuse.Source.HelloLl

/-!
# Reading a file

`fusefs_read` sums the lengths of its buffers in a `size_t` and asks for the
low 32 bits of the sum. A backend that cuts its answers out of the file is
asked for nothing when these are zero, and the 0 it returns is taken for the
end of the file.
-/

namespace UkfsFuse

open UkfsFuse.Core

/-- The bytes of a file; its size is an `off_t`. -/
structure Content where
  bytes : List UInt8
  length_lt : bytes.length < 2 ^ 63

/-- The slice of a file that starts at `off`: `size` bytes, or all there are. -/
def Content.slice (c : Content) (off size : Nat) : List UInt8 :=
  if off < c.bytes.length then (c.bytes.drop off).take (min size (c.bytes.length - off)) else []

section Slices

variable {c : Content} {off size : Nat}

theorem Content.slice_eq : c.slice off size = (c.bytes.drop off).take size := by
  unfold Content.slice
  split
  · rw [List.take_eq_take_iff, List.length_drop]
    omega
  · rw [List.drop_eq_nil_of_le (by omega), List.take_nil]

theorem Content.length_slice (c : Content) (off size : Nat) :
    (c.slice off size).length = min size (c.bytes.length - off) := by
  rw [Content.slice_eq, List.length_take, List.length_drop]

theorem Content.slice_eq_nil_iff :
    c.slice off size = [] ↔ size = 0 ∨ c.bytes.length ≤ off := by
  rw [← List.length_eq_zero_iff, Content.length_slice]
  omega

/-- A slice and what lies behind it. -/
theorem Content.slice_append_drop (c : Content) (off size : Nat) :
    c.slice off size ++ c.bytes.drop (off + (c.slice off size).length) = c.bytes.drop off := by
  rw [← List.drop_drop, Content.slice_eq]
  exact List.prefix_iff_eq_append.mp (List.take_prefix _ _)

/-- The example backend's answers are slices. -/
theorem replyBufLimited_slice {off : Int64} {maxsize : UInt64} (hoff : 0 ≤ off) :
    replyBufLimited c.bytes off maxsize =
      some (.buf (c.slice off.toNatClampNeg maxsize.toNat)) := by
  have hlength : (Int64.ofNat c.bytes.length).toInt = c.bytes.length :=
    Int64.toInt_ofNat_of_lt c.length_lt
  have hzero : (0 : Int64).toInt = 0 := rfl
  have hnat : (off.toNatClampNeg : Int) = off.toInt := by
    rw [Int64.le_iff_toInt_le, hzero] at hoff
    exact Int.toNat_of_nonneg hoff
  have hlt : off < Int64.ofNat c.bytes.length ↔ off.toNatClampNeg < c.bytes.length := by
    rw [Int64.lt_iff_toInt_lt, hlength]
    omega
  have hnonneg : ¬ off < 0 := Int64.not_lt.mpr hoff
  unfold replyBufLimited Content.slice
  by_cases hin : off.toNatClampNeg < c.bytes.length
  · rw [if_pos (hlt.mpr hin), if_neg hnonneg, if_pos hin, Nat.min_comm]
  · rw [if_neg (mt hlt.mp hin), if_neg hin]

end Slices

/-! ## One call -/

/-- A backend that opens every file, or leaves that to libfuse, and reads from
`c` as `reply_buf_limited` does; the requests get their memory, but for replies
of no bytes. -/
structure ServesFile (c : Content) (sv : Service) : Prop where
  callocOk : ∀ input, sv.callocOk input = true
  openReply : sv.op.open_ = true → ∀ req ino fi, ∃ f, sv.backend req (.open_ ino fi) = .open_ f
  openMalloc : ∀ ino flags, sv.mallocOk (.open_ ino flags) = true
  reads : sv.op.read = true
  readReply : ∀ req ino size off fi, 0 ≤ off →
    replyBufLimited c.bytes off size = some (sv.backend req (.read ino size off fi))
  readMalloc : ∀ ino fh off size, sv.mallocOk (.read ino fh off size) = false →
    c.slice off.toNat size.toNat = []

section Calls

variable [Platform] {F : Type} {c : Content} {sv : Service} {s : OpState F} {iov : List UInt64}
  {off : UInt64}

omit [Platform] in
theorem ServesFile.given_open (h : ServesFile c sv) (ino : UInt64) (flags : UInt32) :
    ∃ f, replyGiven sv.op (.init (sv.unique (.open_ ino flags)) (.open_ ino flags)) sv.backend =
      some (.open_ f) := by
  cases hopen : sv.op.open_ with
  | false =>
      exact ⟨{ flags := flags.toInt32 }, by
        simp [replyGiven, RequestIn.handling, RequestIn.call, FuseUkfsRequest.init,
          FuseLowlevelOps.implements, hopen]⟩
  | true =>
      obtain ⟨f, hf⟩ := h.openReply hopen ⟨sv.unique (.open_ ino flags), 0, 0, 1⟩ ino
        { flags := flags.toInt32 }
      exact ⟨f, by
        simp [replyGiven, RequestIn.handling, RequestIn.call, FuseUkfsRequest.init,
          FuseLowlevelOps.implements, hopen, hf]⟩

omit [Platform] in
theorem ServesFile.gives_read (h : ServesFile c sv) (hoff : off.toNat < 2 ^ 63) (ino fh : UInt64)
    (size : UInt32) :
    sv.Gives (.read ino fh off size) (.buf (c.slice off.toNat size.toNat)) := by
  refine ⟨trivial, h.callocOk _, h.reads, fun call hcall => ?_⟩
  obtain rfl := Option.some.inj hcall
  -- below 2^63 an offset is the same as an `off_t`
  have htoInt : off.toInt64.toInt = off.toNat := by
    rw [toInt64_eq_ofNat, Int64.toInt_ofNat_of_lt hoff]
  have hnonneg : 0 ≤ off.toInt64 := by
    have hzero : (0 : Int64).toInt = 0 := rfl
    rw [Int64.le_iff_toInt_le, htoInt, hzero]
    omega
  have hnat : off.toInt64.toNatClampNeg = off.toNat := by
    show off.toInt64.toInt.toNat = off.toNat
    rw [htoInt, Int.toNat_natCast]
  have hreply := h.readReply ⟨sv.unique (.read ino fh off size), 0, 0, 1⟩ ino size.toUInt64
    off.toInt64 { fh := fh, flags := 0, lockOwner := 0 } hnonneg
  rw [replyBufLimited_slice hnonneg, hnat, UInt32.toNat_toUInt64] at hreply
  exact (Option.some.inj hreply).symm

/-- `fusefs_do_open` gets its handle. -/
theorem fusefsDoOpen_served (h : ServesFile c sv) :
    ∃ s', (Op.fusefsDoOpen sv.submit).run s = .ok (0, s') ∧ s'.out = s.out := by
  have hknown : (fusefsDoOpenEnter s.file).Known := trivial
  obtain ⟨f, hgiven⟩ := h.given_open s.file.nodeid 0
  have hsub : sv.submit (fusefsDoOpenEnter s.file) = some (Reply.answerIn
      (fuseSessionNewVersioned sv.op) (sv.mallocOk (fusefsDoOpenEnter s.file)) (.open_ f)
      (.init (sv.unique (fusefsDoOpenEnter s.file)) (fusefsDoOpenEnter s.file))) := by
    rw [Service.submit, h.callocOk]
    exact roundTrip_reply hknown trivial hgiven trivial
  rw [show sv.mallocOk (fusefsDoOpenEnter s.file) = true from h.openMalloc _ _] at hsub
  rw [Op.fusefsDoOpen_run hsub Reply.answerIn_sound]
  exact ⟨_, rfl, rfl⟩

omit [Platform] in
/-- The low 32 bits of the bytes wanted are what the backend is asked for. -/
theorem iovTotal_toUInt32 : (iovTotal iov).toUInt32.toNat = iovBytes iov % 2 ^ 32 := by
  rw [UInt64.toNat_toUInt32, iovTotal_toNat]
  omega

/-- A read with a handle delivers the slice asked for and returns its length. -/
theorem fusefsReadOpened_served (h : ServesFile c sv) (hoff : off.toNat < 2 ^ 63) :
    ∃ s' pieces, (Op.fusefsReadOpened sv.submit iov off).run s =
        .ok (.ofNat (c.slice off.toNat (iovBytes iov % 2 ^ 32)).length, s') ∧
      s'.out.stored = s.out.stored ++ pieces ∧
      pieces.flatten = c.slice off.toNat (iovBytes iov % 2 ^ 32) := by
  by_cases htotal : iovTotal iov = 0
  · have hzero : iovBytes iov % 2 ^ 32 = 0 := by
      rw [← iovTotal_toUInt32, htotal]
      rfl
    have hnil : c.slice off.toNat (iovBytes iov % 2 ^ 32) = [] :=
      Content.slice_eq_nil_iff.mpr (.inl hzero)
    rw [hnil, Op.fusefsReadOpened_ret (readEnter_zero htotal)]
    exact ⟨s, [], rfl, by simp, rfl⟩
  · have hgives := h.gives_read hoff s.file.nodeid s.file.fh (iovTotal iov).toUInt32
    have hmalloc := h.readMalloc s.file.nodeid s.file.fh off (iovTotal iov).toUInt32
    rw [iovTotal_toUInt32] at hgives hmalloc
    -- the buffers hold all that was asked for
    have hfit : min (c.slice off.toNat (iovBytes iov % 2 ^ 32)).length (iovBytes iov) =
        (c.slice off.toNat (iovBytes iov % 2 ^ 32)).length := by
      have hlen := Content.length_slice c off.toNat (iovBytes iov % 2 ^ 32)
      have hmod := Nat.mod_le (iovBytes iov) (2 ^ 32)
      omega
    obtain ⟨s', pieces, hrun, hstored, hpieces⟩ := Op.fusefsReadOpened_buf htotal hgives hmalloc
    rw [hfit] at hrun hpieces
    exact ⟨s', pieces, hrun, hstored, by rw [hpieces, List.take_length]⟩

variable (s iov) in
/-- And so does a read that has to open the file first. -/
theorem fusefsRead_served (h : ServesFile c sv) (hoff : off.toNat < 2 ^ 63) :
    ∃ s' pieces, (Op.fusefsRead sv.submit iov off).run s =
        .ok (.ofNat (c.slice off.toNat (iovBytes iov % 2 ^ 32)).length, s') ∧
      s'.out.stored = s.out.stored ++ pieces ∧
      pieces.flatten = c.slice off.toNat (iovBytes iov % 2 ^ 32) := by
  by_cases hfh : s.file.fh = FH_UNSET
  · obtain ⟨s₁, hopen, hout⟩ := fusefsDoOpen_served (s := s) h
    rw [Op.fusefsRead_unset hfh hopen, if_pos rfl, ← hout]
    exact fusefsReadOpened_served h hoff
  · rw [Op.fusefsRead_opened hfh]
    exact fusefsReadOpened_served h hoff

end Calls

/-! ## Reading on -/

/-- One call of a sequence: its buffers, its offset, what it returned and the
bytes it stored. -/
structure ReadTurn where
  iov : List UInt64
  off : UInt64
  ret : Int64
  delivered : List UInt8

section Sequence

variable [Platform] {F : Type}

/-- Call after call, each at the offset the one before has advanced to; `none`
if one does not return. -/
def readTurns : List (Service × List UInt64) → UInt64 → OpState F → Option (List ReadTurn)
  | [], _, _ => some []
  | (sv, iov) :: calls, off, s =>
      match (Op.fusefsRead sv.submit iov off).run s with
      | .error _ => none
      | .ok (ret, s') =>
          (readTurns calls (off + ret.toUInt64) s').map fun turns =>
            ⟨iov, off, ret, (s'.out.stored.drop s.out.stored.length).flatten⟩ :: turns

omit [Platform] in
/-- The bytes delivered are those of the file from `start` on, and 0 is
returned behind its end only. -/
structure ReadsOn (c : Content) (start : UInt64) (turns : List ReadTurn) : Prop where
  delivered : turns.flatMap ReadTurn.delivered <+: c.bytes.drop start.toNat
  noFalseEnd : ∀ turn ∈ turns, turn.ret = 0 → c.bytes.length ≤ turn.off.toNat

/-- No call on the file wants a multiple of 2^32 bytes: one that does comes
after the others have asked for all from `pos` to the end. -/
def Content.AsksUpToEnd (c : Content) : Nat → List (List UInt64) → Prop
  | _, [] => True
  | pos, iov :: iovs =>
      (iovBytes iov % 2 ^ 32 ≠ 0 ∨ c.bytes.length ≤ pos) ∧
        c.AsksUpToEnd (pos + iovBytes iov % 2 ^ 32) iovs

variable {c : Content}

omit [Platform] in
/-- Zero is returned for nothing wanted and at the end. -/
theorem served_eq_zero_iff {off size : Nat} :
    Int64.ofNat (c.slice off size).length = 0 ↔ size = 0 ∨ c.bytes.length ≤ off := by
  have hlt : (c.slice off size).length < 2 ^ 63 := by
    have hlen := c.length_slice off size
    have hsize := c.length_lt
    omega
  rw [← Content.slice_eq_nil_iff, ← List.length_eq_zero_iff, ← Int64.toInt_inj,
    Int64.toInt_ofNat_of_lt hlt]
  exact Int.natCast_eq_zero

/-- Every turn delivers its slice. The position `pos` of the bytes asked for is
the offset while that is within the file. -/
theorem readTurns_served (calls : List (Service × List UInt64)) :
    ∀ (start : UInt64) (pos : Nat) (s : OpState F), start.toNat < 2 ^ 63 →
      (start.toNat < c.bytes.length → pos = start.toNat) →
      (c.bytes.length ≤ start.toNat → c.bytes.length ≤ pos) →
      (∀ call ∈ calls, ServesFile c call.1) →
      ∃ turns, readTurns calls start s = some turns ∧
        turns.flatMap ReadTurn.delivered <+: c.bytes.drop start.toNat ∧
        ((∀ turn ∈ turns, turn.ret = 0 → c.bytes.length ≤ turn.off.toNat) ↔
          c.AsksUpToEnd pos (calls.map Prod.snd)) := by
  induction calls with
  | nil =>
      intro start pos s _ _ _ _
      exact ⟨[], rfl, List.nil_prefix, by simp [Content.AsksUpToEnd]⟩
  | cons call calls ih =>
      obtain ⟨sv, iov⟩ := call
      intro start pos s hstart hinside hbehindEnd hserves
      obtain ⟨s', pieces, hrun, hstored, hpieces⟩ := fusefsRead_served s iov
        (hserves (sv, iov) List.mem_cons_self) hstart
      have hbehind := Content.slice_append_drop c start.toNat (iovBytes iov % 2 ^ 32)
      have hlen := Content.length_slice c start.toNat (iovBytes iov % 2 ^ 32)
      have hsize := c.length_lt
      -- the next offset stays below 2^63
      have hnext : (start + (Int64.ofNat (c.slice start.toNat
          (iovBytes iov % 2 ^ 32)).length).toUInt64).toNat =
          start.toNat + (c.slice start.toNat (iovBytes iov % 2 ^ 32)).length := by
        rw [Int64.toUInt64_ofNat', UInt64.toNat_add, UInt64.toNat_ofNat']
        omega
      obtain ⟨turns, hturns, hfront, hends⟩ := ih
        (start + (Int64.ofNat (c.slice start.toNat (iovBytes iov % 2 ^ 32)).length).toUInt64)
        (pos + iovBytes iov % 2 ^ 32) s' (by omega) (by omega) (by omega)
        fun call hcall => hserves call (List.mem_cons_of_mem _ hcall)
      rw [hnext] at hfront
      have hall : readTurns ((sv, iov) :: calls) start s = some (⟨iov, start,
          .ofNat (c.slice start.toNat (iovBytes iov % 2 ^ 32)).length,
          (s'.out.stored.drop s.out.stored.length).flatten⟩ :: turns) := by
        rw [readTurns, hrun]
        simp only [hturns, Option.map_some]
      refine ⟨_, hall, ?_, ?_⟩
      · have hdelivered : (s'.out.stored.drop s.out.stored.length).flatten =
            c.slice start.toNat (iovBytes iov % 2 ^ 32) := by
          rw [hstored, List.drop_left, hpieces]
        rw [List.flatMap_cons, hdelivered, ← hbehind]
        exact (List.prefix_append_right_inj _).mpr hfront
      · have hpos : c.bytes.length ≤ pos ↔ c.bytes.length ≤ start.toNat := by
          omega
        rw [List.forall_mem_cons, hends, served_eq_zero_iff, List.map_cons, Content.AsksUpToEnd,
          hpos]
        refine and_congr_left fun _ => ?_
        constructor
        · intro h
          by_cases hwant : iovBytes iov % 2 ^ 32 = 0
          · exact .inr (h (.inl hwant))
          · exact .inl hwant
        · rintro (hwant | hend) hzero
          · exact hzero.resolve_left hwant
          · exact hend

/-- Reading on delivers the file, and its end is never seen too early, exactly
when no call before the end wants a multiple of 2^32 bytes. -/
theorem read_sequence_iff (c : Content) (start : UInt64) (s : OpState F)
    (calls : List (Service × List UInt64)) (hstart : start.toNat < 2 ^ 63)
    (hserves : ∀ call ∈ calls, ServesFile c call.1 ∧ 0 < iovBytes call.2) :
    ∃ turns, readTurns calls start s = some turns ∧
      (ReadsOn c start turns ↔ c.AsksUpToEnd start.toNat (calls.map Prod.snd)) := by
  obtain ⟨turns, hturns, hfront, hends⟩ := readTurns_served calls start start.toNat s hstart
    (fun _ => rfl) id fun call hcall => (hserves call hcall).1
  exact ⟨turns, hturns, fun hreads => hends.mp hreads.noFalseEnd,
    fun hasks => ⟨hfront, hends.mpr hasks⟩⟩

end Sequence

/-! ## A backend over a file -/

/-- Reads are answered by `reply_buf_limited`; libfuse answers opens. -/
def sliceService (c : Content) : Service where
  op := { read := true }
  backend
    | _, .read _ size off _ => (replyBufLimited c.bytes off size).getD (.err EINVAL)
    | _, _ => .err ENOSYS
  buf _ _ := 0
  unique _ := 1
  callocOk _ := true
  mallocOk _ := true

theorem sliceService_serves (c : Content) : ServesFile c (sliceService c) where
  callocOk _ := rfl
  openReply hopen := absurd hopen (by simp [sliceService])
  openMalloc _ _ := rfl
  reads := rfl
  readReply req ino size off fi hoff := by
    simp only [sliceService, replyBufLimited_slice hoff, Option.getD_some]
  readMalloc _ _ _ _ hmalloc := absurd hmalloc (by simp [sliceService])

/-- The one byte of a file. -/
def oneByte : Content := ⟨[0x61], by decide⟩

/-- One byte is read, and then the end of the file. -/
theorem read_one_byte_file :
    letI := sampleHeaders
    ∃ turns, readTurns [(sliceService oneByte, [1]), (sliceService oneByte, [1])] 0
        (.start (fusefsFileAlloc Unit 2) (.blank Unit)) = some turns ∧
      ReadsOn oneByte 0 turns := by
  let := sampleHeaders
  have hserves : ∀ call ∈ [(sliceService oneByte, [(1 : UInt64)]), (sliceService oneByte, [1])],
      ServesFile oneByte call.1 ∧ 0 < iovBytes call.2 := by
    intro call hcall
    obtain rfl : call = (sliceService oneByte, [1]) := by simpa using hcall
    exact ⟨sliceService_serves oneByte, by decide⟩
  obtain ⟨turns, hturns, hiff⟩ := read_sequence_iff oneByte 0
    (.start (fusefsFileAlloc Unit 2) (.blank Unit)) _ (by decide) hserves
  exact ⟨turns, hturns, hiff.mpr ⟨by decide, by decide, trivial⟩⟩

/-- A buffer of 2^32 bytes on the same file: it is asked for nothing, and the
call returns the end of the file at offset 0. -/
theorem huge_buffer_reads_nothing :
    letI := sampleHeaders
    ServesFile oneByte (sliceService oneByte) ∧ 0 < iovBytes [0x100000000] ∧
      ∃ turns, readTurns [(sliceService oneByte, [0x100000000])] 0
          (.start (fusefsFileAlloc Unit 2) (.blank Unit)) = some turns ∧
        (∃ turn ∈ turns, turn.ret = 0 ∧ turn.off = 0) ∧ ¬ ReadsOn oneByte 0 turns := by
  let := sampleHeaders
  refine ⟨sliceService_serves oneByte, by decide, ?_⟩
  obtain ⟨s', pieces, hrun, -, -⟩ := fusefsRead_served
    (OpState.start (fusefsFileAlloc Unit 2) (.blank Unit)) [0x100000000]
    (sliceService_serves oneByte) (show (0 : UInt64).toNat < 2 ^ 63 by decide)
  have hret : (Int64.ofNat (oneByte.slice (0 : UInt64).toNat
      (iovBytes [0x100000000] % 2 ^ 32)).length) = 0 := by decide
  rw [hret] at hrun
  refine ⟨[⟨[0x100000000], 0, 0, (s'.out.stored.drop 0).flatten⟩], ?_,
    ⟨_, List.mem_singleton_self _, rfl, rfl⟩, fun hreads => ?_⟩
  · rw [readTurns, hrun]
    rfl
  · have hend := hreads.noFalseEnd _ (List.mem_singleton_self _) rfl
    exact absurd hend (show ¬ oneByte.bytes.length ≤ (0 : UInt64).toNat by decide)

end UkfsFuse
