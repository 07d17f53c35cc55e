import UkfsFuse.Logic.Codec
import UkfsFuse.Source.Driver

/-!
# What a reply call leaves in the record

`Reply.error`, `Reply.payload` and `Reply.size` say what the backend hands
over; the lemmas say what each reply function has written by the time it
raises `done`, for either outcome of its allocation.
-/

namespace UkfsFuse

open UkfsFuse.Core

namespace Reply

variable [Platform]

/-- The error a reply stands for. -/
def error : Reply → Int32
  | .err e => -e
  | _ => 0

/-- The unread segments of a `struct fuse_bufvec`, one after the other. -/
def bufvecBytes (bufv : FuseBufvec) : List UInt8 :=
  (bufv.buf.drop bufv.idx).flatten.drop bufv.off

/-- The payload of a reply. -/
def payload : Reply → Option ReplyData
  | .err _ => none
  | .entry e => some (.entry e)
  | .attr st => some (.attr st)
  | .open_ f => some (.openOut (fillOpenOut f))
  | .buf bs => some (.bytes bs)
  | .iov segs => some (.bytes segs.flatten)
  | .data v => some (.bytes (bufvecBytes v))

/-- The size of the payload. -/
def size : Reply → Nat
  | .err _ => 0
  | .entry _ => sizeofFuseEntryParam
  | .attr _ => Platform.sizeofStat
  | .open_ _ => sizeofFuseOpenOut
  | .buf bs => bs.length
  | .iov segs => segs.flatten.length
  | .data v => (bufvecBytes v).length

end Reply

/-- A reply call completes its request: `done` is raised once, nothing is sent
to the device, and when `done` is raised the record holds the backend's error
or payload. A payload of no bytes needs no object. -/
structure Completes [Platform] (acts : List ReplyAct) (req : FuseUkfsRequest) (r : Reply) :
    Prop where
  once : acts.count .up = 1
  noDevice : .deviceWrite ∉ acts
  error : (atUp acts req).error = r.error
  len : (atUp acts req).replyLen = r.size
  data : r.size ≠ 0 → (atUp acts req).replyData = r.payload

/-- The record when `done` is raised after a failed allocation. -/
structure SeesNoMemory (acts : List ReplyAct) (req : FuseUkfsRequest) : Prop where
  error : (atUp acts req).error = -ENOMEM
  data : (atUp acts req).replyData = none

section ReplyFunctions

variable {req : FuseUkfsRequest} {op : FuseLowlevelOps}

theorem fuseReplyErr_completes [Platform] (e : Int32) :
    Completes (fuseReplyErr e) req (.err e) where
  once := rfl
  noDevice := by simp [fuseReplyErr]
  error := rfl
  len := rfl
  data := fun h => absurd rfl h

theorem fuseReplyErr_noMemory : SeesNoMemory (fuseReplyErr ENOMEM) req := ⟨rfl, rfl⟩

/-- A session of `fuse_session_new_versioned` speaks 7.31: a zero inode is
passed on. -/
theorem fuseReplyEntry_new [Platform] (e : FuseEntryParam) (mallocOk : Bool) :
    fuseReplyEntry (fuseSessionNewVersioned op) e mallocOk =
      replyObject sizeofFuseEntryParam (.entry e) mallocOk := by
  have hminor : ¬ (fuseSessionNewVersioned op).protoMinor < 4 := by
    show ¬ (31 : UInt32) < 4
    decide
  simp [fuseReplyEntry, hminor]

theorem replyObject_once (n : Nat) (d : ReplyData) (mallocOk : Bool) :
    (replyObject n d mallocOk).count .up = 1 := by
  cases mallocOk <;> rfl

theorem replyObject_fail (n : Nat) (d : ReplyData) :
    SeesNoMemory (replyObject n d false) req := ⟨rfl, rfl⟩

theorem fuseReplyOpen_once (f : FuseFileInfo) (mallocOk : Bool) :
    (fuseReplyOpen f mallocOk).count .up = 1 := by
  cases mallocOk <;> rfl

theorem fuseReplyOpen_fail (f : FuseFileInfo) :
    SeesNoMemory (fuseReplyOpen f false) req := ⟨rfl, rfl⟩

theorem fuseReplyBuf_once (bs : List UInt8) (mallocOk : Bool) :
    (fuseReplyBuf bs mallocOk).count .up = 1 := by
  cases mallocOk with
  | true => rfl
  | false => cases bs <;> rfl

theorem fuseReplyBuf_fail {bs : List UInt8} (hne : bs ≠ []) :
    SeesNoMemory (fuseReplyBuf bs false) req := by
  cases bs with
  | nil => exact absurd rfl hne
  | cons b bs => exact ⟨rfl, rfl⟩

/-- The sum of the segments' sizes as `fuse_reply_data` keeps it, in an int. -/
def bufvecCount (bufv : FuseBufvec) : Int32 :=
  .ofNat (fuseBufCopy (fuseBufSize bufv) bufv).length

/-- A single memory buffer from its start, sent without a copy. -/
def FuseBufvec.Single (bufv : FuseBufvec) : Prop :=
  bufv.buf.length = 1 ∧ bufv.idx = 0 ∧ bufv.off = 0

/-- The ways through `fuse_reply_data`. -/
theorem fuseReplyData_cases (v : FuseBufvec) (mallocOk : Bool) :
    (v.Single ∧ fuseReplyData v mallocOk = [.deviceWrite, .freeReq]) ∨
    (¬ v.Single ∧ mallocOk = false ∧ fuseReplyData v mallocOk = fuseReplyErr ENOMEM) ∨
    (¬ v.Single ∧ mallocOk = true ∧ 0 ≤ bufvecCount v ∧
      fuseReplyData v mallocOk = [.deviceWrite, .freeReq]) ∨
    (¬ v.Single ∧ mallocOk = true ∧ bufvecCount v < 0 ∧ 0 < -bufvecCount v ∧
      fuseReplyData v mallocOk = fuseReplyErr (-bufvecCount v)) ∨
    (¬ v.Single ∧ mallocOk = true ∧ bufvecCount v < 0 ∧ ¬ 0 < -bufvecCount v ∧
      fuseReplyData v mallocOk = [.freeReq]) := by
  by_cases hs : v.Single
  · exact .inl ⟨hs, if_pos hs⟩
  · right
    cases mallocOk with
    | false =>
        have hbody : fuseReplyData v false = fuseReplyErr ENOMEM := if_neg hs
        exact .inl ⟨hs, rfl, hbody⟩
    | true =>
        have hbody : fuseReplyData v true =
            if bufvecCount v < 0 then
              if -bufvecCount v ≤ 0 then [.freeReq] else fuseReplyErr (-bufvecCount v)
            else [.deviceWrite, .freeReq] := if_neg hs
        rw [hbody]
        right
        by_cases hneg : bufvecCount v < 0
        · right
          rw [if_pos hneg]
          by_cases hpos : 0 < -bufvecCount v
          · exact .inl ⟨hs, rfl, hneg, hpos, if_neg (Int32.not_le.mpr hpos)⟩
          · exact .inr ⟨hs, rfl, hneg, hpos, if_pos (Int32.not_lt.mp hpos)⟩
        · exact .inl ⟨hs, rfl, Int32.not_lt.mp hneg, if_neg hneg⟩

end ReplyFunctions

/-! ## Which replies complete their request -/

/-- The reply function writes the record, and an allocation it needs for that
succeeds. -/
def Reply.OnRecord (mallocOk : Bool) : Reply → Prop
  | .err _ => True
  | .entry _ | .attr _ | .open_ _ => mallocOk = true
  | .buf bs => mallocOk = true ∨ bs = []
  | .iov _ | .data _ => False

section Completes

variable [Platform] {req : FuseUkfsRequest} {op : FuseLowlevelOps} {mallocOk : Bool} {r : Reply}

theorem SeesNoMemory.not_completes {acts : List ReplyAct} (h : SeesNoMemory acts req)
    (hr : r.error = 0) : ¬ Completes acts req r := by
  intro hc
  have herr : (-ENOMEM : Int32) = 0 := by
    rw [← h.error, hc.error, hr]
  exact absurd herr (by decide)

theorem completes_of_onRecord (h : r.OnRecord mallocOk) :
    Completes (r.acts (fuseSessionNewVersioned op) mallocOk) req r := by
  cases r with
  | err e => exact fuseReplyErr_completes e
  | entry e =>
      obtain rfl : mallocOk = true := h
      simp only [Reply.acts, fuseReplyEntry_new]
      exact ⟨rfl, by simp [replyObject], rfl, rfl, fun _ => rfl⟩
  | attr st =>
      obtain rfl : mallocOk = true := h
      exact ⟨rfl, by simp [Reply.acts, fuseReplyAttr, replyObject], rfl, rfl, fun _ => rfl⟩
  | open_ f =>
      obtain rfl : mallocOk = true := h
      exact ⟨rfl, by simp [Reply.acts, fuseReplyOpen], rfl, rfl, fun _ => rfl⟩
  | buf bs =>
      refine ⟨fuseReplyBuf_once bs mallocOk, ?_, ?_, ?_, ?_⟩
      · simp only [Reply.acts, fuseReplyBuf]
        split_ifs <;> simp
      all_goals
        rcases h with rfl | rfl
        · first | rfl | exact fun _ => rfl
        · cases mallocOk <;> first | rfl | exact fun hne => absurd rfl hne
  | iov segs => exact h.elim
  | data v => exact h.elim

theorem onRecord_of_completes
    (h : Completes (r.acts (fuseSessionNewVersioned op) mallocOk) req r) :
    r.OnRecord mallocOk := by
  cases r with
  | err e => trivial
  | entry e =>
      cases mallocOk with
      | true => rfl
      | false =>
          rw [Reply.acts, fuseReplyEntry_new] at h
          exact absurd h ((replyObject_fail ..).not_completes rfl)
  | attr st =>
      cases mallocOk with
      | true => rfl
      | false => exact absurd h ((replyObject_fail ..).not_completes rfl)
  | open_ f =>
      cases mallocOk with
      | true => rfl
      | false => exact absurd h ((fuseReplyOpen_fail f).not_completes rfl)
  | buf bs =>
      cases mallocOk with
      | true => exact .inl rfl
      | false =>
          by_cases hne : bs = []
          · exact .inr hne
          · exact absurd h ((fuseReplyBuf_fail hne).not_completes rfl)
  | iov segs =>
      cases mallocOk with
      | true => exact absurd h.noDevice (by simp [Reply.acts, fuseReplyIov])
      | false => exact absurd h (fuseReplyErr_noMemory.not_completes rfl)
  | data v =>
      rw [Reply.acts] at h
      rcases fuseReplyData_cases v mallocOk with ⟨-, heq⟩ | ⟨-, -, heq⟩ | ⟨-, -, -, heq⟩ |
        ⟨-, -, hneg, -, heq⟩ | ⟨-, -, -, -, heq⟩ <;> rw [heq] at h
      · exact absurd h.noDevice (by simp)
      · exact absurd h (fuseReplyErr_noMemory.not_completes rfl)
      · exact absurd h.noDevice (by simp)
      · -- the negated count is reported as an error
        have herr : - -bufvecCount v = 0 := h.error
        rw [Int32.neg_neg] at herr
        rw [herr] at hneg
        exact absurd hneg (by decide)
      · exact absurd h.once (by simp)

end Completes

/-! ## Failing allocations -/

/-- The reply function allocates on its way. -/
def Reply.NeedsMalloc : Reply → Prop
  | .err _ => False
  | .entry _ | .attr _ | .open_ _ | .iov _ => True
  | .buf bs => bs ≠ []
  | .data v => ¬ v.Single

/-- The reply function raises `done`: it is one of those written for the
record, or one of the others and ends in its own error branch. -/
def Reply.RaisesDone (mallocOk : Bool) : Reply → Prop
  | .iov _ => mallocOk = false
  | .data v => ¬ v.Single ∧ (mallocOk = false ∨ (bufvecCount v < 0 ∧ 0 < -bufvecCount v))
  | _ => True

section Failing

variable [Platform] {req : FuseUkfsRequest} {op : FuseLowlevelOps} {mallocOk : Bool} {r : Reply}

theorem once_iff_raisesDone :
    (r.acts (fuseSessionNewVersioned op) mallocOk).count .up = 1 ↔ r.RaisesDone mallocOk := by
  cases r with
  | err e => exact iff_of_true rfl trivial
  | entry e =>
      rw [Reply.acts, fuseReplyEntry_new]
      exact iff_of_true (replyObject_once ..) trivial
  | attr st => exact iff_of_true (replyObject_once ..) trivial
  | open_ f => exact iff_of_true (fuseReplyOpen_once f mallocOk) trivial
  | buf bs => exact iff_of_true (fuseReplyBuf_once bs mallocOk) trivial
  | iov segs =>
      cases mallocOk with
      | true => exact iff_of_false (by simp [Reply.acts, fuseReplyIov]) Bool.true_eq_false.mp
      | false => exact iff_of_true rfl rfl
  | data v =>
      rw [Reply.acts]
      rcases fuseReplyData_cases v mallocOk with ⟨hs, heq⟩ | ⟨hs, hm, heq⟩ | ⟨hs, hm, hneg, heq⟩ |
        ⟨hs, hm, hneg, hpos, heq⟩ | ⟨hs, hm, hneg, hpos, heq⟩ <;> rw [heq]
      · exact iff_of_false (by simp) fun h => h.1 hs
      · exact iff_of_true rfl ⟨hs, .inl hm⟩
      · refine iff_of_false (by simp) fun h => ?_
        rcases h.2 with hfalse | ⟨hlt, -⟩
        · rw [hm] at hfalse; exact absurd hfalse (by simp)
        · exact Int32.not_lt.mpr hneg hlt
      · exact iff_of_true rfl ⟨hs, .inr ⟨hneg, hpos⟩⟩
      · refine iff_of_false (by simp) fun h => ?_
        rcases h.2 with hfalse | ⟨-, hlt⟩
        · rw [hm] at hfalse; exact absurd hfalse (by simp)
        · exact hpos hlt

/-- A reply function that allocates and fails, and raises `done` at all,
reports `-ENOMEM`. -/
theorem noMemory_of_needsMalloc (hneeds : r.NeedsMalloc) (hraises : r.RaisesDone false) :
    SeesNoMemory (r.acts (fuseSessionNewVersioned op) false) req := by
  cases r with
  | err e => exact hneeds.elim
  | entry e =>
      rw [Reply.acts, fuseReplyEntry_new]
      exact replyObject_fail ..
  | attr st => exact replyObject_fail ..
  | open_ f => exact fuseReplyOpen_fail f
  | buf bs => exact fuseReplyBuf_fail hneeds
  | iov segs => exact fuseReplyErr_noMemory
  | data v =>
      rw [Reply.acts]
      rcases fuseReplyData_cases v false with ⟨hs, -⟩ | ⟨-, -, heq⟩ | ⟨-, hm, -⟩ | ⟨-, hm, -⟩ |
        ⟨-, hm, -⟩
      · exact absurd hs hneeds
      · rw [heq]; exact fuseReplyErr_noMemory
      all_goals exact absurd hm (by simp)

end Failing

/-! ## A request's way through daemon and libfuse -/

/-- The reply a request's handle receives: the backend's, or libfuse's own
when the callback is not set. -/
def replyGiven (op : FuseLowlevelOps) (req : FuseUkfsRequest) (backend : FuseReq → Call → Reply) :
    Option Reply :=
  match req.input.handling op with
  | .callback call => some (backend ⟨req.unique, 0, 0, 1⟩ call)
  | .own reply => some reply
  | _ => none

section Serve

variable [Platform] {op : FuseLowlevelOps} {buf : Mem} {req : FuseUkfsRequest}
  {callocOk mallocOk : Bool} {backend : FuseReq → Call → Reply}

omit [Platform] in
theorem handling_reply (op : FuseLowlevelOps) (backend : FuseReq → Call → Reply)
    (hknown : req.input.Known) : ∃ r, replyGiven op req backend = some r := by
  unfold replyGiven RequestIn.handling
  cases hin : req.input with
  | other n h => rw [hin] at hknown; exact hknown.elim
  | _ =>
      simp only [RequestIn.call]
      split_ifs <;> exact ⟨_, rfl⟩

theorem serveRequest_unknown (hknown : ¬ req.input.Known) :
    serveRequest (fuseSessionNewVersioned op) buf req callocOk mallocOk backend =
      some unknownOpcodeActs := by
  simp only [serveRequest, daemonPass, daemonMessage_unknown buf hknown]

theorem serveRequest_overrun (hfits : ¬ req.input.Fits) :
    serveRequest (fuseSessionNewVersioned op) buf req callocOk mallocOk backend = none := by
  simp only [serveRequest, daemonPass, daemonMessage_overrun buf hfits]

theorem serveRequest_noReq (hknown : req.input.Known) (hfits : req.input.Fits) :
    serveRequest (fuseSessionNewVersioned op) buf req false mallocOk backend =
      some [.deviceWrite] := by
  simp only [serveRequest, daemonPass, daemonMessage_of_fits buf hknown hfits, process_noReq]

theorem serveRequest_reply (hknown : req.input.Known) (hfits : req.input.Fits) {r : Reply}
    (hr : replyGiven op req backend = some r) :
    serveRequest (fuseSessionNewVersioned op) buf req true mallocOk backend =
      some (r.acts (fuseSessionNewVersioned op) mallocOk) := by
  simp only [serveRequest, daemonPass, daemonMessage_of_fits buf hknown hfits,
    process_requestMessage buf op hknown hfits]
  unfold replyGiven at hr
  cases hh : req.input.handling op <;> simp_all

/-! The same three ends for a client that waits for its answer. -/

variable {unique : UInt64} {input : RequestIn}

theorem roundTrip_overrun (hfits : ¬ input.Fits) :
    roundTrip op buf unique callocOk mallocOk backend input = none := by
  have hserve : serveRequest (fuseSessionNewVersioned op) buf (.init unique input) callocOk
      mallocOk backend = none := serveRequest_overrun hfits
  simp only [roundTrip, hserve]

theorem roundTrip_noReq (hknown : input.Known) (hfits : input.Fits) :
    roundTrip op buf unique false mallocOk backend input = none := by
  have hserve : serveRequest (fuseSessionNewVersioned op) buf (.init unique input) false
      mallocOk backend = some [.deviceWrite] := serveRequest_noReq hknown hfits
  simp only [roundTrip, hserve]
  rfl

theorem roundTrip_reply (hknown : input.Known) (hfits : input.Fits) {r : Reply}
    (hr : replyGiven op (.init unique input) backend = some r) (hraises : r.RaisesDone mallocOk) :
    roundTrip op buf unique true mallocOk backend input =
      some (atUp (r.acts (fuseSessionNewVersioned op) mallocOk) (.init unique input)).answer := by
  have hserve : serveRequest (fuseSessionNewVersioned op) buf (.init unique input) true
      mallocOk backend = some (r.acts (fuseSessionNewVersioned op) mallocOk) :=
    serveRequest_reply hknown hfits hr
  have hup : ReplyAct.up ∈ r.acts (fuseSessionNewVersioned op) mallocOk := by
    have honce : (r.acts (fuseSessionNewVersioned op) mallocOk).count .up = 1 :=
      once_iff_raisesDone.mpr hraises
    exact List.count_pos_iff.mp (by omega)
  simp only [roundTrip, hserve, if_pos hup]

end Serve

end UkfsFuse
