import UkfsFuse.Logic.Dirents
import UkfsFuse.Logic.Operation
import UkfsFuse.Logic.Scatter

/-!
# What a client sees of a refusal

The reply functions were rewritten for the record, and with them went two
checks. A zero inode, which the header defines as "no such entry", is passed
on as a file; and the value of `fuse_reply_err` is negated but not validated,
so a value outside of 0..999 reaches the client as another error, or as a
result.
-/

namespace UkfsFuse

open UkfsFuse.Core

/-! ## Negative entries -/

section NegativeEntries

variable [Platform] {F : Type}

/-- A lookup answered with `e`: it returns a file only for a non-zero inode,
which is the file's; for inode 0 it returns `-ENOENT` and stores nothing. -/
structure ShowsEntry (e : FuseEntryParam) (s : OpState F)
    (run : Except Stuck (Int32 × OpState F)) : Prop where
  returns : ∃ ret s', run = .ok (ret, s')
  file : ∀ s', run = .ok (Platform.UKFS_STOP_FILE, s') →
    e.ino ≠ 0 ∧ s'.out.target = some (.child (fusefsFileAlloc F e.ino))
  negative : ∀ ret s', run = .ok (ret, s') → e.ino = 0 →
    ret = -ENOENT ∧ s'.out.target = s.out.target ∧ s'.out.nout = s.out.nout

variable {sv : Service} {s : OpState F} {path : List UInt8} {len : Nat} {e : FuseEntryParam}

theorem stop_file_ne {n : Int32} (h : n < 0) : Platform.UKFS_STOP_FILE ≠ n := by
  rintro rfl
  exact Int32.not_lt.mpr Platform.stop_nonneg.1 h

variable (s) in
/-- A lookup whose LOOKUP was answered with `e`: it does not look at the inode. -/
theorem fusefsLookup_entry {input : RequestIn}
    (henter : fusefsLookupEnter s.file path len true = .submit input) (hknown : input.Known)
    (hgives : sv.Gives input (.entry e)) (allocOk : Bool) :
    ∃ heap, (Op.fusefsLookup sv.submit path len true allocOk).run s =
      .ok (if sv.mallocOk input = true ∧ allocOk = true then
        (Platform.UKFS_STOP_FILE, { s with heap := heap, out := { s.out with
          target := some (.child (fusefsFileAlloc F e.ino))
          nout := s.out.nout.map fun _ => len } })
      else (-ENOMEM, { s with heap := heap })) := by
  have hsub := Service.submit_gives hknown hgives trivial
  rw [Op.fusefsLookup_run henter hsub Reply.answerIn_sound, Reply.answerIn, Reply.acts,
    fuseReplyEntry_new]
  cases hmalloc : sv.mallocOk input with
  | false =>
      refine ⟨s.heap.retire (.name (CStr.strndup path len)), ?_⟩
      show Op.finished _ _ (some (Op.lookupResult s (.fail (-ENOMEM)))) = _
      rw [Op.lookupResult_fail, if_neg (by simp)]
      rfl
  | true =>
      refine ⟨(s.heap.retire (.name (CStr.strndup path len))).retire (.reply (.entry e)), ?_⟩
      cases allocOk with
      | false =>
          show Op.finished _ _ (some (Op.lookupResult s (.fail (-ENOMEM)))) = _
          rw [Op.lookupResult_fail, if_neg (by simp)]
          rfl
      | true =>
          rw [if_pos ⟨rfl, rfl⟩]
          rfl

/-- `fusefs_lookup` treats an entry as `struct fuse_entry_param` documents it
exactly when its inode is not zero. -/
theorem lookup_shows_entry_iff {F : Type} (sv : Service) (s : OpState F) (path : List UInt8)
    (len : Nat) (e : FuseEntryParam) (allocOk : Bool) (input : RequestIn)
    (henter : fusefsLookupEnter s.file path len true = .submit input)
    (hgives : sv.Gives input (.entry e)) :
    ShowsEntry e s ((Op.fusefsLookup sv.submit path len true allocOk).run s) ↔ e.ino ≠ 0 := by
  have hknown : input.Known := by
    rw [lookupEnter_submit henter]
    trivial
  obtain ⟨heap, hrun⟩ := fusefsLookup_entry s henter hknown hgives allocOk
  rw [hrun]
  constructor
  · intro hshows hzero
    -- inode 0 is either a file or an error, but never `-ENOENT`
    by_cases hmem : sv.mallocOk input = true ∧ allocOk = true
    · rw [if_pos hmem] at hshows
      exact (hshows.file _ rfl).1 hzero
    · rw [if_neg hmem] at hshows
      exact absurd (hshows.negative _ _ rfl hzero).1 (by decide)
  · intro hne
    refine ⟨⟨_, _, rfl⟩, fun s' h => ?_, fun _ _ _ hzero => absurd hzero hne⟩
    split at h
    · obtain ⟨-, rfl⟩ := Prod.mk.inj (Except.ok.inj h)
      exact ⟨hne, rfl⟩
    · exact absurd (Prod.mk.inj (Except.ok.inj h)).1.symm (stop_file_ne (by decide))

end NegativeEntries

/-- Inode 2 is a file. -/
theorem lookup_shows_inode_two :
    letI := sampleHeaders
    let s := OpState.start (fusefsFileAlloc Unit 1) (.blank Unit)
    (2 : UInt64) ≠ 0 ∧ ShowsEntry { ino := 2 } s
      ((Op.fusefsLookup (Service.always (.entry { ino := 2 })).submit [0x61] 1 true true).run
        s) := by
  let := sampleHeaders
  refine ⟨by decide, (lookup_shows_entry_iff _ _ [0x61] 1 { ino := 2 } true
    (.lookup 1 (CStr.strndup [0x61] 1)) rfl ?_).mpr (by decide)⟩
  exact Service.always_gives trivial (by decide)

/-- And so is inode 0. -/
theorem negative_entry_is_a_file :
    letI := sampleHeaders
    let s := OpState.start (fusefsFileAlloc Unit 1) (.blank Unit)
    ¬ ShowsEntry { ino := 0 } s
      ((Op.fusefsLookup (Service.always (.entry { ino := 0 })).submit [0x61] 1 true true).run
        s) := by
  let := sampleHeaders
  intro s hshows
  have hgives : (Service.always (.entry { ino := 0 })).Gives
      (.lookup 1 (CStr.strndup [0x61] 1)) (.entry { ino := 0 }) :=
    Service.always_gives trivial (by decide)
  have henter : fusefsLookupEnter s.file [0x61] 1 true = .submit (.lookup 1 (.strndup [0x61] 1)) :=
    rfl
  obtain ⟨heap, hrun⟩ := fusefsLookup_entry s henter trivial hgives true
  exact (hshows.file _ hrun).1 rfl

/-! ## Error values -/

section ErrorValues

variable [Platform]

/-- An error reaches the client as the device would have been sent it, and no
operation takes one for a result. -/
structure ErrorsKept (op : FuseLowlevelOps) (rs : Replies) : Prop where
  /-- the client of a refused request sees the validated error -/
  same : ∀ input n ok, input.Known → rs.reply input = some (.err n, ok) →
    ∃ answer, rs.submit (fuseSessionNewVersioned op) input = some answer ∧
      answer.error = fuseSendReplyIovNofree (-n)
  /-- a count is the number of bytes stored -/
  read : ∀ {F : Type} (s s' : OpState F) iov off n,
    (Op.fusefsRead (rs.submit (fuseSessionNewVersioned op)) iov off).run s = .ok (n, s') →
    0 ≤ n → ∃ pieces, s'.out.stored = s.out.stored ++ pieces ∧
      ((pieces.map List.length).sum : Int) = n.toInt
  /-- a stop code comes with a file -/
  lookup : ∀ {F : Type} (s s' : OpState F) path len strndupOk allocOk ret,
    (Op.fusefsLookup (rs.submit (fuseSessionNewVersioned op)) path len strndupOk allocOk).run s =
      .ok (ret, s') →
    0 ≤ ret → ∃ target, s'.out.target = some target ∧ s'.out.nout = s.out.nout.map fun _ => len
  /-- success comes with the backend's attributes -/
  getstat : ∀ {F : Type} (s s' : OpState F) ret,
    (Op.fusefsGetstat (rs.submit (fuseSessionNewVersioned op))).run s = .ok (ret, s') →
    0 ≤ ret → ∃ st ok, rs.reply (fusefsGetstatEnter s.file) = some (.attr st, ok) ∧
      s'.out.statx = ⟨getstatMask, st.stMode, st.stSize, st.stIno, st.stNlink, st.stUid, st.stGid⟩
  /-- a size is the size of a record, and 0 the end of the directory -/
  listdir : ∀ {F : Type} (s s' : OpState F) len ret,
    (Op.fusefsListdir (rs.submit (fuseSessionNewVersioned op)) len).run s = .ok (ret, s') →
    0 ≤ ret → (ret = 0 ∧ s'.out = s.out) ∨
      ∃ record, s'.out.dirent = some record ∧ ret = Platform.UKFS_DIRENT_RECLEN
        (record.dName.length - 1) ∧ s'.out.curp = record.dOff.toUInt64

/-- An error number `fuse_send_reply_iov_nofree` lets pass. -/
def ErrorNumber (n : Int32) : Prop := 0 ≤ n ∧ n ≤ 999

omit [Platform] in
theorem errorNumber_iff (n : Int32) : ErrorNumber n ↔ ¬ (-n ≤ -1000 ∨ -n > 0) := by
  have hneg : (-n).toInt = (-n.toInt).bmod (2 ^ 32) := Int32.toInt_neg n
  have hlo := n.le_toInt
  have hhi := n.toInt_lt
  have h1000 : (-1000 : Int32).toInt = -1000 := rfl
  have h0 : (0 : Int32).toInt = 0 := rfl
  have h999 : (999 : Int32).toInt = 999 := rfl
  simp only [ErrorNumber, gt_iff_lt, Int32.le_iff_toInt_le, Int32.lt_iff_toInt_lt, h1000, h0, h999,
    hneg, Int.bmod]
  omega

omit [Platform] in
/-- The validation leaves the negated error numbers alone, and no other value. -/
theorem sendReply_keeps_iff (n : Int32) : fuseSendReplyIovNofree (-n) = -n ↔ ErrorNumber n := by
  rw [errorNumber_iff, fuseSendReplyIovNofree]
  by_cases h : -n ≤ -1000 ∨ -n > 0
  · rw [if_pos h]
    refine iff_of_false (fun heq => ?_) (not_not.mpr h)
    rw [← heq] at h
    exact absurd h (by decide)
  · rw [if_neg h]
    exact iff_of_true rfl h

variable {op : FuseLowlevelOps} {rs : Replies} {input : RequestIn} {answer : Answer}

/-- An answer's error is never positive, unless the backend passed a value to
`fuse_reply_err` that is no error number. -/
theorem answerIn_error_nonpos {r : Reply} {mallocOk : Bool} {req : FuseUkfsRequest}
    (h : ∀ n, r = .err n → ErrorNumber n) :
    (r.answerIn (fuseSessionNewVersioned op) mallocOk req).error ≤ 0 := by
  have hnoMemory : ∀ {acts : List ReplyAct} {req : FuseUkfsRequest}, SeesNoMemory acts req →
      (atUp acts req).error ≤ 0 := fun hacts => by
    rw [hacts.error]
    decide
  cases r with
  | err n =>
      have hn := (errorNumber_iff n).mp (h n rfl)
      exact Int32.not_lt.mp fun hlt => hn (.inr hlt)
  | entry e =>
      rw [Reply.answerIn, Reply.acts, fuseReplyEntry_new]
      cases mallocOk with
      | true => exact Int32.le_refl 0
      | false => exact hnoMemory (replyObject_fail ..)
  | attr st =>
      cases mallocOk with
      | true => exact Int32.le_refl 0
      | false => exact hnoMemory (replyObject_fail ..)
  | open_ f =>
      cases mallocOk with
      | true => exact Int32.le_refl 0
      | false => exact hnoMemory (fuseReplyOpen_fail f)
  | buf bs =>
      cases mallocOk with
      | true => exact Int32.le_refl 0
      | false =>
          by_cases hbs : bs = []
          · subst hbs; exact Int32.le_refl 0
          · exact hnoMemory (fuseReplyBuf_fail hbs)
  | iov segs =>
      cases mallocOk with
      | true => exact Int32.le_refl 0
      | false => exact hnoMemory fuseReplyErr_noMemory
  | data v =>
      rw [Reply.answerIn, Reply.acts]
      rcases fuseReplyData_cases v mallocOk with ⟨-, heq⟩ | ⟨-, -, heq⟩ | ⟨-, -, -, heq⟩ |
        ⟨-, -, hneg, -, heq⟩ | ⟨-, -, -, -, heq⟩ <;> rw [heq]
      · exact Int32.le_refl 0
      · exact hnoMemory fuseReplyErr_noMemory
      · exact Int32.le_refl 0
      · show - -bufvecCount v ≤ 0
        rw [Int32.neg_neg]
        exact Int32.le_of_lt hneg
      · exact Int32.le_refl 0

theorem submit_error_nonpos
    (herrors : ∀ n ok, rs.reply input = some (.err n, ok) → ErrorNumber n)
    (h : rs.submit (fuseSessionNewVersioned op) input = some answer) : answer.error ≤ 0 := by
  obtain ⟨r, mallocOk, hreply, rfl⟩ := Replies.submit_eq h
  exact answerIn_error_nonpos fun n hr => herrors n mallocOk (hr ▸ hreply)

theorem submit_err (n : Int32) {ok : Bool} (h : rs.reply input = some (.err n, ok)) :
    rs.submit (fuseSessionNewVersioned op) input = some ⟨-n, none, 0⟩ := by
  simp only [Replies.submit, h]
  rfl

/-! What a result that is not negative says of the answer, when the answer's
error is not positive. -/

omit [Platform] in
theorem errno_negative : ¬ (0 : Int32) ≤ - EIO ∧ ¬ (0 : Int32) ≤ -ENOMEM := by decide

omit [Platform] in
/-- The result of an operation that returns the error. -/
theorem not_nonneg_of_error {e : Int32} (hle : e ≤ 0) (hne : e ≠ 0) : ¬ 0 ≤ e := fun hge =>
  hne (Int32.le_antisymm hle hge)

omit [Platform] in
theorem readFinish_count {iov : List UInt64} {r : ReadResult}
    (hsize : ∀ bs, answer.replyData = some (.bytes bs) → bs.length < 2 ^ 63)
    (herror : answer.error ≤ 0) (h : fusefsReadFinish iov answer = some r) (hret : 0 ≤ r.ret) :
    ((r.written.map List.length).sum : Int) = r.ret.toInt := by
  rcases readFinish_counts hsize h with ⟨hne, rfl⟩ | ⟨-, hcount⟩
  · refine absurd ?_ (not_nonneg_of_error herror hne)
    rw [Int64.le_iff_toInt_le, Int32.toInt_toInt64] at hret
    exact Int32.le_iff_toInt_le.mpr hret
  · exact hcount.symm

omit [Platform] in
theorem getstatFinish_success {ret : Int32} {statx : Option UkStatx} (herror : answer.error ≤ 0)
    (h : fusefsGetstatFinish answer = some (ret, statx)) (hret : 0 ≤ ret) :
    ∃ st, answer.replyData = some (.attr st) ∧
      statx = some
        ⟨getstatMask, st.stMode, st.stSize, st.stIno, st.stNlink, st.stUid, st.stGid⟩ := by
  rcases getstatFinish_cases h with ⟨hne, rfl, -⟩ | ⟨-, -, rfl, -⟩ | ⟨st, -, hst, -, hstatx⟩
  · exact absurd hret (not_nonneg_of_error herror hne)
  · exact absurd hret errno_negative.1
  · exact ⟨st, hst, hstatx⟩

theorem lookupFinish_success {F : Type} {len : Nat} {allocOk : Bool} {r : LookupResult F}
    (herror : answer.error ≤ 0) (h : fusefsLookupFinish len answer allocOk = some r)
    (hret : 0 ≤ r.ret) : ∃ target, r.target = some target ∧ r.nout = some len := by
  rcases lookupFinish_cases h with ⟨hne, rfl⟩ | ⟨-, -, rfl⟩ | ⟨e, -, -, ⟨-, rfl⟩ | ⟨-, rfl⟩⟩
  · exact absurd hret (not_nonneg_of_error herror hne)
  · exact absurd hret errno_negative.1
  · exact absurd hret errno_negative.2
  · exact ⟨_, rfl, rfl⟩

theorem lookupEnter_success {F : Type} {ff : FusefsFile F} {path : List UInt8} {len : Nat}
    {strndupOk : Bool} {r : LookupResult F}
    (h : fusefsLookupEnter ff path len strndupOk = .ret r) (hret : 0 ≤ r.ret) :
    ∃ target, r.target = some target ∧ r.nout = some len := by
  rcases lookupEnter_ret h with rfl | ⟨target, rfl⟩ | ⟨-, rfl⟩
  · exact ⟨_, rfl, rfl⟩
  · exact ⟨_, rfl, rfl⟩
  · exact absurd hret errno_negative.2

theorem listdirFinish_success {curp : UInt64} {len : Nat} {r : ListdirResult}
    (herror : answer.error ≤ 0) (h : fusefsListdirFinish curp len answer = some r)
    (hret : 0 ≤ r.ret) : (r.ret = 0 ∧ r.curp = curp ∧ r.out = none) ∨
      ∃ record, r.out = some record ∧ r.ret = Platform.UKFS_DIRENT_RECLEN
        (record.dName.length - 1) ∧ r.curp = record.dOff.toUInt64 := by
  rcases listdirFinish_cases h with ⟨hne, rfl⟩ | ⟨-, -, rfl⟩ |
    ⟨reply, namelen, -, -, -, hnamelen, ⟨-, rfl⟩ | ⟨fd, -, hfd, rfl⟩⟩
  · refine absurd ?_ (not_nonneg_of_error herror hne)
    exact Int32.le_iff_toInt_le.mpr hret
  · exact .inl ⟨rfl, rfl, rfl⟩
  · exact absurd (show 0 ≤ (-EINVAL).toInt from hret) (by decide)
  · obtain ⟨-, -, hname⟩ := first_eq_some hnamelen hfd
    refine .inr ⟨_, rfl, ?_, (UInt64.toUInt64_toInt64 fd.off).symm⟩
    simp [hname]

section Operations

variable {F : Type} {s s' : OpState F}
  (hnonpos : ∀ input answer, input.Known →
    rs.submit (fuseSessionNewVersioned op) input = some answer → answer.error ≤ 0)

include hnonpos

theorem fusefsReadOpened_count {iov : List UInt64} {off : UInt64} {n : Int64}
    (h : (Op.fusefsReadOpened (rs.submit (fuseSessionNewVersioned op)) iov off).run s =
      .ok (n, s')) (hn : 0 ≤ n) :
    ∃ pieces, s'.out.stored = s.out.stored ++ pieces ∧
      ((pieces.map List.length).sum : Int) = n.toInt := by
  rcases Op.fusefsReadOpened_ok h with ⟨rfl, rfl⟩ | ⟨input, answer, r, henter, hsub, hr, rfl, rfl⟩
  · exact ⟨[], by simp, rfl⟩
  · have hknown : input.Known := by
      rw [(readEnter_submit henter).2]
      trivial
    exact ⟨r.written, rfl, readFinish_count (fun bs => Replies.submit_bytes hsub)
      (hnonpos input answer hknown hsub) hr hn⟩

theorem fusefsDoOpen_error {err : Int32}
    (h : (Op.fusefsDoOpen (rs.submit (fuseSessionNewVersioned op))).run s = .ok (err, s')) :
    err ≤ 0 ∧ s'.out = s.out := by
  obtain ⟨answer, fh, hsub, hr, rfl⟩ := Op.fusefsDoOpen_ok h
  have hknown : (fusefsDoOpenEnter s.file).Known := trivial
  refine ⟨?_, rfl⟩
  rcases doOpenFinish_cases hr with ⟨-, rfl, -⟩ | ⟨-, -, rfl, -⟩ | ⟨out, -, -, rfl, -⟩
  · exact hnonpos _ answer hknown hsub
  · decide
  · exact Int32.le_refl 0

theorem fusefsRead_count {iov : List UInt64} {off : UInt64} {n : Int64}
    (h : (Op.fusefsRead (rs.submit (fuseSessionNewVersioned op)) iov off).run s = .ok (n, s'))
    (hn : 0 ≤ n) :
    ∃ pieces, s'.out.stored = s.out.stored ++ pieces ∧
      ((pieces.map List.length).sum : Int) = n.toInt := by
  by_cases hfh : s.file.fh = FH_UNSET
  · cases hopen : (Op.fusefsDoOpen (rs.submit (fuseSessionNewVersioned op))).run s with
    | error e =>
        rw [Op.fusefsRead_stuck hfh hopen] at h
        exact absurd h (by simp)
    | ok r =>
        obtain ⟨err, s₁⟩ := r
        obtain ⟨hle, hout⟩ := fusefsDoOpen_error hnonpos hopen
        rw [Op.fusefsRead_unset hfh hopen] at h
        by_cases herr : err = 0
        · rw [if_pos herr] at h
          rw [← hout]
          exact fusefsReadOpened_count hnonpos h hn
        · -- the error of the OPEN is returned
          rw [if_neg herr] at h
          obtain ⟨rfl, rfl⟩ := Prod.mk.inj (Except.ok.inj h)
          refine absurd ?_ (not_nonneg_of_error hle herr)
          rw [Int64.le_iff_toInt_le, Int32.toInt_toInt64] at hn
          exact Int32.le_iff_toInt_le.mpr hn
  · rw [Op.fusefsRead_opened hfh] at h
    exact fusefsReadOpened_count hnonpos h hn

theorem fusefsLookup_success {path : List UInt8} {len : Nat} {strndupOk allocOk : Bool}
    {ret : Int32} (h : (Op.fusefsLookup (rs.submit (fuseSessionNewVersioned op)) path len strndupOk
      allocOk).run s = .ok (ret, s')) (hret : 0 ≤ ret) :
    ∃ target, s'.out.target = some target ∧ s'.out.nout = s.out.nout.map fun _ => len := by
  rcases Op.fusefsLookup_ok h with ⟨r, henter, heq⟩ |
    ⟨input, answer, r, henter, hsub, hr, rfl, rfl⟩
  · obtain ⟨rfl, rfl⟩ := Prod.mk.inj heq
    obtain ⟨target, htarget, hnout⟩ := lookupEnter_success henter hret
    exact ⟨target, by simp [htarget], by simp [hnout]; rfl⟩
  · have hknown : input.Known := by
      rw [lookupEnter_submit henter]
      trivial
    obtain ⟨target, htarget, hnout⟩ :=
      lookupFinish_success (hnonpos input answer hknown hsub) hr hret
    exact ⟨target, by simp [Op.lookupResult, htarget], by simp [Op.lookupResult, hnout]; rfl⟩

theorem fusefsGetstat_success {ret : Int32}
    (h : (Op.fusefsGetstat (rs.submit (fuseSessionNewVersioned op))).run s = .ok (ret, s'))
    (hret : 0 ≤ ret) :
    ∃ st ok, rs.reply (fusefsGetstatEnter s.file) = some (.attr st, ok) ∧
      s'.out.statx =
        ⟨getstatMask, st.stMode, st.stSize, st.stIno, st.stNlink, st.stUid, st.stGid⟩ := by
  obtain ⟨answer, statx, hsub, hr, rfl⟩ := Op.fusefsGetstat_ok h
  have hknown : (fusefsGetstatEnter s.file).Known := trivial
  obtain ⟨st, hst, rfl⟩ := getstatFinish_success (hnonpos _ answer hknown hsub) hr hret
  obtain ⟨r, ok, hreply, rfl⟩ := Replies.submit_eq hsub
  obtain ⟨rfl, ⟨⟩⟩ := Reply.leaves_of_object hst
  exact ⟨st, true, hreply, rfl⟩

theorem fusefsListdir_success {len : Nat} {ret : Int}
    (h : (Op.fusefsListdir (rs.submit (fuseSessionNewVersioned op)) len).run s = .ok (ret, s'))
    (hret : 0 ≤ ret) : (ret = 0 ∧ s'.out = s.out) ∨
      ∃ record, s'.out.dirent = some record ∧ ret = Platform.UKFS_DIRENT_RECLEN
        (record.dName.length - 1) ∧ s'.out.curp = record.dOff.toUInt64 := by
  obtain ⟨answer, r, hsub, hr, rfl, rfl⟩ := Op.fusefsListdir_ok h
  have hknown : (fusefsListdirEnter s.file s.out.curp).Known := trivial
  rcases listdirFinish_success (hnonpos _ answer hknown hsub) hr hret with
    ⟨hzero, hcurp, hout⟩ | ⟨record, hout, hsize, hcurp⟩
  · exact .inl ⟨hzero, by simp [Op.listdirResult, hcurp, hout]⟩
  · exact .inr ⟨record, by simp [Op.listdirResult, hout], hsize, hcurp⟩

end Operations

/-- Errors are kept exactly when every value passed to `fuse_reply_err` is an
error number. -/
theorem errors_kept_iff (op : FuseLowlevelOps) (rs : Replies) :
    ErrorsKept op rs ↔
      ∀ input n ok, input.Known → rs.reply input = some (.err n, ok) → ErrorNumber n := by
  constructor
  · intro hkept input n ok hknown hreply
    obtain ⟨answer, hanswer, hsame⟩ := hkept.same input n ok hknown hreply
    obtain rfl := Option.some.inj ((submit_err n hreply).symm.trans hanswer)
    exact (sendReply_keeps_iff n).mp hsame.symm
  · intro herrors
    have hnonpos : ∀ input answer, input.Known →
        rs.submit (fuseSessionNewVersioned op) input = some answer → answer.error ≤ 0 :=
      fun input answer hknown => submit_error_nonpos fun n ok => herrors input n ok hknown
    exact {
      same := fun input n ok hknown hreply => ⟨_, submit_err n hreply,
        ((sendReply_keeps_iff n).mpr (herrors input n ok hknown hreply)).symm⟩
      read := fun _ _ _ _ _ h hn => fusefsRead_count hnonpos h hn
      lookup := fun _ _ _ _ _ _ _ h hret => fusefsLookup_success hnonpos h hret
      getstat := fun _ _ _ h hret => fusefsGetstat_success hnonpos h hret
      listdir := fun _ _ _ _ h hret => fusefsListdir_success hnonpos h hret }

end ErrorValues

/-- A backend that refuses a READ with `-EIO` instead of `EIO`: the client
believes it has read five bytes. -/
theorem negated_error_reads_five_bytes :
    letI := sampleHeaders
    let refusing : Replies := ⟨fun _ => some (.err (- EIO), true), by simp⟩
    ¬ ErrorsKept .full refusing := by
  let := sampleHeaders
  intro refusing hkept
  have hrun : (Op.fusefsRead (refusing.submit (fuseSessionNewVersioned .full)) [64] 0).run
      (.start ⟨1, 7, none⟩ (.blank Unit)) = .ok (5, .start ⟨1, 7, none⟩ (.blank Unit)) := rfl
  obtain ⟨pieces, hstored, hsum⟩ := hkept.read _ _ _ _ _ hrun (by decide)
  obtain rfl : pieces = [] := by simpa [OpState.start, Outputs.blank] using hstored
  exact absurd hsum (by decide)

end UkfsFuse
