import UkfsFuse.Logic.Opening
import UkfsFuse.Logic.Operation
import UkfsFuse.Logic.Scatter

/-!
# Failing operations

Whatever is replied to the requests of an operation, and whichever of its own
allocations fail: what it was given is freed once and not read afterwards, and
a negative return value leaves outputs and node as they were, but for the
handle of a successful OPEN, which stays recorded.
-/

namespace UkfsFuse

open UkfsFuse.Core Op

section Definitions

variable {F R : Type}

/-- How an operation ends: with every object freed, none of them twice or read
after that, and `Kept` if it fails. -/
structure EndsTidy (run : Except Stuck (R × OpState F)) (Fails : R → Prop)
    (Kept : Outputs F → FusefsFile F → Prop) : Prop where
  noFault : ∀ fault, run ≠ .error (.heap fault)
  freed : ∀ ret s', run = .ok (ret, s') → s'.heap.Clean
  kept : ∀ ret s', run = .ok (ret, s') → Fails ret → Kept s'.out s'.file

/-- Outputs and node are as before. -/
def Unchanged (out : Outputs F) (file : FusefsFile F) (out' : Outputs F) (file' : FusefsFile F) :
    Prop :=
  out' = out ∧ file' = file

/-- The OPEN that a read of `file` sends first, as the file has no handle, is
answered by `fuse_reply_open`, which has its memory. -/
def OpensWith (rs : Replies) (file : FusefsFile F) (f : FuseFileInfo) : Prop :=
  file.fh = FH_UNSET ∧ rs.reply (fusefsDoOpenEnter file) = some (.open_ f, true)

/-- What a read that fails leaves: the outputs as before, and in the node the
handle of its OPEN if that has succeeded, and nothing new if not. -/
structure ReadKept (rs : Replies) (out : Outputs F) (file : FusefsFile F) (out' : Outputs F)
    (file' : FusefsFile F) : Prop where
  outputs : out' = out
  recorded : ∀ f, OpensWith rs file f → file' = { file with fh := f.fh }
  unchanged : (∀ f, ¬ OpensWith rs file f) → file' = file

end Definitions

/-! ## What a negative return value says -/

section Negative

variable {F : Type} {answer : Answer}

theorem getstatFinish_negative {ret : Int32} {statx : Option UkStatx}
    (h : fusefsGetstatFinish answer = some (ret, statx)) (hneg : ret < 0) : statx = none := by
  rcases getstatFinish_cases h with ⟨-, -, rfl⟩ | ⟨-, -, -, rfl⟩ | ⟨st, -, -, rfl, -⟩
  · rfl
  · rfl
  · exact absurd hneg (by decide)

/-- A handle is stored exactly when `fusefs_do_open` returns 0. -/
theorem doOpenFinish_failed {ret : Int32} {fh : Option UInt64}
    (h : fusefsDoOpenFinish answer = some (ret, fh)) : fh = none ↔ ret ≠ 0 := by
  rcases doOpenFinish_cases h with ⟨hne, rfl, rfl⟩ | ⟨-, -, rfl, rfl⟩ | ⟨out, -, -, rfl, rfl⟩
  · exact iff_of_true rfl hne
  · exact iff_of_true rfl (by decide)
  · exact iff_of_false (by simp) (by simp)

/-- A reply of less than 2^63 bytes gives no negative count. -/
theorem readFinish_negative {iov : List UInt64} {r : ReadResult}
    (hsize : ∀ bs, answer.replyData = some (.bytes bs) → bs.length < 2 ^ 63)
    (h : fusefsReadFinish iov answer = some r) (hneg : r.ret < 0) : r.written = [] := by
  rcases readFinish_counts hsize h with ⟨-, rfl⟩ | ⟨-, hret⟩
  · rfl
  · have hzero : (0 : Int64).toInt = 0 := rfl
    rw [Int64.lt_iff_toInt_lt, hret, hzero] at hneg
    omega

variable [Platform]

theorem listdirFinish_negative {curp : UInt64} {len : Nat} {r : ListdirResult}
    (h : fusefsListdirFinish curp len answer = some r) (hneg : r.ret < 0) :
    r.out = none ∧ r.curp = curp := by
  rcases listdirFinish_cases h with ⟨-, rfl⟩ | ⟨-, -, rfl⟩ |
    ⟨reply, namelen, -, -, -, -, ⟨-, rfl⟩ | ⟨fd, -, -, rfl⟩⟩
  · exact ⟨rfl, rfl⟩
  · exact ⟨rfl, rfl⟩
  · exact ⟨rfl, rfl⟩
  · dsimp only at hneg
    omega

theorem stop_not_negative : ¬ Platform.UKFS_STOP_FILE < 0 ∧ ¬ Platform.UKFS_STOP_MNT < 0 :=
  ⟨Int32.not_lt.mpr Platform.stop_nonneg.1, Int32.not_lt.mpr Platform.stop_nonneg.2⟩

theorem lookupFinish_negative {len : Nat} {allocOk : Bool} {r : LookupResult F}
    (h : fusefsLookupFinish len answer allocOk = some r) (hneg : r.ret < 0) : r = .fail r.ret := by
  rcases lookupFinish_cases h with ⟨-, rfl⟩ | ⟨-, -, rfl⟩ | ⟨e, -, -, ⟨-, rfl⟩ | ⟨-, rfl⟩⟩
  · rfl
  · rfl
  · rfl
  · exact absurd hneg stop_not_negative.1

theorem lookupEnter_negative {ff : FusefsFile F} {path : List UInt8} {len : Nat}
    {strndupOk : Bool} {r : LookupResult F}
    (h : fusefsLookupEnter ff path len strndupOk = .ret r) (hneg : r.ret < 0) :
    r = .fail r.ret := by
  rcases lookupEnter_ret h with rfl | ⟨target, rfl⟩ | ⟨-, rfl⟩
  · exact absurd hneg stop_not_negative.1
  · exact absurd hneg stop_not_negative.2
  · rfl

end Negative

/-! ## The ends of an operation -/

section Ends

variable {F R : Type} {Fails : R → Prop} {Kept : Outputs F → FusefsFile F → Prop}
  {s : OpState F} {answer : Answer}

theorem EndsTidy.waits : EndsTidy (.error .waits : Except Stuck (R × OpState F)) Fails Kept :=
  ⟨by simp, by simp, by simp⟩

theorem EndsTidy.ok {ret : R} (hclean : s.heap.Clean) (hkept : Fails ret → Kept s.out s.file) :
    EndsTidy (.ok (ret, s)) Fails Kept := by
  refine ⟨by simp, fun ret' s' h => ?_, fun ret' s' h hfails => ?_⟩
  · obtain ⟨rfl, rfl⟩ := Prod.mk.inj (Except.ok.inj h)
    exact hclean
  · obtain ⟨rfl, rfl⟩ := Prod.mk.inj (Except.ok.inj h)
    exact hkept hfails

theorem EndsTidy.finished {α : Type} {result : Option α} {store : α → R × OpState F}
    (hclean : s.heap.Clean)
    (hkept : ∀ r, result = some r → Fails (store r).1 → Kept (store r).2.out (store r).2.file) :
    EndsTidy (finished answer s (result.map store)) Fails Kept := by
  refine ⟨finished_noFault, fun ret s' h => ?_, fun ret s' h hfails => ?_⟩
  · obtain ⟨r, -, -, rfl⟩ := finished_ok h
    exact answer.retireIn_clean hclean
  · obtain ⟨r, hr, rfl, rfl⟩ := finished_ok h
    exact hkept r hr hfails

end Ends

section Operations

variable {F : Type} [Platform] {op : FuseLowlevelOps} {rs : Replies} {s : OpState F}

theorem fusefsGetstat_tidy (hclean : s.heap.Clean) :
    EndsTidy ((fusefsGetstat (rs.submit (fuseSessionNewVersioned op))).run s) (· < 0)
      (Unchanged s.out s.file) := by
  cases hsub : rs.submit (fuseSessionNewVersioned op) (fusefsGetstatEnter s.file) with
  | none =>
      rw [fusefsGetstat_waits hsub]
      exact .waits
  | some answer =>
      rw [fusefsGetstat_run hsub (Replies.submit_sound hsub)]
      refine .finished hclean fun r hr hneg => ?_
      have hnone := getstatFinish_negative hr hneg
      exact ⟨by simp [hnone], rfl⟩

theorem fusefsLookup_tidy (hclean : s.heap.Clean) (path : List UInt8) (len : Nat)
    (strndupOk allocOk : Bool) :
    EndsTidy ((Op.fusefsLookup (rs.submit (fuseSessionNewVersioned op)) path len strndupOk
      allocOk).run s) (· < 0) (Unchanged s.out s.file) := by
  cases henter : fusefsLookupEnter s.file path len strndupOk with
  | ret r =>
      rw [fusefsLookup_ret henter]
      refine .ok hclean fun hneg => ?_
      have hsame : lookupResult s (.fail r.ret) = (r.ret, s) := lookupResult_fail _
      rw [← lookupEnter_negative henter hneg] at hsame
      exact ⟨congrArg (·.2.out) hsame, rfl⟩
  | submit input =>
      cases hsub : rs.submit (fuseSessionNewVersioned op) input with
      | none =>
          rw [fusefsLookup_waits henter hsub]
          exact .waits
      | some answer =>
          rw [fusefsLookup_run henter hsub (Replies.submit_sound hsub)]
          refine .finished hclean.retire fun r hr hneg => ?_
          have hsame : lookupResult s (.fail r.ret) = (r.ret, s) := lookupResult_fail _
          rw [← lookupFinish_negative hr hneg] at hsame
          exact ⟨congrArg (·.2.out) hsame, rfl⟩

theorem fusefsListdir_tidy (hclean : s.heap.Clean) (len : Nat) :
    EndsTidy ((Op.fusefsListdir (rs.submit (fuseSessionNewVersioned op)) len).run s) (· < 0)
      (Unchanged s.out s.file) := by
  cases hsub : rs.submit (fuseSessionNewVersioned op)
      (fusefsListdirEnter s.file s.out.curp) with
  | none =>
      rw [fusefsListdir_waits hsub]
      exact .waits
  | some answer =>
      rw [fusefsListdir_run hsub (Replies.submit_sound hsub)]
      refine .finished hclean fun r hr hneg => ?_
      obtain ⟨hout, hcurp⟩ := listdirFinish_negative hr hneg
      exact ⟨by simp [listdirResult, hout, hcurp], rfl⟩

variable (op rs) in
theorem fusefsReadOpened_tidy (hclean : s.heap.Clean) (iov : List UInt64) (off : UInt64) :
    EndsTidy ((fusefsReadOpened (rs.submit (fuseSessionNewVersioned op)) iov off).run s) (· < 0)
      (Unchanged s.out s.file) := by
  cases henter : fusefsReadEnter s.file iov off with
  | ret n =>
      rw [fusefsReadOpened_ret henter]
      exact .ok hclean fun _ => ⟨rfl, rfl⟩
  | submit input =>
      cases hsub : rs.submit (fuseSessionNewVersioned op) input with
      | none =>
          rw [fusefsReadOpened_waits henter hsub]
          exact .waits
      | some answer =>
          rw [fusefsReadOpened_run henter hsub (Replies.submit_sound hsub)]
          refine .finished hclean fun r hr hneg => ?_
          have hnone := readFinish_negative (fun bs => Replies.submit_bytes hsub) hr hneg
          exact ⟨by simp [readResult, hnone], rfl⟩

theorem fusefsDoOpen_noFault (fault : Fault) :
    (fusefsDoOpen (rs.submit (fuseSessionNewVersioned op))).run s ≠ .error (.heap fault) := by
  cases hsub : rs.submit (fuseSessionNewVersioned op) (fusefsDoOpenEnter s.file) with
  | none =>
      rw [fusefsDoOpen_waits hsub]
      simp
  | some answer =>
      rw [fusefsDoOpen_run hsub (Replies.submit_sound hsub)]
      exact finished_noFault fault

/-- `fusefs_do_open` succeeds exactly when the OPEN is answered with a handle,
which it then stores; it stores nothing else. -/
theorem fusefsDoOpen_leaves (hclean : s.heap.Clean) {err : Int32} {s' : OpState F}
    (h : (fusefsDoOpen (rs.submit (fuseSessionNewVersioned op))).run s = .ok (err, s')) :
    s'.heap.Clean ∧ s'.out = s.out ∧
      ((∃ f, rs.reply (fusefsDoOpenEnter s.file) = some (.open_ f, true) ∧
          err = 0 ∧ s'.file = { s.file with fh := f.fh }) ∨
        (∀ f, rs.reply (fusefsDoOpenEnter s.file) ≠ some (.open_ f, true)) ∧
          err ≠ 0 ∧ s'.file = s.file) := by
  obtain ⟨answer, fh, hsub, hr, rfl⟩ := fusefsDoOpen_ok h
  refine ⟨answer.retireIn_clean hclean, rfl, ?_⟩
  obtain ⟨r, mallocOk, hreply, rfl⟩ := Replies.submit_eq hsub
  cases fh with
  | none =>
      refine .inr ⟨fun f hf => ?_, (doOpenFinish_failed hr).mp rfl, rfl⟩
      -- a handle in the reply would have been stored
      rw [hreply] at hf
      obtain ⟨rfl, rfl⟩ := Prod.mk.inj (Option.some.inj hf)
      have hstored := hr.symm.trans (doOpenFinish_answerIn.mpr ⟨rfl, rfl, f, rfl, rfl⟩)
      cases hstored
  | some fh =>
      obtain ⟨rfl, rfl, f, rfl, rfl⟩ := doOpenFinish_answerIn.mp hr
      exact .inl ⟨f, hreply, rfl, rfl⟩

theorem fusefsRead_tidy (hclean : s.heap.Clean) (iov : List UInt64) (off : UInt64) :
    EndsTidy ((fusefsRead (rs.submit (fuseSessionNewVersioned op)) iov off).run s) (· < 0)
      (ReadKept rs s.out s.file) := by
  by_cases hfh : s.file.fh = FH_UNSET
  · cases hopen : (fusefsDoOpen (rs.submit (fuseSessionNewVersioned op))).run s with
    | error e =>
        rw [fusefsRead_stuck hfh hopen]
        refine ⟨fun fault h => ?_, by simp, by simp⟩
        rw [Except.error.inj h] at hopen
        exact fusefsDoOpen_noFault fault hopen
    | ok r =>
        obtain ⟨err, s'⟩ := r
        rw [fusefsRead_unset hfh hopen]
        obtain ⟨hclean', hout, ⟨f, hreply, rfl, hfile⟩ | ⟨hnone, herr, hfile⟩⟩ :=
          fusefsDoOpen_leaves hclean hopen
        · -- the handle stays, whatever becomes of the READ
          rw [if_pos rfl]
          have htidy := fusefsReadOpened_tidy op rs hclean' iov off
          refine ⟨htidy.noFault, htidy.freed, fun ret s'' h hneg => ?_⟩
          obtain ⟨hout', hfile'⟩ := htidy.kept ret s'' h hneg
          refine ⟨hout'.trans hout, fun f' hopens => ?_, fun hno => absurd ⟨hfh, hreply⟩ (hno f)⟩
          obtain rfl : f = f' := by
            have hsame := hreply.symm.trans hopens.2
            cases hsame
            rfl
          exact hfile'.trans hfile
        · rw [if_neg herr]
          exact .ok hclean' fun _ =>
            ⟨hout, fun f hopens => absurd hopens.2 (hnone f), fun _ => hfile⟩
  · rw [fusefsRead_opened hfh]
    have htidy := fusefsReadOpened_tidy op rs hclean iov off
    refine ⟨htidy.noFault, htidy.freed, fun ret s' h hneg => ?_⟩
    obtain ⟨hout, hfile⟩ := htidy.kept ret s' h hneg
    exact ⟨hout, fun f hopens => absurd hopens.1 hfh, fun _ => hfile⟩

end Operations

/-- Operations that fail change nothing, and every operation frees what it
was given. -/
theorem failed_operations_tidy [Platform] {F : Type} (op : FuseLowlevelOps) (rs : Replies)
    (file : FusefsFile F) (out : Outputs F) :
    (∀ iov off, EndsTidy
      ((Op.fusefsRead (rs.submit (fuseSessionNewVersioned op)) iov off).run (.start file out))
      (· < 0) (ReadKept rs out file)) ∧
    EndsTidy ((Op.fusefsGetstat (rs.submit (fuseSessionNewVersioned op))).run (.start file out))
      (· < 0) (Unchanged out file) ∧
    (∀ path len strndupOk allocOk, EndsTidy
      ((Op.fusefsLookup (rs.submit (fuseSessionNewVersioned op)) path len strndupOk
        allocOk).run (.start file out)) (· < 0) (Unchanged out file)) ∧
    ∀ len, EndsTidy
      ((Op.fusefsListdir (rs.submit (fuseSessionNewVersioned op)) len).run (.start file out))
      (· < 0) (Unchanged out file) :=
  ⟨fusefsRead_tidy Heap.clean_nil, fusefsGetstat_tidy Heap.clean_nil,
    fusefsLookup_tidy Heap.clean_nil, fusefsListdir_tidy Heap.clean_nil⟩

end UkfsFuse
