import UkfsFuse.Logic.Answers
import UkfsFuse.Source.Operation

/-!
# What an operation does with its answer

Each operation, run on the answer to its request, is the driver's `Finish`
function on that answer, with the outputs stored and the reply object freed.
The rules hold for every answer a reply function can give: one with an error
carries no object, and `reply_len` is the size of a byte object.
-/

namespace UkfsFuse

open UkfsFuse.Core

/-- An operation called on `file`, with nothing on its heap. -/
def OpState.start {F : Type} (file : FusefsFile F) (out : Outputs F) : OpState F := ⟨file, out, []⟩

/-- Outputs nothing has been stored in. -/
def Outputs.blank (F : Type) : Outputs F where
  stored := []
  statx := ⟨[], 0, 0, 0, 0, 0, 0⟩
  target := none
  nout := some 0
  dirent := none
  curp := 0

/-- What every reply function sees to. -/
structure Answer.Sound (answer : Answer) : Prop where
  error : answer.error ≠ 0 → answer.replyData = none
  size : ∀ bs, answer.replyData = some (.bytes bs) → answer.replyLen = bs.length

/-- The reply object was allocated and freed. -/
def Answer.retireIn (answer : Answer) (heap : Heap HeapObject) : Heap HeapObject :=
  match answer.replyData with
  | none => heap
  | some data => heap.retire (.reply data)

theorem Answer.retireIn_clean {heap : Heap HeapObject} (answer : Answer) (h : heap.Clean) :
    (answer.retireIn heap).Clean := by
  unfold Answer.retireIn
  split
  · exact h
  · exact h.retire

theorem Answer.Sound.of_none {answer : Answer} (h : answer.replyData = none) : answer.Sound :=
  ⟨fun _ => h, fun _ hbytes => absurd (h.symm.trans hbytes) (by simp)⟩

/-- How the requests of an operation are replied to: the reply call and the
outcome of its `malloc`, or `none` for a request nobody replies to. -/
structure Replies where
  reply : RequestIn → Option (Reply × Bool)
  /-- no object is larger than `PTRDIFF_MAX` -/
  sized : ∀ input bs, reply input = some (.buf bs, true) → bs.length < 2 ^ 63

section Replies

variable [Platform] {op : FuseLowlevelOps} {r : Reply} {mallocOk : Bool} {req : FuseUkfsRequest}
  {rs : Replies} {input : RequestIn} {answer : Answer}

/-- The answers of clients whose requests are replied to by `rs`. -/
def Replies.submit (rs : Replies) (se : FuseSession) (input : RequestIn) : Option Answer :=
  match rs.reply input with
  | none => none
  | some (r, mallocOk) =>
      if .up ∈ r.acts se mallocOk then some (r.answerIn se mallocOk (.init 0 input)) else none

theorem Reply.answerIn_sound : (r.answerIn (fuseSessionNewVersioned op) mallocOk req).Sound := by
  cases hdata : (r.answerIn (fuseSessionNewVersioned op) mallocOk req).replyData with
  | none => exact .of_none hdata
  | some data =>
      obtain ⟨rfl, hleaves⟩ := Reply.leaves_of_object hdata
      rw [Reply.answerIn_onRecord hleaves.onRecord]
      cases hleaves with
      | buf bs =>
          refine ⟨fun herror => absurd rfl herror, fun bs' hbs => ?_⟩
          obtain rfl := ReplyData.bytes.inj (Option.some.inj hbs)
          rfl
      | _ =>
          exact ⟨fun herror => absurd rfl herror, fun _ hbs => absurd hbs (by simp [Reply.payload])⟩

/-- On its record a reply leaves its own values. -/
theorem Reply.sound_onRecord (r : Reply) (h : r.OnRecord true) :
    Answer.Sound ⟨r.error, r.payload, r.size⟩ := by
  have hsound : (r.answerIn (fuseSessionNewVersioned .full) true (.init 0 (.getattr 0))).Sound :=
    Reply.answerIn_sound
  rwa [Reply.answerIn_onRecord h] at hsound

theorem Replies.submit_eq (h : rs.submit (fuseSessionNewVersioned op) input = some answer) :
    ∃ r mallocOk, rs.reply input = some (r, mallocOk) ∧
      answer = r.answerIn (fuseSessionNewVersioned op) mallocOk (.init 0 input) := by
  unfold Replies.submit at h
  split at h
  · exact absurd h (by simp)
  · rename_i r mallocOk hreply
    split at h
    · exact ⟨r, mallocOk, hreply, (Option.some.inj h).symm⟩
    · exact absurd h (by simp)

theorem Replies.submit_sound (h : rs.submit (fuseSessionNewVersioned op) input = some answer) :
    answer.Sound := by
  obtain ⟨r, mallocOk, -, rfl⟩ := Replies.submit_eq h
  exact Reply.answerIn_sound

/-- A byte object is what the backend passed to `fuse_reply_buf`. -/
theorem Replies.submit_bytes {bs : List UInt8}
    (h : rs.submit (fuseSessionNewVersioned op) input = some answer)
    (hbs : answer.replyData = some (.bytes bs)) : bs.length < 2 ^ 63 := by
  obtain ⟨r, mallocOk, hreply, rfl⟩ := Replies.submit_eq h
  obtain ⟨rfl, ⟨⟩⟩ := Reply.leaves_of_object hbs
  exact rs.sized input _ hreply

end Replies

/-! ## A backend that answers in its callback -/

/-- What the requests of an operation meet on their way: the callbacks, the
daemon's buffer as earlier requests left it, the next `unique`, the outcomes of
the allocations made for the request, and the backend. -/
structure Service where
  op : FuseLowlevelOps
  backend : FuseReq → Call → Reply
  buf : RequestIn → Mem
  unique : RequestIn → UInt64
  callocOk : RequestIn → Bool
  mallocOk : RequestIn → Bool

/-- Every callback gives the same reply, and there is memory for everything. -/
def Service.always (r : Reply) : Service where
  op := .full
  backend _ _ := r
  buf _ _ := 0
  unique _ := 1
  callocOk _ := true
  mallocOk _ := true

section Service

variable [Platform] {sv : Service} {input : RequestIn} {r : Reply}

/-- The answers of clients whose requests go that way. -/
def Service.submit (sv : Service) (input : RequestIn) : Option Answer :=
  roundTrip sv.op (sv.buf input) (sv.unique input) (sv.callocOk input) (sv.mallocOk input)
    sv.backend input

/-- The request reaches the backend's callback, which replies with `r`. -/
structure Service.Gives (sv : Service) (input : RequestIn) (r : Reply) : Prop where
  fits : input.Fits
  callocOk : sv.callocOk input = true
  isSet : sv.op.implements input = true
  reply : ∀ call, input.call = some call → sv.backend ⟨sv.unique input, 0, 0, 1⟩ call = r

theorem Service.submit_gives (hknown : input.Known) (h : sv.Gives input r)
    (hraises : r.RaisesDone (sv.mallocOk input)) :
    sv.submit input = some (r.answerIn (fuseSessionNewVersioned sv.op) (sv.mallocOk input)
      (.init (sv.unique input) input)) := by
  have hgiven : replyGiven sv.op (.init (sv.unique input) input) sv.backend = some r := by
    cases hcall : input.call with
    | none => cases input <;> first | exact hknown.elim | simp [RequestIn.call] at hcall
    | some call =>
        simp only [replyGiven, RequestIn.handling, FuseUkfsRequest.init, hcall, h.isSet, if_true,
          h.reply call hcall]
  rw [Service.submit, h.callocOk]
  exact roundTrip_reply hknown h.fits hgiven hraises

omit [Platform] in
theorem Service.always_gives (hknown : input.Known) (hfits : input.Fits) :
    (Service.always r).Gives input r := by
  refine ⟨hfits, rfl, ?_, fun _ _ => rfl⟩
  cases input <;> first | rfl | exact hknown.elim

end Service

namespace Op

variable {F : Type} {submit : RequestIn → Option Answer} {s : OpState F} {answer : Answer}

/-! ## One statement -/

theorem run_bind_ok {α β : Type} {x : Op F α} {f : α → Op F β} {a : α} {t : OpState F}
    (h : x.run s = .ok (a, t)) : (x >>= f).run s = (f a).run t := by
  simp only [StateT.run_bind, h]
  rfl

theorem run_bind_error {α β : Type} {x : Op F α} {f : α → Op F β} {e : Stuck}
    (h : x.run s = .error e) : (x >>= f).run s = .error e := by
  simp only [StateT.run_bind, h]
  rfl

theorem setOut_run (f : Outputs F → Outputs F) :
    (setOut f).run s = .ok ((), { s with out := f s.out }) := rfl

theorem load_run {p : Nat} {obj : HeapObject} (h : s.heap.load p = .ok obj) :
    (load p).run s = .ok (obj, s) := by
  simp [load, h]
  rfl

theorem free_run {p : Nat} {heap : Heap HeapObject} (h : s.heap.free p = .ok heap) :
    (free (some p)).run s = .ok ((), { s with heap := heap }) := by
  simp [free, h]
  rfl

theorem loadBytes_run {p : Nat} {bs : List UInt8} (h : s.heap.load p = .ok (.reply (.bytes bs))) :
    (loadBytes p).run s = .ok (bs, s) := by
  simp [loadBytes, load_run h]
  rfl

theorem loadSlice_run {p off n : Nat} {bs : List UInt8}
    (h : s.heap.load p = .ok (.reply (.bytes bs))) (hn : off + n ≤ bs.length) :
    (loadSlice p off n).run s = .ok ((bs.drop off).take n, s) := by
  rw [loadSlice, run_bind_ok (loadBytes_run h), if_pos hn]
  rfl

/-- `fd->namelen` of a reply that holds a record's header. -/
theorem loadNamelen_run {p : Nat} {bs : List UInt8} {namelen : UInt32}
    (h : s.heap.load p = .ok (.reply (.bytes bs)))
    (hnamelen : FuseDirent.firstNamelen bs = some namelen) :
    (loadNamelen p).run s = .ok (namelen, s) := by
  rw [loadNamelen, run_bind_ok (loadBytes_run h)]
  simp only [hnamelen]
  rfl

theorem loadNamelen_stuck {p : Nat} {bs : List UInt8}
    (h : s.heap.load p = .ok (.reply (.bytes bs))) (hnone : FuseDirent.firstNamelen bs = none) :
    (loadNamelen p).run s = .error .badLoad := by
  rw [loadNamelen, run_bind_ok (loadBytes_run h)]
  simp only [hnone]
  rfl

theorem loadDirent_run {p : Nat} {bs : List UInt8} {fd : FuseDirent}
    (h : s.heap.load p = .ok (.reply (.bytes bs))) (hfd : FuseDirent.first bs = some fd) :
    (loadDirent p).run s = .ok (fd, s) := by
  rw [loadDirent, run_bind_ok (loadBytes_run h)]
  simp only [hfd]
  rfl

theorem loadDirent_stuck {p : Nat} {bs : List UInt8}
    (h : s.heap.load p = .ok (.reply (.bytes bs))) (hnone : FuseDirent.first bs = none) :
    (loadDirent p).run s = .error .badLoad := by
  rw [loadDirent, run_bind_ok (loadBytes_run h)]
  simp only [hnone]
  rfl

theorem request_waits {input : RequestIn} (h : submit input = none) :
    (request (F := F) submit input).run s = .error .waits := by
  simp only [request, h]
  rfl

theorem request_run {input : RequestIn} (h : submit input = some answer) :
    (request (F := F) submit input).run s = .ok (⟨answer.error,
        answer.replyData.map fun _ => s.heap.next, answer.replyLen⟩,
      { s with heap := answer.replyData.elim s.heap fun data => s.heap.alloc (.reply data) }) := by
  cases hdata : answer.replyData <;> simp [request, h, hdata, alloc] <;> rfl

/-! ## The operations -/

/-- The result of an operation whose answer is `answer`, from what its
`Finish` function says and what that stores. -/
def finished {R : Type} (answer : Answer) (s : OpState F) (result : Option (R × OpState F)) :
    Except Stuck (R × OpState F) :=
  match result with
  | none => .error .badLoad
  | some (ret, s') => .ok (ret, { s' with heap := answer.retireIn s.heap })

theorem finished_noFault {R : Type} {result : Option (R × OpState F)} (fault : Fault) :
    finished answer s result ≠ .error (.heap fault) := by
  cases result <;> simp [finished]

theorem finished_ok {α R : Type} {result : Option α} {store : α → R × OpState F} {ret : R}
    {s' : OpState F} (h : finished answer s (result.map store) = .ok (ret, s')) :
    ∃ r, result = some r ∧ ret = (store r).1 ∧
      s' = { (store r).2 with heap := answer.retireIn s.heap } := by
  cases result with
  | none => exact absurd h (by simp [finished])
  | some r =>
      obtain ⟨rfl, rfl⟩ := Prod.mk.inj (Except.ok.inj h)
      exact ⟨r, rfl, rfl, rfl⟩

theorem fusefsDoOpen_waits (h : submit (fusefsDoOpenEnter s.file) = none) :
    (fusefsDoOpen submit).run s = .error .waits := by
  rw [fusefsDoOpen, run_bind_ok (a := s) (t := s) rfl, run_bind_error (request_waits h)]

theorem fusefsDoOpen_run (h : submit (fusefsDoOpenEnter s.file) = some answer)
    (hsound : answer.Sound) :
    (fusefsDoOpen submit).run s = finished answer s ((fusefsDoOpenFinish answer).map fun r =>
      (r.1, { s with file := { s.file with fh := r.2.getD s.file.fh } })) := by
  rw [fusefsDoOpen, run_bind_ok (a := s) (t := s) rfl, run_bind_ok (request_run h)]
  obtain ⟨error, data, len⟩ := answer
  by_cases herror : error = 0
  · subst herror
    cases data with
    | none => rfl
    | some data =>
        have hload : (s.heap.alloc (.reply data)).load s.heap.next = .ok (.reply data) :=
          Heap.load_alloc
        have hfree : (s.heap.alloc (.reply data)).free s.heap.next =
            .ok (s.heap.retire (.reply data)) := Heap.free_alloc
        simp only [Option.map_some, Option.elim_some, ne_eq, not_true, if_false]
        rw [run_bind_ok (load_run hload)]
        cases data with
        | openOut out =>
            simp only
            rw [run_bind_ok rfl, run_bind_ok (free_run hfree)]
            rfl
        | _ => rfl
  · obtain rfl : data = none := hsound.error herror
    simp [herror, fusefsDoOpenFinish, finished, Answer.retireIn]
    rfl

/-- The scatter loop stores what `scatter` says; the object is alive and holds
all that remains. -/
theorem scatterLoop_run {p : Nat} {bs : List UInt8} (iov : List UInt64) :
    ∀ {s : OpState F} {src remaining : Nat} {copied : Int64},
      s.heap.load p = .ok (.reply (.bytes bs)) → src + remaining ≤ bs.length →
      (scatterLoop p iov src remaining copied).run s =
        .ok (copied + .ofNat ((scatter iov ((bs.drop src).take remaining)).map List.length).sum,
          { s with out := { s.out with
            stored := s.out.stored ++ scatter iov ((bs.drop src).take remaining) } }) := by
  induction iov with
  | nil =>
      intro s src remaining copied hload hle
      simp [scatterLoop, scatter]
      rfl
  | cons iovLen iov ih =>
      intro s src remaining copied hload hle
      have hlen : ((bs.drop src).take remaining).length = remaining := by
        rw [List.length_take, List.length_drop]
        omega
      by_cases hzero : remaining = 0
      · subst hzero
        simp [scatterLoop, scatter]
        rfl
      · have hn : (if iovLen.toNat < remaining then iovLen.toNat else remaining) =
            min iovLen.toNat remaining := by
          split_ifs <;> omega
        have hslice : src + min iovLen.toNat remaining ≤ bs.length := by omega
        have hpiece : ((bs.drop src).take remaining).take (min iovLen.toNat remaining) =
            (bs.drop src).take (min iovLen.toNat remaining) := by
          rw [List.take_take]
          congr 1
          omega
        have hrest : ((bs.drop src).take remaining).drop (min iovLen.toNat remaining) =
            (bs.drop (src + min iovLen.toNat remaining)).take
              (remaining - min iovLen.toNat remaining) := by
          rw [List.drop_take, List.drop_drop]
        have hpieceLen : ((bs.drop src).take (min iovLen.toNat remaining)).length =
            min iovLen.toNat remaining := by
          rw [List.length_take, List.length_drop]
          omega
        rw [scatterLoop, if_neg hzero]
        simp only [hn]
        rw [run_bind_ok (loadSlice_run hload hslice), run_bind_ok (setOut_run _),
          ih (by exact hload) (by omega)]
        simp only [scatter, hlen, if_neg hzero, hn, hpiece, hrest, List.map_cons, List.sum_cons,
          hpieceLen, Int64.ofNat_add, Int64.add_assoc, List.append_assoc, List.singleton_append]

/-- What `fusefs_read` leaves. -/
def readResult (s : OpState F) (r : ReadResult) : Int64 × OpState F :=
  (r.ret, { s with out := { s.out with stored := s.out.stored ++ r.written } })

theorem fusefsReadOpened_ret {iov : List UInt64} {off : UInt64} {ret : Int64}
    (henter : fusefsReadEnter s.file iov off = .ret ret) :
    (fusefsReadOpened submit iov off).run s = .ok (ret, s) := by
  rw [fusefsReadOpened, run_bind_ok (a := s) (t := s) rfl]
  simp only [henter]
  rfl

theorem fusefsReadOpened_waits {iov : List UInt64} {off : UInt64} {input : RequestIn}
    (henter : fusefsReadEnter s.file iov off = .submit input) (h : submit input = none) :
    (fusefsReadOpened submit iov off).run s = .error .waits := by
  rw [fusefsReadOpened, run_bind_ok (a := s) (t := s) rfl]
  simp only [henter]
  rw [run_bind_error (request_waits h)]

theorem fusefsReadOpened_run {iov : List UInt64} {off : UInt64} {input : RequestIn}
    (henter : fusefsReadEnter s.file iov off = .submit input) (h : submit input = some answer)
    (hsound : answer.Sound) :
    (fusefsReadOpened submit iov off).run s =
      finished answer s ((fusefsReadFinish iov answer).map (readResult s)) := by
  obtain ⟨error, data, len⟩ := answer
  by_cases herror : error = 0
  · subst herror
    cases data with
    | none =>
        simp [fusefsReadOpened, henter, request, h, fusefsReadFinish, finished, Answer.retireIn,
          readResult]
        rfl
    | some data =>
        cases data with
        | bytes bs =>
            obtain rfl : len = bs.length := hsound.size bs rfl
            have hload : (s.heap.alloc (.reply (.bytes bs))).load s.heap.next =
                .ok (.reply (.bytes bs)) := Heap.load_alloc
            have hfree : (s.heap.alloc (.reply (.bytes bs))).free s.heap.next =
                .ok (s.heap.retire (.reply (.bytes bs))) := Heap.free_alloc
            have hscatter : scatter iov ((bs.drop 0).take bs.length) =
                scatter iov (bs.take bs.length) := rfl
            rw [fusefsReadOpened, run_bind_ok (a := s) (t := s) rfl]
            simp only [henter]
            rw [run_bind_ok (request_run h)]
            simp only [Option.map_some, Option.elim_some, ne_eq, not_true, if_false]
            rw [run_bind_ok (loadBytes_run hload),
              run_bind_ok (scatterLoop_run iov hload (by omega)), run_bind_ok (free_run hfree)]
            simp [fusefsReadFinish, finished, Answer.retireIn, readResult]
            rfl
        | _ =>
            simp [fusefsReadOpened, henter, request, h, fusefsReadFinish, finished, loadBytes,
              load, alloc]
            rfl
  · obtain rfl : data = none := hsound.error herror
    simp [fusefsReadOpened, henter, request, h, herror, fusefsReadFinish, finished,
      Answer.retireIn, readResult]
    rfl

/-- A file with a handle is not opened. -/
theorem fusefsRead_opened {iov : List UInt64} {off : UInt64} (h : s.file.fh ≠ FH_UNSET) :
    (fusefsRead submit iov off).run s = (fusefsReadOpened submit iov off).run s := by
  rw [fusefsRead, run_bind_ok (a := s) (t := s) rfl, if_neg h]

theorem fusefsRead_stuck {iov : List UInt64} {off : UInt64} {e : Stuck}
    (h : s.file.fh = FH_UNSET) (hopen : (fusefsDoOpen submit).run s = .error e) :
    (fusefsRead submit iov off).run s = .error e := by
  rw [fusefsRead, run_bind_ok (a := s) (t := s) rfl, if_pos h, run_bind_error hopen]

theorem fusefsRead_unset {iov : List UInt64} {off : UInt64} {err : Int32} {s' : OpState F}
    (h : s.file.fh = FH_UNSET) (hopen : (fusefsDoOpen submit).run s = .ok (err, s')) :
    (fusefsRead submit iov off).run s =
      if err = 0 then (fusefsReadOpened submit iov off).run s' else .ok (err.toInt64, s') := by
  rw [fusefsRead, run_bind_ok (a := s) (t := s) rfl, if_pos h, run_bind_ok hopen]
  by_cases herr : err = 0
  · simp [herr]
  · simp [herr]
    rfl

theorem fusefsGetstat_waits (h : submit (fusefsGetstatEnter s.file) = none) :
    (fusefsGetstat submit).run s = .error .waits := by
  rw [fusefsGetstat, run_bind_ok (a := s) (t := s) rfl, run_bind_error (request_waits h)]

theorem fusefsGetstat_run (h : submit (fusefsGetstatEnter s.file) = some answer)
    (hsound : answer.Sound) :
    (fusefsGetstat submit).run s = finished answer s ((fusefsGetstatFinish answer).map fun r =>
      (r.1, { s with out := { s.out with statx := r.2.getD s.out.statx } })) := by
  rw [fusefsGetstat, run_bind_ok (a := s) (t := s) rfl, run_bind_ok (request_run h)]
  obtain ⟨error, data, len⟩ := answer
  by_cases herror : error = 0
  · subst herror
    cases data with
    | none => rfl
    | some data =>
        have hload : (s.heap.alloc (.reply data)).load s.heap.next = .ok (.reply data) :=
          Heap.load_alloc
        have hfree : (s.heap.alloc (.reply data)).free s.heap.next =
            .ok (s.heap.retire (.reply data)) := Heap.free_alloc
        simp only [Option.map_some, Option.elim_some, ne_eq, not_true, if_false]
        rw [run_bind_ok (load_run hload)]
        cases data with
        | attr st =>
            rw [run_bind_ok (setOut_run _), run_bind_ok (free_run hfree)]
            rfl
        | _ => rfl
  · obtain rfl : data = none := hsound.error herror
    simp [herror, fusefsGetstatFinish, finished, Answer.retireIn]
    rfl

variable [Platform]

/-- What `fusefs_lookup` leaves. -/
def lookupResult (s : OpState F) (r : LookupResult F) : Int32 × OpState F :=
  (r.ret, { s with out := { s.out with
    target := r.target.or s.out.target
    nout := s.out.nout.map r.nout.getD } })

omit [Platform] in
theorem lookupResult_fail (e : Int32) : lookupResult s (.fail e) = (e, s) := by
  have hnout : s.out.nout.map (Option.getD none) = s.out.nout := by
    cases s.out.nout <;> rfl
  simp [lookupResult, LookupResult.fail, hnout]

/-- A lookup that needs no request. -/
theorem fusefsLookup_ret {path : List UInt8} {len : Nat} {strndupOk allocOk : Bool}
    {r : LookupResult F} (henter : fusefsLookupEnter s.file path len strndupOk = .ret r) :
    (fusefsLookup submit path len strndupOk allocOk).run s = .ok (lookupResult s r) := by
  simp [fusefsLookup, henter, storeLookup, setOut, lookupResult]
  rfl

theorem fusefsLookup_waits {path : List UInt8} {len : Nat} {strndupOk allocOk : Bool}
    {input : RequestIn} (henter : fusefsLookupEnter s.file path len strndupOk = .submit input)
    (h : submit input = none) :
    (fusefsLookup submit path len strndupOk allocOk).run s = .error .waits := by
  rw [fusefsLookup, run_bind_ok (a := s) (t := s) rfl]
  simp only [henter]
  rw [run_bind_ok (t := { s with heap := s.heap.alloc (.name (CStr.strndup path len)) }) rfl,
    run_bind_error (request_waits h)]

theorem fusefsLookup_run {path : List UInt8} {len : Nat} {strndupOk allocOk : Bool}
    {input : RequestIn} (henter : fusefsLookupEnter s.file path len strndupOk = .submit input)
    (h : submit input = some answer) (hsound : answer.Sound) :
    (fusefsLookup submit path len strndupOk allocOk).run s =
      finished answer { s with heap := s.heap.retire (.name (CStr.strndup path len)) }
        ((fusefsLookupFinish len answer allocOk).map (lookupResult s)) := by
  have hfreeName : (s.heap.alloc (.name (CStr.strndup path len))).free s.heap.next =
      .ok (s.heap.retire (.name (CStr.strndup path len))) := Heap.free_alloc
  rw [fusefsLookup, run_bind_ok (a := s) (t := s) rfl]
  simp only [henter]
  rw [run_bind_ok (t := { s with heap := s.heap.alloc (.name (CStr.strndup path len)) }) rfl,
    run_bind_ok (request_run h)]
  obtain ⟨error, data, n⟩ := answer
  by_cases herror : error = 0
  · subst herror
    cases data with
    | none =>
        simp only [Option.map_none, Option.elim_none, ne_eq, not_true, if_false]
        rw [run_bind_ok (free_run hfreeName)]
        simp [fusefsLookupFinish, finished, Answer.retireIn, lookupResult_fail]
        rfl
    | some data =>
        have hfreeName' : ((s.heap.alloc (.name (CStr.strndup path len))).alloc
            (.reply data)).free s.heap.next =
              .ok ((s.heap.retire (.name (CStr.strndup path len))).alloc (.reply data)) :=
          Heap.free_alloc_alloc
        have hload : ((s.heap.retire (.name (CStr.strndup path len))).alloc (.reply data)).load
            (s.heap.alloc (.name (CStr.strndup path len))).next = .ok (.reply data) := by
          rw [Heap.next_alloc, Heap.load_alloc]
        have hfree : ((s.heap.retire (.name (CStr.strndup path len))).alloc (.reply data)).free
            (s.heap.alloc (.name (CStr.strndup path len))).next =
              .ok ((s.heap.retire (.name (CStr.strndup path len))).retire (.reply data)) := by
          rw [Heap.next_alloc, Heap.free_alloc]
        simp only [Option.map_some, Option.elim_some, ne_eq, not_true, if_false]
        rw [run_bind_ok (free_run hfreeName'), run_bind_ok (load_run hload)]
        cases data with
        | entry e =>
            cases allocOk with
            | true =>
                simp only [if_true, storeLookup]
                rw [run_bind_ok (setOut_run _), run_bind_ok (free_run hfree)]
                rfl
            | false =>
                simp only [if_false, Bool.false_eq_true]
                rw [run_bind_ok (free_run hfree)]
                simp [fusefsLookupFinish, finished, Answer.retireIn, lookupResult_fail]
                rfl
        | _ => rfl
  · obtain rfl : data = none := hsound.error herror
    simp only [Option.map_none, Option.elim_none, ne_eq, herror, not_false_eq_true, if_true]
    rw [run_bind_ok (free_run hfreeName)]
    simp [fusefsLookupFinish, finished, Answer.retireIn, lookupResult_fail, herror]
    rfl

/-- What `fusefs_listdir` leaves. -/
def listdirResult (s : OpState F) (r : ListdirResult) : Int × OpState F :=
  (r.ret, { s with out := { s.out with dirent := r.out.or s.out.dirent, curp := r.curp } })

theorem fusefsListdir_waits {len : Nat}
    (h : submit (fusefsListdirEnter s.file s.out.curp) = none) :
    (fusefsListdir submit len).run s = .error .waits := by
  rw [fusefsListdir, run_bind_ok (a := s) (t := s) rfl, run_bind_error (request_waits h)]

theorem fusefsListdir_run {len : Nat}
    (h : submit (fusefsListdirEnter s.file s.out.curp) = some answer) (hsound : answer.Sound) :
    (fusefsListdir submit len).run s = finished answer s
      ((fusefsListdirFinish s.out.curp len answer).map (listdirResult s)) := by
  rw [fusefsListdir, run_bind_ok (a := s) (t := s) rfl, run_bind_ok (request_run h)]
  obtain ⟨error, data, n⟩ := answer
  by_cases herror : error = 0
  · subst herror
    cases data with
    | none => rfl
    | some data =>
        have hload : (s.heap.alloc (.reply data)).load s.heap.next = .ok (.reply data) :=
          Heap.load_alloc
        have hfree : (s.heap.alloc (.reply data)).free s.heap.next =
            .ok (s.heap.retire (.reply data)) := Heap.free_alloc
        simp only [Option.map_some, Option.elim_some, ne_eq, not_true, if_false]
        by_cases hempty : n = 0
        · subst hempty
          rw [if_pos rfl, run_bind_ok (free_run hfree)]
          simp [fusefsListdirFinish, finished, Answer.retireIn, listdirResult]
          rfl
        · rw [if_neg hempty]
          cases data with
          | bytes bs =>
              cases hnamelen : FuseDirent.firstNamelen bs with
              | none =>
                  rw [run_bind_error (loadNamelen_stuck hload hnamelen)]
                  simp [fusefsListdirFinish, finished, hempty, hnamelen]
              | some namelen =>
                  rw [run_bind_ok (loadNamelen_run hload hnamelen)]
                  by_cases hsmall : len < Platform.UKFS_DIRENT_RECLEN namelen.toNat
                  · rw [if_pos hsmall, run_bind_ok (free_run hfree)]
                    simp [fusefsListdirFinish, finished, Answer.retireIn, listdirResult, hempty,
                      hnamelen, hsmall]
                    rfl
                  · rw [if_neg hsmall]
                    cases hfirst : FuseDirent.first bs with
                    | none =>
                        rw [run_bind_error (loadDirent_stuck hload hfirst)]
                        simp [fusefsListdirFinish, finished, hempty, hnamelen, hsmall, hfirst]
                    | some fd =>
                        rw [run_bind_ok (loadDirent_run hload hfirst), run_bind_ok (setOut_run _),
                          run_bind_ok (free_run hfree), run_bind_ok (setOut_run _)]
                        simp [fusefsListdirFinish, finished, Answer.retireIn, listdirResult,
                          hempty, hnamelen, hsmall, hfirst]
                        rfl
          | _ =>
              simp [fusefsListdirFinish, finished, hempty, loadNamelen, loadBytes, load]
              rfl
  · obtain rfl : data = none := hsound.error herror
    simp [herror, fusefsListdirFinish, finished, Answer.retireIn, listdirResult]
    rfl

/-! ## Operations that have returned -/

section Returned

variable {rs : Replies} {op : FuseLowlevelOps} {s' : OpState F}

theorem fusefsDoOpen_ok {err : Int32}
    (h : (fusefsDoOpen (rs.submit (fuseSessionNewVersioned op))).run s = .ok (err, s')) :
    ∃ answer fh, rs.submit (fuseSessionNewVersioned op) (fusefsDoOpenEnter s.file) = some answer ∧
      fusefsDoOpenFinish answer = some (err, fh) ∧
      s' = { s with
        file := { s.file with fh := fh.getD s.file.fh }
        heap := answer.retireIn s.heap } := by
  cases hsub : rs.submit (fuseSessionNewVersioned op) (fusefsDoOpenEnter s.file) with
  | none =>
      rw [fusefsDoOpen_waits hsub] at h
      exact absurd h (by simp)
  | some answer =>
      rw [fusefsDoOpen_run hsub (Replies.submit_sound hsub)] at h
      obtain ⟨⟨err', fh⟩, hr, rfl, rfl⟩ := finished_ok h
      exact ⟨answer, fh, rfl, hr, rfl⟩

/-- `fusefs_read` of an opened file: nothing was wanted, or a READ was
answered. -/
theorem fusefsReadOpened_ok {iov : List UInt64} {off : UInt64} {n : Int64}
    (h : (fusefsReadOpened (rs.submit (fuseSessionNewVersioned op)) iov off).run s =
      .ok (n, s')) :
    (n = 0 ∧ s' = s) ∨
      ∃ input answer r, fusefsReadEnter s.file iov off = .submit input ∧
        rs.submit (fuseSessionNewVersioned op) input = some answer ∧
        fusefsReadFinish iov answer = some r ∧ n = r.ret ∧
        s' = { (readResult s r).2 with heap := answer.retireIn s.heap } := by
  cases henter : fusefsReadEnter s.file iov off with
  | ret m =>
      rw [fusefsReadOpened_ret henter] at h
      obtain ⟨rfl, rfl⟩ := Prod.mk.inj (Except.ok.inj h)
      exact .inl ⟨(readEnter_ret henter).2, rfl⟩
  | submit input =>
      cases hsub : rs.submit (fuseSessionNewVersioned op) input with
      | none =>
          rw [fusefsReadOpened_waits henter hsub] at h
          exact absurd h (by simp)
      | some answer =>
          rw [fusefsReadOpened_run henter hsub (Replies.submit_sound hsub)] at h
          obtain ⟨r, hr, rfl, rfl⟩ := finished_ok h
          exact .inr ⟨input, answer, r, rfl, hsub, hr, rfl, rfl⟩

theorem fusefsGetstat_ok {ret : Int32}
    (h : (fusefsGetstat (rs.submit (fuseSessionNewVersioned op))).run s = .ok (ret, s')) :
    ∃ answer statx, rs.submit (fuseSessionNewVersioned op) (fusefsGetstatEnter s.file) =
        some answer ∧ fusefsGetstatFinish answer = some (ret, statx) ∧
      s' = { s with
        out := { s.out with statx := statx.getD s.out.statx }
        heap := answer.retireIn s.heap } := by
  cases hsub : rs.submit (fuseSessionNewVersioned op) (fusefsGetstatEnter s.file) with
  | none =>
      rw [fusefsGetstat_waits hsub] at h
      exact absurd h (by simp)
  | some answer =>
      rw [fusefsGetstat_run hsub (Replies.submit_sound hsub)] at h
      obtain ⟨⟨ret', statx⟩, hr, rfl, rfl⟩ := finished_ok h
      exact ⟨answer, statx, rfl, hr, rfl⟩

/-- `fusefs_lookup` returned at once, or with an answer to its LOOKUP. -/
theorem fusefsLookup_ok {path : List UInt8} {len : Nat} {strndupOk allocOk : Bool} {ret : Int32}
    (h : (fusefsLookup (rs.submit (fuseSessionNewVersioned op)) path len strndupOk allocOk).run s =
      .ok (ret, s')) :
    (∃ r, fusefsLookupEnter s.file path len strndupOk = .ret r ∧ (ret, s') = lookupResult s r) ∨
      ∃ input answer r, fusefsLookupEnter s.file path len strndupOk = .submit input ∧
        rs.submit (fuseSessionNewVersioned op) input = some answer ∧
        fusefsLookupFinish len answer allocOk = some r ∧ ret = r.ret ∧
        s' = { (lookupResult s r).2 with
          heap := answer.retireIn (s.heap.retire (.name (CStr.strndup path len))) } := by
  cases henter : fusefsLookupEnter s.file path len strndupOk with
  | ret r =>
      rw [fusefsLookup_ret henter] at h
      exact .inl ⟨r, rfl, (Except.ok.inj h).symm⟩
  | submit input =>
      cases hsub : rs.submit (fuseSessionNewVersioned op) input with
      | none =>
          rw [fusefsLookup_waits henter hsub] at h
          exact absurd h (by simp)
      | some answer =>
          rw [fusefsLookup_run henter hsub (Replies.submit_sound hsub)] at h
          obtain ⟨r, hr, rfl, rfl⟩ := finished_ok h
          exact .inr ⟨input, answer, r, rfl, hsub, hr, rfl, rfl⟩

theorem fusefsListdir_ok {len : Nat} {ret : Int}
    (h : (fusefsListdir (rs.submit (fuseSessionNewVersioned op)) len).run s = .ok (ret, s')) :
    ∃ answer r, rs.submit (fuseSessionNewVersioned op) (fusefsListdirEnter s.file s.out.curp) =
        some answer ∧ fusefsListdirFinish s.out.curp len answer = some r ∧ ret = r.ret ∧
      s' = { (listdirResult s r).2 with heap := answer.retireIn s.heap } := by
  cases hsub : rs.submit (fuseSessionNewVersioned op)
      (fusefsListdirEnter s.file s.out.curp) with
  | none =>
      rw [fusefsListdir_waits hsub] at h
      exact absurd h (by simp)
  | some answer =>
      rw [fusefsListdir_run hsub (Replies.submit_sound hsub)] at h
      obtain ⟨r, hr, rfl, rfl⟩ := finished_ok h
      exact ⟨answer, r, rfl, hr, rfl, rfl⟩

end Returned

end Op

end UkfsFuse
