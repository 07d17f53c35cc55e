import UkfsFuse.Logic.Completion

/-!
# Which calls complete a request

`fuse_reply_iov` and `fuse_reply_data` are valid replies to READ and READDIR,
but they were not rewritten for the record: they end at a device that does not
exist. The same device is told when the request handle cannot be allocated.
-/

namespace UkfsFuse

open UkfsFuse.Core

/-- The valid replies `fuse_lowlevel.h` lists for a callback. -/
def Documented : Call → Reply → Bool
  | .lookup .., .entry _ => true
  | .getattr .., .attr _ => true
  | .open_ .., .open_ _ => true
  | .read .., .buf _ => true
  | .read .., .iov _ => true
  | .read .., .data _ => true
  | .readdir .., .buf _ => true
  | .readdir .., .data _ => true
  | _, .err _ => true
  | _, _ => false

/-- A reply call completes its request exactly when its function writes the
record and the allocation it makes for that succeeds. -/
theorem reply_completes_iff [Platform] (op : FuseLowlevelOps) (req : FuseUkfsRequest) (r : Reply)
    (mallocOk : Bool) :
    Completes (r.acts (fuseSessionNewVersioned op) mallocOk) req r ↔ r.OnRecord mallocOk :=
  ⟨onRecord_of_completes, completes_of_onRecord⟩

/-- Two bytes sent with `fuse_reply_iov`, a documented reply to READ, go to
the device; the same with `fuse_reply_data`. -/
theorem read_iov_reply_strands :
    letI := sampleHeaders
    let read := Call.read 2 2 0 {}
    let req := FuseUkfsRequest.init 1 (.read 2 0 0 2)
    let iov := Reply.iov [[104], [105]]
    let data := Reply.data ⟨[[104, 105]], 0, 0⟩
    let se := fuseSessionNewVersioned .full
    (Documented read iov = true ∧ ¬ Completes (iov.acts se true) req iov) ∧
      (Documented read data = true ∧ ¬ Completes (data.acts se true) req data) := by
  let := sampleHeaders
  exact ⟨⟨rfl, fun h => absurd h.once (by decide)⟩, ⟨rfl, fun h => absurd h.once (by decide)⟩⟩

/-- An allocation the request needed failed. -/
def NeededAllocFailed (op : FuseLowlevelOps) (req : FuseUkfsRequest) (callocOk mallocOk : Bool)
    (backend : FuseReq → Call → Reply) : Prop :=
  req.input.Known ∧
    (callocOk = false ∨
      mallocOk = false ∧ ∃ r, replyGiven op req backend = some r ∧ r.NeedsMalloc)

/-- `done` is raised exactly once, and a client whose request lacked memory
sees `-ENOMEM` and no data. -/
def CompletesDespiteFailures [Platform] (op : FuseLowlevelOps) (buf : Mem) (req : FuseUkfsRequest)
    (callocOk mallocOk : Bool) (backend : FuseReq → Call → Reply) : Prop :=
  ∃ acts, serveRequest (fuseSessionNewVersioned op) buf req callocOk mallocOk backend = some acts ∧
    acts.count .up = 1 ∧
    (NeededAllocFailed op req callocOk mallocOk backend → SeesNoMemory acts req)

/-- A popped request is completed, with `-ENOMEM` when it lacked memory,
exactly when its opcode is unknown, or it has a request handle and a reply
function that raises `done`. -/
theorem request_completes_iff [Platform] (op : FuseLowlevelOps) (buf : Mem)
    (req : FuseUkfsRequest) (callocOk mallocOk : Bool) (backend : FuseReq → Call → Reply) :
    CompletesDespiteFailures op buf req callocOk mallocOk backend ↔
      ¬ req.input.Known ∨ (req.input.Fits ∧ callocOk = true ∧
        ∃ r, replyGiven op req backend = some r ∧ r.RaisesDone mallocOk) := by
  by_cases hknown : req.input.Known
  · by_cases hfits : req.input.Fits
    · cases callocOk with
      | false =>
          have hserve : serveRequest (fuseSessionNewVersioned op) buf req false mallocOk backend =
              some [.deviceWrite] := serveRequest_noReq hknown hfits
          constructor
          · rintro ⟨acts, hacts, honce, -⟩
            rw [hserve] at hacts
            obtain rfl := Option.some.inj hacts
            exact absurd honce (by decide)
          · rintro (hunknown | ⟨-, hcalloc, -⟩)
            · exact absurd hknown hunknown
            · exact absurd hcalloc (by simp)
      | true =>
          obtain ⟨r, hr⟩ := handling_reply op backend hknown
          have hserve : serveRequest (fuseSessionNewVersioned op) buf req true mallocOk backend =
              some (r.acts (fuseSessionNewVersioned op) mallocOk) :=
            serveRequest_reply hknown hfits hr
          constructor
          · rintro ⟨acts, hacts, honce, -⟩
            rw [hserve] at hacts
            obtain rfl := Option.some.inj hacts
            exact .inr ⟨hfits, rfl, r, hr, once_iff_raisesDone.mp honce⟩
          · rintro (hunknown | ⟨-, -, r', hr', hraises⟩)
            · exact absurd hknown hunknown
            · obtain rfl : r = r' := Option.some.inj (hr.symm.trans hr')
              refine ⟨_, hserve, once_iff_raisesDone.mpr hraises, ?_⟩
              rintro ⟨-, hcalloc | ⟨rfl, r', hr', hneeds⟩⟩
              · exact absurd hcalloc (by simp)
              · obtain rfl : r = r' := Option.some.inj (hr.symm.trans hr')
                exact noMemory_of_needsMalloc hneeds hraises
    · constructor
      · rintro ⟨acts, hacts, -⟩
        rw [serveRequest_overrun hfits] at hacts
        exact absurd hacts (by simp)
      · rintro (hunknown | ⟨hfits', -⟩)
        · exact absurd hknown hunknown
        · exact absurd hfits' hfits
  · refine iff_of_true ?_ (.inl hknown)
    refine ⟨_, serveRequest_unknown hknown, rfl, ?_⟩
    rintro ⟨h, -⟩
    exact absurd h hknown

/-- A GETATTR whose `calloc` in `fuse_ll_alloc_req` fails is never completed. -/
theorem getattr_without_handle_strands :
    letI := sampleHeaders
    ¬ CompletesDespiteFailures .full (fun _ => 0) (.init 1 (.getattr 1)) false true
      (fun _ _ => .attr {}) := by
  rintro ⟨acts, hacts, honce, -⟩
  have hserve := @serveRequest_noReq sampleHeaders .full (fun _ => 0) (.init 1 (.getattr 1)) true
    (fun _ _ => .attr {}) trivial trivial
  rw [hserve] at hacts
  obtain rfl := Option.some.inj hacts
  exact absurd honce (by decide)

end UkfsFuse
