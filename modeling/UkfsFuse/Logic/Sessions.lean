import UkfsFuse.Source.Sessions
import UkfsFuse.Logic.Codec

/-!
# What a step does to the sessions

A step creates a session or replaces one by what a call made of it
(`Sessions.Step`), so a property of single sessions is kept if the calls keep
it (`Sessions.Step.forall_sessions`). The daemon sends no INIT and no DESTROY,
and INIT would be refused: to serve a request is to invoke its callback or
nothing (`serve_cases`).
-/

namespace UkfsFuse

open UkfsFuse.Core

namespace SessionObject

variable {se se' : SessionObject} {buf : Mem} {req : FuseUkfsRequest} {callocOk isSet : Bool}
  {outcome : InitOutcome} {what : Invoked}

@[simp] theorem invoke_main : (se.invoke isSet what).main = se.main := by
  cases isSet <;> rfl

@[simp] theorem invoke_op : (se.invoke isSet what).op = se.op := by
  cases isSet <;> rfl

@[simp] theorem invoke_gotInit : (se.invoke isSet what).gotInit = se.gotInit := by
  cases isSet <;> rfl

@[simp] theorem invoke_gotDestroy : (se.invoke isSet what).gotDestroy = se.gotDestroy := by
  cases isSet <;> rfl

@[simp] theorem invoke_mountpoint : (se.invoke isSet what).mountpoint = se.mountpoint := by
  cases isSet <;> rfl

@[simp] theorem invoke_fd : (se.invoke isSet what).fd = se.fd := by
  cases isSet <;> rfl

@[simp] theorem invoke_closed : (se.invoke isSet what).closed = se.closed := by
  cases isSet <;> rfl

theorem fuseSessionDestroy_fd : se.fuseSessionDestroy.fd = se.fd := by
  unfold fuseSessionDestroy
  split <;> simp

theorem fuseSessionDestroy_mountpoint : se.fuseSessionDestroy.mountpoint = se.mountpoint := by
  unfold fuseSessionDestroy
  split <;> simp

theorem fuseSessionDestroy_closed :
    se.fuseSessionDestroy.closed = if se.fd ≠ -1 then se.closed ++ [se.fd] else se.closed := by
  unfold fuseSessionDestroy
  split <;> simp

theorem customIo_main {fd : Int32} {io : Option Bool} :
    (se.fuseSessionCustomIo fd io callocOk).2.main = se.main := by
  unfold fuseSessionCustomIo
  split_ifs <;> rfl

/-- No request moves `main`. -/
theorem serve_main (h : se.serve buf req callocOk outcome = some se') : se'.main = se.main := by
  unfold serve at h
  split at h <;> cases h
  case h_7 =>
    split_ifs
    · cases outcome <;> simp [doInit]
    · simp [doDestroy]
    · rfl
  all_goals rfl

theorem processing_of_gotInit (h : se.gotInit = true) :
    se.processing = fuseSessionNewVersioned se.op.requests := by
  simp [processing, h, fuseSessionNewVersioned]

/-- A request invokes its callback, if there is memory for the handle and the
callback is set; otherwise it invokes nothing. -/
theorem serve_cases (hinit : se.gotInit = true) (h : se.serve buf req callocOk outcome = some se') :
    (se' = se ∧ (callocOk = false ∨ se.op.requests.implements req.input = false)) ∨
      ∃ call, req.input.call = some call ∧ callocOk = true ∧
        se.op.requests.implements req.input = true ∧ se' = se.invoke true (.request call) := by
  by_cases hknown : req.input.Known
  · by_cases hfits : req.input.Fits
    · simp only [serve, daemonPass, processing_of_gotInit hinit,
        daemonMessage_of_fits buf hknown hfits] at h
      cases callocOk with
      | false =>
          rw [process_noReq] at h
          exact .inl ⟨(Option.some.inj h).symm, .inl rfl⟩
      | true =>
          rw [process_requestMessage buf _ hknown hfits] at h
          obtain ⟨call, hcall⟩ : ∃ call, req.input.call = some call := by
            cases hin : req.input <;>
              first | exact ⟨_, rfl⟩ | (rw [hin] at hknown; exact hknown.elim)
          cases himpl : se.op.requests.implements req.input with
          | true =>
              simp only [RequestIn.handling, hcall, himpl, if_true] at h
              exact .inr ⟨call, hcall, rfl, rfl, (Option.some.inj h).symm⟩
          | false =>
              refine .inl ⟨?_, .inr rfl⟩
              simp only [RequestIn.handling, hcall, himpl, Bool.false_eq_true, if_false] at h
              cases call <;> exact (Option.some.inj h).symm
    · simp [serve, daemonPass, daemonMessage_overrun buf hfits] at h
  · simp only [serve, daemonPass, daemonMessage_unknown buf hknown] at h
    refine .inl ⟨(Option.some.inj h).symm, .inr ?_⟩
    cases hin : req.input <;>
      first | rfl | (rw [hin] at hknown; exact absurd trivial hknown)

/-- The calls of `main` that change more than where it is are those that end
the session. -/
theorem mainNext_cases {singlethread : Bool} (h : se.mainNext singlethread = some se') :
    (se.main ≠ .fuseSessionDestroy ∧ ∃ pc, pc ≠ .done ∧
      (se' = { se with main := pc } ∨ se' = { se.fuseSessionUnmount with main := pc })) ∨
    (se.main = .fuseSessionDestroy ∧ se' = { se.fuseSessionDestroy with main := .done }) := by
  cases hpc : se.main <;> simp only [mainNext, hpc, Option.some.injEq, reduceCtorEq] at h
  case fuseSetSignalHandlers => exact .inl ⟨by simp, _, by simp, .inl h.symm⟩
  case fuseSessionMount => exact .inl ⟨by simp, _, by simp, .inl h.symm⟩
  case loop => exact .inl ⟨by simp, _, by cases singlethread <;> simp, .inl h.symm⟩
  case fuseSessionUnmount => exact .inl ⟨by simp, _, by simp, .inr h.symm⟩
  case fuseRemoveSignalHandlers => exact .inl ⟨by simp, _, by simp, .inl h.symm⟩
  case fuseSessionDestroy => exact .inr ⟨rfl, h.symm⟩

/-- What holds of every session as long as it exists: it was declared
initialised without `op.init`, and nothing takes that back. -/
structure Preset (se : SessionObject) : Prop where
  gotInit : se.gotInit = true
  gotDestroy : se.gotDestroy = false
  mountpoint : se.mountpoint = false
  noInit : .init ∉ se.invoked

theorem Preset.fuseSessionUnmount (h : se.Preset) : se.fuseSessionUnmount = se := by
  simp [SessionObject.fuseSessionUnmount, h.mountpoint]

theorem Preset.fuseSessionDestroy_invoked (h : se.Preset) :
    se.fuseSessionDestroy.invoked = (se.invoke se.op.destroy .destroy).invoked := by
  simp [SessionObject.fuseSessionDestroy, h.gotInit, h.gotDestroy]

theorem Preset.serve (h : se.Preset) (hserve : se.serve buf req callocOk outcome = some se') :
    se'.Preset := by
  rcases serve_cases h.gotInit hserve with ⟨rfl, -⟩ | ⟨call, -, -, -, rfl⟩
  · exact h
  · exact ⟨h.gotInit, h.gotDestroy, h.mountpoint, by simp [invoke, h.noInit]⟩

theorem Preset.customIo {fd : Int32} {io : Option Bool} (h : se.Preset) :
    (se.fuseSessionCustomIo fd io callocOk).2.Preset := by
  unfold fuseSessionCustomIo
  split_ifs <;> exact ⟨h.gotInit, h.gotDestroy, h.mountpoint, h.noInit⟩

theorem Preset.mainNext {singlethread : Bool} (h : se.Preset)
    (hmain : se.mainNext singlethread = some se') : se'.Preset := by
  rcases mainNext_cases hmain with ⟨-, pc, -, rfl | rfl⟩ | ⟨-, rfl⟩
  · exact ⟨h.gotInit, h.gotDestroy, h.mountpoint, h.noInit⟩
  · rw [h.fuseSessionUnmount]
    exact ⟨h.gotInit, h.gotDestroy, h.mountpoint, h.noInit⟩
  · refine ⟨?_, ?_, ?_, ?_⟩
    · simp [SessionObject.fuseSessionDestroy, h.gotInit, h.gotDestroy]
    · simp [SessionObject.fuseSessionDestroy, h.gotInit, h.gotDestroy]
    · simp [SessionObject.fuseSessionDestroy, h.gotInit, h.gotDestroy, h.mountpoint]
    · show Invoked.init ∉ se.fuseSessionDestroy.invoked
      rw [h.fuseSessionDestroy_invoked]
      cases hop : se.op.destroy <;> simp [invoke, h.noInit]

theorem preset_new {op : Option BackendOps} (h : fuseSessionNew op callocOk = some se) :
    se.Preset := by
  unfold fuseSessionNew at h
  split at h
  · obtain rfl := Option.some.inj h
    exact ⟨rfl, rfl, rfl, by simp⟩
  · exact absurd h (by simp)

end SessionObject

namespace Sessions

variable {s s' : Sessions} {a : SessionAct}

/-- What a step can do. -/
inductive Step (s : Sessions) : SessionAct → Sessions → Prop
  | noSession {op callocOk} : Step s (.new op callocOk) s
  | new {op callocOk se} : fuseSessionNew op callocOk = some se →
      Step s (.new op callocOk) { s with all := s.all ++ [se] }
  | customIo {i fd io callocOk se} : s.all[i]? = some se → s.alive i = true →
      Step s (.customIo i fd io callocOk) (s.set i (se.fuseSessionCustomIo fd io callocOk).2)
  | main {i singlethread se se'} : s.all[i]? = some se → se.mainNext singlethread = some se' →
      Step s (.main i singlethread) { s.set i se' with
        registered := if se.main = .fuseSessionMount then some i else s.registered }
  | vopen {startOk} : Step s (.vopen startOk) (s.vopen startOk)
  | request {d buf req callocOk outcome h se se'} : s.daemons[d]? = some h →
      s.all[h.session]? = some se → s.alive h.session = true →
      se.serve buf req callocOk outcome = some se' →
      Step s (.request d buf req callocOk outcome) (s.set h.session se')

theorem Step.of_step (h : s.step a = some s') : s.Step a s' := by
  cases a with
  | new op callocOk =>
      cases hnew : fuseSessionNew op callocOk with
      | none =>
          simp only [step, hnew] at h
          exact Option.some.inj h ▸ .noSession
      | some se =>
          simp only [step, hnew] at h
          exact Option.some.inj h ▸ .new hnew
  | customIo i fd io callocOk =>
      obtain ⟨se, hse, hrest⟩ := Option.bind_eq_some_iff.mp h
      split at hrest
      · exact Option.some.inj hrest ▸ .customIo hse ‹_›
      · exact absurd hrest (by simp)
  | main i singlethread =>
      obtain ⟨se, hse, hrest⟩ := Option.bind_eq_some_iff.mp h
      obtain ⟨se', hnext, rfl⟩ := Option.map_eq_some_iff.mp hrest
      exact .main hse hnext
  | vopen startOk => exact Option.some.inj h ▸ .vopen
  | request d buf req callocOk outcome =>
      obtain ⟨h', hd, hrest⟩ := Option.bind_eq_some_iff.mp h
      obtain ⟨se, hse, hrest⟩ := Option.bind_eq_some_iff.mp hrest
      split at hrest
      · obtain ⟨se', hserve, rfl⟩ := Option.map_eq_some_iff.mp hrest
        exact .request hd hse ‹_› hserve
      · exact absurd hrest (by simp)

/-- One session is replaced by another. -/
theorem forall_mem_set {P : SessionObject → Prop} {i : Nat} {se : SessionObject}
    (hall : ∀ x ∈ s.all, P x) (hse : P se) : ∀ x ∈ (s.set i se).all, P x := by
  intro x hx
  rcases List.mem_or_eq_of_mem_set hx with hx | rfl
  · exact hall x hx
  · exact hse

theorem vopen_all (startOk : Bool) : (s.vopen startOk).all = s.all := by
  unfold vopen
  split <;> rfl

theorem vopen_registered (startOk : Bool) : (s.vopen startOk).registered = s.registered := by
  unfold vopen
  split <;> rfl

/-- The daemon that `fusefs_vopen` starts is one for the registered session. -/
theorem mem_vopen_daemons {startOk : Bool} {h : HandedOver}
    (hmem : h ∈ (s.vopen startOk).daemons) :
    h ∈ s.daemons ∨ ∃ i, s.registered = some i ∧ h = ⟨i, s.alive i⟩ := by
  cases hreg : s.registered with
  | none =>
      simp only [vopen, hreg] at hmem
      exact .inl hmem
  | some i =>
      cases startOk with
      | false =>
          simp only [vopen, hreg] at hmem
          exact .inl hmem
      | true =>
          simp only [vopen, hreg] at hmem
          rcases List.mem_append.mp hmem with hmem | hmem
          · exact .inl hmem
          · exact .inr ⟨i, rfl, List.mem_singleton.mp hmem⟩

/-- A property of single sessions is kept by a step if creation and the calls
of the step keep it. -/
theorem Step.forall_sessions {P : SessionObject → Prop} (h : s.Step a s')
    (hall : ∀ se ∈ s.all, P se)
    (hnew : ∀ op callocOk se, fuseSessionNew op callocOk = some se → P se)
    (hcustom : ∀ se fd io callocOk, P se → P (se.fuseSessionCustomIo fd io callocOk).2)
    (hmain : ∀ i singlethread se se', a = .main i singlethread → s.all[i]? = some se → P se →
      se.mainNext singlethread = some se' → P se')
    (hserve : ∀ d buf req callocOk outcome h se se', a = .request d buf req callocOk outcome →
      s.daemons[d]? = some h → s.all[h.session]? = some se → P se →
      se.serve buf req callocOk outcome = some se' → P se') :
    ∀ se ∈ s'.all, P se := by
  cases h with
  | noSession => exact hall
  | new hse =>
      intro x hx
      rcases List.mem_append.mp hx with hx | hx
      · exact hall x hx
      · obtain rfl := List.mem_singleton.mp hx
        exact hnew _ _ _ hse
  | customIo hse =>
      exact forall_mem_set hall (hcustom _ _ _ _ (hall _ (List.mem_of_getElem? hse)))
  | main hse hnext =>
      exact forall_mem_set hall (hmain _ _ _ _ rfl hse (hall _ (List.mem_of_getElem? hse)) hnext)
  | vopen =>
      rw [vopen_all]
      exact hall
  | request hd hse halive hserved =>
      have hkept := hserve _ _ _ _ _ _ _ _ rfl hd hse (hall _ (List.mem_of_getElem? hse)) hserved
      exact forall_mem_set hall hkept

theorem preset_reachable (h : sessionSystem.Reachable s) : ∀ se ∈ s.all, se.Preset := by
  induction h with
  | start hinit =>
      obtain rfl := hinit
      simp
  | step _ hstep ih =>
      exact (Step.of_step hstep).forall_sessions ih (fun _ _ _ => SessionObject.preset_new)
        (fun _ _ _ _ h => h.customIo) (fun _ _ _ _ _ _ h => h.mainNext)
        (fun _ _ _ _ _ _ _ _ _ _ _ h => h.serve)

end Sessions

end UkfsFuse
