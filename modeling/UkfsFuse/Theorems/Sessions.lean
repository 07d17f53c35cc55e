import UkfsFuse.Logic.Sessions

/-!
# The life of a session

`fuse_session_destroy` frees a session and leaves it registered, and a session
is born initialised: `op.init` is never called, whatever the backend, and
`op.destroy` is called without it. Both hold of every run of any number of
backends and mounts; a run is as it should be exactly when it avoids the steps
named here.
-/

namespace UkfsFuse

open UkfsFuse.Core

/-! ## Sessions in use -/

/-- The registered session has been created and not yet destroyed, and so had
every session that was handed to a daemon. -/
structure InUseAlive (s : Sessions) : Prop where
  registered : ∀ i, s.registered = some i → s.alive i = true
  handed : ∀ h ∈ s.daemons, h.alive = true

/-- The step does not destroy the session that is registered. -/
def OutlivesRegistration (s : Sessions) (a : SessionAct) : Prop :=
  ∀ i singlethread se, a = .main i singlethread → s.registered = some i → s.all[i]? = some se →
    se.main ≠ .fuseSessionDestroy

section InUse

variable {s s' : Sessions} {a : SessionAct} {i j : Nat} {se se' : SessionObject}

namespace Sessions

theorem alive_iff : s.alive i = true ↔ ∃ se, s.all[i]? = some se ∧ se.main ≠ .done := by
  simp [alive, Option.any_eq_true]

theorem alive_set (halive : s.alive i = true) (hne : i = j → se'.main ≠ .done) :
    (s.set j se').alive i = true := by
  obtain ⟨se, hse, hmain⟩ := alive_iff.mp halive
  by_cases hij : i = j
  · subst hij
    obtain ⟨hlt, -⟩ := List.getElem?_eq_some_iff.mp hse
    exact alive_iff.mpr ⟨se', List.getElem?_set_self hlt, hne rfl⟩
  · exact alive_iff.mpr ⟨se, by rw [set, List.getElem?_set_ne (Ne.symm hij)]; exact hse, hmain⟩

theorem alive_append (halive : s.alive i = true) :
    ({ s with all := s.all ++ [se] } : Sessions).alive i = true := by
  obtain ⟨se₁, hse, hmain⟩ := alive_iff.mp halive
  obtain ⟨hlt, -⟩ := List.getElem?_eq_some_iff.mp hse
  exact alive_iff.mpr ⟨se₁, by rw [List.getElem?_append_left hlt]; exact hse, hmain⟩

end Sessions

/-- A call that leaves the session where it was, in a state where it is alive. -/
theorem InUseAlive.keep (h : InUseAlive s) (hse : s.all[j]? = some se) (halive : s.alive j = true)
    (hmain : se'.main = se.main) : InUseAlive (s.set j se') := by
  refine ⟨fun i hi => Sessions.alive_set (h.registered i hi) fun _ => ?_, h.handed⟩
  obtain ⟨se₁, hse₁, hne⟩ := Sessions.alive_iff.mp halive
  obtain rfl := Option.some.inj (hse.symm.trans hse₁)
  rwa [hmain]

theorem InUseAlive.step (h : InUseAlive s) (hok : OutlivesRegistration s a) (hstep : s.Step a s') :
    InUseAlive s' := by
  cases hstep with
  | noSession => exact h
  | new hnew => exact ⟨fun i hi => Sessions.alive_append (h.registered i hi), h.handed⟩
  | customIo hse halive =>
      exact h.keep hse halive SessionObject.customIo_main
  | @main j singlethread se se' hse hnext =>
      refine ⟨fun i hi => ?_, h.handed⟩
      show (s.set j se').alive i = true
      rcases SessionObject.mainNext_cases hnext with ⟨-, pc, hpc, hse'⟩ | ⟨hdestroy, -⟩
      · have hmain : se'.main ≠ .done := by rcases hse' with rfl | rfl <;> exact hpc
        by_cases hmount : se.main = .fuseSessionMount
        · -- the session that is mounted is the registered one from now on
          obtain rfl : j = i := by simpa [hmount] using hi
          refine Sessions.alive_set (Sessions.alive_iff.mpr ⟨se, hse, by simp [hmount]⟩)
            fun _ => hmain
        · exact Sessions.alive_set (h.registered i (by simpa [hmount] using hi)) fun _ => hmain
      · have hreg : s.registered = some i := by simpa [hdestroy] using hi
        refine Sessions.alive_set (h.registered i hreg) fun hij => ?_
        subst hij
        exact absurd hdestroy (hok i singlethread se rfl hreg hse)
  | vopen =>
      refine ⟨fun i hi => ?_, fun d hd => ?_⟩
      · rw [Sessions.vopen_registered] at hi
        have halive := h.registered i hi
        rwa [Sessions.alive, ← Sessions.vopen_all] at halive
      · rcases Sessions.mem_vopen_daemons hd with hd | ⟨i, hreg, rfl⟩
        · exact h.handed d hd
        · exact h.registered i hreg
  | request hd hse halive hserve => exact h.keep hse halive (SessionObject.serve_main hserve)

/-- To destroy the registered session is what leaves it dangling. -/
theorem dangling_of_destroy (hstep : s.Step a s') (hbad : ¬ OutlivesRegistration s a) :
    ¬ InUseAlive s' := by
  simp only [OutlivesRegistration, not_forall, not_not] at hbad
  obtain ⟨i, singlethread, se, rfl, hreg, hse, hdestroy⟩ := hbad
  cases hstep with
  | main hse' hnext =>
      obtain rfl := Option.some.inj (hse'.symm.trans hse)
      rcases SessionObject.mainNext_cases hnext with ⟨hne, -⟩ | ⟨-, rfl⟩
      · exact absurd hdestroy hne
      · intro h
        obtain ⟨se₁, hse₁, hmain⟩ :=
          Sessions.alive_iff.mp (h.registered i (by simp [hdestroy, hreg]))
        obtain ⟨hlt, -⟩ := List.getElem?_eq_some_iff.mp hse
        obtain rfl := Option.some.inj ((List.getElem?_set_self hlt).symm.trans hse₁)
        exact hmain rfl

end InUse

/-- In every run in which no session is destroyed while it is registered, the
registered session is alive and `fusefs_vopen` hands over no other; a step that
does destroy it breaks this. -/
theorem registered_session_alive (s : Sessions) :
    ((sessionSystem.restrict OutlivesRegistration).Reachable s → InUseAlive s) ∧
      ∀ a s', sessionSystem.step s a s' → ¬ OutlivesRegistration s a → ¬ InUseAlive s' := by
  refine ⟨fun hs => ?_, fun a s' hstep => dangling_of_destroy (.of_step hstep)⟩
  induction hs with
  | start hinit =>
      obtain rfl := hinit
      exact ⟨by simp, by simp⟩
  | step _ hstep ih => exact ih.step hstep.1 (.of_step hstep.2)

/-- A backend whose `fuse_session_loop_mt` returns at once destroys its session
before the client mounts, and the mount hands it to a daemon. -/
theorem destroyed_session_handed_over :
    ¬ sessionSystem.Invariant InUseAlive := by
  have hrun : ∃ s, sessionSystem.Reachable s ∧
      (s.registered, s.alive 0, s.daemons) = (some 0, false, [⟨0, false⟩]) := by
    refine TSys.exists_reachable_of_exec
      ([ .new (some { requests := .full }) true,
        -- up to the mount, through the loop, and to the end of `main`
        .main 0 false, .main 0 false, .main 0 false, .main 0 false, .main 0 false, .main 0 false,
        .vopen true] : List SessionAct)
      (by rfl) _ ?_
    decide
  obtain ⟨s, hs, hobs⟩ := hrun
  obtain ⟨hreg, hobs⟩ := Prod.mk.inj hobs
  obtain ⟨hdead, -⟩ := Prod.mk.inj hobs
  intro hinv
  exact absurd (hdead.symm.trans ((hinv s hs).registered 0 hreg)) (by decide)

/-! ## Callbacks in order -/

/-- No request callback before `init`, and `destroy` once and after it. -/
structure Ordered (log : List Invoked) : Prop where
  requestAfterInit : ∀ pre call post, log = pre ++ .request call :: post → .init ∈ pre
  destroyOnce : log.count .destroy ≤ 1
  destroyAfterInit : ∀ pre post, log = pre ++ .destroy :: post → .init ∈ pre

/-- The callbacks of every session with an `op.init` have come in order. -/
def CallbacksOrdered (s : Sessions) : Prop :=
  ∀ se ∈ s.all, se.op.init = true → Ordered se.invoked

/-- The step neither serves a request whose callback is set nor destroys a
session with an `op.destroy`, where the backend has an `op.init`. -/
def NeedsNoInit (s : Sessions) : SessionAct → Prop
  | .request d _ req callocOk _ => ∀ h se, s.daemons[d]? = some h → s.all[h.session]? = some se →
      se.op.init = true → callocOk = false ∨ se.op.requests.implements req.input = false
  | .main i _ => ∀ se, s.all[i]? = some se → se.op.init = true →
      se.main = .fuseSessionDestroy → se.op.destroy = false
  | _ => True

section Callbacks

variable {s s' : Sessions} {a : SessionAct} {log : List Invoked}

/-- Without `init` only the empty log is in order. -/
theorem ordered_iff_nil (hinit : .init ∉ log) : Ordered log ↔ log = [] := by
  constructor
  · intro h
    cases log with
    | nil => rfl
    | cons what rest =>
        cases what with
        | init => exact absurd List.mem_cons_self hinit
        | request call => exact absurd (h.requestAfterInit [] call rest rfl) (by simp)
        | destroy => exact absurd (h.destroyAfterInit [] rest rfl) (by simp)
  · rintro rfl
    exact ⟨by simp, by simp, by simp⟩

/-- A session the step has put back is in order if it has invoked nothing. -/
theorem CallbacksOrdered.step (hpreset : ∀ se ∈ s.all, se.Preset) (h : CallbacksOrdered s)
    (hok : NeedsNoInit s a) (hstep : s.Step a s') : CallbacksOrdered s' := by
  have hboth : ∀ se ∈ s'.all, se.Preset ∧ (se.op.init = true → Ordered se.invoked) := by
    refine hstep.forall_sessions (fun se hse => ⟨hpreset se hse, h se hse⟩) ?_ ?_ ?_ ?_
    · intro op callocOk se hnew
      refine ⟨SessionObject.preset_new hnew, fun _ => (ordered_iff_nil
        (SessionObject.preset_new hnew).noInit).mpr ?_⟩
      unfold fuseSessionNew at hnew
      split at hnew <;> cases hnew
      rfl
    · rintro se fd io callocOk ⟨hp, hlog⟩
      refine ⟨hp.customIo, ?_⟩
      unfold SessionObject.fuseSessionCustomIo
      split_ifs <;> exact hlog
    · rintro i singlethread se se' rfl hse ⟨hp, hlog⟩ hnext
      refine ⟨hp.mainNext hnext, ?_⟩
      rcases SessionObject.mainNext_cases hnext with ⟨-, pc, -, rfl | rfl⟩ | ⟨hdestroy, rfl⟩
      · exact hlog
      · rw [hp.fuseSessionUnmount]
        exact hlog
      · intro hinit
        have hop : se.op.init = true := by
          simpa [SessionObject.fuseSessionDestroy, hp.gotInit, hp.gotDestroy] using hinit
        show Ordered se.fuseSessionDestroy.invoked
        rw [hp.fuseSessionDestroy_invoked, hok se hse hop hdestroy]
        exact hlog hop
    · rintro d buf req callocOk outcome hd se se' rfl hdaemon hse ⟨hp, hlog⟩ hserve
      refine ⟨hp.serve hserve, ?_⟩
      rcases SessionObject.serve_cases hp.gotInit hserve with ⟨rfl, -⟩ | ⟨call, -, rfl, himpl, rfl⟩
      · exact hlog
      · intro hinit
        rcases hok hd se hdaemon hse hinit with hfalse | hfalse
        · exact absurd hfalse (by simp)
        · exact absurd (himpl.symm.trans hfalse) (by simp)
  exact fun se hse => (hboth se hse).2

theorem disordered_of_mem {se : SessionObject} (hse : se ∈ s.all) (hinit : se.op.init = true)
    (hpreset : se.Preset) (hne : se.invoked ≠ []) : ¬ CallbacksOrdered s := fun h =>
  hne ((ordered_iff_nil hpreset.noInit).mp (h se hse hinit))

/-- Any other step invokes a callback for which `init` should have come first. -/
theorem disordered_of_step (hpreset : ∀ se ∈ s.all, se.Preset) (hstep : s.Step a s')
    (hbad : ¬ NeedsNoInit s a) : ¬ CallbacksOrdered s' := by
  cases hstep with
  | @main i singlethread se se' hse hnext =>
      simp only [NeedsNoInit, not_forall] at hbad
      obtain ⟨se₁, hse₁, hinit, hdestroy, hop⟩ := hbad
      obtain rfl := Option.some.inj (hse.symm.trans hse₁)
      have hp := hpreset se (List.mem_of_getElem? hse)
      rcases SessionObject.mainNext_cases hnext with ⟨hne, -⟩ | ⟨-, rfl⟩
      · exact absurd hdestroy hne
      · obtain ⟨hlt, -⟩ := List.getElem?_eq_some_iff.mp hse
        refine disordered_of_mem (List.mem_set hlt _) ?_ (hp.mainNext hnext) ?_
        · show se.fuseSessionDestroy.op.init = true
          simp [SessionObject.fuseSessionDestroy, hp.gotInit, hp.gotDestroy, hinit]
        · show se.fuseSessionDestroy.invoked ≠ []
          rw [hp.fuseSessionDestroy_invoked, (Bool.not_eq_false _).mp hop]
          simp [SessionObject.invoke]
  | @request d buf req callocOk outcome hd se se' hdaemon hse halive hserve =>
      simp only [NeedsNoInit, not_forall] at hbad
      obtain ⟨hd₁, se₁, hdaemon₁, hse₁, hinit, hserved⟩ := hbad
      obtain rfl := Option.some.inj (hdaemon.symm.trans hdaemon₁)
      obtain rfl := Option.some.inj (hse.symm.trans hse₁)
      have hp := hpreset se (List.mem_of_getElem? hse)
      rcases SessionObject.serve_cases hp.gotInit hserve with ⟨-, hnot⟩ | ⟨call, -, -, -, rfl⟩
      · exact absurd hnot hserved
      · obtain ⟨hlt, -⟩ := List.getElem?_eq_some_iff.mp hse
        exact disordered_of_mem (List.mem_set hlt _) hinit (hp.serve hserve)
          (by simp [SessionObject.invoke])
  | _ => exact absurd trivial hbad

end Callbacks

/-- The callbacks come in order in every run in which no backend has an `init`
that would have to come first; every other step invokes one out of order. -/
theorem callbacks_ordered (s : Sessions) :
    ((sessionSystem.restrict NeedsNoInit).Reachable s → CallbacksOrdered s) ∧
      (sessionSystem.Reachable s → ∀ a s', sessionSystem.step s a s' → ¬ NeedsNoInit s a →
        ¬ CallbacksOrdered s') := by
  refine ⟨fun hs => ?_, fun hs a s' hstep =>
    disordered_of_step (Sessions.preset_reachable hs) (.of_step hstep)⟩
  induction hs with
  | start hinit =>
      obtain rfl := hinit
      simp [CallbacksOrdered]
  | step hreach hstep ih =>
      exact ih.step (Sessions.preset_reachable hreach.of_restrict) hstep.1 (.of_step hstep.2)

/-- The first GETATTR of a backend with an `init` finds it not initialised. -/
theorem getattr_without_init : ¬ sessionSystem.Invariant CallbacksOrdered := by
  have hrun : ∃ s, sessionSystem.Reachable s ∧
      s.all.map (fun se => (se.op.init, se.invoked)) = [(true, [.request (.getattr 1 none)])] := by
    refine TSys.exists_reachable_of_exec
      ([ .new (some { init := true, requests := .full }) true,
        -- mount, and block in `fuse_session_loop`
        .main 0 true, .main 0 true, .main 0 true, .vopen true,
        .request 0 (fun _ => 0) (.init 1 (.getattr 1)) true .refused] : List SessionAct)
      (by rfl) _ ?_
    decide
  obtain ⟨s, hs, hobs⟩ := hrun
  obtain ⟨se, hse, hlog⟩ := List.mem_map.mp (hobs ▸ List.mem_singleton_self _)
  obtain ⟨hinit, hinvoked⟩ := Prod.mk.inj hlog
  intro hinv
  have hordered := hinv s hs se hse hinit
  rw [hinvoked] at hordered
  exact absurd (hordered.requestAfterInit [] (.getattr 1 none) [] rfl) (by simp)

end UkfsFuse
