import UkfsFuse.Theorems.Settling

/-!
# One request after the other

Whatever the interleaving of clients, daemon and backend, and whenever the
backend gets round to its replies: the requests of a mount are answered as if
each were one indivisible call of a sequential object. The calls are in the
order in which the daemon made their handles. A request has its place in that
order after its submission and before its client wakes up, so a request that
is submitted when another has been answered comes behind it.
-/

namespace UkfsFuse

open UkfsFuse.Core

variable {T S F σ : Type}

/-- The backend is `o`: a handle is replied to with what `o` answers to its
callback, called after those before it. -/
def Backed (o : SeqObject σ Call Reply) (s : Sys T S F) (a : SysAct T S F) : Prop :=
  ∀ h r mallocOk, a = .reply h r mallocOk → (o.replies s.calls)[h]? = some r

/-- Handle `i` was made for the request in the record of `t`. -/
def Sys.ServedAt (s : Sys T S F) (t : T) (i : Nat) : Prop :=
  ∃ hd, s.handles[i]? = some hd ∧ hd.origin.serial = (s.origin t).serial

/-- The runs of one mount of the backend `o`. -/
def objectSystem (T S F : Type) [DecidableEq T] [Platform] (ops : S → FuseLowlevelOps)
    (o : SeqObject σ Call Reply) : TSys (Sys T S F) (SysAct T S F) :=
  (mountSystem T S F ops).restrict (Backed o)

/-- The requests answered so far are calls of `o`, one after the other. -/
structure Linearized [DecidableEq T] [Platform] (ops : S → FuseLowlevelOps)
    (o : SeqObject σ Call Reply) (s : Sys T S F) : Prop where
  /-- a client reads the answer to its own call, at the place of that call -/
  answered : ∀ t k, s.pc t = .woken k → ∃ i call r, s.ServedAt t i ∧
    (s.record t).input.call = some call ∧ s.calls[i]? = some call ∧
    (o.replies s.calls)[i]? = some r ∧ (s.record t).answer = ⟨r.error, r.payload, r.size⟩
  /-- a request has one place -/
  once : ∀ t i j, s.ServedAt t i → s.ServedAt t j → i = j
  /-- the calls before stay before, and requests yet to be submitted come behind -/
  order : ∀ as s', (objectSystem T S F ops o).Run s as s' → s.calls <+: s'.calls ∧
    ∀ u j, s.serial ≤ (s'.origin u).serial → s'.ServedAt u j → s.calls.length ≤ j

section Runs

variable [DecidableEq T] [Platform] {ops : S → FuseLowlevelOps} {o : SeqObject σ Call Reply}
  {s s' : Sys T S F} {a : SysAct T S F} {as : List (SysAct T S F)}
  {owner : T → Option (Place T)}

/-- Every handle has been replied to as `o` does. -/
def GivenBy (o : SeqObject σ Call Reply) (s : Sys T S F) : Prop :=
  ∀ (i : Nat) (hd : Handle T S) r mallocOk, s.handles[i]? = some hd →
    hd.answer = some (r, mallocOk) → (o.replies s.calls)[i]? = some r

omit [Platform] in
theorem GivenBy.step (h : GivenBy o s) (ha : Backed o s a) (heff : HandleEffect ops s a s') :
    GivenBy o s' := by
  have hprefix := heff.calls_prefix
  cases heff with
  | keep hhandles =>
      rw [GivenBy, Sys.calls, hhandles]
      exact h
  | make d se buf ok req r what hpc hproc hhandles =>
      intro i hd r' m hi hanswer
      rw [hhandles, List.getElem?_append] at hi
      split at hi
      · exact SeqObject.replies_of_prefix hprefix (h i hd r' m hi hanswer)
      · obtain rfl := List.mem_singleton.mp (List.mem_of_getElem? hi)
        exact absurd hanswer (by simp)
  | change b hd hd' hh hhandles hwhat horigin hanswer =>
      have hlt := (List.getElem?_eq_some_iff.mp hh).1
      intro i x r m hi hx
      rw [calls_set hh hhandles hwhat]
      rw [hhandles] at hi
      by_cases hbi : b = i
      · subst hbi
        rw [List.getElem?_set_self hlt] at hi
        obtain rfl := Option.some.inj hi
        rcases hanswer with hsame | ⟨r', m', hact, hnew⟩
        · exact h b hd r m hh (hsame ▸ hx)
        · obtain ⟨rfl, rfl⟩ := Prod.mk.inj (Option.some.inj (hx.symm.trans hnew))
          exact ha b r m hact
      · rw [List.getElem?_set_ne hbi] at hi
        exact h i x r m hi hx

theorem givenBy_reachable (hs : (objectSystem T S F ops o).Reachable s) : GivenBy o s := by
  induction hs with
  | start hinit =>
      have hnone := (Mounted.threads hinit).1
      exact fun i hd r m hi => absurd hi (by simp [hnone])
  | step _ hstep ih => exact ih.step hstep.1 (Sys.Step.of_step hstep.2.2).handleEffect

/-- Along a run the handles keep their places and their requests. -/
theorem run_kept (h : (objectSystem T S F ops o).Run s as s') :
    s.calls <+: s'.calls ∧ ∀ (i : Nat) (hd : Handle T S), s.handles[i]? = some hd →
      ∃ hd', s'.handles[i]? = some hd' ∧ hd'.origin = hd.origin := by
  induction h with
  | nil => exact ⟨List.prefix_refl _, fun _ hd hi => ⟨hd, hi, rfl⟩⟩
  | cons hstep _ ih =>
      have heff := (Sys.Step.of_step hstep.2.2).handleEffect
      refine ⟨heff.calls_prefix.trans ih.1, fun i hd hi => ?_⟩
      obtain ⟨hd₁, hi₁, -, horigin₁⟩ := heff.kept hi
      obtain ⟨hd', hi', horigin'⟩ := ih.2 i hd₁ hi₁
      exact ⟨hd', hi', horigin'.trans horigin₁⟩

/-- What a client reads is the answer of `o` at the place of its call. -/
theorem GivenBy.answered (h : GivenBy o s) (hlive : Live s) (hsound : Sound ops s owner) {t : T}
    {k : Cont}
    (hpc : s.pc t = .woken k) : ∃ i call r, s.ServedAt t i ∧
      (s.record t).input.call = some call ∧ s.calls[i]? = some call ∧
      (o.replies s.calls)[i]? = some r ∧ (s.record t).answer = ⟨r.error, r.payload, r.size⟩ := by
  obtain ⟨hd, hmem, r, m, hserving, hanswer, heq⟩ := hsound.accounted.woken_reply hpc
  obtain ⟨rfl, hrecord⟩ := (hsound.handles hd hmem).reply r m hanswer
  obtain ⟨i, hi⟩ := List.getElem?_of_mem hmem
  have hknown := (hsound.accounted.placed.threads t).known (by rw [hpc]; trivial)
  obtain ⟨call, hcall, hfull⟩ := handling_full hknown
  have hwhat : hd.call = some call := by
    rw [Handle.call, hserving.what, (hsound.handles hd hmem).full, hfull]
  refine ⟨i, call, r, ⟨hd, hi, by rw [hserving.origin]⟩, hcall,
    hlive.callbacks.calls_getElem hi hwhat, h i hd r true hi hanswer, ?_⟩
  rw [heq, Reply.answerIn_onRecord hrecord]

end Runs

/-- In every run with one mount of a backend that is a sequential object, each
request is answered as if it had been one indivisible call, between its
submission and the waking of its client. -/
theorem requests_linearize (T S F σ : Type) [DecidableEq T] [Platform] (ops : S → FuseLowlevelOps)
    (o : SeqObject σ Call Reply) :
    (objectSystem T S F ops o).Invariant (Linearized ops o) := by
  intro s hs
  obtain ⟨owner, hsound⟩ := sound_reachable hs.of_restrict
  have hlive := live_reachable hs.of_restrict
  have hgiven := givenBy_reachable hs
  refine ⟨fun t k hpc => hgiven.answered hlive hsound hpc, ?_, fun as s' hrun => ?_⟩
  · rintro t i j ⟨hd, hi, hserial⟩ ⟨hd', hj, hserial'⟩
    exact hsound.accounted.single i j hd hd' hi hj (hserial.trans hserial'.symm)
  · obtain ⟨hpre, hkept⟩ := run_kept hrun
    refine ⟨hpre, fun u j hnew => ?_⟩
    rintro ⟨hd', hj, hserial⟩
    by_contra hlt
    rw [Nat.not_le, hlive.callbacks.length_calls] at hlt
    -- a handle of `s` at that place would be of a request submitted before
    obtain ⟨hd, hget⟩ : ∃ hd, s.handles[j]? = some hd := ⟨_, List.getElem?_eq_getElem hlt⟩
    obtain ⟨hd'', hj', horigin⟩ := hkept j hd hget
    obtain rfl := Option.some.inj (hj.symm.trans hj')
    have hold := hsound.accounted.handleLt hd (List.mem_of_getElem? hget)
    rw [← horigin, hserial] at hold
    omega

end UkfsFuse
