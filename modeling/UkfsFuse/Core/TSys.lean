import Mathlib.Logic.Function.Basic

/-!
# Labelled transition systems

A system is a predicate for its starting states and a labelled step relation.
Safety results are invariants of the reachable states; `Inductive.invariant`
is the one induction over runs, so a development only ever proves the start
case and the step case.

`TSys.restrict` keeps the steps that meet a side condition on the label and
the state before the step. A result about "every run whose steps all meet the
condition" is an invariant of the restricted system.
-/

namespace UkfsFuse.Core

/-- A labelled transition system over states `σ` and labels `α`. -/
structure TSys (σ α : Type*) where
  init : σ → Prop
  step : σ → α → σ → Prop

namespace TSys

variable {σ τ α β : Type*}

/-- A system whose steps are computed: `next s a` is the state after label
`a`, or `none` when `a` cannot be taken in `s`. -/
def ofFun (init : σ → Prop) (next : σ → α → Option σ) : TSys σ α where
  init := init
  step s a s' := next s a = some s'

/-- The states some run of `m` reaches. -/
inductive Reachable (m : TSys σ α) : σ → Prop
  | start {s} : m.init s → Reachable m s
  | step {s a s'} : Reachable m s → m.step s a s' → Reachable m s'

/-- `P` holds in every reachable state of `m`. -/
def Invariant (m : TSys σ α) (P : σ → Prop) : Prop :=
  ∀ s, m.Reachable s → P s

/-- `P` holds at the start and every step preserves it. -/
structure Inductive (m : TSys σ α) (P : σ → Prop) : Prop where
  init : ∀ s, m.init s → P s
  step : ∀ s a s', P s → m.step s a s' → P s'

theorem Inductive.invariant {m : TSys σ α} {P : σ → Prop}
    (h : m.Inductive P) : m.Invariant P := by
  intro s hreach
  induction hreach with
  | start hs => exact h.init _ hs
  | step _ hstep ih => exact h.step _ _ _ ih hstep

/-- The runs of `m` all of whose steps meet `ok`. -/
def restrict (m : TSys σ α) (ok : σ → α → Prop) : TSys σ α where
  init := m.init
  step s a s' := ok s a ∧ m.step s a s'

theorem Reachable.of_restrict {m : TSys σ α} {ok : σ → α → Prop} {s : σ}
    (h : (m.restrict ok).Reachable s) : m.Reachable s := by
  induction h with
  | start hs => exact .start hs
  | step _ hstep ih => exact .step ih hstep.2

/-- `Run m s as s'`: the labels `as` lead from `s` to `s'`. -/
inductive Run (m : TSys σ α) : σ → List α → σ → Prop
  | nil {s} : Run m s [] s
  | cons {s a s' as s''} : m.step s a s' → Run m s' as s'' → Run m s (a :: as) s''

theorem Reachable.run {m : TSys σ α} {s s' : σ} {as : List α}
    (h : m.Reachable s) (r : m.Run s as s') : m.Reachable s' := by
  induction r with
  | nil => exact h
  | cons hstep _ ih => exact ih (h.step hstep)

/-- Execute the labels `as` from `s`. -/
def exec (next : σ → α → Option σ) : σ → List α → Option σ
  | s, [] => some s
  | s, a :: as => (next s a).bind fun s' => exec next s' as

/-- Labels one after the other, the last one apart. -/
theorem exec_concat {next : σ → α → Option σ} {a : α} {as : List α} {s : σ} :
    exec next s (as ++ [a]) = (exec next s as).bind fun s' => next s' a := by
  induction as generalizing s with
  | nil => simp [exec]
  | cons b as ih => simp only [List.cons_append, exec, ih, Option.bind_assoc]

theorem run_of_exec {init : σ → Prop} {next : σ → α → Option σ} {as : List α} :
    ∀ {s s' : σ}, exec next s as = some s' → (ofFun init next).Run s as s' := by
  induction as with
  | nil =>
      intro s s' h
      obtain rfl : s = s' := by simpa [exec] using h
      exact .nil
  | cons a as ih =>
      intro s s' h
      obtain ⟨s₁, hs₁, hrest⟩ := Option.bind_eq_some_iff.mp h
      exact .cons hs₁ (ih hrest)

/-- A state an executable trace ends in is reachable. -/
theorem Reachable.of_exec {init : σ → Prop} {next : σ → α → Option σ}
    {s s' : σ} (as : List α) (hs : init s) (h : exec next s as = some s') :
    (ofFun init next).Reachable s' :=
  (Reachable.start hs).run (run_of_exec h)

/-- The same by what is observed of the last state. -/
theorem exists_reachable_of_exec {init : σ → Prop} {next : σ → α → Option σ} {s : σ}
    (as : List α) (hs : init s) (f : σ → β) {b : β} (h : (exec next s as).map f = some b) :
    ∃ s', (ofFun init next).Reachable s' ∧ f s' = b := by
  obtain ⟨s', hexec, hf⟩ := Option.map_eq_some_iff.mp h
  exact ⟨s', .of_exec as hs hexec, hf⟩

/-- Labels that meet a side condition one by one lead through the restricted
system. -/
theorem run_of_guarded {init : σ → Prop} {next : σ → α → Option σ} {ok : σ → α → Prop}
    [∀ s a, Decidable (ok s a)] {as : List α} : ∀ {s s' : σ},
      exec (fun s a => if ok s a then next s a else none) s as = some s' →
        ((ofFun init next).restrict ok).Run s as s' := by
  induction as with
  | nil =>
      intro s s' h
      obtain rfl : s = s' := by simpa [exec] using h
      exact .nil
  | cons a as ih =>
      intro s s' h
      obtain ⟨s₁, hs₁, hrest⟩ := Option.bind_eq_some_iff.mp h
      exact .cons (Option.ite_none_right_eq_some.mp hs₁) (ih hrest)

theorem exists_reachable_of_guarded {init : σ → Prop} {next : σ → α → Option σ}
    {ok : σ → α → Prop} [∀ s a, Decidable (ok s a)] {s : σ} (as : List α)
    (hs : ((ofFun init next).restrict ok).Reachable s) (f : σ → β) {b : β}
    (h : (exec (fun s a => if ok s a then next s a else none) s as).map f = some b) :
    ∃ s', ((ofFun init next).restrict ok).Reachable s' ∧ f s' = b := by
  obtain ⟨s', hexec, hf⟩ := Option.map_eq_some_iff.mp h
  exact ⟨s', hs.run (run_of_guarded hexec), hf⟩

/-! ## Runs that end -/

/-- No step is possible. -/
def Final (m : TSys σ α) (s : σ) : Prop := ∀ a s', ¬ m.step s a s'

/-- As long as `I` holds every step takes something off the measure `μ`. -/
structure Descends (m : TSys σ α) (I : σ → Prop) (μ : σ → Nat) : Prop where
  keeps : ∀ s a s', I s → m.step s a s' → I s'
  less : ∀ s a s', I s → m.step s a s' → μ s' < μ s

theorem Descends.holds {m : TSys σ α} {I : σ → Prop} {μ : σ → Nat} (h : m.Descends I μ)
    {s s' : σ} {as : List α} (hs : I s) (hrun : m.Run s as s') : I s' := by
  induction hrun with
  | nil => exact hs
  | cons hstep _ ih => exact ih (h.keeps _ _ _ hs hstep)

/-- A run has no more steps than the measure it begins with. -/
theorem Descends.length_le {m : TSys σ α} {I : σ → Prop} {μ : σ → Nat} (h : m.Descends I μ)
    {s s' : σ} {as : List α} (hs : I s) (hrun : m.Run s as s') : as.length + μ s' ≤ μ s := by
  induction hrun with
  | nil => simp
  | cons hstep _ ih =>
      have hless := h.less _ _ _ hs hstep
      have hrest := ih (h.keeps _ _ _ hs hstep)
      rw [List.length_cons]
      omega

/-- Every run can be taken to its end. -/
theorem Descends.exists_final {m : TSys σ α} {I : σ → Prop} {μ : σ → Nat} (h : m.Descends I μ)
    {s : σ} (hs : I s) : ∃ as s', m.Run s as s' ∧ m.Final s' := by
  induction hn : μ s using Nat.strongRecOn generalizing s with
  | ind n ih =>
      by_cases hfinal : m.Final s
      · exact ⟨[], s, .nil, hfinal⟩
      · simp only [Final, not_forall, not_not] at hfinal
        obtain ⟨a, s₁, hstep⟩ := hfinal
        obtain ⟨as, s', hrun, hend⟩ :=
          ih (μ s₁) (hn ▸ h.less _ _ _ hs hstep) (h.keeps _ _ _ hs hstep) rfl
        exact ⟨a :: as, s', .cons hstep hrun, hend⟩

/-! ## Simulation -/

/-- `abs` maps every step of the concrete system to a step of the abstract
one or to no step at all. -/
structure Simulation (abstract : TSys τ β) (concrete : TSys σ α) where
  abs : σ → τ
  init_ok : ∀ s, concrete.init s → abstract.init (abs s)
  square : ∀ s a s', concrete.step s a s' →
    abs s' = abs s ∨ ∃ b, abstract.step (abs s) b (abs s')

theorem Simulation.reachable {abstract : TSys τ β} {concrete : TSys σ α}
    (sim : Simulation abstract concrete) {s : σ} (h : concrete.Reachable s) :
    abstract.Reachable (sim.abs s) := by
  induction h with
  | start hs => exact .start (sim.init_ok _ hs)
  | step _ hstep ih =>
      rcases sim.square _ _ _ hstep with heq | ⟨b, hb⟩
      · rw [heq]; exact ih
      · exact ih.step hb

/-- Invariants of the abstract system pull back along a simulation. -/
theorem Simulation.invariant {abstract : TSys τ β} {concrete : TSys σ α}
    (sim : Simulation abstract concrete) {P : τ → Prop}
    (h : abstract.Invariant P) : concrete.Invariant fun s => P (sim.abs s) :=
  fun _ hs => h _ (sim.reachable hs)

end TSys

end UkfsFuse.Core
