import Mathlib.Data.List.Basic

/-!
# Programs that allocate

A program is given what becomes of its allocations, one after the other. It
gives up at the first that fails, so that a program is known by what it does
when none fails (`Does`): under other outcomes it does the same, or gives up.
-/

namespace UkfsFuse.Core

/-- A program that allocates and may fail. Its state are the outcomes of the
allocations it has not made yet; those behind the list succeed. -/
abbrev AllocM (ε : Type) := StateT (List Bool) (Except ε)

namespace AllocM

variable {ε α β : Type} {e : ε}

/-- One allocation. Where it fails the program gives up with `e`. -/
def alloc (e : ε) : AllocM ε Unit := fun
  | [] => .ok ((), [])
  | true :: outcomes => .ok ((), outcomes)
  | false :: _ => .error e

theorem run_bind (x : AllocM ε α) (f : α → AllocM ε β) (outcomes : List Bool) :
    (x >>= f).run outcomes = x.run outcomes >>= fun p => (f p.1).run p.2 := rfl

/-- `x` makes some number of allocations and does `r`, and gives up with `e`
exactly when one of them fails. -/
def Does (e : ε) (x : AllocM ε α) (r : Except ε α) : Prop :=
  ∃ n, ∀ outcomes, x.run outcomes =
    if false ∈ outcomes.take n then .error e else r.map fun a => (a, outcomes.drop n)

namespace Does

theorem pure (a : α) : Does e (Pure.pure a) (.ok a) :=
  ⟨0, fun _ => (if_neg (by simp)).symm⟩

theorem throw (err : ε) : Does e (MonadExcept.throw err : AllocM ε α) (.error err) :=
  ⟨0, fun _ => (if_neg (by simp)).symm⟩

theorem alloc : Does e (alloc e) (.ok ()) := by
  refine ⟨1, fun outcomes => ?_⟩
  cases outcomes with
  | nil => rfl
  | cons ok outcomes => cases ok <;> rfl

section Bind

variable {x : AllocM ε α} {f : α → AllocM ε β}

theorem bind_error {err : ε} (hx : Does e x (.error err)) : Does e (x >>= f) (.error err) := by
  obtain ⟨n, hn⟩ := hx
  refine ⟨n, fun outcomes => ?_⟩
  rw [run_bind, hn]
  split <;> rfl

/-- What a sequence does is what its parts do, one after the other. -/
theorem bind_ok {a : α} {r : Except ε β} (hx : Does e x (.ok a)) (hf : Does e (f a) r) :
    Does e (x >>= f) r := by
  obtain ⟨n, hn⟩ := hx
  obtain ⟨m, hm⟩ := hf
  refine ⟨n + m, fun outcomes => ?_⟩
  have htake : false ∈ outcomes.take (n + m) ↔
      false ∈ outcomes.take n ∨ false ∈ (outcomes.drop n).take m := by
    rw [List.take_add, List.mem_append]
  rw [run_bind, hn]
  by_cases hfail : false ∈ outcomes.take n
  · rw [if_pos hfail, if_pos (htake.mpr (.inl hfail))]
    rfl
  · rw [if_neg hfail]
    show (f a).run (outcomes.drop n) = _
    rw [hm, List.drop_drop]
    exact if_congr (by simp [htake, hfail]) rfl rfl

end Bind

/-- When no allocation fails, `x` does `r`. -/
theorem run_nil {x : AllocM ε α} {r : Except ε α} (hx : Does e x r) :
    x.run [] = r.map fun a => (a, []) := by
  obtain ⟨n, hn⟩ := hx
  simpa using hn []

end Does

/-- What a program does when no allocation fails. -/
def result (x : AllocM ε α) : Except ε α := (x.run []).map Prod.fst

/-- A program does one thing only. -/
theorem Does.result_eq {x : AllocM ε α} {r : Except ε α} (hx : Does e x r) :
    x.result = r := by
  rw [result, hx.run_nil]
  cases r <;> rfl

/-- Whatever becomes of its allocations, what `x` returns is `p`. -/
def Returns (x : AllocM ε α) (p : α → Prop) : Prop :=
  ∀ outcomes a rest, x.run outcomes = .ok (a, rest) → p a

namespace Returns

variable {p : α → Prop} {q : β → Prop}

theorem pure {a : α} (h : p a) : Returns (Pure.pure a : AllocM ε α) p := by
  rintro outcomes a rest ⟨⟩
  exact h

theorem throw (err : ε) : Returns (MonadExcept.throw err : AllocM ε α) p := by
  rintro outcomes a rest ⟨⟩

theorem any {x : AllocM ε α} : Returns x fun _ => True := fun _ _ _ _ => trivial

theorem bind {x : AllocM ε α} {f : α → AllocM ε β} (hx : Returns x p)
    (hf : ∀ a, p a → Returns (f a) q) : Returns (x >>= f) q := by
  intro outcomes b rest hrun
  rw [run_bind] at hrun
  cases hone : x.run outcomes with
  | error err =>
      rw [hone] at hrun
      cases hrun
  | ok r =>
      rw [hone] at hrun
      exact hf r.1 (hx outcomes r.1 r.2 hone) r.2 b rest hrun

theorem imp {x : AllocM ε α} {p' : α → Prop} (hx : Returns x p) (h : ∀ a, p a → p' a) :
    Returns x p' := fun outcomes a rest hrun => h a (hx outcomes a rest hrun)

theorem of_result {x : AllocM ε α} {a : α} (hx : Returns x p) (h : x.result = .ok a) : p a := by
  unfold result at h
  cases hrun : x.run [] with
  | error err =>
      rw [hrun] at h
      cases h
  | ok r =>
      rw [hrun] at h
      cases h
      exact hx [] r.1 r.2 hrun

end Returns

/-- Whatever becomes of its allocations, what `x` gives up with is `p`. -/
def GivesUp (x : AllocM ε α) (p : ε → Prop) : Prop :=
  ∀ outcomes err, x.run outcomes = .error err → p err

namespace GivesUp

variable {p : ε → Prop}

theorem pure (a : α) : GivesUp (Pure.pure a) p := by
  rintro outcomes err ⟨⟩

theorem throw {err : ε} (h : p err) : GivesUp (MonadExcept.throw err : AllocM ε α) p := by
  rintro outcomes err' ⟨⟩
  exact h

theorem alloc (h : p e) : GivesUp (alloc e) p := by
  intro outcomes err hrun
  cases outcomes with
  | nil => cases hrun
  | cons ok outcomes =>
      cases ok with
      | true => cases hrun
      | false =>
          cases hrun
          exact h

theorem bind {x : AllocM ε α} {f : α → AllocM ε β} (hx : GivesUp x p)
    (hf : ∀ a, GivesUp (f a) p) : GivesUp (x >>= f) p := by
  intro outcomes err hrun
  rw [run_bind] at hrun
  cases hone : x.run outcomes with
  | error err' =>
      rw [hone] at hrun
      cases hrun
      exact hx outcomes err hone
  | ok r =>
      rw [hone] at hrun
      exact hf r.1 r.2 err hrun

/-- A program gives up with what it does, or for want of memory. -/
theorem of_does {x : AllocM ε α} {r : Except ε α} (hx : Does e x r) (he : p e)
    (hr : ∀ err, r = .error err → p err) : GivesUp x p := by
  obtain ⟨n, hn⟩ := hx
  intro outcomes err hrun
  rw [hn] at hrun
  split at hrun
  · cases hrun
    exact he
  · cases r with
    | error err' =>
        cases hrun
        exact hr err rfl
    | ok a => cases hrun

theorem of_result {x : AllocM ε α} {err : ε} (hx : GivesUp x p) (h : x.result = .error err) :
    p err := by
  unfold result at h
  cases hrun : x.run [] with
  | error err' =>
      rw [hrun] at h
      cases h
      exact hx [] err hrun
  | ok r =>
      rw [hrun] at h
      cases h

end GivesUp

end AllocM

end UkfsFuse.Core
