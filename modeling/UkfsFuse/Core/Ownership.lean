import Mathlib.Data.Set.Basic
import Mathlib.Logic.Function.Basic
import Mathlib.Logic.ExistsUnique

/-!
# Tokens and the places that hold them

Tokens `T` are handed around between places `P`. A program does not store
where a token is; it shows in the state of whoever holds it. `Owned holds
owner` says that the places which hold a token, read off the state, are
exactly the one place `owner` names: no token is at two places at once.

A step of the program that leaves the tokens alone, brings in a token, passes
one on, drops one or empties a place keeps some `owner` true; each of the five
has its rule.
-/

namespace UkfsFuse.Core

variable {P T : Type*}

/-- `holds p t`, "token `t` is at place `p`", says of every token what `owner`
says. -/
def Owned (holds : P → T → Prop) (owner : T → Option P) : Prop :=
  ∀ p t, holds p t ↔ owner t = some p

namespace Owned

variable {holds holds' : P → T → Prop} {owner : T → Option P} {p q p₀ p₁ : P} {t t₀ : T}

/-- No token is at two places. -/
theorem exclusive (h : Owned holds owner) (hp : holds p t) (hq : holds q t) : p = q := by
  have hown := (h p t).mp hp
  rw [(h q t).mp hq] at hown
  exact (Option.some.inj hown).symm

/-- A token with an owner is at exactly one place. -/
theorem existsUnique (h : Owned holds owner) (ht : owner t ≠ none) : ∃! p, holds p t := by
  obtain ⟨p, hp⟩ := Option.ne_none_iff_exists'.mp ht
  exact ⟨p, (h p t).mpr hp, fun q hq => h.exclusive hq ((h p t).mpr hp)⟩

/-- Nobody holds anything. -/
theorem nothing (h : ∀ p t, ¬ holds p t) : Owned holds fun _ => none :=
  fun p t => iff_of_false (h p t) (by simp)

/-- Every token stays where it is. -/
theorem same (h : Owned holds owner) (heq : ∀ p t, holds' p t ↔ holds p t) :
    Owned holds' owner :=
  fun p t => (heq p t).trans (h p t)

variable [DecidableEq T]

/-- A token that was nowhere appears at `p₁`. -/
theorem gain (h : Owned holds owner) (hfree : owner t₀ = none)
    (heq : ∀ p t, holds' p t ↔ (p = p₁ ∧ t = t₀) ∨ holds p t) :
    Owned holds' (Function.update owner t₀ (some p₁)) := by
  intro p t
  rw [heq, h p t]
  by_cases ht : t = t₀
  · subst ht
    simp [hfree, eq_comm]
  · simp [ht]

/-- The token `t₀` goes from `p₀` to `p₁`. -/
theorem move (h : Owned holds owner) (hown : owner t₀ = some p₀)
    (heq : ∀ p t, holds' p t ↔ (p = p₁ ∧ t = t₀) ∨ (holds p t ∧ ¬ (p = p₀ ∧ t = t₀))) :
    Owned holds' (Function.update owner t₀ (some p₁)) := by
  intro p t
  rw [heq, h p t]
  by_cases ht : t = t₀
  · subst ht
    simp only [hown, Function.update_self, Option.some.injEq, and_true]
    constructor
    · rintro (rfl | ⟨rfl, hne⟩)
      · rfl
      · exact absurd rfl hne
    · intro hp
      exact .inl hp.symm
  · simp [ht]

/-- The token `t₀` leaves `p₀` and goes nowhere. -/
theorem drop (h : Owned holds owner) (hown : owner t₀ = some p₀)
    (heq : ∀ p t, holds' p t ↔ holds p t ∧ ¬ (p = p₀ ∧ t = t₀)) :
    Owned holds' (Function.update owner t₀ none) := by
  intro p t
  rw [heq, h p t]
  by_cases ht : t = t₀
  · subst ht
    simp only [hown, Function.update_self, Option.some.injEq, and_true]
    constructor
    · rintro ⟨rfl, hne⟩
      exact absurd rfl hne
    · intro hp
      exact absurd hp (by simp)
  · simp [ht]

omit [DecidableEq T] in
/-- Every token at `p₀` is dropped. -/
theorem vacate (h : Owned holds owner) (p₀ : P) [DecidableEq P]
    (heq : ∀ p t, holds' p t ↔ holds p t ∧ p ≠ p₀) :
    Owned holds' fun t => if owner t = some p₀ then none else owner t := by
  intro p t
  rw [heq, h p t]
  show _ ↔ (if owner t = some p₀ then none else owner t) = some p
  by_cases hp : owner t = some p₀
  · rw [if_pos hp, hp]
    refine iff_of_false ?_ (by simp)
    rintro ⟨heq', hne⟩
    exact hne (Option.some.inj heq').symm
  · rw [if_neg hp]
    refine ⟨fun hq => hq.1, fun hq => ⟨hq, ?_⟩⟩
    rintro rfl
    exact hp hq

end Owned

end UkfsFuse.Core
