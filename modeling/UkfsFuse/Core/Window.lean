import Mathlib.Data.Finset.Card
import Mathlib.Data.Finset.Insert
import Mathlib.Logic.Function.Basic

/-!
# How many threads are inside a window

The threads of a concurrent program are indexed by an arbitrary type, and each
has a program counter. `Counts pc p n` says that exactly `n` of them are at a
program point satisfying `p`. One atomic step moves one thread, so the count
changes by the entry, the exit or neither of that thread.
-/

namespace UkfsFuse.Core

variable {T P : Type*}

/-- Exactly `n` threads have a program counter satisfying `p`. -/
def Counts (pc : T → P) (p : P → Prop) (n : Nat) : Prop :=
  ∃ A : Finset T, (∀ t, t ∈ A ↔ p (pc t)) ∧ A.card = n

namespace Counts

variable {pc : T → P} {p : P → Prop} {n : Nat}

/-- Nobody is inside. -/
theorem zero (h : ∀ t, ¬ p (pc t)) : Counts pc p 0 :=
  ⟨∅, by simpa using h, rfl⟩

/-- A thread that is inside is counted. -/
theorem pos (h : Counts pc p n) {t : T} (ht : p (pc t)) : 0 < n := by
  obtain ⟨A, hmem, rfl⟩ := h
  exact Finset.card_pos.mpr ⟨t, (hmem t).mpr ht⟩

/-- A positive count has a thread inside. -/
theorem exists_of_pos (h : Counts pc p n) (hn : 0 < n) : ∃ t, p (pc t) := by
  obtain ⟨A, hmem, rfl⟩ := h
  obtain ⟨t, ht⟩ := Finset.card_pos.mp hn
  exact ⟨t, (hmem t).mp ht⟩

variable [DecidableEq T]

/-- Thread `t` enters the window. -/
theorem enter (h : Counts pc p n) {t : T} {v : P} (hout : ¬ p (pc t)) (hin : p v) :
    Counts (Function.update pc t v) p (n + 1) := by
  obtain ⟨A, hmem, rfl⟩ := h
  refine ⟨insert t A, ?_, Finset.card_insert_of_notMem fun ht => hout ((hmem t).mp ht)⟩
  intro u
  by_cases hu : u = t
  · subst hu; simp [hin]
  · simp [hu, hmem u]

/-- Thread `t` leaves the window. -/
theorem leave (h : Counts pc p (n + 1)) {t : T} {v : P} (hin : p (pc t)) (hout : ¬ p v) :
    Counts (Function.update pc t v) p n := by
  obtain ⟨A, hmem, hcard⟩ := h
  refine ⟨A.erase t, ?_, by rw [Finset.card_erase_of_mem ((hmem t).mpr hin), hcard]; rfl⟩
  intro u
  by_cases hu : u = t
  · subst hu; simp [hout]
  · simp [hu, hmem u]

/-- Thread `t` stays on its side of the window. -/
theorem stay (h : Counts pc p n) {t : T} {v : P} (hiff : p v ↔ p (pc t)) :
    Counts (Function.update pc t v) p n := by
  obtain ⟨A, hmem, hcard⟩ := h
  refine ⟨A, ?_, hcard⟩
  intro u
  by_cases hu : u = t
  · subst hu; simp [hmem u, hiff]
  · simp [hu, hmem u]

end Counts

/-! ## Per-thread views of a history

A history is a list of events tagged with the thread they belong to. -/

/-- The events of thread `t` in a history, oldest first. -/
def eventsOf {R : Type*} [DecidableEq T] (t : T) (log : List (T × R)) : List R :=
  (log.filter fun e => e.1 = t).map Prod.snd

section EventsOf

variable {R : Type*} [DecidableEq T]

@[simp] theorem eventsOf_nil (t : T) : eventsOf t ([] : List (T × R)) = [] := rfl

@[simp] theorem eventsOf_snoc_self (t : T) (log : List (T × R)) (r : R) :
    eventsOf t (log ++ [(t, r)]) = eventsOf t log ++ [r] := by
  simp [eventsOf]

theorem eventsOf_snoc_other {t u : T} (h : u ≠ t) (log : List (T × R)) (r : R) :
    eventsOf t (log ++ [(u, r)]) = eventsOf t log := by
  simp [eventsOf, h]

/-- Each thread's events in `log` are its events in `done` followed by what
its program counter still holds: `log` records the beginnings of an operation
and `done` its ends. -/
def Tracks (pc : T → P) (hold : P → List R) (log done : List (T × R)) : Prop :=
  ∀ t, eventsOf t log = eventsOf t done ++ hold (pc t)

variable {pc : T → P} {hold : P → List R} {log done : List (T × R)} {t : T} {v : P}

theorem Tracks.keep (h : Tracks pc hold log done) (hv : hold v = hold (pc t)) :
    Tracks (Function.update pc t v) hold log done := by
  intro u
  by_cases hu : u = t
  · subst hu; simpa [hv] using h u
  · simpa [hu] using h u

/-- Thread `t` begins an operation on `r`. -/
theorem Tracks.begins {r : R} (h : Tracks pc hold log done)
    (hidle : hold (pc t) = []) (hv : hold v = [r]) :
    Tracks (Function.update pc t v) hold (log ++ [(t, r)]) done := by
  intro u
  by_cases hu : u = t
  · subst hu; simp [h u, hidle, hv]
  · simpa [hu, eventsOf_snoc_other (Ne.symm hu)] using h u

/-- Thread `t` ends its operation on `r`. -/
theorem Tracks.ends {r : R} (h : Tracks pc hold log done)
    (hbusy : hold (pc t) = [r]) (hv : hold v = []) :
    Tracks (Function.update pc t v) hold log (done ++ [(t, r)]) := by
  intro u
  by_cases hu : u = t
  · subst hu; simp [h u, hbusy, hv]
  · simpa [hu, eventsOf_snoc_other (Ne.symm hu)] using h u

end EventsOf

end UkfsFuse.Core
