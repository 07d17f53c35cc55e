import Mathlib.Data.List.Induction

/-!
# Objects that answer calls one after the other

`SeqObject σ C R` is a sequential specification: a state, and for each call an
answer and the next state. What it answers to the first calls of a sequence
does not depend on the calls behind them (`replies_append`), so the answers to
a sequence that only grows are fixed once and for all (`replies_of_prefix`).

A concurrent program implements such an object when the calls can be put into
one sequence, in an order that extends the order in time, whose answers are
what the callers read.
-/

namespace UkfsFuse.Core

/-- A specification by a state, and the answer to each call in it. -/
structure SeqObject (σ C R : Type*) where
  init : σ
  step : σ → C → R × σ

namespace SeqObject

variable {σ C R : Type*} (o : SeqObject σ C R)

/-- The answers to a sequence of calls from state `st` on. -/
def repliesFrom : σ → List C → List R
  | _, [] => []
  | st, c :: cs => (o.step st c).1 :: repliesFrom (o.step st c).2 cs

/-- The answers to a sequence of calls. -/
def replies (cs : List C) : List R := o.repliesFrom o.init cs

/-- The state after a sequence of calls. -/
def after (cs : List C) : σ := cs.foldl (fun st c => (o.step st c).2) o.init

variable {o} {st : σ} {cs ds : List C} {i : Nat} {r : R}

theorem repliesFrom_append : o.repliesFrom st (cs ++ ds) =
    o.repliesFrom st cs ++ o.repliesFrom (cs.foldl (fun st c => (o.step st c).2) st) ds := by
  induction cs generalizing st with
  | nil => rfl
  | cons c cs ih => simp only [List.cons_append, repliesFrom, ih, List.foldl_cons]

/-- Later calls change no answer. -/
theorem replies_append :
    o.replies (cs ++ ds) = o.replies cs ++ o.repliesFrom (o.after cs) ds := repliesFrom_append

/-- An answer that was given stays what it is. -/
theorem replies_of_prefix (h : cs <+: ds) (hr : (o.replies cs)[i]? = some r) :
    (o.replies ds)[i]? = some r := by
  obtain ⟨ds', rfl⟩ := h
  rw [replies_append, List.getElem?_append_left (List.getElem?_eq_some_iff.mp hr).1, hr]

end SeqObject

end UkfsFuse.Core
