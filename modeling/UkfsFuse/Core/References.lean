import Mathlib.Data.Fintype.Card
import Mathlib.Logic.Relation

/-!
# Counted references

An object is referenced by handles that somebody holds and by links from other
objects, and a counter keeps their number. `Balanced count handles links owed`
says that it does; `owed` is an object with one reference more in its counter,
for a reference that is on its way: taken from a handle or a link, and not yet
given back. There is one rule for each way a reference changes hands.

An object that only links keep is kept by a chain of them without an end: in a
finite world without cycles there is none (`none_of_acyclic`).
-/

namespace UkfsFuse.Core

variable {X : Type*} [DecidableEq X]

/-- `count x` is the number of handles on `x` and links to it, and one more if
a reference to it is `owed`. -/
def Balanced (count handles links : X → Nat) (owed : Option X) : Prop :=
  ∀ x, count x = handles x + links x + if owed = some x then 1 else 0

namespace Balanced

variable {count handles links links' : X → Nat} {owed : Option X} {x : X}

/-- Without a reference on its way. -/
theorem eq (h : Balanced count handles links none) (x : X) : count x = handles x + links x := by
  simpa using h x

theorem count_pos_of_handle (h : Balanced count handles links owed) (hx : 0 < handles x) :
    0 < count x := by
  have := h x
  omega

theorem count_pos_of_link (h : Balanced count handles links owed) (hx : 0 < links x) :
    0 < count x := by
  have := h x
  omega

theorem count_pos_of_owed (h : Balanced count handles links (some x)) : 0 < count x := by
  have := h x
  rw [if_pos rfl] at this
  omega

/-- A new handle on `x`. -/
theorem acquire (h : Balanced count handles links none) :
    Balanced (Function.update count x (count x + 1)) (Function.update handles x (handles x + 1))
      links none := by
  intro y
  have hy := h y
  by_cases hxy : y = x
  · subst hxy
    simp only [Function.update_self]
    omega
  · simpa [hxy] using hy

/-- A new link to `x`. -/
theorem link (h : Balanced count handles links none)
    (hlinks : ∀ y, links' y = links y + if y = x then 1 else 0) :
    Balanced (Function.update count x (count x + 1)) handles links' none := by
  intro y
  have hy := h y
  rw [hlinks]
  by_cases hxy : y = x
  · subst hxy
    simp only [Function.update_self, if_true]
    omega
  · simpa [hxy] using hy

/-- A handle is given up, and its reference not yet given back. -/
theorem drop (h : Balanced count handles links none) (hx : 0 < handles x) :
    Balanced count (Function.update handles x (handles x - 1)) links (some x) := by
  intro y
  have hy := h y
  by_cases hxy : y = x
  · subst hxy
    simp only [Function.update_self, if_true]
    simp only [reduceCtorEq, if_false] at hy
    omega
  · simpa [hxy, Ne.symm hxy] using hy

/-- A link is given up, and its reference not yet given back. -/
theorem unlink (h : Balanced count handles links none)
    (hlinks : ∀ y, links y = links' y + if y = x then 1 else 0) :
    Balanced count handles links' (some x) := by
  intro y
  have hy := h y
  rw [hlinks] at hy
  by_cases hxy : y = x
  · subst hxy
    simp only [if_true]
    simp only [if_true, reduceCtorEq, if_false] at hy
    omega
  · simpa [hxy, Ne.symm hxy] using hy

/-- The reference is given back. -/
theorem giveBack (h : Balanced count handles links (some x)) :
    Balanced (Function.update count x (count x - 1)) handles links none := by
  intro y
  have hy := h y
  by_cases hxy : y = x
  · subst hxy
    simp only [if_true] at hy
    simp only [Function.update_self, reduceCtorEq, if_false]
    omega
  · simpa [hxy, Ne.symm hxy] using hy

/-- Other links that are as many. -/
theorem congr (h : Balanced count handles links owed) (hlinks : ∀ y, links' y = links y) :
    Balanced count handles links' owed := fun y => by rw [hlinks]; exact h y

end Balanced

/-! ## Objects that keep one another -/

variable {I : Type*} (link : I → I → Prop) {kept : I → Prop}

/-- If every kept object has a link from a kept one, links have no cycle and
finitely many objects are kept, then none is. -/
theorem none_of_acyclic (hfin : {i | kept i}.Finite)
    (hacyc : ∀ i, ¬ Relation.TransGen (fun j i => kept j ∧ link j i) i i)
    (hkept : ∀ i, kept i → ∃ j, kept j ∧ link j i) (i : I) : ¬ kept i := by
  -- on the finite type of kept objects the links are well-founded
  have hwf : WellFounded fun j i : {i // kept i} =>
      Relation.TransGen (fun j i => kept j ∧ link j i) j.1 i.1 := by
    have : Finite {i // kept i} := hfin
    have : IsTrans {i // kept i} fun j i =>
        Relation.TransGen (fun j i => kept j ∧ link j i) j.1 i.1 := ⟨fun _ _ _ => .trans⟩
    have : Std.Irrefl fun j i : {i // kept i} =>
        Relation.TransGen (fun j i => kept j ∧ link j i) j.1 i.1 := ⟨fun i => hacyc i.1⟩
    exact Finite.wellFounded_of_trans_of_irrefl _
  intro hi
  have hnone : ∀ i : {i // kept i}, False := by
    intro i
    induction i using hwf.induction with
    | _ i ih =>
        obtain ⟨j, hj, hlink⟩ := hkept i.1 i.2
        exact ih ⟨j, hj⟩ (.single ⟨hj, hlink⟩)
  exact hnone ⟨i, hi⟩

end UkfsFuse.Core
