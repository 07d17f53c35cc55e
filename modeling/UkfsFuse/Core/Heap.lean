import Mathlib.Data.List.Basic

/-!
# Objects that are allocated, read and freed

A heap remembers every object ever allocated and whether it has been freed.
`load` and `free` fault on an object that has been: a program that ends
without a fault has freed nothing twice and read nothing after its `free`, and
it has leaked nothing when the heap it leaves is `Clean`.

Addresses are handed out in order, so an address names one object for ever.
-/

namespace UkfsFuse.Core

/-- An object of the heap. -/
structure Cell (α : Type*) where
  contents : α
  freed : Bool
deriving DecidableEq, Repr

/-- All objects, by the order of their allocation. -/
abbrev Heap (α : Type*) := List (Cell α)

/-- What a heap access is refused for. -/
inductive Fault
  /-- there is no such object -/
  | wild
  | loadFreed
  | freeFreed
deriving DecidableEq, Repr

namespace Heap

variable {α : Type*}

/-- The address the next object gets. -/
def next (h : Heap α) : Nat := h.length

def alloc (h : Heap α) (a : α) : Heap α := h ++ [⟨a, false⟩]

/-- `a` was allocated and freed again. -/
def retire (h : Heap α) (a : α) : Heap α := h ++ [⟨a, true⟩]

def load (h : Heap α) (p : Nat) : Except Fault α :=
  match h[p]? with
  | some ⟨a, false⟩ => .ok a
  | some ⟨_, true⟩ => .error .loadFreed
  | none => .error .wild

def free (h : Heap α) (p : Nat) : Except Fault (Heap α) :=
  match h[p]? with
  | some ⟨a, false⟩ => .ok (h.set p ⟨a, true⟩)
  | some ⟨_, true⟩ => .error .freeFreed
  | none => .error .wild

/-- Every object has been freed. -/
def Clean (h : Heap α) : Prop := ∀ c ∈ h, c.freed = true

variable {h : Heap α} {a b : α}

@[simp] theorem load_alloc : (h.alloc a).load h.next = .ok a := by
  simp [load, alloc, next]

@[simp] theorem free_alloc : (h.alloc a).free h.next = .ok (h.retire a) := by
  simp [free, alloc, next, retire]

/-- The object allocated before the last one. -/
@[simp] theorem free_alloc_alloc :
    ((h.alloc a).alloc b).free h.next = .ok ((h.retire a).alloc b) := by
  simp [free, alloc, next, retire]

@[simp] theorem next_alloc : (h.alloc a).next = (h.retire a).next := by
  simp [next, alloc, retire]

theorem clean_nil : Clean ([] : Heap α) := fun _ hc => absurd hc List.not_mem_nil

theorem Clean.retire (hclean : h.Clean) : (h.retire a).Clean := by
  intro c hc
  rcases List.mem_append.mp hc with hc | hc
  · exact hclean c hc
  · obtain rfl := List.mem_singleton.mp hc
    rfl

end Heap

end UkfsFuse.Core
