import UkfsFuse.Core.Bytes
import Mathlib.Order.Interval.Finset.Nat

/-!
# Stretches of memory

A list of stretches of any lengths that share no byte holds the bytes of its
members in order (`gather`). `fill` writes a byte string into them, one after
the other: seen through `gather` it is one flat copy (`gather_fill`), and
nothing else changes (`fill_outside`).
-/

namespace UkfsFuse.Core

/-- `len` bytes at `base`. -/
structure Span where
  base : Nat
  len : Nat
deriving DecidableEq, Repr

namespace Span

def addrs (s : Span) : Finset Nat := Finset.Ico s.base (s.base + s.len)

/-- No byte in common; an empty stretch has none. -/
def Apart (s s' : Span) : Prop := Disjoint s.addrs s'.addrs

instance : DecidableRel Apart := fun s s' => inferInstanceAs (Decidable (Disjoint s.addrs s'.addrs))

/-- The bytes a list of stretches holds. -/
def total (ss : List Span) : Nat := (ss.map len).sum

/-- The contents of a list of stretches, in order. -/
def gather (m : Mem) (ss : List Span) : List UInt8 := ss.flatMap fun s => m.read s.base s.len

/-- `bs` written into one stretch after the other, as far as they reach. -/
def fill : Mem → List Span → List UInt8 → Mem
  | m, [], _ => m
  | m, s :: ss, bs => fill (m.write s.base (bs.take s.len)) ss (bs.drop s.len)

variable {m m' : Mem} {s s' : Span} {ss : List Span} {bs : List UInt8} {i : Nat}

theorem mem_addrs : i ∈ s.addrs ↔ s.base ≤ i ∧ i < s.base + s.len := Finset.mem_Ico

theorem Apart.symm (h : s.Apart s') : s'.Apart s := Disjoint.symm h

theorem Apart.not_mem (h : s.Apart s') (hi : i ∈ s.addrs) : i ∉ s'.addrs :=
  Finset.disjoint_left.mp h hi

@[simp] theorem total_nil : total [] = 0 := rfl

@[simp] theorem total_cons : total (s :: ss) = s.len + total ss := by simp [total]

@[simp] theorem gather_nil : gather m [] = [] := rfl

@[simp] theorem gather_cons : gather m (s :: ss) = m.read s.base s.len ++ gather m ss := by
  simp [gather]

@[simp] theorem length_gather : (gather m ss).length = total ss := by
  induction ss with
  | nil => rfl
  | cons s ss ih => simp [ih]

theorem read_congr (h : ∀ i ∈ s.addrs, m i = m' i) : m.read s.base s.len = m'.read s.base s.len :=
  Mem.read_congr fun i hi hlt => h i (mem_addrs.mpr ⟨hi, hlt⟩)

theorem gather_congr (h : ∀ s ∈ ss, ∀ i ∈ s.addrs, m i = m' i) : gather m ss = gather m' ss := by
  induction ss with
  | nil => rfl
  | cons s ss ih =>
      rw [gather_cons, gather_cons, read_congr (h s List.mem_cons_self),
        ih fun s' hs' => h s' (List.mem_cons_of_mem _ hs')]

/-! ## Counting -/

/-- Stretches that share no byte and lie in a window are together no larger. -/
theorem total_le (lo hi : Nat) (hapart : ss.Pairwise Apart)
    (hin : ∀ s ∈ ss, s.addrs ⊆ Finset.Ico lo hi) : total ss ≤ hi - lo := by
  -- the addresses of the list, each counted once
  have hcovered : ∃ covered : Finset Nat, covered.card = total ss ∧ covered ⊆ Finset.Ico lo hi ∧
      ∀ i ∈ covered, ∃ s ∈ ss, i ∈ s.addrs := by
    induction ss with
    | nil => exact ⟨∅, rfl, Finset.empty_subset _, by simp⟩
    | cons s ss ih =>
        obtain ⟨hhead, htail⟩ := List.pairwise_cons.mp hapart
        obtain ⟨covered, hcard, hsub, hmem⟩ :=
          ih htail fun s' hs' => hin s' (List.mem_cons_of_mem _ hs')
        have hdisjoint : Disjoint s.addrs covered := by
          refine Finset.disjoint_left.mpr fun i hi hcov => ?_
          obtain ⟨s', hs', hi'⟩ := hmem i hcov
          exact (hhead s' hs').not_mem hi hi'
        refine ⟨s.addrs ∪ covered, ?_, ?_, ?_⟩
        · rw [Finset.card_union_of_disjoint hdisjoint, hcard, total_cons, addrs, Nat.card_Ico]
          omega
        · exact Finset.union_subset (hin s List.mem_cons_self) hsub
        · intro i hi
          rcases Finset.mem_union.mp hi with hi | hi
          · exact ⟨s, List.mem_cons_self, hi⟩
          · obtain ⟨s', hs', hi'⟩ := hmem i hi
            exact ⟨s', List.mem_cons_of_mem _ hs', hi'⟩
  obtain ⟨covered, hcard, hsub, -⟩ := hcovered
  rw [← hcard, ← Nat.card_Ico]
  exact Finset.card_le_card hsub

/-! ## Writing into stretches -/

theorem write_outside (h : ¬ (s.base ≤ i ∧ i < s.base + bs.length)) :
    m.write s.base bs i = m i := if_neg h

/-- What does not fit into the stretch is cut off, so nothing else changes. -/
theorem write_take_outside (h : i ∉ s.addrs) : m.write s.base (bs.take s.len) i = m i := by
  refine write_outside fun hi => h (mem_addrs.mpr ⟨hi.1, ?_⟩)
  have hlen := List.length_take_le s.len bs
  omega

theorem fill_outside (h : ∀ s ∈ ss, i ∉ s.addrs) : fill m ss bs i = m i := by
  induction ss generalizing m bs with
  | nil => rfl
  | cons s ss ih =>
      rw [fill, ih fun s' hs' => h s' (List.mem_cons_of_mem _ hs'),
        write_take_outside (h s List.mem_cons_self)]

theorem fill_nil : fill m ss [] = m := by
  induction ss generalizing m with
  | nil => rfl
  | cons s ss ih =>
      have hwrite : m.write s.base [] = m := by
        funext i
        exact if_neg (by simp)
      rw [fill, List.take_nil, List.drop_nil, hwrite, ih]

/-- A read of two pieces. -/
theorem read_add {off n k : Nat} : m.read off (n + k) = m.read off n ++ m.read (off + n) k := by
  induction n generalizing off with
  | zero => simp [Mem.read]
  | succ n ih =>
      rw [show n + 1 + k = (n + k) + 1 by omega, Mem.read, Mem.read, ih, List.cons_append,
        show off + 1 + n = off + (n + 1) by omega]

theorem read_take {off n k : Nat} (h : k ≤ n) : (m.read off n).take k = m.read off k := by
  obtain ⟨l, rfl⟩ := Nat.exists_eq_add_of_le h
  rw [read_add, List.take_left' Mem.length_read]

theorem read_drop {off n k : Nat} (h : k ≤ n) :
    (m.read off n).drop k = m.read (off + k) (n - k) := by
  obtain ⟨l, rfl⟩ := Nat.exists_eq_add_of_le h
  rw [read_add, List.drop_left' Mem.length_read, Nat.add_sub_cancel_left]

/-- What is left of a stretch without its first `k` bytes. -/
def drop (s : Span) (k : Nat) : Span := ⟨s.base + k, s.len - k⟩

theorem addrs_drop_subset {k : Nat} (h : k ≤ s.len) : (s.drop k).addrs ⊆ s.addrs :=
  Finset.Ico_subset_Ico (Nat.le_add_right _ _) (by simp only [drop]; omega)

theorem Apart.drop {k : Nat} (h : s.Apart s') (hk : k ≤ s.len) : (s.drop k).Apart s' :=
  Disjoint.mono_left (addrs_drop_subset hk) h

/-- A stretch apart from the one that is written to. -/
theorem read_write_apart (m : Mem) (bs : List UInt8) (h : s.Apart s') :
    (m.write s'.base (bs.take s'.len)).read s.base s.len = m.read s.base s.len :=
  read_congr fun _ hi => write_take_outside (h.not_mem hi)

/-- The stretch a byte string was written to the front of. -/
theorem read_write_front {off n : Nat} (h : bs.length ≤ n) :
    (m.write off bs).read off n = bs ++ (m.read off n).drop bs.length := by
  have hrest : (m.write off bs).read (off + bs.length) (n - bs.length) =
      m.read (off + bs.length) (n - bs.length) := Mem.read_write_after (Nat.le_refl _)
  rw [read_drop h, ← hrest, ← read_drop h]
  conv_lhs => rw [← List.take_append_drop bs.length ((m.write off bs).read off n)]
  rw [read_take h, Mem.read_write_same]

/-- Seen in order, the stretches are filled by one flat copy. -/
theorem gather_fill (m : Mem) (bs : List UInt8) (hapart : ss.Pairwise Apart) :
    gather (fill m ss bs) ss = bs.take (total ss) ++ (gather m ss).drop bs.length := by
  induction ss generalizing m bs with
  | nil => simp [fill]
  | cons s ss ih =>
      obtain ⟨hhead, htail⟩ := List.pairwise_cons.mp hapart
      have hlen : (bs.take s.len).length ≤ s.len := List.length_take_le ..
      have hfirst : (fill (m.write s.base (bs.take s.len)) ss (bs.drop s.len)).read s.base s.len =
          bs.take s.len ++ (m.read s.base s.len).drop (bs.take s.len).length := by
        rw [← read_write_front hlen]
        exact read_congr fun i hi => fill_outside fun s' hs' => (hhead s' hs').not_mem hi
      have hothers : gather (m.write s.base (bs.take s.len)) ss = gather m ss :=
        gather_congr fun s' hs' i hi => write_take_outside ((hhead s' hs').symm.not_mem hi)
      rw [fill, gather_cons, hfirst, ih _ _ htail, hothers, gather_cons, total_cons]
      by_cases hfit : s.len ≤ bs.length
      · have hnone : (m.read s.base s.len).drop bs.length = [] :=
          List.drop_eq_nil_of_le (by rw [Mem.length_read]; exact hfit)
        have hnone' : (m.read s.base s.len).drop s.len = [] :=
          List.drop_eq_nil_of_le (by rw [Mem.length_read])
        rw [List.length_take_of_le hfit, hnone', List.append_nil, List.drop_append, hnone,
          List.nil_append, Mem.length_read, List.take_add, List.append_assoc, List.length_drop]
      · have hall : bs.take s.len = bs := List.take_of_length_le (by omega)
        have hall' : bs.take (s.len + total ss) = bs := List.take_of_length_le (by omega)
        have hgone : bs.drop s.len = [] := List.drop_eq_nil_of_le (by omega)
        rw [hall, hall', hgone, List.take_nil, List.nil_append, List.length_nil, List.drop_zero,
          List.drop_append_of_le_length (by rw [Mem.length_read]; omega), List.append_assoc]

end Span

end UkfsFuse.Core
