import Mathlib.Data.List.GetD
import Mathlib.Data.List.TakeWhile
import Mathlib.Data.Nat.ModEq

/-!
# Bytes in memory

A memory is a map from offsets to bytes; an object of `n` bytes is looked at
only below `n`. Structures are laid out by writing their fields one after the
other, so what a reader needs is one lemma for a field that was written and
one for a field the write left alone (`read_write_same`, `read_write_before`,
`read_write_after`).

Words are little-endian, C strings end at their first NUL.
-/

namespace UkfsFuse.Core

/-- Byte contents by offset. -/
abbrev Mem := Nat → UInt8

namespace Mem

/-- `memcpy(m + off, bs, bs.length)` -/
def write (m : Mem) (off : Nat) (bs : List UInt8) : Mem := fun i =>
  if off ≤ i ∧ i < off + bs.length then bs.getD (i - off) 0 else m i

/-- The `n` bytes at `off`. -/
def read (m : Mem) : Nat → Nat → List UInt8
  | _, 0 => []
  | off, n + 1 => m off :: m.read (off + 1) n

/-- `write` into an object of `size` bytes; `none` when it does not fit. -/
def writeIn (size : Nat) (m : Mem) (off : Nat) (bs : List UInt8) : Option Mem :=
  if off + bs.length ≤ size then some (m.write off bs) else none

/-- The object whose bytes are `bs`. -/
def ofList (bs : List UInt8) : Mem := fun i => bs.getD i 0

variable {m m' : Mem} {off o n k : Nat} {bs : List UInt8}

@[simp] theorem length_read : (m.read off n).length = n := by
  induction n generalizing off with
  | zero => rfl
  | succ n ih => simp [read, ih]

theorem read_congr (h : ∀ i, off ≤ i → i < off + n → m i = m' i) :
    m.read off n = m'.read off n := by
  induction n generalizing off with
  | zero => rfl
  | succ n ih =>
      have hhead : m off = m' off := h off (Nat.le_refl _) (by omega)
      have htail : m.read (off + 1) n = m'.read (off + 1) n :=
        ih fun i hi hlt => h i (by omega) (by omega)
      simp only [read, hhead, htail]

/-- Nothing behind a write changes. -/
theorem write_of_le (h : off + bs.length ≤ o) : m.write off bs o = m o :=
  if_neg (by omega)

/-- A write is not seen by a read that ends before it. -/
theorem read_write_before (h : o + n ≤ off) : (m.write off bs).read o n = m.read o n := by
  apply read_congr
  intro i hi hlt
  simp only [write]
  rw [if_neg (by omega)]

/-- A write is not seen by a read that starts behind it. -/
theorem read_write_after (h : off + bs.length ≤ o) :
    (m.write off bs).read o n = m.read o n :=
  read_congr fun _ hi _ => write_of_le (Nat.le_trans h hi)

/-- Two memories that agree with a list read as that list. -/
theorem read_eq_of_getD (h : ∀ i, i < bs.length → m (off + i) = bs.getD i 0) :
    m.read off bs.length = bs := by
  induction bs generalizing off with
  | nil => rfl
  | cons b bs ih =>
      have hhead : m off = b := by simpa using h 0 (by simp)
      have htail : m.read (off + 1) bs.length = bs := by
        apply ih
        intro i hi
        have := h (i + 1) (by simpa using hi)
        rw [show off + (i + 1) = off + 1 + i by omega] at this
        simpa using this
      simp only [List.length_cons, read, hhead, htail]

/-- What was written is read back. -/
theorem read_write_same : (m.write off bs).read off bs.length = bs := by
  apply read_eq_of_getD
  intro i hi
  simp only [write]
  rw [if_pos (by omega), show off + i - off = i by omega]

theorem read_ofList : (ofList bs).read 0 bs.length = bs :=
  read_eq_of_getD fun i _ => by simp [ofList]

/-- One write of two pieces is two writes. -/
theorem write_append {cs : List UInt8} :
    m.write off (bs ++ cs) = (m.write off bs).write (off + bs.length) cs := by
  funext i
  simp only [write, List.length_append]
  by_cases hlow : i < off + bs.length
  · rw [if_neg (c := off + bs.length ≤ i ∧ _) (by omega)]
    by_cases hoff : off ≤ i
    · rw [if_pos (by omega), if_pos (by omega)]
      rw [List.getD_append _ _ _ _ (by omega)]
    · rw [if_neg (by omega), if_neg (by omega)]
  · by_cases hhigh : i < off + bs.length + cs.length
    · rw [if_pos (by omega), if_pos (by omega)]
      rw [List.getD_append_right _ _ _ _ (by omega)]
      congr 1
      omega
    · rw [if_neg (by omega), if_neg (by omega), if_neg (by omega)]

/-- An object built from two pieces, read in its second piece. -/
theorem read_ofList_append {cs : List UInt8} :
    (ofList (bs ++ cs)).read (bs.length + off) n = (ofList cs).read off n := by
  induction n generalizing off with
  | zero => rfl
  | succ n ih =>
      have hhead : ofList (bs ++ cs) (bs.length + off) = ofList cs off := by
        simp only [ofList]
        rw [List.getD_append_right _ _ _ _ (by omega)]
        congr 1
        omega
      simp only [read, hhead]
      rw [show bs.length + off + 1 = bs.length + (off + 1) by omega, ih]

/-- A read inside the first piece does not see the second. -/
theorem read_ofList_append_left {cs : List UInt8} (h : off + n ≤ bs.length) :
    (ofList (bs ++ cs)).read off n = (ofList bs).read off n := by
  apply read_congr
  intro i hi hlt
  simp only [ofList]
  rw [List.getD_append _ _ _ _ (by omega)]

theorem writeIn_eq_some {size : Nat} (h : off + bs.length ≤ size) :
    m.writeIn size off bs = some (m.write off bs) := by
  simp [writeIn, h]

end Mem

/-! ## Words -/

/-- The `n` low bytes of `v`, least significant first. -/
def wordBytes : Nat → Nat → List UInt8
  | 0, _ => []
  | n + 1, v => .ofNat v :: wordBytes n (v / 256)

/-- The value of a byte list, least significant first. -/
def wordNat : List UInt8 → Nat
  | [] => 0
  | b :: bs => b.toNat + 256 * wordNat bs

@[simp] theorem length_wordBytes (n v : Nat) : (wordBytes n v).length = n := by
  induction n generalizing v with
  | zero => rfl
  | succ n ih => simp [wordBytes, ih]

theorem wordNat_wordBytes (n v : Nat) : wordNat (wordBytes n v) = v % 256 ^ n := by
  induction n generalizing v with
  | zero => simp [wordBytes, wordNat, Nat.mod_one]
  | succ n ih =>
      have hbyte : (UInt8.ofNat v).toNat = v % 256 := by simp
      simp only [wordBytes, wordNat, ih, hbyte]
      rw [pow_succ, Nat.mul_comm (256 ^ n) 256, Nat.mod_mul]

def u32Bytes (v : UInt32) : List UInt8 := wordBytes 4 v.toNat

def u64Bytes (v : UInt64) : List UInt8 := wordBytes 8 v.toNat

def Mem.u32At (m : Mem) (off : Nat) : UInt32 := .ofNat (wordNat (m.read off 4))

def Mem.u64At (m : Mem) (off : Nat) : UInt64 := .ofNat (wordNat (m.read off 8))

@[simp] theorem length_u32Bytes (v : UInt32) : (u32Bytes v).length = 4 := length_wordBytes ..

@[simp] theorem length_u64Bytes (v : UInt64) : (u64Bytes v).length = 8 := length_wordBytes ..

section Words

variable {m : Mem} {off o : Nat} {bs : List UInt8}

theorem u32_of_bytes (v : UInt32) : UInt32.ofNat (wordNat (u32Bytes v)) = v := by
  have hlt : v.toNat < 256 ^ 4 := v.toNat_lt
  rw [u32Bytes, wordNat_wordBytes, Nat.mod_eq_of_lt hlt]
  simp

theorem u64_of_bytes (v : UInt64) : UInt64.ofNat (wordNat (u64Bytes v)) = v := by
  have hlt : v.toNat < 256 ^ 8 := v.toNat_lt
  rw [u64Bytes, wordNat_wordBytes, Nat.mod_eq_of_lt hlt]
  simp

@[simp] theorem u32At_write (v : UInt32) : (m.write off (u32Bytes v)).u32At off = v := by
  have hread : (m.write off (u32Bytes v)).read off 4 = u32Bytes v := by
    have hsame : (m.write off (u32Bytes v)).read off (u32Bytes v).length = u32Bytes v :=
      Mem.read_write_same
    simpa using hsame
  rw [Mem.u32At, hread, u32_of_bytes]

@[simp] theorem u64At_write (v : UInt64) : (m.write off (u64Bytes v)).u64At off = v := by
  have hread : (m.write off (u64Bytes v)).read off 8 = u64Bytes v := by
    have hsame : (m.write off (u64Bytes v)).read off (u64Bytes v).length = u64Bytes v :=
      Mem.read_write_same
    simpa using hsame
  rw [Mem.u64At, hread, u64_of_bytes]

/-- A read sees only the bytes it covers. -/
theorem Mem.read_write_disjoint {n : Nat} (h : o + n ≤ off ∨ off + bs.length ≤ o) :
    (m.write off bs).read o n = m.read o n := by
  rcases h with h | h
  · exact read_write_before h
  · exact read_write_after h

/-! Each field of a structure is disjoint from every other: the four cases of a
field read over a field write, stated so that the side condition is arithmetic. -/

theorem u32At_write_u32 {v : UInt32} (h : o + 4 ≤ off ∨ off + 4 ≤ o) :
    (m.write off (u32Bytes v)).u32At o = m.u32At o := by
  rw [Mem.u32At, Mem.read_write_disjoint (by simpa using h), Mem.u32At]

theorem u32At_write_u64 {v : UInt64} (h : o + 4 ≤ off ∨ off + 8 ≤ o) :
    (m.write off (u64Bytes v)).u32At o = m.u32At o := by
  rw [Mem.u32At, Mem.read_write_disjoint (by simpa using h), Mem.u32At]

theorem u64At_write_u32 {v : UInt32} (h : o + 8 ≤ off ∨ off + 4 ≤ o) :
    (m.write off (u32Bytes v)).u64At o = m.u64At o := by
  rw [Mem.u64At, Mem.read_write_disjoint (by simpa using h), Mem.u64At]

theorem u64At_write_u64 {v : UInt64} (h : o + 8 ≤ off ∨ off + 8 ≤ o) :
    (m.write off (u64Bytes v)).u64At o = m.u64At o := by
  rw [Mem.u64At, Mem.read_write_disjoint (by simpa using h), Mem.u64At]

theorem u32At_write_disjoint (h : o + 4 ≤ off ∨ off + bs.length ≤ o) :
    (m.write off bs).u32At o = m.u32At o := by
  rw [Mem.u32At, Mem.read_write_disjoint h, Mem.u32At]

theorem u64At_write_disjoint (h : o + 8 ≤ off ∨ off + bs.length ≤ o) :
    (m.write off bs).u64At o = m.u64At o := by
  rw [Mem.u64At, Mem.read_write_disjoint h, Mem.u64At]

/-! Fields of an object given as a list: the front one, and those behind it. -/

theorem Mem.read_ofList_front {cs : List UInt8} :
    (Mem.ofList (bs ++ cs)).read 0 bs.length = bs := by
  rw [Mem.read_ofList_append_left (by simp), Mem.read_ofList]

theorem u64At_front (v : UInt64) (cs : List UInt8) :
    (Mem.ofList (u64Bytes v ++ cs)).u64At 0 = v := by
  have hread : (Mem.ofList (u64Bytes v ++ cs)).read 0 8 = u64Bytes v := by
    have hfront : (Mem.ofList (u64Bytes v ++ cs)).read 0 (u64Bytes v).length = u64Bytes v :=
      Mem.read_ofList_front
    simpa using hfront
  rw [Mem.u64At, hread, u64_of_bytes]

theorem u32At_front (v : UInt32) (cs : List UInt8) :
    (Mem.ofList (u32Bytes v ++ cs)).u32At 0 = v := by
  have hread : (Mem.ofList (u32Bytes v ++ cs)).read 0 4 = u32Bytes v := by
    have hfront : (Mem.ofList (u32Bytes v ++ cs)).read 0 (u32Bytes v).length = u32Bytes v :=
      Mem.read_ofList_front
    simpa using hfront
  rw [Mem.u32At, hread, u32_of_bytes]

theorem Mem.read_behind {cs : List UInt8} {n : Nat} (h : bs.length ≤ o) :
    (Mem.ofList (bs ++ cs)).read o n = (Mem.ofList cs).read (o - bs.length) n := by
  obtain ⟨k, rfl⟩ := Nat.exists_eq_add_of_le h
  rw [Mem.read_ofList_append, Nat.add_sub_cancel_left]

theorem u64At_behind {cs : List UInt8} (h : bs.length ≤ o) :
    (Mem.ofList (bs ++ cs)).u64At o = (Mem.ofList cs).u64At (o - bs.length) := by
  rw [Mem.u64At, Mem.read_behind h, Mem.u64At]

theorem u32At_behind {cs : List UInt8} (h : bs.length ≤ o) :
    (Mem.ofList (bs ++ cs)).u32At o = (Mem.ofList cs).u32At (o - bs.length) := by
  rw [Mem.u32At, Mem.read_behind h, Mem.u32At]

end Words

/-! ## C strings -/

/-- The bytes of a C string, without its terminating NUL. -/
structure CStr where
  bytes : List UInt8
  noNul : 0 ∉ bytes
deriving DecidableEq

namespace CStr

/-- `strlen` -/
def strlen (s : CStr) : Nat := s.bytes.length

/-- The string as it lies in memory. -/
def toBytes (s : CStr) : List UInt8 := s.bytes ++ [0]

/-- `strndup(bs, n)` for an allocation that succeeds: at most `n` bytes, ending
early at a NUL. -/
def strndup (bs : List UInt8) (n : Nat) : CStr where
  bytes := (bs.take n).takeWhile (· ≠ 0)
  noNul h := by simpa using List.mem_takeWhile_imp h

/-- A string is the copy of its own bytes, whatever lies behind them. -/
theorem strndup_append (s : CStr) (rest : List UInt8) :
    strndup (s.bytes ++ rest) s.strlen = s := by
  have hne : ∀ b ∈ s.bytes, decide (b ≠ 0) = true := by
    intro b hb
    have : b ≠ 0 := fun h => s.noNul (h ▸ hb)
    simpa using this
  have hbytes : (strndup (s.bytes ++ rest) s.strlen).bytes = s.bytes := by
    simp only [strndup, strlen, List.take_append_length]
    exact List.takeWhile_eq_self_iff.mpr hne
  cases s
  simpa [strndup] using hbytes

@[simp] theorem length_toBytes (s : CStr) : s.toBytes.length = s.strlen + 1 := by
  simp [toBytes, strlen]

end CStr

/-- The bytes at `off` up to the first NUL, which is looked for in the next
`n` bytes. -/
def Mem.bytesToNul (m : Mem) : Nat → Nat → Option (List UInt8)
  | _, 0 => none
  | off, n + 1 => if m off = 0 then some [] else (m.bytesToNul (off + 1) n).map (m off :: ·)

theorem Mem.bytesToNul_noNul {m : Mem} {off n : Nat} {bs : List UInt8}
    (h : m.bytesToNul off n = some bs) : 0 ∉ bs := by
  induction n generalizing off bs with
  | zero => simp [bytesToNul] at h
  | succ n ih =>
      simp only [bytesToNul] at h
      split at h
      · obtain rfl := Option.some.inj h
        simp
      · rename_i hne
        obtain ⟨rest, hrest, rfl⟩ := Option.map_eq_some_iff.mp h
        have := ih hrest
        simp only [List.mem_cons, not_or]
        exact ⟨fun heq => hne heq.symm, this⟩

/-- The C string a `const char *` into an object of `off + n` bytes denotes. -/
def Mem.cstrAt (m : Mem) (off n : Nat) : Option CStr :=
  match h : m.bytesToNul off n with
  | none => none
  | some bs => some ⟨bs, bytesToNul_noNul h⟩

theorem bytesToNul_of_getD {m : Mem} {off n : Nat} {bs : List UInt8} (hnul : 0 ∉ bs)
    (hlen : bs.length < n) (hbytes : ∀ i, i < bs.length → m (off + i) = bs.getD i 0)
    (hend : m (off + bs.length) = 0) : m.bytesToNul off n = some bs := by
  induction bs generalizing off n with
  | nil =>
      obtain ⟨k, rfl⟩ : ∃ k, n = k + 1 := Nat.exists_eq_succ_of_ne_zero (by simpa using hlen.ne')
      have hzero : m off = 0 := by simpa using hend
      simp [Mem.bytesToNul, hzero]
  | cons b bs ih =>
      obtain ⟨k, rfl⟩ : ∃ k, n = k + 1 := Nat.exists_eq_succ_of_ne_zero (by omega)
      have hhead : m off = b := by simpa using hbytes 0 (by simp)
      have hb : b ≠ 0 := fun h => hnul (by simp [h])
      have htail : m.bytesToNul (off + 1) k = some bs := by
        apply ih (fun h => hnul (List.mem_cons_of_mem _ h))
        · simpa using hlen
        · intro i hi
          have := hbytes (i + 1) (by simpa using hi)
          rw [show off + (i + 1) = off + 1 + i by omega] at this
          simpa using this
        · rw [List.length_cons, show off + (bs.length + 1) = off + 1 + bs.length by omega] at hend
          exact hend
      simp [Mem.bytesToNul, hhead, hb, htail]

theorem Mem.bytesToNul_congr {m m' : Mem} {off n : Nat} (h : ∀ i, off ≤ i → m i = m' i) :
    m.bytesToNul off n = m'.bytesToNul off n := by
  induction n generalizing off with
  | zero => rfl
  | succ n ih =>
      have hhead : m off = m' off := h off (Nat.le_refl _)
      have htail : m.bytesToNul (off + 1) n = m'.bytesToNul (off + 1) n :=
        ih fun i hi => h i (by omega)
      simp only [bytesToNul, hhead, htail]

theorem Mem.cstrAt_eq {m : Mem} {off n : Nat} (s : CStr) (h : m.bytesToNul off n = some s.bytes) :
    m.cstrAt off n = some s := by
  unfold cstrAt
  split
  · rename_i hnone
    rw [h] at hnone
    exact absurd hnone (by simp)
  · rename_i bs hbs
    rw [h] at hbs
    obtain rfl := Option.some.inj hbs
    rfl

/-- A string copied with its NUL is the string a reader finds there, whatever
is written in front of it afterwards. -/
theorem cstrAt_write {m : Mem} {off n : Nat} (s : CStr) (hlen : s.strlen < n) {o : Nat}
    {bs : List UInt8} (hbefore : o + bs.length ≤ off) :
    ((m.write off s.toBytes).write o bs).cstrAt off n = some s := by
  have hat : ∀ i, i < s.toBytes.length →
      (m.write off s.toBytes) (off + i) = s.toBytes.getD i 0 := by
    intro i hi
    simp only [Mem.write]
    rw [if_pos (by omega), show off + i - off = i by omega]
  have hbytes : (m.write off s.toBytes).bytesToNul off n = some s.bytes := by
    apply bytesToNul_of_getD s.noNul hlen
    · intro i hi
      rw [hat i (by simp [CStr.strlen]; omega), CStr.toBytes, List.getD_append _ _ _ _ hi]
    · rw [hat _ (by simp [CStr.strlen]), CStr.toBytes,
        List.getD_append_right _ _ _ _ (Nat.le_refl _)]
      simp
  apply Mem.cstrAt_eq
  rw [← hbytes]
  apply Mem.bytesToNul_congr
  intro i hi
  simp only [Mem.write]
  rw [if_neg (c := o ≤ i ∧ _) (by omega)]

end UkfsFuse.Core
