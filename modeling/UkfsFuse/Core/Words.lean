import Mathlib.Logic.Basic

/-!
# The halves of a word

A 64-bit word has two halves of 32 bits. Bitwise operations work on each half
by itself, and a 32-bit value has an upper half of zero: a half that was
shifted down and not shifted up again is a lower half.
-/

namespace UkfsFuse.Core

/-- Bits 0 to 31. -/
def lowHalf (n : UInt64) : UInt32 := n.toUInt32

/-- Bits 32 to 63. -/
def highHalf (n : UInt64) : UInt32 := (n >>> 32).toUInt32

variable (a b : UInt64) (x : UInt32)

theorem lowHalf_or : lowHalf (a ||| b) = lowHalf a ||| lowHalf b :=
  UInt64.toUInt32_or a b

theorem lowHalf_and : lowHalf (a &&& b) = lowHalf a &&& lowHalf b :=
  UInt64.toUInt32_and a b

@[simp] theorem lowHalf_toUInt64 : lowHalf x.toUInt64 = x :=
  UInt32.toUInt32_toUInt64 x

@[simp] theorem highHalf_toUInt64 : highHalf x.toUInt64 = 0 := by
  apply UInt32.toNat_inj.mp
  have hx := x.toNat_lt
  simp only [highHalf, UInt64.toNat_toUInt32, UInt64.toNat_shiftRight, UInt32.toNat_toUInt64,
    UInt64.reduceToNat, Nat.reduceMod, Nat.shiftRight_eq_div_pow, UInt32.toNat_zero]
  omega

end UkfsFuse.Core
