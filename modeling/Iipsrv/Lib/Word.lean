/-
# 32 bit words

The `unsigned int`s of the source, as natural numbers below `2 ^ 32`.
-/
import Mathlib.Algebra.Group.Nat.Defs
import Mathlib.Algebra.Group.Int.Defs

namespace Lib.Word

/-- The value an `unsigned int` holds. -/
def u32 (n : Nat) : Nat := n % 2 ^ 32

/-- Subtraction of two `unsigned int`s, wrapping below zero. -/
def sub32 (a b : Nat) : Nat := if b ≤ a then a - b else 2 ^ 32 - (b - a)

/-- An `int` converted to `unsigned int`. -/
def toUnsigned (x : Int) : Nat := (x % 2 ^ 32).toNat

theorem toNat_toUInt32 (x : Int32) : x.toUInt32.toNat = toUnsigned x.toInt := by
  have hnat : x.toUInt32.toNat = x.toBitVec.toNat := rfl
  have hint : x.toInt = x.toBitVec.toInt := rfl
  have hlt := x.toBitVec.isLt
  rw [toUnsigned, hnat, hint, BitVec.toInt_eq_toNat_cond]
  split <;> omega

theorem toUnsigned_natCast {n : Nat} (h : n < 2 ^ 32) : toUnsigned n = n := by
  unfold toUnsigned
  omega

theorem u32_lt (n : Nat) : u32 n < 2 ^ 32 := Nat.mod_lt n (by decide)

/-- A word holds exactly the numbers below `2 ^ 32`. -/
theorem u32_eq_self_iff {n : Nat} : u32 n = n ↔ n < 2 ^ 32 := by
  unfold u32
  rw [Nat.mod_eq_iff_lt (by decide)]

theorem u32_of_lt {n : Nat} (h : n < 2 ^ 32) : u32 n = n := Nat.mod_eq_of_lt h

theorem sub32_of_le {a b : Nat} (h : b ≤ a) : sub32 a b = a - b := if_pos h

end Lib.Word
