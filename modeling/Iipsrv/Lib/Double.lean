/-
# Numbers of 53 binary digits

A `double` holds 53 binary digits.  `double` rounds a number to them, in units of its 53rd digit and
to the nearest even multiple.  How far the exponent reaches is left open, as for `single`.

A quotient of two whole numbers stays at least one part of the divisor away from the next whole
number, unless it is one; the rounding moves it by less, as long as the dividend has fewer digits
than a `double`.  So `ceil` of such a quotient is EXACT (`ceil_double_div`).
-/
import Mathlib.Algebra.Order.Floor.Div
import Mathlib.GroupTheory.GroupAction.Ring
import Iipsrv.Lib.Single

namespace Lib.Double

open Lib.Single (nearestEven nearestEven_intCast)

/-! ## 1. Rounding to 53 binary digits -/

theorem abs_nearestEven_sub_le (x : ℚ) : |(nearestEven x : ℚ) - x| ≤ 1 / 2 := by
  have hlo := Int.floor_le x
  have hhi := Int.lt_floor_add_one x
  unfold nearestEven
  rw [abs_le]
  split
  case isTrue h =>
    push_cast
    rcases h with h | ⟨h, -⟩ <;> constructor <;> linarith
  case isFalse h =>
    push Not at h
    constructor <;> linarith [h.1]

/-- The unit of the 53rd digit. -/
def unit (q : ℚ) : ℚ := 2 ^ (Int.log 2 |q| - 52)

/-- The number that a `double` holds for `q`. -/
def double (q : ℚ) : ℚ := nearestEven (q / unit q) * unit q

theorem unit_pos (q : ℚ) : 0 < unit q := zpow_pos (by norm_num) _

theorem unit_mul (q : ℚ) : unit q * 2 ^ 52 = 2 ^ Int.log 2 |q| := by
  unfold unit
  rw [← zpow_natCast, ← zpow_add₀ (by norm_num)]
  norm_num

/-- **The error of a `double`** is half a unit. -/
theorem abs_double_sub_le {q : ℚ} (hq : q ≠ 0) : |double q - q| * 2 ^ 53 ≤ |q| := by
  have hunit := unit_pos q
  have herror : |double q - q| ≤ 1 / 2 * unit q := by
    have hq' : double q - q = (nearestEven (q / unit q) - q / unit q) * unit q := by
      unfold double
      rw [sub_mul, div_mul_cancel₀ _ hunit.ne']
    rw [hq', abs_mul, abs_of_pos hunit]
    exact mul_le_mul_of_nonneg_right (abs_nearestEven_sub_le _) hunit.le
  calc |double q - q| * 2 ^ 53 ≤ 1 / 2 * unit q * 2 ^ 53 := by
        exact mul_le_mul_of_nonneg_right herror (by norm_num)
    _ = unit q * 2 ^ 52 := by ring
    _ = 2 ^ Int.log 2 |q| := unit_mul q
    _ ≤ |q| := Int.zpow_log_le_self (by norm_num) (abs_pos.mpr hq)

/-- Whole numbers of fewer digits are held as they are. -/
theorem double_intCast {n : ℤ} (hn : |n| < 2 ^ 53) : double n = n := by
  rcases eq_or_ne n 0 with rfl | hzero
  · unfold double
    rw [Int.cast_zero, zero_div, ← Int.cast_zero, nearestEven_intCast, Int.cast_zero, zero_mul]
  -- the unit is a part of one, so the number is a whole multiple of it
  have hpos : (0 : ℚ) < |(n : ℚ)| := abs_pos.mpr (Int.cast_ne_zero.mpr hzero)
  have hlog : Int.log 2 |(n : ℚ)| < 53 := by
    rw [← Int.lt_zpow_iff_log_lt (by norm_num) hpos]
    exact_mod_cast hn
  obtain ⟨m, hm⟩ := Int.eq_ofNat_of_zero_le (show 0 ≤ 52 - Int.log 2 |(n : ℚ)| by omega)
  have hunit : unit n * 2 ^ m = 1 := by
    unfold unit
    rw [← zpow_natCast, ← hm, ← zpow_add₀ (by norm_num), sub_add_sub_cancel, sub_self, zpow_zero]
  have hquotient : (n : ℚ) / unit n = ((n * 2 ^ m : ℤ) : ℚ) := by
    rw [div_eq_iff (unit_pos _).ne']
    push_cast
    rw [mul_assoc, mul_comm (2 ^ m), hunit, mul_one]
  unfold double
  rw [hquotient, nearestEven_intCast, ← hquotient, div_mul_cancel₀ _ (unit_pos _).ne']

/-! ## 2. Quotients -/

/-- **The quotient of two whole numbers is not rounded past a whole number.** -/
theorem ceil_double_div {a b : ℤ} (ha : |a| < 2 ^ 53) (hb : 0 < b) :
    ⌈double ((a : ℚ) / b)⌉ = ⌈(a : ℚ) / b⌉ := by
  have hb' : (0 : ℚ) < b := Int.cast_pos.mpr hb
  set q : ℚ := (a : ℚ) / b with hq
  set n : ℤ := ⌈q⌉ with hn
  have hmul : q * b = a := div_mul_cancel₀ _ hb'.ne'
  have hceil : (n : ℚ) - 1 < q ∧ q ≤ n := Int.ceil_eq_iff.mp hn.symm
  rcases hceil.2.eq_or_lt with hwhole | hlt
  · -- a whole number
    have hprod : n * b = a := by
      rw [hwhole] at hmul
      exact_mod_cast hmul
    have habs : |n| ≤ |a| := by
      rw [← hprod, abs_mul]
      exact le_mul_of_one_le_right (abs_nonneg n) (by rw [abs_of_pos hb]; omega)
    rw [hwhole, double_intCast (habs.trans_lt ha), Int.ceil_intCast]
  · -- between two of them, and not closer to either than one part of `b`
    have hne : q ≠ 0 := by
      intro h0
      rw [hn, h0, Int.ceil_zero, Int.cast_zero] at hlt
      exact lt_irrefl _ hlt
    have hscaled : |q| * b = |(a : ℚ)| := by
      rw [← hmul, abs_mul, abs_of_pos hb']
    have ha' : |(a : ℚ)| < 2 ^ 53 := by exact_mod_cast ha
    have herror : |(double q - q) * b| < 1 := by
      have hle := mul_le_mul_of_nonneg_right (abs_double_sub_le hne) hb'.le
      rw [hscaled] at hle
      rw [abs_mul, abs_of_pos hb']
      linarith
    rw [sub_mul, hmul, abs_lt] at herror
    have hlo : (n - 1) * b + 1 ≤ a := by
      have : ((n : ℚ) - 1) * b < a := hmul ▸ mul_lt_mul_of_pos_right hceil.1 hb'
      have : (n - 1) * b < a := by exact_mod_cast this
      omega
    have hhi : a + 1 ≤ n * b := by
      have : (a : ℚ) < n * b := hmul ▸ mul_lt_mul_of_pos_right hlt hb'
      have : a < n * b := by exact_mod_cast this
      omega
    have hlo' : ((n : ℚ) - 1) * b + 1 ≤ a := by exact_mod_cast hlo
    have hhi' : (a : ℚ) + 1 ≤ n * b := by exact_mod_cast hhi
    rw [Int.ceil_eq_iff]
    constructor
    · exact lt_of_mul_lt_mul_right (by linarith) hb'.le
    · exact le_of_mul_le_mul_right (by linarith) hb'

theorem ceilDiv_bounds {a b : Nat} (hb : 0 < b) :
    a ≤ (a ⌈/⌉ b) * b ∧ (a ⌈/⌉ b) * b < a + b := by
  rw [Nat.ceilDiv_eq_add_pred_div]
  have hdiv := Nat.div_add_mod (a + b - 1) b
  have hmod := Nat.mod_lt (a + b - 1) hb
  rw [Nat.mul_comm] at hdiv
  omega

/-- The ceiling of a quotient is the quotient rounded up. -/
theorem ceil_natCast_div {a b : Nat} (hb : 0 < b) : ⌈(a : ℚ) / b⌉ = ((a ⌈/⌉ b : Nat) : Int) := by
  have hpos : (0 : ℚ) < b := Nat.cast_pos.mpr hb
  obtain ⟨hle, hlt⟩ := @ceilDiv_bounds a b hb
  have hle' : (a : ℚ) ≤ (a ⌈/⌉ b : Nat) * b := by exact_mod_cast hle
  have hlt' : ((a ⌈/⌉ b : Nat) : ℚ) * b < a + b := by exact_mod_cast hlt
  rw [Int.ceil_eq_iff, Int.cast_natCast]
  constructor
  · rw [lt_div_iff₀ hpos]
    linarith
  · rwa [div_le_iff₀ hpos]

theorem ceilDiv_of_lt {a b : Nat} (h : a < b) : a ⌈/⌉ b = if 1 ≤ a then 1 else 0 := by
  rw [Nat.ceilDiv_eq_add_pred_div]
  split
  · exact Nat.div_eq_of_lt_le (by omega) (by omega)
  · exact Nat.div_eq_of_lt (by omega)

end Lib.Double
