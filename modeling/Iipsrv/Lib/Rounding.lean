/-
# Rounding and halving

`round`, of a number that is not negative and of any other, and sizes that are halved again and
again.  How often a size can be halved before it falls below a bound, and how often it has to be
halved until it does not exceed one, are both logarithms.
-/
import Mathlib.Data.Rat.Floor
import Mathlib.Data.Nat.Cast.Order.Field
import Mathlib.Data.Nat.Log
import Mathlib.Data.Nat.Size
import Mathlib.Tactic.Linarith

namespace Lib.Rounding

/-! ## 1. Rounding to the nearest number -/

/-- `round( x )` for `0 ≤ x`: the nearest natural number, the upper one of two. -/
def nearest (x : ℚ) : Nat := ⌊x + 1 / 2⌋₊

theorem nearest_lt_iff {x : ℚ} (hx : 0 ≤ x) {n : Nat} : nearest x < n ↔ x < n - 1 / 2 := by
  rw [nearest, Nat.floor_lt (by linarith), ← lt_sub_iff_add_lt]

theorem le_nearest_iff {x : ℚ} (hx : 0 ≤ x) {n : Nat} : n ≤ nearest x ↔ n - 1 / 2 ≤ x := by
  rw [← not_lt, nearest_lt_iff hx, not_lt]

@[simp] theorem nearest_natCast (n : Nat) : nearest n = n := by
  have hn : (0 : ℚ) ≤ n := Nat.cast_nonneg n
  apply Nat.le_antisymm
  · rw [← Nat.lt_succ_iff, nearest_lt_iff hn]
    push_cast
    linarith
  · rw [le_nearest_iff hn]
    linarith

theorem nearest_mono {x y : ℚ} (h : x ≤ y) : nearest x ≤ nearest y :=
  Nat.floor_mono (by linarith)

/-- A number that does not exceed a whole one is not rounded beyond it. -/
theorem nearest_le {x : ℚ} {n : Nat} (h : x ≤ n) : nearest x ≤ n :=
  (nearest_mono h).trans_eq (nearest_natCast n)

theorem le_nearest {x : ℚ} {n : Nat} (h : (n : ℚ) ≤ x) : n ≤ nearest x :=
  (nearest_natCast n).symm.trans_le (nearest_mono h)

/-- A part of `n` is not rounded beyond `n`. -/
theorem nearest_mul_le {x : ℚ} {n : Nat} (h1 : x ≤ 1) : nearest (x * n) ≤ n :=
  nearest_le (mul_le_of_le_one_left (Nat.cast_nonneg n) h1)

/-- `round( x )`: the nearest whole number, of two the one that is further away from zero. -/
def roundAway (x : ℚ) : Int := if 0 ≤ x then nearest x else -nearest (-x)

/-- Only what is less than a half below zero is not rounded below it. -/
theorem roundAway_nonneg_iff {x : ℚ} : 0 ≤ roundAway x ↔ -(1 / 2) < x := by
  unfold roundAway
  split
  case isTrue hx => exact iff_of_true (Int.natCast_nonneg _) (by linarith)
  case isFalse hx =>
    have hlt : nearest (-x) < 1 ↔ -x < (1 : Nat) - 1 / 2 := nearest_lt_iff (by linarith)
    rw [Nat.cast_one] at hlt
    constructor
    · intro h
      have := hlt.mp (by omega)
      linarith
    · intro h
      have := hlt.mpr (by linarith)
      omega

theorem roundAway_mono {x y : ℚ} (h : x ≤ y) : roundAway x ≤ roundAway y := by
  unfold roundAway
  split
  case isTrue hx =>
    rw [if_pos (hx.trans h)]
    exact_mod_cast nearest_mono h
  case isFalse hx =>
    split
    · omega
    · have := nearest_mono (neg_le_neg h)
      omega

theorem roundAway_le {x : ℚ} {n : Nat} (h : x ≤ n) : roundAway x ≤ n := by
  refine (roundAway_mono h).trans_eq ?_
  rw [roundAway, if_pos (Nat.cast_nonneg n), nearest_natCast]

/-! ## 2. Halving -/

/-- Halving `k` times is one division. -/
theorem iterate_half (k d : Nat) : (· / 2)^[k] d = d / 2 ^ k := by
  induction k generalizing d with
  | zero => simp
  | succ k ih =>
    rw [Function.iterate_succ_apply, ih, Nat.div_div_eq_div_mul, pow_succ, Nat.mul_comm]

/-- The size after `k` halvings lies between the exact quotient and one less. -/
theorem cast_half_le (d k : Nat) : ((d / 2 ^ k : Nat) : ℚ) ≤ (d : ℚ) / 2 ^ k := by
  have := @Nat.cast_div_le ℚ _ _ _ d (2 ^ k)
  push_cast at this
  exact this

/-- How often `d` can be halved without falling below `s`. -/
def halvings (d s : Nat) : Nat := Nat.log 2 (d / s)

theorem halvings_eq_zero {d s : Nat} (h : d / 2 < s) : halvings d s = 0 := by
  have : d < s * 2 := by omega
  exact Nat.log_of_lt (Nat.div_lt_of_lt_mul this)

theorem halvings_half {d s : Nat} (hs : 1 ≤ s) (h : s ≤ d / 2) :
    halvings d s = halvings (d / 2) s + 1 := by
  have hlog : 1 ≤ Nat.log 2 (d / s) := by
    refine Nat.log_pos (by decide) ?_
    rw [Nat.le_div_iff_mul_le hs]
    omega
  have hhalf : d / 2 / s = d / s / 2 := by
    rw [Nat.div_div_eq_div_mul, Nat.div_div_eq_div_mul, Nat.mul_comm]
  unfold halvings
  rw [hhalf, Nat.log_div_base]
  omega

/-- `k` halvings can be made exactly if there are none, or the size after them is not below
`s`. -/
theorem le_halvings_iff {d s k : Nat} (hs : 1 ≤ s) :
    k ≤ halvings d s ↔ k = 0 ∨ s ≤ d / 2 ^ k := by
  have hpow : s ≤ d / 2 ^ k ↔ 2 ^ k ≤ d / s := by
    rw [Nat.le_div_iff_mul_le (Nat.two_pow_pos k), Nat.le_div_iff_mul_le hs, Nat.mul_comm]
  rw [hpow, halvings]
  by_cases hq : d / s = 0
  · have := Nat.two_pow_pos k
    simp only [hq, Nat.log_zero_right]
    omega
  · rw [Nat.le_log_iff_pow_le (by decide) hq]
    constructor
    · exact Or.inr
    · rintro (rfl | h)
      · exact Nat.pos_of_ne_zero hq
      · exact h

/-- The number of halvings is the largest one after which the size is not below `s`. -/
theorem isGreatest_halvings (d : Nat) {s : Nat} (hs : 1 ≤ s) :
    IsGreatest {k | k = 0 ∨ s ≤ d / 2 ^ k} (halvings d s) := by
  constructor
  · exact (le_halvings_iff hs).mp le_rfl
  · intro k hk
    exact (le_halvings_iff hs).mpr hk

/-- How often `d` has to be halved until it does not exceed `m`. -/
def halvingsTo (d m : Nat) : Nat := Nat.size (d / (m + 1))

theorem halvingsTo_eq_zero {d m : Nat} (h : d ≤ m) : halvingsTo d m = 0 := by
  unfold halvingsTo
  rw [Nat.div_eq_of_lt (by omega)]
  rfl

theorem halvingsTo_half {d m : Nat} (h : m < d) : halvingsTo d m = halvingsTo (d / 2) m + 1 := by
  have hpos : d / (m + 1) ≠ 0 := Nat.ne_of_gt (Nat.div_pos h (Nat.succ_pos m))
  have hhalf : d / 2 / (m + 1) = d / (m + 1) / 2 := by
    rw [Nat.div_div_eq_div_mul, Nat.div_div_eq_div_mul, Nat.mul_comm]
  unfold halvingsTo
  rw [hhalf]
  generalize d / (m + 1) = q at hpos
  have hsize : 1 ≤ q.size := Nat.size_pos.mpr (Nat.pos_of_ne_zero hpos)
  apply Nat.le_antisymm
  · rw [Nat.size_le, pow_succ]
    have := Nat.lt_size_self (q / 2)
    omega
  · have hle : (q / 2).size ≤ q.size - 1 := by
      rw [Nat.size_le]
      have hq := Nat.lt_size_self q
      rw [← Nat.sub_add_cancel hsize, pow_succ] at hq
      omega
    omega

/-- `k` halvings are enough exactly if the size after them does not exceed `m`. -/
theorem halvingsTo_le_iff {d m k : Nat} : halvingsTo d m ≤ k ↔ d / 2 ^ k ≤ m := by
  unfold halvingsTo
  rw [Nat.size_le, Nat.div_lt_iff_lt_mul (Nat.succ_pos m), ← Nat.lt_succ_iff,
    Nat.div_lt_iff_lt_mul (Nat.two_pow_pos k), Nat.mul_comm]

end Lib.Rounding
