/-
# Numbers of 24 binary digits

A `float` holds 24 binary digits.  `single` rounds a number to them: it measures the number in units
of its 24th digit and takes the nearest whole multiple, of two the even one.  How far the exponent
of a `float` reaches is left open, so this is for numbers that are neither huge nor tiny.

Rounding does not reverse an order (`single_mono`), leaves alone what it has rounded
(`single_single`) and whole numbers up to `2 ^ 24` (`single_natCast`), and makes whole numbers of
whole numbers (`exists_single_natCast`).  From `2 ^ 24` on it can go UP, beyond the number it is
given.

Section 3 is about the quotient of two whole numbers as a `float`: where the numbers are small its
ceiling is the exact one (`ceil_quotient`), and so is the nearest whole number
(`nearest_quotient`).
-/
import Iipsrv.Lib.Rounding
import Mathlib.Data.Int.Log
import Mathlib.Data.Rat.Floor
import Mathlib.Algebra.Order.Ring.Rat
import Mathlib.Tactic.Linarith
import Mathlib.Tactic.FieldSimp
import Mathlib.Tactic.Ring

namespace Lib.Single

open Lib.Rounding

/-! ## 1. The nearest whole number -/

/-- The nearest whole number, of two the even one. -/
def nearestEven (x : ℚ) : ℤ :=
  if 1 < 2 * (x - ⌊x⌋) ∨ (2 * (x - ⌊x⌋) = 1 ∧ ⌊x⌋ % 2 = 1) then ⌊x⌋ + 1 else ⌊x⌋

theorem nearestEven_intCast (n : ℤ) : nearestEven n = n := by
  unfold nearestEven
  rw [Int.floor_intCast, sub_self, mul_zero, if_neg (by norm_num)]

theorem nearestEven_mono {x y : ℚ} (h : x ≤ y) : nearestEven x ≤ nearestEven y := by
  unfold nearestEven
  rcases (Int.floor_mono h).lt_or_eq with hlt | heq
  · split <;> split <;> omega
  · -- between the same two whole numbers, what takes `x` up takes `y` up
    rw [heq]
    split
    case isTrue hx =>
      rw [if_pos]
      rcases hx with hx | ⟨hx, hodd⟩
      · exact .inl (by linarith)
      · rcases h.lt_or_eq with hlt | rfl
        · exact .inl (by linarith)
        · exact .inr ⟨hx, hodd⟩
    case isFalse => split <;> omega

theorem nearestEven_le {x : ℚ} {n : ℤ} (h : x ≤ n) : nearestEven x ≤ n :=
  (nearestEven_mono h).trans_eq (nearestEven_intCast n)

theorem le_nearestEven {x : ℚ} {n : ℤ} (h : (n : ℚ) ≤ x) : n ≤ nearestEven x :=
  (nearestEven_intCast n).symm.trans_le (nearestEven_mono h)

/-- It is at most a half away. -/
theorem nearestEven_bounds (x : ℚ) : x - 1 / 2 ≤ nearestEven x ∧ nearestEven x ≤ x + 1 / 2 := by
  have hle := Int.floor_le x
  unfold nearestEven
  split
  case isTrue h =>
    push_cast
    rcases h with h | ⟨h, -⟩ <;> constructor <;> linarith [Int.lt_floor_add_one x]
  case isFalse h =>
    have hlow : ¬ 1 < 2 * (x - ⌊x⌋) := fun hlt => h (.inl hlt)
    constructor <;> linarith

/-! ## 2. Rounding to 24 digits -/

/-- The unit of the 24th digit. -/
def unit (q : ℚ) : ℚ := 2 ^ (Int.log 2 q - 23)

/-- The number that a `float` holds for `q`. -/
def single (q : ℚ) : ℚ := nearestEven (q / unit q) * unit q

theorem unit_pos (q : ℚ) : 0 < unit q := zpow_pos (by norm_num) _

theorem unit_mul (q : ℚ) (n : ℕ) : (2 : ℚ) ^ n * unit q = 2 ^ (Int.log 2 q - 23 + n) := by
  unfold unit
  rw [← zpow_natCast, ← zpow_add₀ (by norm_num), add_comm]

/-- What is rounded stays below the next power of two ... -/
theorem single_le_zpow (q : ℚ) : single q ≤ 2 ^ (Int.log 2 q + 1) := by
  have hup : (2 : ℚ) ^ 24 * unit q = 2 ^ (Int.log 2 q + 1) := by
    rw [unit_mul]
    congr 1
    omega
  have hlt : q < 2 ^ (Int.log 2 q + 1) := Int.lt_zpow_succ_log_self (by norm_num) q
  have hn : nearestEven (q / unit q) ≤ 2 ^ 24 := by
    apply nearestEven_le
    rw [div_le_iff₀ (unit_pos q)]
    push_cast
    exact hup ▸ hlt.le
  rw [← hup]
  exact mul_le_mul_of_nonneg_right (by exact_mod_cast hn) (unit_pos q).le

/-- ... and above the last one. -/
theorem zpow_le_single {q : ℚ} (hq : 0 < q) : 2 ^ Int.log 2 q ≤ single q := by
  have hlow : (2 : ℚ) ^ 23 * unit q = 2 ^ Int.log 2 q := by
    rw [unit_mul]
    congr 1
    omega
  have hle : (2 : ℚ) ^ Int.log 2 q ≤ q := Int.zpow_log_le_self (by norm_num) hq
  have hn : 2 ^ 23 ≤ nearestEven (q / unit q) := by
    apply le_nearestEven
    rw [le_div_iff₀ (unit_pos q)]
    push_cast
    exact hlow ▸ hle
  rw [← hlow]
  exact mul_le_mul_of_nonneg_right (by exact_mod_cast hn) (unit_pos q).le

@[simp] theorem single_zero : single 0 = 0 := by
  unfold single
  rw [zero_div, ← Int.cast_zero, nearestEven_intCast, Int.cast_zero, zero_mul]

/-- **Rounding does not reverse an order.** -/
theorem single_mono {p q : ℚ} (hp : 0 ≤ p) (h : p ≤ q) : single p ≤ single q := by
  rcases hp.eq_or_lt with rfl | hp
  · rw [single_zero]
    rcases h.eq_or_lt with rfl | hq
    · rw [single_zero]
    · exact (zpow_pos (by norm_num) _).le.trans (zpow_le_single hq)
  rcases (Int.log_mono_right hp h : Int.log 2 p ≤ Int.log 2 q).lt_or_eq with hlt | heq
  · -- a power of two lies between them
    calc single p ≤ 2 ^ (Int.log 2 p + 1) := single_le_zpow p
      _ ≤ 2 ^ Int.log 2 q := zpow_le_zpow_right₀ (by norm_num) hlt
      _ ≤ single q := zpow_le_single (hp.trans_le h)
  · -- both are measured in the same unit
    have hunit : unit p = unit q := by
      unfold unit
      rw [heq]
    have hn : nearestEven (p / unit q) ≤ nearestEven (q / unit q) :=
      nearestEven_mono (div_le_div_of_nonneg_right h (unit_pos q).le)
    unfold single
    rw [hunit]
    exact mul_le_mul_of_nonneg_right (by exact_mod_cast hn) (unit_pos q).le

theorem single_nonneg {q : ℚ} (hq : 0 ≤ q) : 0 ≤ single q :=
  single_zero.symm.trans_le (single_mono le_rfl hq)

/-- A whole multiple of its unit is left alone. -/
theorem single_of_dvd {q : ℚ} {n : ℤ} (h : q = n * unit q) : single q = q := by
  unfold single
  conv_lhs =>
    enter [1, 1, 1, 1]
    rw [h]
  rw [mul_div_cancel_right₀ _ (unit_pos q).ne', nearestEven_intCast, ← h]

/-- **What fits in 24 digits is left alone.** -/
theorem single_of_digits {n : ℕ} (hn : n < 2 ^ 24) (k : ℤ) : single (n * 2 ^ k) = n * 2 ^ k := by
  rcases n.eq_zero_or_pos with rfl | hpos
  · rw [Nat.cast_zero, zero_mul, single_zero]
  have htwo : (0 : ℚ) < 2 ^ k := zpow_pos (by norm_num) k
  set q : ℚ := n * 2 ^ k
  have hlog : Int.log 2 q < 24 + k := by
    rw [← Int.lt_zpow_iff_log_lt (by norm_num) (mul_pos (Nat.cast_pos.mpr hpos) htwo),
      Nat.cast_ofNat, zpow_add₀ (by norm_num)]
    exact mul_lt_mul_of_pos_right (by exact_mod_cast hn) htwo
  obtain ⟨m, hm⟩ := Int.eq_ofNat_of_zero_le (show 0 ≤ k - (Int.log 2 q - 23) by omega)
  apply single_of_dvd (n := n * 2 ^ m)
  have hk : k = Int.log 2 q - 23 + m := by omega
  push_cast
  rw [mul_assoc, unit_mul, ← hk]

@[simp] theorem single_natCast {n : ℕ} (hn : n ≤ 2 ^ 24) : single n = n := by
  rcases hn.lt_or_eq with hlt | rfl
  · have := single_of_digits hlt 0
    rwa [zpow_zero, mul_one] at this
  · exact_mod_cast single_of_digits (n := 1) (by norm_num) 24

/-- **Rounding twice is rounding once.** -/
theorem single_single {q : ℚ} (hq : 0 ≤ q) : single (single q) = single q := by
  rcases hq.eq_or_lt with rfl | hq
  · rw [single_zero, single_zero]
  obtain ⟨n, hn⟩ := Int.eq_ofNat_of_zero_le
    (le_nearestEven (by simpa using (div_pos hq (unit_pos q)).le) : 0 ≤ nearestEven (q / unit q))
  have heq : single q = n * unit q := by
    unfold single
    rw [hn]
    rfl
  -- the multiple is a power of two, or has at most 24 digits
  have hle : (n : ℚ) * unit q ≤ 2 ^ 24 * unit q := by
    rw [← heq, unit_mul]
    exact (single_le_zpow q).trans_eq (by congr 1; omega)
  have hle : n ≤ 2 ^ 24 := by exact_mod_cast le_of_mul_le_mul_right hle (unit_pos q)
  rcases hle.lt_or_eq with hlt | hlast
  · rw [heq]
    exact single_of_digits hlt _
  · rw [heq, hlast, Nat.cast_pow, Nat.cast_ofNat, unit_mul]
    have := single_of_digits (n := 1) (by norm_num) (Int.log 2 q - 23 + (24 : ℕ))
    rwa [Nat.cast_one, one_mul] at this

/-- **A whole number is rounded to a whole number.** -/
theorem exists_single_natCast (n : ℕ) : ∃ m : ℕ, single n = m := by
  rcases Nat.lt_or_ge (2 ^ 24) n with hlt | hle
  · have hlog : (23 : ℤ) ≤ Int.log 2 (n : ℚ) := by
      rw [Int.log_natCast]
      exact_mod_cast Nat.le_log_of_pow_le (by norm_num) (by omega)
    obtain ⟨e, he⟩ := Int.eq_ofNat_of_zero_le (show 0 ≤ Int.log 2 (n : ℚ) - 23 by omega)
    have hunit : unit n = (2 ^ e : ℕ) := by
      unfold unit
      rw [he, zpow_natCast]
      push_cast
      rfl
    obtain ⟨k, hk⟩ := Int.eq_ofNat_of_zero_le
      (le_nearestEven (by simpa using (div_nonneg n.cast_nonneg (unit_pos n).le)) :
        0 ≤ nearestEven ((n : ℚ) / unit n))
    refine ⟨k * 2 ^ e, ?_⟩
    unfold single
    rw [hk, hunit]
    push_cast
    rfl
  · exact ⟨n, single_natCast hle⟩

/-! ## 3. Quotients -/

theorem single_pos {q : ℚ} (hq : 0 < q) : 0 < single q :=
  (zpow_pos (by norm_num) _).trans_le (zpow_le_single hq)

/-- Where the 24th digit has the unit `2 ^ e`. -/
theorem single_eq {x : ℚ} {e : ℤ} (hlo : 2 ^ 23 * 2 ^ e ≤ x) (hhi : x < 2 ^ 24 * 2 ^ e) :
    single x = nearestEven (x / 2 ^ e) * 2 ^ e := by
  have htwo : (0 : ℚ) < 2 ^ e := zpow_pos (by norm_num) e
  have hx : 0 < x := (by positivity : (0 : ℚ) < 2 ^ 23 * 2 ^ e).trans_le hlo
  have hpow : ∀ n : ℕ, (2 : ℚ) ^ n * 2 ^ e = 2 ^ (n + e : ℤ) := by
    intro n
    rw [zpow_add₀ (by norm_num), zpow_natCast]
  have hlog : Int.log 2 x = 23 + e := by
    apply le_antisymm
    · rw [← Int.lt_add_one_iff, ← Int.lt_zpow_iff_log_lt (by norm_num) hx]
      exact hhi.trans_eq ((hpow 24).trans (by push_cast; congr 1; omega))
    · rw [← Int.zpow_le_iff_le_log (by norm_num) hx]
      exact ((hpow 23).symm.trans_le hlo)
  have hunit : unit x = 2 ^ e := by
    unfold unit
    rw [hlog]
    congr 1
    omega
  rw [single, hunit]

/-- A number that is more than half a unit above another one is rounded to above it ... -/
theorem lt_single {a : ℕ} {e : ℤ} {x : ℚ} (ha : 2 ^ 23 ≤ a) (ha' : a < 2 ^ 24)
    (h : (a + 1 / 2) * 2 ^ e < x) : a * 2 ^ e < single x := by
  have htwo : (0 : ℚ) < 2 ^ e := zpow_pos (by norm_num) e
  have hlow : (2 : ℚ) ^ 23 * 2 ^ e ≤ a * 2 ^ e :=
    mul_le_mul_of_nonneg_right (by exact_mod_cast ha) htwo.le
  have hax : a * 2 ^ e < x := by linarith
  by_cases hhi : x < 2 ^ 24 * 2 ^ e
  · rw [single_eq (hlow.trans hax.le) hhi]
    refine mul_lt_mul_of_pos_right ?_ htwo
    have hbound := (nearestEven_bounds (x / 2 ^ e)).1
    have hquot : a + 1 / 2 < x / 2 ^ e := (lt_div_iff₀ htwo).mpr h
    linarith
  · have hstep : single (2 ^ 24 * 2 ^ e) ≤ single x :=
      single_mono (by positivity) (not_lt.mp hhi)
    have htop : single (2 ^ 24 * 2 ^ e) = 2 ^ 24 * 2 ^ e := by
      have := single_of_digits (n := 1) (by norm_num) (24 + e)
      rwa [Nat.cast_one, one_mul, zpow_add₀ (by norm_num)] at this
    have hlt : (a : ℚ) * 2 ^ e < 2 ^ 24 * 2 ^ e :=
      mul_lt_mul_of_pos_right (by exact_mod_cast ha') htwo
    linarith

/-- ... and one that is more than half a unit below, to below it. -/
theorem single_lt {a : ℕ} {e : ℤ} {x : ℚ} (ha : 2 ^ 23 ≤ a) (ha' : a < 2 ^ 24) (hx : 0 ≤ x)
    (h : x < (a - 1 / 2) * 2 ^ e) : single x < a * 2 ^ e := by
  have htwo : (0 : ℚ) < 2 ^ e := zpow_pos (by norm_num) e
  have hhi : (a : ℚ) * 2 ^ e < 2 ^ 24 * 2 ^ e :=
    mul_lt_mul_of_pos_right (by exact_mod_cast ha') htwo
  by_cases hlo : 2 ^ 23 * 2 ^ e ≤ x
  · rw [single_eq hlo (by linarith)]
    refine mul_lt_mul_of_pos_right ?_ htwo
    have hbound := (nearestEven_bounds (x / 2 ^ e)).2
    have hquot : x / 2 ^ e < a - 1 / 2 := (div_lt_iff₀ htwo).mpr h
    linarith
  · rcases ha.lt_or_eq with hlt | rfl
    · -- the last power of two lies between them
      have hbelow : single x ≤ 2 ^ 23 * 2 ^ e := by
        have := single_of_digits (n := 2 ^ 23) (by norm_num) e
        push_cast at this
        exact (single_mono hx (not_le.mp hlo).le).trans_eq this
      exact hbelow.trans_lt (mul_lt_mul_of_pos_right (by exact_mod_cast hlt) htwo)
    · -- below a power of two the units are half as long
      have hhalf : (2 : ℚ) ^ e = 2 * 2 ^ (e - 1) := by
        rw [← zpow_one_add₀ (by norm_num)]
        congr 1
        omega
      have hbelow : single x ≤ (2 ^ 24 - 1) * 2 ^ (e - 1) := by
        have := single_of_digits (n := 2 ^ 24 - 1) (by norm_num) (e - 1)
        rw [Nat.cast_sub (by norm_num)] at this
        push_cast at this
        refine (single_mono hx ?_).trans_eq this
        push_cast at h
        rw [hhalf] at h
        linarith
      have hpos : (0 : ℚ) < 2 ^ (e - 1) := zpow_pos (by norm_num) _
      push_cast
      rw [hhalf]
      linarith

/-- A whole number in units of its 24th digit. -/
theorem exists_digits {c : ℕ} (hc : 1 ≤ c) (hc' : c < 2 ^ 24) :
    ∃ a L : ℕ, 2 ^ 23 ≤ a ∧ a < 2 ^ 24 ∧ 2 ^ L ≤ c ∧ (c : ℚ) = a * 2 ^ (L - 23 : ℤ) := by
  have hlow : 2 ^ Nat.log 2 c ≤ c := Nat.pow_log_le_self 2 (by omega)
  have hhigh : c < 2 ^ (Nat.log 2 c + 1) := Nat.lt_pow_succ_log_self (by norm_num) c
  have hL : Nat.log 2 c ≤ 23 := Nat.lt_succ_iff.mp (Nat.log_lt_of_lt_pow (by omega) hc')
  obtain ⟨d, hd⟩ := Nat.exists_eq_add_of_le hL
  refine ⟨c * 2 ^ d, Nat.log 2 c, ?_, ?_, hlow, ?_⟩
  · calc 2 ^ 23 = 2 ^ Nat.log 2 c * 2 ^ d := by rw [hd, pow_add]
      _ ≤ c * 2 ^ d := Nat.mul_le_mul_right _ hlow
  · calc c * 2 ^ d < 2 ^ (Nat.log 2 c + 1) * 2 ^ d :=
          Nat.mul_lt_mul_of_pos_right hhigh (Nat.two_pow_pos d)
      _ = 2 ^ 24 := by rw [← pow_add]; congr 1; omega
  · have he : ((Nat.log 2 c : ℤ) - 23) = -(d : ℤ) := by omega
    rw [he, zpow_neg, zpow_natCast]
    push_cast
    field_simp

/-- `(float)m / (float)n`. -/
def quotient (m n : ℕ) : ℚ := single (single m / single n)

theorem quotient_of_le {m n : ℕ} (hm : m ≤ 2 ^ 24) (hn : n ≤ 2 ^ 24) :
    quotient m n = single (m / n) := by
  rw [quotient, single_natCast hm, single_natCast hn]

/-- A unit of the 24th digit of a number, where `n` times that number has at most 24 digits. -/
theorem mul_unit_lt {n L c : ℕ} (hL : 2 ^ L ≤ c) (h : c * n < 2 ^ 24) :
    (n : ℚ) * 2 ^ (L - 24 : ℤ) < 1 := by
  have hpow : n * 2 ^ L < 2 ^ 24 := by
    have hle := Nat.mul_le_mul_left n hL
    rw [Nat.mul_comm n c] at hle
    omega
  have hcast : (n : ℚ) * 2 ^ L < 2 ^ 24 := by exact_mod_cast hpow
  rw [zpow_sub₀ (by norm_num), zpow_natCast]
  norm_num
  linarith

/-- A quotient above a whole number is rounded to above it: it exceeds the number by a part of
`1 / n`, which is more than half a unit. -/
theorem natCast_lt_single_div {c m n : ℕ} (hm : m ≤ 2 ^ 24) (hn : 1 ≤ n) (h : c * n < m) :
    (c : ℚ) < single (m / n) := by
  have hn0 : (0 : ℚ) < n := by exact_mod_cast hn
  rcases Nat.eq_zero_or_pos c with rfl | hpos
  · have hm0 : (0 : ℚ) < m := by exact_mod_cast Nat.zero_lt_of_lt h
    rw [Nat.cast_zero]
    exact single_pos (div_pos hm0 hn0)
  · have hc : c < 2 ^ 24 := (Nat.le_mul_of_pos_right c hn).trans_lt (h.trans_le hm)
    obtain ⟨a, L, ha, ha', hL, hdigits⟩ := exists_digits hpos hc
    have hunit := mul_unit_lt hL (h.trans_le hm)
    have htwo : (2 : ℚ) ^ (L - 23 : ℤ) = 2 * 2 ^ (L - 24 : ℤ) := by
      rw [← zpow_one_add₀ (by norm_num)]
      congr 1
      omega
    have hexcess : (c : ℚ) * n + 1 ≤ m := by exact_mod_cast h
    rw [hdigits]
    refine lt_single ha ha' ?_
    rw [lt_div_iff₀ hn0, add_mul, ← hdigits, add_mul, htwo]
    linarith

/-- A divisor of more than 24 digits is rounded, but not to below a number that has no more. -/
theorem ceil_quotient_of_lt {m n : ℕ} (hm : 1 ≤ m) (hm' : m ≤ 2 ^ 24) (hn : 2 ^ 24 < n) :
    ⌈quotient m n⌉₊ = 1 := by
  have hle : (2 : ℚ) ^ 24 ≤ single n := by
    have hmono : single (2 ^ 24 : ℕ) ≤ single n :=
      single_mono (Nat.cast_nonneg _) (by exact_mod_cast hn.le)
    rw [single_natCast le_rfl] at hmono
    exact_mod_cast hmono
  have hm0 : (0 : ℚ) < m := by exact_mod_cast hm
  have hm24 : (m : ℚ) ≤ 2 ^ 24 := by exact_mod_cast hm'
  have hquot : (m : ℚ) / single n ≤ 1 := (div_le_one (by linarith)).mpr (hm24.trans hle)
  have hone : single (1 : ℕ) = 1 := (single_natCast (by norm_num)).trans Nat.cast_one
  rw [quotient, single_natCast hm']
  refine Nat.le_antisymm (Nat.ceil_le.mpr ?_) (Nat.ceil_pos.mpr ?_)
  · rw [Nat.cast_one, ← hone]
    exact single_mono (by positivity) (hquot.trans_eq Nat.cast_one.symm)
  · exact single_pos (div_pos hm0 (by linarith))

/-- **The ceiling of a quotient** of a number of at most 24 digits is the exact one. -/
theorem ceil_quotient {m n : ℕ} (hm : 1 ≤ m) (hm' : m ≤ 2 ^ 24) (hn : 1 ≤ n) :
    ⌈quotient m n⌉₊ = (m + n - 1) / n := by
  rcases Nat.lt_or_ge (2 ^ 24) n with hlong | hn'
  · have hceil : (m + n - 1) / n = 1 := Nat.div_eq_of_lt_le (by omega) (by omega)
    rw [ceil_quotient_of_lt hm hm' hlong, hceil]
  obtain ⟨c, hc⟩ : ∃ c, (m + n - 1) / n = c + 1 :=
    Nat.exists_eq_add_one_of_ne_zero (Nat.ne_of_gt (Nat.div_pos (by omega) hn))
  have hlast : c * n < m := by
    have hmul := Nat.div_mul_le_self (m + n - 1) n
    rw [hc, Nat.succ_mul] at hmul
    omega
  have hcover : m ≤ (c + 1) * n := by
    have hlt := Nat.lt_mul_div_succ (m + n - 1) hn
    rw [hc, Nat.mul_succ, Nat.mul_comm] at hlt
    omega
  rw [quotient_of_le hm' hn', hc, Nat.ceil_eq_iff (Nat.succ_ne_zero c), Nat.succ_sub_one]
  refine ⟨natCast_lt_single_div hm' hn hlast, ?_⟩
  have hcm : c + 1 ≤ 2 ^ 24 := by
    have hle : c ≤ c * n := Nat.le_mul_of_pos_right c hn
    omega
  have hle : (m : ℚ) / n ≤ (c + 1 : ℕ) := by
    rw [div_le_iff₀ (by exact_mod_cast hn)]
    exact_mod_cast hcover
  exact (single_mono (by positivity) hle).trans_eq (single_natCast hcm)

/-- A quotient below half an odd number is rounded to below it: it is below by a part of
`1 / (2 * n)` at least. -/
theorem single_div_lt_half {r m n : ℕ} (hn : 1 ≤ n) (h : (2 * r + 1) * n < 2 ^ 24)
    (hlt : (m : ℚ) / n < r + 1 / 2) : single (m / n) < r + 1 / 2 := by
  have hn0 : (0 : ℚ) < n := by exact_mod_cast hn
  have hr : 2 * r + 1 < 2 ^ 24 := Nat.lt_of_le_of_lt (Nat.le_mul_of_pos_right _ hn) h
  obtain ⟨a, L, ha, ha', hL, hdigits⟩ := exists_digits (Nat.le_add_left 1 (2 * r)) hr
  have hunit := mul_unit_lt hL h
  have hhalf : (r : ℚ) + 1 / 2 = a * 2 ^ (L - 24 : ℤ) := by
    have hexp : (L - 23 : ℤ) = 1 + (L - 24) := by omega
    rw [hexp, zpow_one_add₀ (by norm_num)] at hdigits
    push_cast at hdigits
    linarith
  have hgap : (2 * m + 1 : ℚ) ≤ (2 * r + 1) * n := by
    have hless : (2 * m : ℚ) < (2 * r + 1) * n := by
      rw [div_lt_iff₀ hn0] at hlt
      linarith
    exact_mod_cast hless
  rw [hhalf]
  refine single_lt ha ha' (by positivity) ?_
  rw [sub_mul, ← hhalf, div_lt_iff₀ hn0, sub_mul]
  linarith

/-- A number that is not below half an odd number is not rounded to below it. -/
theorem half_le_single {r : ℕ} {x : ℚ} (hr : 2 * r < 2 ^ 24) (hx : 0 ≤ x) (h : r - 1 / 2 ≤ x) :
    r - 1 / 2 ≤ single x := by
  rcases Nat.eq_zero_or_pos r with rfl | hpos
  · have hnonneg := single_nonneg hx
    push_cast
    linarith
  · have hdigits := single_of_digits (n := 2 * r - 1) (by omega) (-1)
    have hvalue : ((2 * r - 1 : ℕ) : ℚ) * 2 ^ (-1 : ℤ) = r - 1 / 2 := by
      rw [Nat.cast_sub (by omega)]
      push_cast
      rw [zpow_neg_one]
      ring
    rw [hvalue] at hdigits
    have hone : (1 : ℚ) ≤ r := by exact_mod_cast hpos
    exact hdigits.symm.trans_le (single_mono (by linarith) h)

/-- **The nearest whole number to a quotient** is the exact one where the two numbers together have
at most 23 digits. -/
theorem nearest_quotient {m n : ℕ} (hn : 1 ≤ n) (h : m + n < 2 ^ 23) :
    nearest (quotient m n) = nearest (m / n) := by
  have hn0 : (0 : ℚ) < n := by exact_mod_cast hn
  have hx : (0 : ℚ) ≤ m / n := by positivity
  rw [quotient_of_le (by omega) (by omega)]
  set r := nearest ((m : ℚ) / n) with hr
  have hlow : (r : ℚ) - 1 / 2 ≤ m / n := (le_nearest_iff hx).mp hr.le
  have hhigh : (m : ℚ) / n < r + 1 / 2 := by
    have hlt := (nearest_lt_iff hx).mp (Nat.lt_succ_of_le hr.ge)
    push_cast at hlt
    linarith
  -- `2 * r + 1` times the divisor has at most 24 digits
  have hodd : (2 * r + 1) * n < 2 ^ 24 := by
    have hmul := hlow
    rw [le_div_iff₀ hn0] at hmul
    have hcast : (2 * r : ℚ) * n ≤ 2 * m + n := by linarith
    have hnat : 2 * r * n ≤ 2 * m + n := by exact_mod_cast hcast
    rw [Nat.add_mul, Nat.one_mul]
    omega
  have hr24 : 2 * r + 1 < 2 ^ 24 := Nat.lt_of_le_of_lt (Nat.le_mul_of_pos_right _ hn) hodd
  apply Nat.le_antisymm
  · rw [← Nat.lt_succ_iff, nearest_lt_iff (single_nonneg hx)]
    have hbelow := single_div_lt_half hn hodd hhigh
    push_cast
    linarith
  · exact (le_nearest_iff (single_nonneg hx)).mpr (half_le_single (by omega) hx hlow)

end Lib.Single
