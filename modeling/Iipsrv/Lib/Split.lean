/-
# Splitting levels into two classes

Numbers `0, 1, 2, ...`, each with a weight, are split into those below a place and those from it
on.  `between` is what such a split is judged by: the squared distance of the two means, times the
weights of the two classes.  It is `n ^ 2` times the between-class variance of `n` items that have
these levels (`variance_eq`).

`Leading` is the invariant of a loop that looks for the first place with the largest score: it
keeps the best so far, and replaces it only by a better one.

The library names nothing of the server.
-/
import Mathlib.Algebra.BigOperators.Intervals
import Mathlib.Algebra.Order.BigOperators.Group.Finset
import Mathlib.Algebra.Order.Ring.Rat
import Mathlib.Tactic.Ring

namespace Lib.Split

/-! ## 1. The best so far -/

section
variable {α : Type*} [LinearOrder α] {P : Nat → Prop} {f : Nat → α} {d : Nat} {a : α}

/-- **What a loop holds that has looked at the places before `m`**: the place `d` and the score `a`
it has started with, if nothing was better, or else the first place with the largest score.
Places that do not satisfy `P` have no score. -/
inductive Leading (P : Nat → Prop) (f : Nat → α) (d : Nat) (a : α) (m : Nat) : Nat → α → Prop
  | start (h : ∀ i < m, P i → f i ≤ a) : Leading P f d a m d a
  | found {n : Nat} (hn : n < m) (hP : P n) (ha : a < f n) (hmax : ∀ i < m, P i → f i ≤ f n)
      (hfirst : ∀ i < n, P i → f i < f n) : Leading P f d a m n (f n)

namespace Leading

variable {m n : Nat} {x : α}

/-- Places without a score are passed over. -/
theorem skip (h : Leading P f d a m n x) {m' : Nat} (hle : m ≤ m')
    (hP : ∀ i, m ≤ i → i < m' → ¬ P i) : Leading P f d a m' n x := by
  have hall : ∀ y, (∀ i < m, P i → f i ≤ y) → ∀ i < m', P i → f i ≤ y := by
    intro y hy i hi hPi
    by_cases him : i < m
    · exact hy i him hPi
    · exact absurd hPi (hP i (by omega) hi)
  cases h with
  | start h => exact start (hall a h)
  | found hn hPn ha hmax hfirst => exact found (by omega) hPn ha (hall _ hmax) hfirst

theorem init : Leading P f d a 0 d a := start fun i hi => absurd hi (Nat.not_lt_zero i)

/-- All that has been looked at is at most the best. -/
theorem le (h : Leading P f d a m n x) : ∀ i < m, P i → f i ≤ x := by
  cases h with
  | start h => exact h
  | found hn hPn ha hmax hfirst => exact hmax

theorem start_le (h : Leading P f d a m n x) : a ≤ x := by
  cases h with
  | start h => exact le_rfl
  | found hn hPn ha hmax hfirst => exact ha.le

/-- **One turn**: only a better score replaces the best. -/
theorem turn (h : Leading P f d a m n x) (hP : P m) :
    Leading P f d a (m + 1) (if x < f m then m else n) (if x < f m then f m else x) := by
  by_cases hx : x < f m
  · rw [if_pos hx, if_pos hx]
    refine found (Nat.lt_succ_self m) hP (h.start_le.trans_lt hx) (fun i hi hPi => ?_)
      fun i hi hPi => (h.le i hi hPi).trans_lt hx
    rcases Nat.lt_or_eq_of_le (Nat.le_of_lt_succ hi) with him | rfl
    · exact ((h.le i him hPi).trans_lt hx).le
    · exact le_rfl
  · rw [if_neg hx, if_neg hx]
    have hall : ∀ i < m + 1, P i → f i ≤ x := by
      intro i hi hPi
      rcases Nat.lt_or_eq_of_le (Nat.le_of_lt_succ hi) with him | rfl
      · exact h.le i him hPi
      · exact not_lt.mp hx
    cases h with
    | start h => exact start hall
    | found hn hPn ha hmax hfirst => exact found (by omega) hPn ha hall hfirst

end Leading

end

/-! ## 2. Weights -/

section
variable (w : Nat → Nat)

/-- The weight of the levels from `a` to before `b`. -/
def mass (a b : Nat) : Nat := ∑ i ∈ Finset.Ico a b, w i

/-- Their sum. -/
def moment (a b : Nat) : Nat := ∑ i ∈ Finset.Ico a b, i * w i

def mean (a b : Nat) : ℚ := moment w a b / mass w a b

/-- What a split of the `m` levels at `s` is judged by. -/
def between (m s : Nat) : ℚ :=
  mass w 0 s * mass w s m * (mean w 0 s - mean w s m) ^ 2

variable {w}

theorem mass_succ {a b : Nat} (h : a ≤ b) : mass w a (b + 1) = mass w a b + w b :=
  Finset.sum_Ico_succ_top h _

theorem moment_succ {a b : Nat} (h : a ≤ b) : moment w a (b + 1) = moment w a b + b * w b :=
  Finset.sum_Ico_succ_top h _

theorem mass_add {a b c : Nat} (hab : a ≤ b) (hbc : b ≤ c) :
    mass w a b + mass w b c = mass w a c :=
  Finset.sum_Ico_consecutive _ hab hbc

theorem moment_add {a b c : Nat} (hab : a ≤ b) (hbc : b ≤ c) :
    moment w a b + moment w b c = moment w a c :=
  Finset.sum_Ico_consecutive _ hab hbc

/-- Fewer levels weigh less. -/
theorem mass_mono {a b a' b' : Nat} (ha : a' ≤ a) (hb : b ≤ b') : mass w a b ≤ mass w a' b' :=
  Finset.sum_le_sum_of_subset (Finset.Ico_subset_Ico ha hb)

theorem mass_self (a : Nat) : mass w a a = 0 := by simp [mass]

theorem moment_self (a : Nat) : moment w a a = 0 := by simp [moment]

/-- Levels without weight have no sum. -/
theorem moment_eq_zero {a b : Nat} (h : mass w a b = 0) : moment w a b = 0 := by
  refine Finset.sum_eq_zero fun i hi => ?_
  rw [Finset.sum_eq_zero_iff.mp h i hi, Nat.mul_zero]

end

/-! ## 3. Items that have levels -/

/-- The variance between two classes of items: the squared distance of their means, times the
share that each of them has. -/
def variance (A B : List Nat) : ℚ :=
  A.length / (A.length + B.length) * (B.length / (A.length + B.length))
    * ((A.sum : ℚ) / A.length - (B.sum : ℚ) / B.length) ^ 2

section
variable {L : List Nat}

/-- Every item counts for its level. -/
theorem mass_count (a b : Nat) :
    mass (L.count ·) a b = (L.filter fun x => a ≤ x ∧ x < b).length := by
  induction L with
  | nil => simp [mass]
  | cons x L ih =>
    unfold mass at ih ⊢
    simp only [List.count_cons, Finset.sum_add_distrib, ih, beq_iff_eq, Finset.sum_ite_eq,
      Finset.mem_Ico, List.filter_cons, decide_eq_true_eq]
    split <;> simp

theorem moment_count (a b : Nat) :
    moment (L.count ·) a b = (L.filter fun x => a ≤ x ∧ x < b).sum := by
  induction L with
  | nil => simp [moment]
  | cons x L ih =>
    unfold moment at ih ⊢
    simp only [List.count_cons, Nat.mul_add, Finset.sum_add_distrib, ih, beq_iff_eq, mul_ite,
      Nat.mul_one, Nat.mul_zero, Finset.sum_ite_eq, Finset.mem_Ico, List.filter_cons,
      decide_eq_true_eq]
    split <;> simp [Nat.add_comm]

/-- **The variance between the items below a level and the others.** -/
theorem variance_eq {m : Nat} (hL : ∀ x ∈ L, x < m) (s : Nat) :
    variance (L.filter (· < s)) (L.filter (s ≤ ·)) = between (L.count ·) m s / L.length ^ 2 := by
  have hlow : L.filter (· < s) = L.filter fun x => 0 ≤ x ∧ x < s := by simp
  have hhigh : L.filter (s ≤ ·) = L.filter fun x => s ≤ x ∧ x < m := by
    refine List.filter_congr fun x hx => ?_
    simp [hL x hx]
  have htotal : ((L.filter (· < s)).length : ℚ) + (L.filter (s ≤ ·)).length = L.length := by
    have h := L.length_eq_length_filter_add (decide <| · < s)
    simp only [← decide_not, Nat.not_lt] at h
    exact_mod_cast h.symm
  unfold variance between mean
  rw [htotal, mass_count, mass_count, moment_count, moment_count, ← hlow, ← hhigh]
  ring

end

end Lib.Split
