/-
# Mixtures

A mixture of finitely many numbers is a sum of them with weights that are not negative and sum up to
one.  It stays between any bounds of the numbers (`Mixture.le`, `Mixture.ge`), and so between the
smallest and the largest of them.

`mixture_of_mem` is for weights that are spread over other numbers, which may come several times, or
be none of those to be mixed if they carry no weight.

The library names nothing of the server.
-/
import Mathlib.Algebra.BigOperators.Ring.Finset
import Mathlib.Algebra.Order.BigOperators.Ring.Finset
import Mathlib.Data.Rat.Defs
import Mathlib.Algebra.Order.Field.Rat
import Mathlib.Tactic.Linarith

namespace Lib

variable {ι κ : Type*} [Fintype ι] [Fintype κ]

/-- Weights that are not negative and sum up to one. -/
structure Weights (wt : ι → ℚ) : Prop where
  nonneg : ∀ x, 0 ≤ wt x
  sum : ∑ x, wt x = 1

/-- The number `v` is a mixture of the numbers `s`. -/
def Mixture (s : ι → ℚ) (v : ℚ) : Prop := ∃ wt : ι → ℚ, Weights wt ∧ v = ∑ x, wt x * s x

variable {s : ι → ℚ} {v : ℚ}

theorem Mixture.le (h : Mixture s v) (bound : ℚ) (hs : ∀ x, s x ≤ bound) : v ≤ bound := by
  obtain ⟨wt, hwt, rfl⟩ := h
  calc ∑ x, wt x * s x ≤ ∑ x, wt x * bound :=
        Finset.sum_le_sum fun x _ => mul_le_mul_of_nonneg_left (hs x) (hwt.nonneg x)
    _ = bound := by rw [← Finset.sum_mul, hwt.sum, one_mul]

theorem Mixture.ge (h : Mixture s v) (bound : ℚ) (hs : ∀ x, bound ≤ s x) : bound ≤ v := by
  obtain ⟨wt, hwt, rfl⟩ := h
  calc bound = ∑ x, wt x * bound := by rw [← Finset.sum_mul, hwt.sum, one_mul]
    _ ≤ ∑ x, wt x * s x :=
        Finset.sum_le_sum fun x _ => mul_le_mul_of_nonneg_left (hs x) (hwt.nonneg x)

theorem Mixture.exists_le [Nonempty ι] (h : Mixture s v) : ∃ x, s x ≤ v := by
  obtain ⟨x, -, hx⟩ := Finset.exists_min_image Finset.univ s Finset.univ_nonempty
  exact ⟨x, h.ge (s x) fun y => hx y (Finset.mem_univ y)⟩

theorem Mixture.exists_ge [Nonempty ι] (h : Mixture s v) : ∃ x, v ≤ s x := by
  obtain ⟨x, -, hx⟩ := Finset.exists_max_image Finset.univ s Finset.univ_nonempty
  exact ⟨x, h.le (s x) fun y => hx y (Finset.mem_univ y)⟩

/-- **Weights on other numbers.**  If every number that carries weight is one of `s`, the sum is a
mixture of `s`. -/
theorem mixture_of_mem {wt z : κ → ℚ} (hwt : Weights wt) (hz : ∀ y, 0 < wt y → ∃ x, z y = s x) :
    Mixture s (∑ y, wt y * z y) := by
  classical
  -- each number that carries weight is given to one of `s`
  obtain ⟨y₀, hy₀⟩ : ∃ y, 0 < wt y := by
    by_contra hnone
    push Not at hnone
    have hzero : ∑ y, wt y ≤ 0 := Finset.sum_nonpos fun y _ => hnone y
    rw [hwt.sum] at hzero
    linarith
  obtain ⟨x₀, -⟩ := hz y₀ hy₀
  have hto : ∀ y, ∃ x, 0 < wt y → z y = s x := by
    intro y
    by_cases hy : 0 < wt y
    · obtain ⟨x, hx⟩ := hz y hy
      exact ⟨x, fun _ => hx⟩
    · exact ⟨x₀, fun h => absurd h hy⟩
  choose dest hdest using hto
  refine ⟨fun x => ∑ y, if dest y = x then wt y else 0, ⟨fun x => ?_, ?_⟩, ?_⟩
  · refine Finset.sum_nonneg fun y _ => ?_
    split
    · exact hwt.nonneg y
    · exact le_refl 0
  · rw [Finset.sum_comm]
    simp only [Finset.sum_ite_eq, Finset.mem_univ, if_true]
    exact hwt.sum
  · simp only [Finset.sum_mul, ite_mul, zero_mul]
    rw [Finset.sum_comm]
    simp only [Finset.sum_ite_eq, Finset.mem_univ, if_true]
    refine Finset.sum_congr rfl fun y _ => ?_
    rcases (hwt.nonneg y).eq_or_lt with hzero | hpos
    · rw [← hzero, zero_mul, zero_mul]
    · rw [hdest y hpos]

end Lib
