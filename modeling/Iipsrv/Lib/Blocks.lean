/-
# Blocks one behind the other

A block of numbers is given by its first number and how many there are.  `Tiles a l b` says that the
blocks of a list lie one behind the other, the first beginning at `a` and the last ending before
`b`.  So they leave no gap and do not overlap, and they are in order.

* `Tiles.concat`: one block more, as a loop adds it;
* `Tiles.bounds`: every block lies between `a` and `b`;
* `Tiles.numbers`: written out, the blocks are the numbers from `a` to `b`, each once.

The library names nothing of the server.
-/
import Mathlib.Data.List.Range

namespace Lib.Blocks

/-- The blocks lie one behind the other, from `a` to `b`. -/
inductive Tiles : Nat → List (Nat × Nat) → Nat → Prop
  | nil (a : Nat) : Tiles a [] a
  | cons {a n b : Nat} {l : List (Nat × Nat)} (hrest : Tiles (a + n) l b) :
    Tiles a ((a, n) :: l) b

variable {a b : Nat} {l : List (Nat × Nat)}

/-- One block more. -/
theorem Tiles.concat (h : Tiles a l b) (n : Nat) : Tiles a (l ++ [(b, n)]) (b + n) := by
  induction h with
  | nil a => exact .cons (.nil _)
  | cons _ ih => exact .cons ih

/-- Blocks of one length. -/
theorem tiles_uniform (k n : Nat) : Tiles 0 ((List.range n).map fun i => (i * k, k)) (n * k) := by
  induction n with
  | zero =>
    rw [Nat.zero_mul]
    exact .nil 0
  | succ n ih =>
    rw [List.range_succ, List.map_append, Nat.succ_mul]
    exact ih.concat k

theorem Tiles.le (h : Tiles a l b) : a ≤ b := by
  induction h with
  | nil a => exact Nat.le_refl a
  | cons _ ih => omega

/-- Every block lies inside. -/
theorem Tiles.bounds {p : Nat × Nat} (h : Tiles a l b) (hp : p ∈ l) :
    a ≤ p.1 ∧ p.1 + p.2 ≤ b := by
  induction h with
  | nil a => cases hp
  | cons hrest ih =>
    rcases List.mem_cons.mp hp with rfl | hp
    · exact ⟨Nat.le_refl _, hrest.le⟩
    · obtain ⟨hlo, hhi⟩ := ih hp
      exact ⟨by omega, hhi⟩

/-- **Every number once, and in order.** -/
theorem Tiles.numbers (h : Tiles a l b) :
    l.flatMap (fun p => List.range' p.1 p.2) = List.range' a (b - a) := by
  induction h with
  | nil a =>
    rw [Nat.sub_self]
    rfl
  | @cons a n b l hrest ih =>
    have hle := hrest.le
    have hlength : b - a = n + (b - (a + n)) := by omega
    rw [List.flatMap_cons, ih, List.range'_append_1, ← hlength]

end Lib.Blocks
