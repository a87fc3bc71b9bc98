/-
# Signed 32 bit arithmetic

An `int` that overflows is undefined; a number that is converted to one is not, it wraps.  `checked`
is a computation that does not overflow, and `counted` a loop `for( int i=a; i<=b; i++ )` whose
counter does not: behind its last turn the counter is one MORE than the bound, so a loop up to the
largest `int` does not end.

`mapM_eq_some` and `mapM_eq_none` are for a loop of such computations: it has a value exactly if
every turn has one.
-/
import Mathlib.Algebra.Group.Nat.Defs
import Mathlib.Data.Int.Range
import Mathlib.Data.List.Nodup

namespace Lib.Signed

/-! ## 1. Loops of computations that can fail -/

section
variable {α β : Type*} {f : α → Option β} {l : List α}

theorem mapM_eq_some (g : α → β) (h : ∀ x ∈ l, f x = some (g x)) : l.mapM f = some (l.map g) := by
  induction l with
  | nil => rfl
  | cons x l ih =>
    rw [List.mapM_cons, h x List.mem_cons_self, ih fun y hy => h y (List.mem_cons_of_mem x hy)]
    rfl

theorem mapM_eq_none {x : α} (hx : x ∈ l) (h : f x = none) : l.mapM f = none := by
  induction l with
  | nil => cases hx
  | cons y l ih =>
    rw [List.mapM_cons]
    rcases List.mem_cons.mp hx with rfl | hx
    · rw [h]
      rfl
    · rw [ih hx]
      cases f y <;> rfl

end

/-! ## 2. Values -/

/-- The value of an `int` expression, if it is one. -/
def checked (x : Int) : Option Int := if -2 ^ 31 ≤ x ∧ x < 2 ^ 31 then some x else none

theorem checked_of_bounds {x : Int} (hlo : 0 ≤ x) (hhi : x < 2 ^ 31) : checked x = some x :=
  if_pos ⟨by omega, hhi⟩

theorem checked_eq_none {x : Int} (h : 2 ^ 31 ≤ x) : checked x = none := if_neg (by omega)

/-- A number that an `int` holds is compared as a number. -/
theorem ofNat_lt_ofNat {a b : Nat} (ha : a < 2 ^ 31) (hb : b < 2 ^ 31) :
    Int32.ofNat a < Int32.ofNat b ↔ a < b := by
  rw [Int32.lt_iff_toInt_lt, Int32.toInt_ofNat_of_lt ha, Int32.toInt_ofNat_of_lt hb]
  omega

/-- A number converted to an `int` does not grow. -/
theorem toInt_ofNat_le (n : Nat) : (Int32.ofNat n).toInt ≤ n := by
  have hsize : Int32.size = 2 ^ 32 := rfl
  rw [Int32.toInt_ofNat', Int.bmod_def, hsize]
  split <;> omega

/-! ## 3. Counters -/

/-- The values of `i` in the turns of `for( int i=a; i<=b; i++ )`. -/
def counted (a b : Int) : Option (List Int) :=
  if a ≤ b ∧ 2 ^ 31 ≤ b + 1 then none else some (Int.range a (b + 1))

theorem counted_of_lt {a b : Int} (h : b + 1 < 2 ^ 31) :
    counted a b = some (Int.range a (b + 1)) :=
  if_neg (by omega)

theorem nodup_range (a b : Int) : (Int.range a b).Nodup := by
  unfold Int.range
  refine List.nodup_range.map fun i j h => ?_
  omega

end Lib.Signed
