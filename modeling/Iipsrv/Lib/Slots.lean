/-
# Values and gaps

A list of slots, some of them empty, can be kept as two lists: the values of the others, in their
order, and the positions of the empty ones.  `fill` merges the two again, with a counter of the
values it has used.

* `length_gaps`: together the two have as many entries as there are slots;
* `fill_gaps`: what comes out of the merge is what was taken apart, and no value is asked for
  behind the last.
-/
import Mathlib.Data.List.ReduceOption

namespace Lib.Slots

variable {α : Type*}

/-- The positions of the empty slots, counted from `i`. -/
def gaps : Nat → List (Option α) → List Nat
  | _, [] => []
  | i, none :: l => i :: gaps (i + 1) l
  | i, some _ :: l => gaps (i + 1) l

/-- The slots at `n` positions from `i` on, of which `used` values have been taken before.
`none`: a value is asked for that is not there. -/
def fill (values : List α) (missing : List Nat) : (n i used : Nat) → Option (List (Option α))
  | 0, _, _ => some []
  | n + 1, i, used =>
    if i ∈ missing then (fill values missing n (i + 1) used).map (none :: ·)
    else
      match values[used]? with
      | none => none
      | some a => (fill values missing n (i + 1) (used + 1)).map (some a :: ·)

theorem gaps_append (i : Nat) (l l' : List (Option α)) :
    gaps i (l ++ l') = gaps i l ++ gaps (i + l.length) l' := by
  induction l generalizing i with
  | nil => rfl
  | cons slot l ih =>
    have hnext : i + 1 + l.length = i + (slot :: l).length := by
      rw [List.length_cons]
      omega
    cases slot with
    | none => rw [List.cons_append, gaps, gaps, ih, hnext, List.cons_append]
    | some a => rw [List.cons_append, gaps, gaps, ih, hnext]

theorem le_of_mem_gaps {i k : Nat} {l : List (Option α)} (h : k ∈ gaps i l) : i ≤ k := by
  induction l generalizing i with
  | nil => cases h
  | cons slot l ih =>
    cases slot with
    | none =>
      rcases List.mem_cons.1 h with rfl | h
      · exact Nat.le_refl _
      · exact Nat.le_of_succ_le (ih h)
    | some a => exact Nat.le_of_succ_le (ih h)

theorem lt_of_mem_gaps {i k : Nat} {l : List (Option α)} (h : k ∈ gaps i l) :
    k < i + l.length := by
  induction l generalizing i with
  | nil => cases h
  | cons slot l ih =>
    rw [List.length_cons]
    cases slot with
    | none =>
      rcases List.mem_cons.1 h with rfl | h
      · omega
      · have := ih h
        omega
    | some a =>
      have := ih h
      omega

/-- **Nothing is counted twice or left out.** -/
theorem length_gaps (i : Nat) (l : List (Option α)) :
    l.reduceOption.length + (gaps i l).length = l.length := by
  induction l generalizing i with
  | nil => rfl
  | cons slot l ih =>
    have := ih (i + 1)
    cases slot with
    | none =>
      rw [List.reduceOption_cons_of_none, gaps, List.length_cons, List.length_cons]
      omega
    | some a =>
      rw [List.reduceOption_cons_of_some, gaps, List.length_cons, List.length_cons]
      omega

/-- A slot is empty if its position is a gap. -/
theorem length_mem_gaps_iff (front : List (Option α)) (slot : Option α) (back : List (Option α)) :
    front.length ∈ gaps 0 (front ++ slot :: back) ↔ slot = none := by
  rw [gaps_append, Nat.zero_add, List.mem_append]
  constructor
  · intro h
    cases slot with
    | none => rfl
    | some a =>
      rcases h with h | h
      · have := lt_of_mem_gaps h
        omega
      · have := le_of_mem_gaps (i := front.length + 1) h
        omega
  · rintro rfl
    exact .inr List.mem_cons_self

/-- Behind the values of `front` comes the next one. -/
theorem getElem?_reduceOption_append (front : List (Option α)) (a : α) (back : List (Option α)) :
    (front ++ some a :: back).reduceOption[front.reduceOption.length]? = some a := by
  rw [List.reduceOption_append, List.reduceOption_cons_of_some]
  simp

theorem length_reduceOption_concat_none (front : List (Option α)) :
    (front ++ [none]).reduceOption.length = front.reduceOption.length := by
  simp [List.reduceOption_append]

theorem length_reduceOption_concat_some (front : List (Option α)) (a : α) :
    (front ++ [some a]).reduceOption.length = front.reduceOption.length + 1 := by
  simp [List.reduceOption_append]

/-- The slots behind `front` come out as they are, once those of `front` have been served. -/
theorem fill_append (front back : List (Option α)) :
    fill (front ++ back).reduceOption (gaps 0 (front ++ back)) back.length front.length
      front.reduceOption.length = some back := by
  induction back generalizing front with
  | nil => rfl
  | cons slot back ih =>
    have hnext := ih (front ++ [slot])
    have hgap := length_mem_gaps_iff front slot back
    rw [List.append_assoc, List.singleton_append, List.length_append, List.length_singleton]
      at hnext
    rw [List.length_cons, fill]
    cases slot with
    | none =>
      rw [length_reduceOption_concat_none] at hnext
      rw [if_pos (hgap.mpr rfl), hnext]
      rfl
    | some a =>
      have hmem : front.length ∉ gaps 0 (front ++ some a :: back) := by simp [hgap]
      rw [length_reduceOption_concat_some] at hnext
      rw [if_neg hmem, getElem?_reduceOption_append]
      dsimp only
      rw [hnext]
      rfl

/-- **The merge undoes the separation.** -/
theorem fill_gaps (l : List (Option α)) :
    fill l.reduceOption (gaps 0 l) l.length 0 0 = some l :=
  fill_append [] l

end Lib.Slots
