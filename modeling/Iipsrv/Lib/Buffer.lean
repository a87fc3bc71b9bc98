/-
# Blocks of memory and checked copies

A block of memory is the list of what stands in it, and its length is the size it was
allocated with.  `copy` is `memcpy`: it succeeds only when BOTH ranges lie inside their
blocks, so a computation that goes through it in `Option` states the absence of every
out-of-bounds access by returning a value at all.

Blocks fresh from the allocator are `fresh n`, whose cells hold nothing yet.  Keeping
`none` for such a cell, rather than some default, is what lets "every cell was written" be
said of the result.

The library names nothing of the server: it is stated over an arbitrary cell type.
-/
import Mathlib.Data.List.Basic

namespace Lib.Buffer

variable {α : Type*}

/-! ## 1. Copying between blocks -/

/-- `memcpy(dst + d, src + s, n)`, with `none` for a range that leaves its block. -/
def copy (dst : List α) (d : Nat) (src : List α) (s n : Nat) : Option (List α) :=
  if s + n ≤ src.length ∧ d + n ≤ dst.length then
    some (dst.take d ++ (src.drop s).take n ++ dst.drop (d + n))
  else none

/-- **A copy goes through exactly when both ranges are inside.** -/
theorem copy_isSome {dst src : List α} {d s n : Nat} :
    (copy dst d src s n).isSome ↔ s + n ≤ src.length ∧ d + n ≤ dst.length := by
  unfold copy
  split <;> simp_all

/-- What a successful copy has checked, and the block it leaves. -/
theorem copy_eq_some {dst src out : List α} {d s n : Nat} (h : copy dst d src s n = some out) :
    (s + n ≤ src.length ∧ d + n ≤ dst.length) ∧
      out = dst.take d ++ (src.drop s).take n ++ dst.drop (d + n) := by
  unfold copy at h
  split at h
  case isTrue hin => exact ⟨hin, (Option.some.inj h).symm⟩
  case isFalse => cases h

/-- A copy does not resize the block it writes to. -/
theorem length_copy {dst src out : List α} {d s n : Nat} (h : copy dst d src s n = some out) :
    out.length = dst.length := by
  obtain ⟨⟨hs, hd⟩, rfl⟩ := copy_eq_some h
  simp only [List.length_append, List.length_take, List.length_drop]
  omega

/-- **The frame of a copy.**  The cells of the target range are those of the source range,
and every other cell is as it was. -/
theorem getElem?_copy {dst src out : List α} {d s n : Nat} (h : copy dst d src s n = some out)
    (i : Nat) :
    out[i]? = if d ≤ i ∧ i < d + n then src[s + (i - d)]? else dst[i]? := by
  obtain ⟨⟨hs, hd⟩, rfl⟩ := copy_eq_some h
  have htake : (dst.take d).length = d := by rw [List.length_take]; omega
  have hmid : ((src.drop s).take n).length = n := by
    rw [List.length_take, List.length_drop]; omega
  rw [List.append_assoc]
  rcases Nat.lt_or_ge i d with hi | hi
  · -- before the range
    rw [List.getElem?_append_left (by omega), List.getElem?_take_of_lt hi, if_neg (by omega)]
  rw [List.getElem?_append_right (by omega), htake]
  rcases Nat.lt_or_ge i (d + n) with hin | hin
  · -- inside it
    rw [List.getElem?_append_left (by omega), List.getElem?_take_of_lt (by omega),
      List.getElem?_drop, if_pos ⟨hi, hin⟩]
  · -- behind it
    rw [List.getElem?_append_right (by omega), hmid, List.getElem?_drop, if_neg (by omega)]
    congr 1
    omega

/-! ## 2. Storing one cell -/

/-- `dst[i] = a`, with `none` for an index that leaves the block. -/
def store (dst : List α) (i : Nat) (a : α) : Option (List α) :=
  if i < dst.length then some (dst.set i a) else none

/-- A store inside the block goes through. -/
theorem store_of_lt {dst : List α} {i : Nat} (a : α) (h : i < dst.length) :
    store dst i a = some (dst.set i a) := if_pos h

/-- Storing just behind what has been filled in extends it by one cell. -/
theorem take_set_succ {dst : List α} {i : Nat} (a : α) (h : i < dst.length) :
    (dst.set i a).take (i + 1) = dst.take i ++ [a] := by
  rw [List.take_add_one, List.take_set_of_le (Nat.le_refl i), List.getElem?_set_self h]
  rfl

/-! ## 3. Fresh blocks -/

/-- What the allocator returns: `n` cells, none of them written yet. -/
def fresh (n : Nat) : List (Option α) := List.replicate n none

@[simp] theorem length_fresh (n : Nat) : (fresh n : List (Option α)).length = n :=
  List.length_replicate

/-! ## 4. Pieces -/

/-- **Pieces of one width, put together again.**  As many as it takes give the list back. -/
theorem flatMap_pieces {l : List α} {width count : Nat}
    (h : l.length ≤ count * width) :
    (List.range count).flatMap (fun k => (l.drop (k * width)).take width) = l := by
  have htake : ∀ n, (List.range n).flatMap (fun k => (l.drop (k * width)).take width)
      = l.take (n * width) := by
    intro n
    induction n with
    | zero => simp
    | succ n ih =>
      rw [List.range_succ, List.flatMap_append, ih, Nat.succ_mul, List.take_add]
      simp
  rw [htake, List.take_of_length_le h]

end Lib.Buffer
