/-
# The rectangle of a range of tiles

`TIL::run` is given a first and a last tile and sends those in the rectangle that the two span.
Only the COLUMNS are swapped when the last tile stands to the left of the first: that the rows
are in order follows from the order of the tiles.

The numbers are `int`s.  `numbers` is the double loop with its overflows, and where there is none it
goes through `tiles` (`numbers_eq`).  These are different from each other (`nodup_tiles`) and are
the rectangle (`mem_tiles`), so everything comes down to when an `int` overflows: the tile in the
last row and rightmost column can have a larger number than the LAST tile, and the counter of the
rows is one more than the last row behind the loop (`rectangle_iff`).
-/
import Mathlib.Tactic
import Iipsrv.Address.Model
import Iipsrv.Lib.Signed

namespace Iipsrv.TIL

open Lib.Signed

/-! ## 1. The loops -/

/-- The inner loop: the tile numbers of a column. -/
def column (ntlx starty endy i : Int) : Option (List Int) := do
  let rows ← counted starty endy
  rows.mapM fun j => do
    let row ← checked (j * ntlx)
    checked (i + row)

/-- The double loop of `TIL::run`: the tile numbers it asks for.  An exception of `getTile` ends it
early. -/
def numbers (ntlx startTile endTile : Int) : Option (List Int) := do
  let endTile := if endTile < startTile then startTile else endTile
  let startx := startTile.tmod ntlx
  let starty := startTile.tdiv ntlx
  let endx := endTile.tmod ntlx
  let endy := endTile.tdiv ntlx
  -- the end tile can be 'behind' the start tile
  let (startx, endx) := if endx < startx then (endx, startx) else (startx, endx)
  let columns ← counted startx endx
  let tiles ← columns.mapM (column ntlx starty endy)
  return tiles.flatten

section
variable {ntlx s e : Int}

/-- The leftmost column. -/
def left (ntlx s e : Int) : Int := min (s % ntlx) (e % ntlx)

/-- The rightmost column. -/
def right (ntlx s e : Int) : Int := max (s % ntlx) (e % ntlx)

theorem columns_eq (ntlx s e : Int) :
    (if e % ntlx < s % ntlx then (e % ntlx, s % ntlx) else (s % ntlx, e % ntlx))
      = (left ntlx s e, right ntlx s e) := by
  unfold left right
  split
  case isTrue h => rw [min_eq_right h.le, max_eq_left h.le]
  case isFalse h => rw [min_eq_left (not_lt.mp h), max_eq_right (not_lt.mp h)]

/-- The tiles of a range that is in order, by column and row. -/
theorem tiles_eq (hs : 0 ≤ s) (he : s ≤ e) :
    tiles ntlx s e = (Int.range (left ntlx s e) (right ntlx s e + 1)).flatMap fun i =>
      (Int.range (s / ntlx) (e / ntlx + 1)).map fun j => i + j * ntlx := by
  have hcolumns := columns_eq ntlx s e
  unfold tiles
  simp only [if_neg (not_lt.mpr he), Int.tmod_eq_emod_of_nonneg hs,
    Int.tmod_eq_emod_of_nonneg (hs.trans he), Int.tdiv_eq_ediv_of_nonneg hs,
    Int.tdiv_eq_ediv_of_nonneg (hs.trans he), hcolumns]
  unfold Int.range
  rw [List.flatMap_map]
  simp only [List.map_map, add_sub_right_comm]
  rfl

/-- **The tiles are the rectangle.** -/
theorem mem_tiles (hs : 0 ≤ s) (he : s ≤ e) (n : Int) :
    n ∈ tiles ntlx s e ↔ ∃ i j, (left ntlx s e ≤ i ∧ i ≤ right ntlx s e) ∧
      (s / ntlx ≤ j ∧ j ≤ e / ntlx) ∧ n = i + j * ntlx := by
  rw [tiles_eq hs he, List.mem_flatMap]
  simp only [List.mem_map, Int.mem_range_iff, Int.lt_add_one_iff]
  constructor
  · rintro ⟨i, hi, j, hj, rfl⟩
    exact ⟨i, j, hi, hj, rfl⟩
  · rintro ⟨i, j, hi, hj, rfl⟩
    exact ⟨i, hi, j, hj, rfl⟩

/-- A column of the rectangle is a column of the level. -/
theorem column_bounds (hn : 0 < ntlx) : 0 ≤ left ntlx s e ∧ right ntlx s e < ntlx := by
  have hs := Int.emod_nonneg s hn.ne'
  have he := Int.emod_nonneg e hn.ne'
  have hs' := Int.emod_lt_of_pos s hn
  have he' := Int.emod_lt_of_pos e hn
  exact ⟨le_min hs he, max_lt hs' he'⟩

/-- The number of a tile tells its column. -/
theorem column_of_number {i j : Int} (hi : 0 ≤ i) (hi' : i < ntlx) : (i + j * ntlx) % ntlx = i := by
  rw [Int.add_mul_emod_self_right, Int.emod_eq_of_lt hi hi']

/-- **No tile comes twice.** -/
theorem nodup_tiles (hn : 0 < ntlx) (hs : 0 ≤ s) (he : s ≤ e) : (tiles ntlx s e).Nodup := by
  obtain ⟨hleft, hright⟩ := @column_bounds ntlx s e hn
  rw [tiles_eq hs he, List.nodup_flatMap]
  constructor
  · intro i _
    refine (nodup_range _ _).map fun j j' h => ?_
    exact mul_right_cancel₀ hn.ne' (add_left_cancel h)
  · -- a tile in two columns would have two columns
    refine (nodup_range _ _).imp_of_mem fun {i i'} hi hi' hne n h h' => hne ?_
    rw [Int.mem_range_iff] at hi hi'
    obtain ⟨j, -, rfl⟩ := List.mem_map.mp h
    obtain ⟨j', -, heq⟩ := List.mem_map.mp h'
    have hcolumn : (i + j * ntlx) % ntlx = i := column_of_number (by omega) (by omega)
    have hcolumn' : (i' + j' * ntlx) % ntlx = i' := column_of_number (by omega) (by omega)
    rw [← hcolumn, ← hcolumn', heq]

/-- The first and the last tile are in it. -/
theorem ends_mem_tiles (hn : 0 < ntlx) (hs : 0 ≤ s) (he : s ≤ e) :
    s ∈ tiles ntlx s e ∧ e ∈ tiles ntlx s e := by
  have hrows : s / ntlx ≤ e / ntlx := Int.ediv_le_ediv hn he
  rw [mem_tiles hs he, mem_tiles hs he]
  exact ⟨⟨s % ntlx, s / ntlx, ⟨min_le_left _ _, le_max_left _ _⟩, ⟨le_rfl, hrows⟩,
      (Int.emod_add_ediv_mul s ntlx).symm⟩,
    ⟨e % ntlx, e / ntlx, ⟨min_le_right _ _, le_max_right _ _⟩, ⟨hrows, le_rfl⟩,
      (Int.emod_add_ediv_mul e ntlx).symm⟩⟩

/-- All of them exist if the last one does. -/
theorem tiles_exist (hn : 0 < ntlx) (hs : 0 ≤ s) (he : s ≤ e) {ntly : Int} (hlast : e < ntlx * ntly)
    {n : Int} (h : n ∈ tiles ntlx s e) : 0 ≤ n ∧ n < ntlx * ntly := by
  obtain ⟨hleft, hright⟩ := @column_bounds ntlx s e hn
  obtain ⟨i, j, hi, hj, rfl⟩ := (mem_tiles hs he n).mp h
  have hrow : 0 ≤ j := (Int.ediv_nonneg hs hn.le).trans hj.1
  have hrow' : j < ntly := hj.2.trans_lt (Int.ediv_lt_of_lt_mul hn (by rwa [mul_comm] at hlast))
  constructor
  · have := mul_nonneg hrow hn.le
    omega
  · calc i + j * ntlx < ntlx + j * ntlx := by omega
      _ = (j + 1) * ntlx := by ring
      _ ≤ ntly * ntlx := mul_le_mul_of_nonneg_right hrow' hn.le
      _ = ntlx * ntly := mul_comm _ _

/-! ## 2. When an `int` overflows -/

/-- No `int` of the loops overflows: neither the largest tile number nor the counter of the
rows. -/
def Fits (ntlx s e : Int) : Prop :=
  right ntlx s e + e / ntlx * ntlx < 2 ^ 31 ∧ e / ntlx + 1 < 2 ^ 31

/-- The loops of a range that is in order.  The columns never overflow. -/
theorem numbers_of_le (hn : 0 < ntlx) (hint : ntlx < 2 ^ 31) (hs : 0 ≤ s) (he : s ≤ e) :
    numbers ntlx s e = ((Int.range (left ntlx s e) (right ntlx s e + 1)).mapM
      (column ntlx (s / ntlx) (e / ntlx))).map List.flatten := by
  obtain ⟨-, hright⟩ := @column_bounds ntlx s e hn
  have hcolumns := columns_eq ntlx s e
  unfold numbers
  simp only [if_neg (not_lt.mpr he), Int.tmod_eq_emod_of_nonneg hs,
    Int.tmod_eq_emod_of_nonneg (hs.trans he), Int.tdiv_eq_ediv_of_nonneg hs,
    Int.tdiv_eq_ediv_of_nonneg (hs.trans he), hcolumns]
  rw [counted_of_lt (by omega), Option.map_eq_bind]
  rfl

/-- A column without an overflow. -/
theorem column_eq (hn : 0 < ntlx) (hs : 0 ≤ s) (hfits : Fits ntlx s e) {i : Int} (hi : 0 ≤ i)
    (hi' : i ≤ right ntlx s e) :
    column ntlx (s / ntlx) (e / ntlx) i
      = some ((Int.range (s / ntlx) (e / ntlx + 1)).map fun j => i + j * ntlx) := by
  obtain ⟨hnumber, hcount⟩ := hfits
  rw [column, counted_of_lt hcount]
  refine mapM_eq_some _ fun j hj => ?_
  rw [Int.mem_range_iff] at hj
  have hrow : 0 ≤ j * ntlx := mul_nonneg ((Int.ediv_nonneg hs hn.le).trans hj.1) hn.le
  have hlast : j * ntlx ≤ e / ntlx * ntlx := mul_le_mul_of_nonneg_right (by omega) hn.le
  rw [checked_of_bounds hrow (by omega)]
  exact checked_of_bounds (by omega) (by omega)

/-- The rightmost column with an overflow. -/
theorem column_eq_none (hn : 0 < ntlx) (hs : 0 ≤ s) (he : s ≤ e) (hfits : ¬ Fits ntlx s e) :
    column ntlx (s / ntlx) (e / ntlx) (right ntlx s e) = none := by
  have hrows : s / ntlx ≤ e / ntlx := Int.ediv_le_ediv hn he
  unfold column
  by_cases hcount : e / ntlx + 1 < 2 ^ 31
  · -- the last row fails
    have hlast : e / ntlx ∈ Int.range (s / ntlx) (e / ntlx + 1) :=
      Int.mem_range_iff.mpr ⟨hrows, Int.lt_succ _⟩
    have hrow : 0 ≤ e / ntlx * ntlx := mul_nonneg (Int.ediv_nonneg (hs.trans he) hn.le) hn.le
    have hover : 2 ^ 31 ≤ right ntlx s e + e / ntlx * ntlx := by
      by_contra hlt
      exact hfits ⟨not_le.mp hlt, hcount⟩
    rw [counted_of_lt hcount]
    refine mapM_eq_none hlast ?_
    by_cases hlarge : e / ntlx * ntlx < 2 ^ 31
    · rw [checked_of_bounds hrow hlarge]
      exact checked_eq_none hover
    · rw [checked_eq_none (not_lt.mp hlarge)]
      rfl
  · rw [counted, if_pos ⟨hrows, not_lt.mp hcount⟩]
    rfl

/-- **Without an overflow the loops go through the tiles.** -/
theorem numbers_eq (hn : 0 < ntlx) (hint : ntlx < 2 ^ 31) (hs : 0 ≤ s) (he : s ≤ e)
    (hfits : Fits ntlx s e) : numbers ntlx s e = some (tiles ntlx s e) := by
  obtain ⟨hleft, -⟩ := @column_bounds ntlx s e hn
  have hcolumns : ∀ i ∈ Int.range (left ntlx s e) (right ntlx s e + 1),
      column ntlx (s / ntlx) (e / ntlx) i
        = some ((Int.range (s / ntlx) (e / ntlx + 1)).map fun j => i + j * ntlx) := by
    intro i hi
    rw [Int.mem_range_iff] at hi
    exact column_eq hn hs hfits (by omega) (by omega)
  rw [numbers_of_le hn hint hs he, mapM_eq_some _ hcolumns, tiles_eq hs he, List.flatMap_def,
    Option.map_some]

/-- **An overflow leaves no value.** -/
theorem numbers_eq_none (hn : 0 < ntlx) (hint : ntlx < 2 ^ 31) (hs : 0 ≤ s) (he : s ≤ e)
    (hfits : ¬ Fits ntlx s e) : numbers ntlx s e = none := by
  have hmem : right ntlx s e ∈ Int.range (left ntlx s e) (right ntlx s e + 1) :=
    Int.mem_range_iff.mpr ⟨min_le_max, Int.lt_succ _⟩
  rw [numbers_of_le hn hint hs he, mapM_eq_none hmem (column_eq_none hn hs he hfits),
    Option.map_none]

end

/-- **`TIL` asks for the rectangle of its two tiles, once each**, exactly if no `int` overflows: the
tile in the last row and the rightmost column has a number, and the row behind the last one has. -/
theorem rectangle_iff (ntlx s e : Int32) (hn : 1 ≤ ntlx.toInt) (hs : 0 ≤ s.toInt)
    (he : s.toInt ≤ e.toInt) :
    (∃ l, numbers ntlx.toInt s.toInt e.toInt = some l ∧ l.Nodup ∧
        (∀ n, n ∈ l ↔ ∃ i j,
          (min (s.toInt % ntlx.toInt) (e.toInt % ntlx.toInt) ≤ i ∧
            i ≤ max (s.toInt % ntlx.toInt) (e.toInt % ntlx.toInt)) ∧
          (s.toInt / ntlx.toInt ≤ j ∧ j ≤ e.toInt / ntlx.toInt) ∧ n = i + j * ntlx.toInt) ∧
        (s.toInt ∈ l ∧ e.toInt ∈ l) ∧
        ∀ ntly, e.toInt < ntlx.toInt * ntly → ∀ n ∈ l, 0 ≤ n ∧ n < ntlx.toInt * ntly) ↔
      max (s.toInt % ntlx.toInt) (e.toInt % ntlx.toInt) + e.toInt / ntlx.toInt * ntlx.toInt
          < 2 ^ 31 ∧
        e.toInt / ntlx.toInt + 1 < 2 ^ 31 := by
  have hint : ntlx.toInt < 2 ^ 31 := Int32.toInt_lt ntlx
  constructor
  · rintro ⟨l, hl, -⟩
    by_contra hfits
    rw [numbers_eq_none hn hint hs he hfits] at hl
    cases hl
  · intro hfits
    exact ⟨_, numbers_eq hn hint hs he hfits, nodup_tiles hn hs he, mem_tiles hs he,
      ends_mem_tiles hn hs he, fun ntly hlast n hmem => tiles_exist hn hs he hlast hmem⟩

/-- A range that ends to the left of its start: tiles 2 to 4 of three columns. -/
theorem rectangle_iff_behind :
    ∃ l, numbers 3 2 4 = some l ∧ l.Nodup ∧ 2 ∈ l ∧ 4 ∈ l := by
  obtain ⟨l, hl, hnodup, -, ⟨hs, he⟩, -⟩ :=
    (rectangle_iff 3 2 4 (by decide) (by decide) (by decide)).mpr (by decide)
  exact ⟨l, hl, hnodup, hs, he⟩

/-- **The counter overflows.**  In a level of one column the last tile that an `int` can name is
also the last row that one can count, and the loop over the rows does not end with it.  So does the
number of a tile that is further to the right than the last one. -/
theorem last_int_overflows :
    (tiles 1 2147483647 2147483647 = [2147483647] ∧ numbers 1 2147483647 2147483647 = none) ∧
      2147483648 ∈ tiles 3 2147483645 2147483646 ∧ numbers 3 2147483645 2147483646 = none := by
  decide

end Iipsrv.TIL
