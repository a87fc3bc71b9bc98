/-
# The tiles of a level

`getTile` of the image classes turns the number of a tile into a rectangle of the level: its
offset, and its size, which is reduced in the last column and row.  `OpenJPEGImage` and
`KakaduImage` compare the number with the number of tiles first; `TPTImage` leaves that, and the
offset, to the TIFF library.

`tiles_partition_iff` says that the rectangles are pairwise disjoint, not empty and cover the level
exactly, and that just the numbers of tiles are accepted, unless the arithmetic of `int` and
`unsigned int` gets in the way: the number of tiles wraps around at 2^32, and an offset of 2^31 or
more is negative.
-/
import Iipsrv.TileManager.Grid

namespace Iipsrv

open Lib.Word

/-! ## 1. Rectangles -/

/-- The part of a level that a tile shows.  The offsets are `int`s. -/
structure TileRect where
  xoffset : Int
  yoffset : Int
  width : Nat
  height : Nat

/-- A pixel of a tile. -/
def TileRect.Holds (r : TileRect) (x y : Int) : Prop :=
  r.xoffset ≤ x ∧ x < r.xoffset + r.width ∧ r.yoffset ≤ y ∧ y < r.yoffset + r.height

/-- An `unsigned int` as an `int`. -/
def signed (n : Nat) : Int := (Int32.ofNat n).toInt

theorem signed_of_lt {n : Nat} (h : n < 2 ^ 31) : signed n = n :=
  Int32.toInt_ofNat_of_lt h

theorem signed_neg {n : Nat} (h : 2 ^ 31 ≤ n) (hlt : n < 2 ^ 32) : signed n < 0 := by
  unfold signed
  rw [Int32.toInt_ofNat', Int.bmod_def]
  change (if (n : Int) % 4294967296 < (4294967296 + 1) / 2 then (n : Int) % 4294967296
    else (n : Int) % 4294967296 - 4294967296) < 0
  split <;> omega

/-- `getTile` of the classes for JPEG2000, for a level of `imWidth` by `imHeight` pixels. -/
def codecTile (codec : String) (imWidth imHeight tileWidth tileHeight tile : Nat) :
    Except Failure TileRect :=
  let ntlx := numTiles imWidth tileWidth
  let ntly := numTiles imHeight tileHeight
  -- Check whether requested tile exists
  if u32 (ntlx * ntly) ≤ tile then
    .error (.thrown (codec ++ " :: Asked for non-existent tile: " ++ toString tile))
  else .ok {
    xoffset := signed (u32 (tile % ntlx * tileWidth))
    yoffset := signed (u32 (tile / ntlx * tileHeight))
    width := tileExtent imWidth tileWidth (tile % ntlx)
    height := tileExtent imHeight tileHeight (tile / ntlx) }

def OpenJPEGImage.tileRect : (imWidth imHeight tileWidth tileHeight tile : Nat) →
    Except Failure TileRect :=
  codecTile "OpenJPEG"

def KakaduImage.tileRect : (imWidth imHeight tileWidth tileHeight tile : Nat) →
    Except Failure TileRect :=
  codecTile "Kakadu"

/-- The size of a tile in `TPTImage::getTile`. -/
def TPTImage.tileSize (imWidth imHeight tileWidth tileHeight tile : Nat) : Nat × Nat :=
  let ntlx := numTiles imWidth tileWidth
  (tileExtent imWidth tileWidth (tile % ntlx), tileExtent imHeight tileHeight (tile / ntlx))

/-! ## 2. One axis -/

section
variable {size tile j : Nat}

/-- Every tile begins inside the axis. -/
theorem tileOffset_lt (ht : 1 ≤ tile) (hs : 1 ≤ size) (hj : j < numTiles size tile) :
    j * tile < size := by
  have hle : j * tile ≤ (numTiles size tile - 1) * tile := Nat.mul_le_mul_right tile (by omega)
  exact Nat.lt_of_le_of_lt hle (numTiles_spec ht hs).2.1

theorem one_le_tileExtent (ht : 1 ≤ tile) (hs : 1 ≤ size) (hj : j < numTiles size tile) :
    1 ≤ tileExtent size tile j := by
  have := tileOffset_lt ht hs hj
  rw [tileExtent_eq ht hs hj]
  omega

/-- **The pixels of a tile**: those of the axis whose quotient is its number. -/
theorem mem_tile_iff (ht : 1 ≤ tile) (hs : 1 ≤ size) (hj : j < numTiles size tile) (p : Nat) :
    (j * tile ≤ p ∧ p < j * tile + tileExtent size tile j) ↔ p < size ∧ p / tile = j := by
  have hlt := tileOffset_lt ht hs hj
  have hdiv : p / tile = j ↔ j * tile ≤ p ∧ p < j * tile + tile := by
    rw [Nat.div_eq_iff ht]
    omega
  rw [hdiv, tileExtent_eq ht hs hj]
  omega

/-- The tile that a pixel belongs to exists. -/
theorem div_lt_numTiles {p : Nat} (ht : 1 ≤ tile) (hp : p < size) :
    p / tile < numTiles size tile := by
  have hcover := (numTiles_spec ht (Nat.one_le_of_lt hp)).2.2
  exact Nat.div_lt_of_lt_mul (by rw [Nat.mul_comm]; omega)

end

/-! ## 3. The level -/

/-- The rectangles that a class computes from the numbers it accepts, all of them `unsigned int`s,
are the tiles of a level. -/
structure Partitions (tileRect : Nat → Except Failure TileRect) (W H count : Nat) : Prop where
  accepted : ∀ t < 2 ^ 32, (∃ r, tileRect t = .ok r) ↔ t < count
  nonempty : ∀ t r, tileRect t = .ok r → 1 ≤ r.width ∧ 1 ≤ r.height
  disjoint : ∀ t t' r r' x y, tileRect t = .ok r → tileRect t' = .ok r' → r.Holds x y →
    r'.Holds x y → t = t'
  covers : ∀ x y, (∃ t r, tileRect t = .ok r ∧ r.Holds x y) ↔ (0 ≤ x ∧ x < W) ∧ 0 ≤ y ∧ y < H

/-- The tiles can be counted in an `unsigned int`, and their offsets are `int`s. -/
def FitsWords (W H tileWidth tileHeight : Nat) : Prop :=
  numTiles W tileWidth * numTiles H tileHeight < 2 ^ 32 ∧
    (numTiles W tileWidth - 1) * tileWidth < 2 ^ 31 ∧
    (numTiles H tileHeight - 1) * tileHeight < 2 ^ 31

section
variable {codec : String} {W H tw th : Nat}

/-- A tile that is accepted, with its column and row. -/
theorem codecTile_ok_iff {t : Nat} {r : TileRect} :
    codecTile codec W H tw th t = .ok r ↔ t < u32 (numTiles W tw * numTiles H th) ∧
      r = ⟨signed (u32 (t % numTiles W tw * tw)), signed (u32 (t / numTiles W tw * th)),
        tileExtent W tw (t % numTiles W tw), tileExtent H th (t / numTiles W tw)⟩ := by
  unfold codecTile
  dsimp only
  split
  case isTrue hge =>
    refine ⟨fun h => ?_, fun h => absurd h.1 (by omega)⟩
    cases h
  case isFalse hlt =>
    refine ⟨fun h => ?_, fun h => congrArg Except.ok h.2.symm⟩
    cases h
    exact ⟨by omega, rfl⟩

/-- Within the words the offsets are what they are meant to be. -/
theorem offset_eq {j : Nat} (hj : j < numTiles W tw)
    (hlast : (numTiles W tw - 1) * tw < 2 ^ 31) : signed (u32 (j * tw)) = (j * tw : Nat) := by
  have hle : j * tw ≤ (numTiles W tw - 1) * tw := Nat.mul_le_mul_right tw (by omega)
  rw [u32_of_lt (by omega), signed_of_lt (by omega)]

/-- A number below the product is a column and a row. -/
theorem column_row_lt {m n t : Nat} (h : t < m * n) : t % m < m ∧ t / m < n := by
  have hm : 0 < m := Nat.pos_of_mul_pos_right (Nat.lt_of_le_of_lt (Nat.zero_le t) h)
  exact ⟨Nat.mod_lt t hm, Nat.div_lt_of_lt_mul h⟩

/-- The pixels of an accepted tile. -/
theorem holds_iff (htw : 1 ≤ tw) (hth : 1 ≤ th) (hW : 1 ≤ W) (hH : 1 ≤ H)
    (hfit : FitsWords W H tw th) {t : Nat} {r : TileRect}
    (hok : codecTile codec W H tw th t = .ok r) (x y : Int) :
    r.Holds x y ↔ ∃ p q : Nat, x = p ∧ y = q ∧ (p < W ∧ p / tw = t % numTiles W tw) ∧
      q < H ∧ q / th = t / numTiles W tw := by
  obtain ⟨hcount, hx, hy⟩ := hfit
  obtain ⟨ht, rfl⟩ := codecTile_ok_iff.mp hok
  rw [u32_of_lt hcount] at ht
  obtain ⟨hcol, hrow⟩ := column_row_lt ht
  unfold TileRect.Holds
  dsimp only
  rw [offset_eq hcol hx, offset_eq hrow hy]
  constructor
  · rintro ⟨h1, h2, h3, h4⟩
    obtain ⟨p, rfl⟩ := Int.eq_ofNat_of_zero_le (Int.le_trans (Int.natCast_nonneg _) h1)
    obtain ⟨q, rfl⟩ := Int.eq_ofNat_of_zero_le (Int.le_trans (Int.natCast_nonneg _) h3)
    exact ⟨p, q, rfl, rfl, (mem_tile_iff htw hW hcol p).mp (by omega),
      (mem_tile_iff hth hH hrow q).mp (by omega)⟩
  · rintro ⟨p, q, rfl, rfl, hp, hq⟩
    have hp' := (mem_tile_iff htw hW hcol p).mpr hp
    have hq' := (mem_tile_iff hth hH hrow q).mpr hq
    omega

/-- **Within the words the tiles partition the level.** -/
theorem partitions_of_fitsWords (htw : 1 ≤ tw) (hth : 1 ≤ th) (hW : 1 ≤ W) (hH : 1 ≤ H)
    (hfit : FitsWords W H tw th) :
    Partitions (codecTile codec W H tw th) W H (numTiles W tw * numTiles H th) := by
  have hcount := hfit.1
  constructor
  · intro t _
    constructor
    · rintro ⟨r, hok⟩
      have := (codecTile_ok_iff.mp hok).1
      rwa [u32_of_lt hcount] at this
    · intro hlt
      exact ⟨_, codecTile_ok_iff.mpr ⟨by rwa [u32_of_lt hcount], rfl⟩⟩
  · intro t r hok
    obtain ⟨ht, rfl⟩ := codecTile_ok_iff.mp hok
    rw [u32_of_lt hcount] at ht
    obtain ⟨hcol, hrow⟩ := column_row_lt ht
    exact ⟨one_le_tileExtent htw hW hcol, one_le_tileExtent hth hH hrow⟩
  · intro t t' r r' x y hok hok' h h'
    obtain ⟨p, q, rfl, rfl, ⟨-, hp⟩, -, hq⟩ := (holds_iff htw hth hW hH hfit hok x y).mp h
    obtain ⟨p', q', hpp, hqq, ⟨-, hp'⟩, -, hq'⟩ := (holds_iff htw hth hW hH hfit hok' _ _).mp h'
    obtain rfl : p = p' := by omega
    obtain rfl : q = q' := by omega
    -- the column and the row determine the number
    rw [← Nat.div_add_mod t (numTiles W tw), ← Nat.div_add_mod t' (numTiles W tw), ← hp, ← hq,
      ← hp', ← hq']
  · intro x y
    constructor
    · rintro ⟨t, r, hok, hholds⟩
      obtain ⟨p, q, rfl, rfl, ⟨hp, -⟩, hq, -⟩ := (holds_iff htw hth hW hH hfit hok x y).mp hholds
      omega
    · rintro ⟨⟨hx0, hx⟩, hy0, hy⟩
      obtain ⟨p, rfl⟩ := Int.eq_ofNat_of_zero_le hx0
      obtain ⟨q, rfl⟩ := Int.eq_ofNat_of_zero_le hy0
      have hcol := div_lt_numTiles htw (Int.ofNat_lt.mp hx)
      have hrow := div_lt_numTiles hth (Int.ofNat_lt.mp hy)
      have hlt := Lib.Raster.number_lt hcol hrow
      have hok : codecTile codec W H tw th (q / th * numTiles W tw + p / tw) = .ok _ :=
        codecTile_ok_iff.mpr ⟨by rwa [u32_of_lt hcount], rfl⟩
      refine ⟨_, _, hok, (holds_iff htw hth hW hH hfit hok _ _).mpr ⟨p, q, rfl, rfl, ?_, ?_⟩⟩
      · exact ⟨Int.ofNat_lt.mp hx, (Nat.mul_add_mod_of_lt hcol).symm⟩
      · exact ⟨Int.ofNat_lt.mp hy, (Lib.Raster.number_div hcol).symm⟩

/-- Beyond the words they do not. -/
theorem fitsWords_of_partitions (htw : 1 ≤ tw) (hth : 1 ≤ th) (hW : 1 ≤ W) (hH : 1 ≤ H)
    (hWlt : W < 2 ^ 32) (hHlt : H < 2 ^ 32)
    (hpart : Partitions (codecTile codec W H tw th) W H (numTiles W tw * numTiles H th)) :
    FitsWords W H tw th := by
  have hn := (numTiles_spec htw hW).1
  have hm := (numTiles_spec hth hH).1
  -- the largest number is not accepted, so that there are fewer tiles
  have hcount : numTiles W tw * numTiles H th < 2 ^ 32 := by
    by_contra hge
    obtain ⟨r, hok⟩ := (hpart.accepted (2 ^ 32 - 1) (by omega)).mpr (by omega)
    have hlt := (codecTile_ok_iff.mp hok).1
    have := Nat.mod_lt (numTiles W tw * numTiles H th) (Nat.two_pow_pos 32)
    unfold u32 at hlt
    omega
  -- the first pixel of a tile is inside the level
  have hnonneg (t : Nat) (ht : t < numTiles W tw * numTiles H th) :
      0 ≤ signed (u32 (t % numTiles W tw * tw)) ∧ 0 ≤ signed (u32 (t / numTiles W tw * th)) := by
    have hok : codecTile codec W H tw th t = .ok _ :=
      codecTile_ok_iff.mpr ⟨by rwa [u32_of_lt hcount], rfl⟩
    have hone := hpart.nonempty t _ hok
    have hin := (hpart.covers _ _).mp ⟨t, _, hok, Int.le_refl _, by omega, Int.le_refl _, by omega⟩
    exact ⟨hin.1.1, hin.2.1⟩
  have hoffset {n : Nat} (hlt : n < 2 ^ 32) (h0 : 0 ≤ signed (u32 n)) : n < 2 ^ 31 := by
    by_contra hge
    rw [u32_of_lt hlt] at h0
    have := signed_neg (by omega : 2 ^ 31 ≤ n) hlt
    omega
  have hcol : numTiles W tw - 1 < numTiles W tw := by omega
  have hrow : numTiles H th - 1 < numTiles H th := by omega
  -- the last tile of the grid is in the last column and the last row
  have hlast := hnonneg _ (Lib.Raster.number_lt hcol hrow)
  rw [Nat.mul_add_mod_of_lt hcol, Lib.Raster.number_div hcol] at hlast
  have hx := tileOffset_lt htw hW hcol
  have hy := tileOffset_lt hth hH hrow
  exact ⟨hcount, hoffset (by omega) hlast.1, hoffset (by omega) hlast.2⟩

end

/-- **When the tiles partition their level.**  For every size of the level and of the tiles: the
rectangles of `OpenJPEGImage` and `KakaduImage` partition the level, and those of `TPTImage` have
the same sizes, if and only if the tiles can be counted in an `unsigned int` and their offsets are
`int`s. -/
theorem tiles_partition_iff (W H tw th : Nat) (hW : 1 ≤ W) (hH : 1 ≤ H) (htw : 1 ≤ tw)
    (hth : 1 ≤ th) (hWlt : W < 2 ^ 32) (hHlt : H < 2 ^ 32) :
    (Partitions (OpenJPEGImage.tileRect W H tw th) W H (numTiles W tw * numTiles H th) ∧
      Partitions (KakaduImage.tileRect W H tw th) W H (numTiles W tw * numTiles H th) ∧
      ∀ t r, OpenJPEGImage.tileRect W H tw th t = .ok r →
        TPTImage.tileSize W H tw th t = (r.width, r.height)) ↔ FitsWords W H tw th := by
  constructor
  · rintro ⟨hpart, -, -⟩
    exact fitsWords_of_partitions htw hth hW hH hWlt hHlt hpart
  · intro hfit
    refine ⟨partitions_of_fitsWords htw hth hW hH hfit, partitions_of_fitsWords htw hth hW hH hfit,
      ?_⟩
    intro t r hok
    obtain ⟨-, rfl⟩ := codecTile_ok_iff.mp hok
    rfl

/-- **Too many tiles.**  A level of 65536 x 65536 pixels in tiles of one pixel has no tile 0. -/
theorem tile_zero_refused :
    OpenJPEGImage.tileRect 65536 65536 1 1 0
        = .error (.thrown "OpenJPEG :: Asked for non-existent tile: 0") ∧
      KakaduImage.tileRect 65536 65536 1 1 0
        = .error (.thrown "Kakadu :: Asked for non-existent tile: 0") := by
  constructor <;> rfl

/-- A level of 1000 x 700 pixels in tiles of 256 x 256. -/
theorem tiles_partition_1000_by_700 :
    Partitions (OpenJPEGImage.tileRect 1000 700 256 256) 1000 700 12 ∧
      Partitions (KakaduImage.tileRect 1000 700 256 256) 1000 700 12 := by
  have hpart := (tiles_partition_iff 1000 700 256 256 (by decide) (by decide) (by decide)
    (by decide) (by decide) (by decide)).mpr (by unfold FitsWords; decide)
  exact ⟨hpart.1, hpart.2.1⟩

end Iipsrv
