/-
# One axis of a tile grid

A level of `size` pixels is cut into tiles of `tile` pixels, the last of which may be shorter
(`tileExtent`).  A region from `pos` on, `len` pixels long, touches the tiles from `start` to
`stop`, and of each of them it uses the pixels that lie in both (`used`).

`part_spec` says that the case distinctions of `getRegion` (first tile, only tile, last tile
with and without a remainder, full tile, and the whole image) all compute that common part.
-/
import Iipsrv.TileManager.Region

namespace Iipsrv

open Lib.Word
open Lib.Single (quotient ceil_quotient)

/-! ## 1. Tiles of an axis -/

/-- The extent of tile `j`, as the image classes compute it: the remainder for the last one if
there is a remainder, the full extent for the others. -/
def tileExtent (size tile j : Nat) : Nat :=
  if j = numTiles size tile - 1 ∧ size % tile ≠ 0 then size % tile else tile

/-- A number between two multiples leaves its distance to the lower one. -/
theorem mod_eq_sub {n tile j : Nat} (h : j * tile ≤ n) (h' : n < j * tile + tile) :
    n % tile = n - j * tile := by
  obtain ⟨r, rfl⟩ := Nat.exists_eq_add_of_le h
  rw [Nat.mul_add_mod_of_lt (by omega), Nat.add_sub_cancel_left]

/-- What lies of a tile before `n`: the remainder, or all of it if there is none. -/
theorem remainder_or_full {n tile src j : Nat} (hlo : j * tile < n) (hhi : n ≤ j * tile + tile)
    (hsrc : n = j * tile + tile → src = tile) :
    (if n % tile ≠ 0 then n % tile else src) = n - j * tile := by
  by_cases hfull : n = j * tile + tile
  · have hrem : n % tile = 0 := by
      rw [hfull, ← Nat.succ_mul]
      exact Nat.mul_mod_left _ _
    rw [if_neg (not_not.mpr hrem), hsrc hfull]
    omega
  · have hrem : n % tile = n - j * tile := mod_eq_sub (Nat.le_of_lt hlo) (by omega)
    rw [hrem, if_pos (by omega)]

/-- The tiles cover the axis, and all but the last lie inside it. -/
theorem numTiles_spec {size tile : Nat} (ht : 1 ≤ tile) (hs : 1 ≤ size) :
    1 ≤ numTiles size tile ∧ (numTiles size tile - 1) * tile < size ∧
      size ≤ numTiles size tile * tile := by
  have hdiv := Nat.div_add_mod size tile
  have hmod := Nat.mod_lt size ht
  unfold numTiles
  rw [Nat.mul_comm] at hdiv
  generalize size / tile = q at hdiv ⊢
  generalize size % tile = r at hdiv hmod ⊢
  by_cases hr : r = 0
  · rw [if_pos hr, Nat.add_zero]
    have hq : q ≠ 0 := by
      rintro rfl
      omega
    obtain ⟨p, rfl⟩ := Nat.exists_eq_succ_of_ne_zero hq
    rw [Nat.succ_mul] at hdiv ⊢
    rw [Nat.succ_eq_add_one, Nat.add_sub_cancel]
    omega
  · rw [if_neg hr, Nat.add_sub_cancel, Nat.add_mul]
    omega

/-- The number of tiles is a ceiling. -/
theorem numTiles_eq {size tile : Nat} (ht : 1 ≤ tile) (hs : 1 ≤ size) :
    numTiles size tile = (size + tile - 1) / tile := by
  obtain ⟨hn, hlast, hcover⟩ := numTiles_spec ht hs
  obtain ⟨n, hn⟩ := Nat.exists_eq_add_of_le' hn
  rw [hn, Nat.add_sub_cancel] at hlast
  rw [hn] at hcover ⊢
  rw [Nat.succ_mul] at hcover
  symm
  apply Nat.div_eq_of_lt_le
  · rw [Nat.succ_mul]
    omega
  · rw [Nat.succ_mul, Nat.succ_mul]
    omega

/-- Up to `2 ^ 24` the `float` quotient of `getRegion` finds it. -/
theorem ceil_eq_numTiles {size tile : Nat} (ht : 1 ≤ tile) (hs : 1 ≤ size) (hle : size ≤ 2 ^ 24) :
    ⌈quotient size tile⌉₊ = numTiles size tile :=
  (ceil_quotient hs hle ht).trans (numTiles_eq ht hs).symm

/-- **The extent of a tile is what lies of it inside the level.** -/
theorem tileExtent_eq {size tile j : Nat} (ht : 1 ≤ tile) (hs : 1 ≤ size)
    (hj : j < numTiles size tile) :
    tileExtent size tile j = min size (j * tile + tile) - j * tile := by
  obtain ⟨hn, hlast, hcover⟩ := numTiles_spec ht hs
  unfold tileExtent
  by_cases hend : j = numTiles size tile - 1
  · -- the last tile
    have hj1 : numTiles size tile * tile = j * tile + tile := by
      rw [hend, ← Nat.succ_mul, Nat.succ_eq_add_one, Nat.sub_add_cancel hn]
    rw [hj1] at hcover
    rw [← hend] at hlast
    simp only [← hend, true_and]
    rw [remainder_or_full hlast hcover fun _ => rfl, Nat.min_eq_left hcover]
  · -- an inner tile
    rw [if_neg fun h => hend h.1]
    have hin : (j + 1) * tile ≤ (numTiles size tile - 1) * tile :=
      Nat.mul_le_mul_right tile (by omega)
    rw [Nat.add_mul] at hin
    omega

theorem tileExtent_le {size tile j : Nat} (ht : 1 ≤ tile) : tileExtent size tile j ≤ tile := by
  unfold tileExtent
  split
  · exact Nat.le_of_lt (Nat.mod_lt size ht)
  · exact Nat.le_refl tile

/-- A larger axis has no fewer tiles. -/
theorem numTiles_mono {s s' tile : Nat} (ht : 1 ≤ tile) (hs : 1 ≤ s) (hle : s ≤ s') :
    numTiles s tile ≤ numTiles s' tile := by
  obtain ⟨h1, hlast, -⟩ := numTiles_spec ht hs
  obtain ⟨-, -, hcover⟩ := numTiles_spec ht (hs.trans hle)
  have hlt : (numTiles s tile - 1) * tile < numTiles s' tile * tile := by omega
  have := Nat.lt_of_mul_lt_mul_right hlt
  omega

/-! ## 2. The tiles a region touches -/

/-- How far the region has been composed before tile `j`. -/
def done (tile pos len j : Nat) : Nat := min (pos + len) (max pos (j * tile)) - pos

/-- The pixels of tile `j` that the region uses. -/
def used (tile pos len j : Nat) : Nat := min (pos + len) (j * tile + tile) - max pos (j * tile)

/-- Where the region begins in tile `j`. -/
def skipped (tile pos j : Nat) : Nat := max pos (j * tile) - j * tile

/-- A region of one axis: not empty and inside the level.  `whole` may only be set for the whole
axis; otherwise the last tile that the region touches has been found. -/
structure Inside (whole : Bool) (size tile pos len : Nat) : Prop where
  tile_pos : 1 ≤ tile
  len_pos : 1 ≤ len
  le_size : pos + len ≤ size
  size_lt : size < 2 ^ 32
  whole_eq : whole = true → pos = 0 ∧ len = size
  ceil_eq : whole = false → ⌈quotient (pos + len) tile⌉₊ = numTiles (pos + len) tile

variable {whole : Bool} {size tile pos len j : Nat}

/-- The first tile holds the first pixel, the last one the last pixel. -/
theorem viewTiles_spec (h : Inside whole size tile pos len) :
    let v := viewTiles whole size tile pos len
    v.start < v.stop ∧ v.stop ≤ numTiles size tile ∧ v.start * tile ≤ pos ∧
      pos < v.start * tile + tile ∧ (v.stop - 1) * tile < pos + len ∧
      pos + len ≤ (v.stop - 1) * tile + tile ∧ v.offset = pos - v.start * tile := by
  obtain ⟨ht, hlen, hsize, hlt, hwhole, hceil⟩ := h
  cases whole with
  | true =>
    obtain ⟨rfl, rfl⟩ := hwhole rfl
    obtain ⟨hn, hlast, hcover⟩ := numTiles_spec ht hlen
    obtain ⟨n, hn⟩ := Nat.exists_eq_add_of_le hn
    simp only [viewTiles, if_true]
    rw [hn] at hlast hcover ⊢
    rw [Nat.add_mul] at hcover
    rw [Nat.add_sub_cancel_left] at hlast ⊢
    omega
  | false =>
    have hu : u32 (len + pos) = pos + len := by
      unfold u32
      omega
    have hstart := Nat.div_add_mod pos tile
    have hoff := Nat.mod_lt pos ht
    obtain ⟨hn, hlast, hcover⟩ := numTiles_spec ht (by omega : 1 ≤ pos + len)
    simp only [viewTiles, hu, hceil rfl, Bool.false_eq_true, if_false]
    rw [Nat.mul_comm] at hstart
    have hle : numTiles (pos + len) tile ≤ numTiles size tile := numTiles_mono ht (by omega) hsize
    generalize pos / tile = s at hstart ⊢
    generalize pos % tile = o at hstart hoff ⊢
    generalize numTiles (pos + len) tile = e at hn hlast hcover hle ⊢
    obtain ⟨e, rfl⟩ := Nat.exists_eq_add_of_le' hn
    rw [Nat.add_sub_cancel] at hlast ⊢
    rw [Nat.succ_mul] at hcover
    have hse : s < e + 1 := by
      by_contra hge
      have : (e + 1) * tile ≤ s * tile := Nat.mul_le_mul_right tile (by omega)
      rw [Nat.succ_mul] at this
      omega
    omega

/-- Before the last tile of a region its end has not been reached. -/
theorem end_of_before {stop : Nat} (he : (stop - 1) * tile < pos + len) (hj : j < stop - 1) :
    j * tile + tile < pos + len := by
  have hle : (j + 1) * tile ≤ (stop - 1) * tile := Nat.mul_le_mul_right tile hj
  rw [Nat.succ_mul] at hle
  omega

/-- Behind the first one its beginning lies to the left. -/
theorem begin_of_behind {start : Nat} (hs : pos < start * tile + tile) (hj : start < j) :
    pos < j * tile := by
  have hle : (start + 1) * tile ≤ j * tile := Nat.mul_le_mul_right tile hj
  rw [Nat.succ_mul] at hle
  omega

/-- **Every case of `getRegion` computes the common part** of the tile and the region. -/
theorem part_spec (h : Inside whole size tile pos len)
    (hlo : (viewTiles whole size tile pos len).start ≤ j)
    (hhi : j < (viewTiles whole size tile pos len).stop) :
    (viewTiles whole size tile pos len).part whole tile pos len (tileExtent size tile j) j
      = (used tile pos len j, skipped tile pos j) := by
  obtain ⟨hse, hle, hs₁, hs₂, he₁, he₂, hoff⟩ := viewTiles_spec h
  obtain ⟨ht, hlen, hsize, hlt, hwhole, -⟩ := h
  generalize viewTiles whole size tile pos len = v at *
  have hext : tileExtent size tile j = min size (j * tile + tile) - j * tile :=
    tileExtent_eq ht (by omega) (by omega)
  rw [hext]
  unfold Axis.part used skipped
  cases whole with
  | true =>
    obtain ⟨rfl, rfl⟩ := hwhole rfl
    rw [if_pos rfl, Nat.zero_add, Nat.zero_max, Nat.sub_self]
  | false =>
    rw [if_neg (by decide)]
    have hu : u32 (len + pos) = pos + len := by
      unfold u32
      omega
    have hstop : sub32 v.stop 1 = v.stop - 1 := if_pos (by omega)
    rw [hu, hstop, hoff]
    by_cases hfirst : j = v.start
    · rw [if_pos hfirst]
      rw [← hfirst] at hs₁ hs₂ ⊢
      by_cases hmore : j < v.stop - 1
      · have hend := end_of_before he₁ hmore
        have hsub : sub32 (min size (j * tile + tile) - j * tile) (pos - j * tile)
            = min size (j * tile + tile) - j * tile - (pos - j * tile) := if_pos (by omega)
        rw [if_pos hmore, hsub, Prod.mk.injEq]
        omega
      · have hlast : v.stop - 1 = j := by omega
        rw [hlast] at he₁ he₂
        rw [if_neg hmore, Prod.mk.injEq]
        omega
    · have hpos := begin_of_behind hs₂ (by omega : v.start < j)
      rw [if_neg hfirst]
      by_cases hlast : j = v.stop - 1
      · rw [if_pos hlast]
        rw [← hlast] at he₁ he₂
        dsimp only
        rw [remainder_or_full he₁ he₂ (fun hfull => by omega), Prod.mk.injEq]
        omega
      · have hend := end_of_before he₁ (by omega : j < v.stop - 1)
        rw [if_neg hlast, Prod.mk.injEq]
        omega

/-- The composed part grows by what is used of each tile, from nothing to the whole region, and
the tile is used up to its own extent at most. -/
theorem done_spec (h : Inside whole size tile pos len)
    (hlo : (viewTiles whole size tile pos len).start ≤ j)
    (hhi : j < (viewTiles whole size tile pos len).stop) :
    done tile pos len (j + 1) = done tile pos len j + used tile pos len j ∧
      done tile pos len (j + 1) ≤ len ∧
      skipped tile pos j + used tile pos len j ≤ tileExtent size tile j ∧
      pos + done tile pos len j = j * tile + skipped tile pos j := by
  obtain ⟨hse, hle, hs₁, hs₂, he₁, he₂, -⟩ := viewTiles_spec h
  obtain ⟨ht, hlen, hsize, hlt, -, -⟩ := h
  generalize viewTiles whole size tile pos len = v at *
  have hext : tileExtent size tile j = min size (j * tile + tile) - j * tile :=
    tileExtent_eq ht (by omega) (by omega)
  -- the tile and the region have a pixel in common
  have hbegin : pos < j * tile + tile := by
    have hfirst : v.start * tile ≤ j * tile := Nat.mul_le_mul_right tile hlo
    omega
  have hreach : j * tile < pos + len := by
    have hlast : j * tile ≤ (v.stop - 1) * tile := Nat.mul_le_mul_right tile (by omega)
    omega
  clear hse hle hs₁ hs₂ he₁ he₂ hlo hhi
  rw [hext]
  unfold done used skipped
  rw [Nat.add_mul, Nat.one_mul]
  refine ⟨?_, ?_, ?_, ?_⟩
  · omega
  · omega
  · omega
  · omega

theorem done_start (h : Inside whole size tile pos len) :
    done tile pos len (viewTiles whole size tile pos len).start = 0 := by
  obtain ⟨-, -, hs₁, -, -, -, -⟩ := viewTiles_spec h
  unfold done
  omega

theorem done_stop (h : Inside whole size tile pos len) :
    done tile pos len (viewTiles whole size tile pos len).stop = len := by
  obtain ⟨hse, -, hs₁, -, -, he₂, -⟩ := viewTiles_spec h
  have hsucc : (viewTiles whole size tile pos len).stop * tile
      = ((viewTiles whole size tile pos len).stop - 1) * tile + tile := by
    rw [← Nat.succ_mul, Nat.succ_eq_add_one, Nat.sub_add_cancel (by omega)]
  unfold done
  omega

end Iipsrv
