/-
# Row-major rasters

A raster of width `W` whose pixels have `B` cells each stands in a block row by row: cell `b`
of the pixel in column `x` and row `y` is at `(y * W + x) * B + b` (`place`).

`blit` copies a rectangle between two rasters, one line at a time, through the checked copy of
`Lib.Buffer`.  `blit_spec` says that it stays inside both blocks when the rectangle stays inside
both rasters, and what every pixel is afterwards.  Cropping an image in place and composing one
from tiles are both blits.

`foldlM_rectangle` is for loops that go through a rectangle of one raster cell by cell and replace
what they find.
-/
import Mathlib.Tactic.Ring
import Mathlib.Data.List.Nodup
import Iipsrv.Lib.Fill

namespace Lib.Raster

open Lib.Buffer Lib.Loop Lib.Fill

/-! ## 1. Where a cell stands -/

/-- The pixel in column `x` and row `y` has a number of its own, below the number of pixels. -/
theorem number_lt {W H x y : Nat} (hx : x < W) (hy : y < H) : y * W + x < W * H := by
  calc y * W + x < y * W + W := Nat.add_lt_add_left hx _
    _ = (y + 1) * W := (Nat.succ_mul y W).symm
    _ ≤ H * W := Nat.mul_le_mul_right W hy
    _ = W * H := Nat.mul_comm H W

/-- The number tells the row. -/
theorem number_div {W x y : Nat} (hx : x < W) : (y * W + x) / W = y := by
  rw [Nat.mul_comm, Nat.mul_add_div (by omega), Nat.div_eq_of_lt hx, Nat.add_zero]

/-- The place of cell `b` of pixel `(x, y)`, for rasters `W` pixels wide. -/
def place (W B x y b : Nat) : Nat := (y * W + x) * B + b

/-- Cells of pixels inside the raster stand inside its block. -/
theorem place_lt {W H B x y b : Nat} (hx : x < W) (hy : y < H) (hb : b < B) :
    place W B x y b < W * H * B := by
  calc place W B x y b < (y * W + x) * B + B := Nat.add_lt_add_left hb _
    _ = (y * W + x + 1) * B := by ring
    _ ≤ W * H * B := Nat.mul_le_mul_right B (number_lt hx hy)

/-- A line of `w` pixels inside the raster ends inside its block. -/
theorem place_line_le {W H B w x y : Nat} (hx : x + w ≤ W) (hy : y < H) :
    place W B x y 0 + w * B ≤ W * H * B := by
  calc place W B x y 0 + w * B = (y * W + x + w) * B := by unfold place; ring
    _ ≤ (y * W + W) * B := Nat.mul_le_mul_right B (by omega)
    _ = (y + 1) * W * B := by ring
    _ ≤ H * W * B := Nat.mul_le_mul_right B (Nat.mul_le_mul_right W hy)
    _ = W * H * B := by rw [Nat.mul_comm H W]

/-- Every place in the block is that of a cell. -/
theorem exists_place {w h d n : Nat} (hn : n < w * h * d) :
    ∃ x y b, x < w ∧ y < h ∧ b < d ∧ n = place w d x y b := by
  have hd : 0 < d := Nat.pos_of_ne_zero fun h0 => by simp [h0] at hn
  have hw : 0 < w := Nat.pos_of_ne_zero fun h0 => by simp [h0] at hn
  have hpixel : n / d < w * h := Nat.div_lt_of_lt_mul (by rwa [Nat.mul_comm])
  refine ⟨n / d % w, n / d / w, n % d, Nat.mod_lt _ hw, Nat.div_lt_of_lt_mul hpixel,
    Nat.mod_lt _ hd, ?_⟩
  unfold place
  rw [Nat.div_add_mod', Nat.div_add_mod']

/-- Moving `e` pixels along a line moves the place by `e` pixels. -/
theorem place_add (W B x y e b : Nat) :
    place W B (x + e) y b = place W B x y 0 + (e * B + b) := by
  unfold place
  ring

/-- A run of `w` pixels that starts at pixel number `r` holds the cells of the pixels with
numbers from `r` on. -/
theorem mem_run {B w r p b : Nat} (hb : b < B) :
    (r * B ≤ p * B + b ∧ p * B + b < r * B + w * B) ↔ (r ≤ p ∧ p < r + w) := by
  constructor
  · rintro ⟨hlo, hhi⟩
    constructor
    · by_contra hlt
      have : (p + 1) * B ≤ r * B := Nat.mul_le_mul_right B (by omega)
      rw [Nat.add_mul] at this
      omega
    · by_contra hge
      have : (r + w) * B ≤ p * B := Nat.mul_le_mul_right B (by omega)
      rw [Nat.add_mul] at this
      omega
  · rintro ⟨hlo, hhi⟩
    have h₁ : r * B ≤ p * B := Nat.mul_le_mul_right B hlo
    have h₂ : (p + 1) * B ≤ (r + w) * B := Nat.mul_le_mul_right B hhi
    rw [Nat.add_mul, Nat.add_mul] at h₂
    omega

/-- A line of `w` pixels from column `x₀` of row `y₀` on, not longer than the row, holds the
pixels of these columns in this row and no others. -/
theorem mem_line {W w x₀ y₀ x y : Nat} (hx : x < W) (hw : x₀ + w ≤ W) :
    (y₀ * W + x₀ ≤ y * W + x ∧ y * W + x < y₀ * W + x₀ + w) ↔
      (y = y₀ ∧ x₀ ≤ x ∧ x < x₀ + w) := by
  rcases Nat.lt_trichotomy y y₀ with hlt | rfl | hgt
  · have : (y + 1) * W ≤ y₀ * W := Nat.mul_le_mul_right W hlt
    rw [Nat.add_mul] at this
    omega
  · omega
  · have : (y₀ + 1) * W ≤ y * W := Nat.mul_le_mul_right W hgt
    rw [Nat.add_mul] at this
    omega

/-- The place opposite to place `n` of `m` columns and `k` rows, by column and row and by its
number. -/
theorem opposite_iff {m k n t : Nat} (hn : n < m * k) :
    (t % m = m - 1 - n % m ∧ t / m = k - 1 - n / m) ↔ t = m * k - 1 - n := by
  have hm : 0 < m := Nat.pos_of_ne_zero fun h0 => by simp [h0] at hn
  have hr := Nat.mod_lt n hm
  have hq : n / m < k := Nat.div_lt_of_lt_mul hn
  obtain ⟨d, hd⟩ := Nat.exists_eq_add_of_lt hq
  have hnum := Nat.div_add_mod' n m
  have hplace : m * k - 1 - n = d * m + (m - 1 - n % m) := by
    have hmk : m * k = n / m * m + d * m + m := by
      rw [hd]
      ring
    omega
  have hrow : k - 1 - n / m = d := by omega
  rw [hplace, hrow]
  constructor
  · rintro ⟨hcol, hrow⟩
    have := Nat.div_add_mod' t m
    rw [hcol, hrow] at this
    exact this.symm
  · rintro rfl
    have hlt : m - 1 - n % m < m := by omega
    exact ⟨Nat.mul_add_mod_of_lt hlt, number_div hlt⟩

/-! ## 2. Copying a rectangle -/

variable {α : Type*}

/-- Copy `h` lines of `w` pixels: from column `sx`, row `sy` of a raster `SW` wide to column
`dx`, row `dy` of a raster `DW` wide. -/
def blit (B : Nat) (dst : List α) (DW dx dy : Nat) (src : List α) (SW sx sy w h : Nat) :
    Option (List α) :=
  (List.range' 0 h).foldlM
    (fun out k => copy out (place DW B dx (dy + k) 0) src (place SW B sx (sy + k) 0) (w * B)) dst

/-- What the target raster shows once the first `k` lines are copied. -/
def Copied (B : Nat) (dst : List α) (DW dx dy : Nat) (src : List α) (SW sx sy w : Nat) (k : Nat)
    (out : List α) : Prop :=
  out.length = dst.length ∧ ∀ x y b, x < DW → b < B →
    out[place DW B x y b]? =
      if (dx ≤ x ∧ x < dx + w) ∧ (dy ≤ y ∧ y < dy + k) then
        src[place SW B (sx + (x - dx)) (sy + (y - dy)) b]?
      else dst[place DW B x y b]?

section
variable {B : Nat} {dst src out out' : List α} {DW dx dy SW sx sy w k : Nat}

/-- Copying one more line of the rectangle. -/
theorem Copied.line (h : Copied B dst DW dx dy src SW sx sy w k out) (hdx : dx + w ≤ DW)
    (hout' : copy out (place DW B dx (dy + k) 0) src (place SW B sx (sy + k) 0) (w * B)
      = some out') :
    Copied B dst DW dx dy src SW sx sy w (k + 1) out' := by
  refine ⟨(length_copy hout').trans h.1, fun x y b hx hb => ?_⟩
  rw [getElem?_copy hout', h.2 x y b hx hb]
  have hin : (place DW B dx (dy + k) 0 ≤ place DW B x y b ∧
      place DW B x y b < place DW B dx (dy + k) 0 + w * B) ↔
      (y = dy + k ∧ dx ≤ x ∧ x < dx + w) := by
    unfold place
    rw [Nat.add_zero, mem_run hb, mem_line hx hdx]
  -- the cell is in this line, in an earlier one, or untouched
  by_cases hline : y = dy + k ∧ dx ≤ x ∧ x < dx + w
  · rw [if_pos (hin.mpr hline), if_pos (by omega)]
    obtain ⟨rfl, hlo, hhi⟩ := hline
    obtain ⟨e, rfl⟩ := Nat.exists_eq_add_of_le hlo
    rw [Nat.add_sub_cancel_left, Nat.add_sub_cancel_left, place_add, place_add,
      Nat.add_sub_cancel_left]
  · rw [if_neg (fun h => hline (hin.mp h))]
    by_cases hold : (dx ≤ x ∧ x < dx + w) ∧ (dy ≤ y ∧ y < dy + k)
    · rw [if_pos hold, if_pos (by omega)]
    · rw [if_neg hold, if_neg (by omega)]

/-- **A rectangle inside both rasters is copied**, without leaving either block, and nothing
else of the target changes. -/
theorem blit_spec {DH SH h : Nat} (hdst : DW * DH * B ≤ dst.length)
    (hsrc : SW * SH * B ≤ src.length) (hdx : dx + w ≤ DW) (hdy : dy + h ≤ DH)
    (hsx : sx + w ≤ SW) (hsy : sy + h ≤ SH) :
    ∃ out, blit B dst DW dx dy src SW sx sy w h = some out ∧
      Copied B dst DW dx dy src SW sx sy w h out := by
  have hzero : Copied B dst DW dx dy src SW sx sy w 0 dst := by
    refine ⟨rfl, fun x y b _ _ => ?_⟩
    rw [if_neg (by omega)]
  have hstep : ∀ k out, 0 ≤ k → k < 0 + h → Copied B dst DW dx dy src SW sx sy w k out →
      ∃ out', copy out (place DW B dx (dy + k) 0) src (place SW B sx (sy + k) 0) (w * B)
          = some out' ∧ Copied B dst DW dx dy src SW sx sy w (k + 1) out' := by
    rintro k out - hk hcopied
    have hd : place DW B dx (dy + k) 0 + w * B ≤ out.length :=
      (place_line_le hdx (by omega)).trans (hdst.trans (Nat.le_of_eq hcopied.1.symm))
    have hs : place SW B sx (sy + k) 0 + w * B ≤ src.length :=
      (place_line_le hsx (by omega)).trans hsrc
    obtain ⟨out', hout'⟩ := Option.isSome_iff_exists.mp (copy_isSome.mpr ⟨hs, hd⟩)
    exact ⟨out', hout', hcopied.line hdx hout'⟩
  obtain ⟨out, hout, hcopied⟩ := foldlM_some _ h 0 dst hzero hstep
  exact ⟨out, hout, by rwa [Nat.zero_add] at hcopied⟩

end

/-! ## 3. Replacing the cells of a rectangle -/

/-- The place tells the cell. -/
theorem place_decode {W B x y b : Nat} (hx : x < W) (hb : b < B) :
    place W B x y b / B / W = y ∧ place W B x y b / B % W = x ∧ place W B x y b % B = b := by
  have hcell : place W B x y b / B = y * W + x := number_div hb
  rw [hcell]
  exact ⟨number_div hx, Nat.mul_add_mod_of_lt hx, Nat.mul_add_mod_of_lt hb⟩

/-- The place of cell `m` of a rectangle `w` pixels wide, whose corner is at `(x₀, y₀)`. -/
def within (W B x₀ y₀ w m : Nat) : Nat := place W B (x₀ + m / B % w) (y₀ + m / B / w) (m % B)

section
variable {W H B x₀ y₀ w h : Nat}

theorem within_place {x y b : Nat} (hx : x < w) (hb : b < B) :
    within W B x₀ y₀ w (place w B x y b) = place W B (x₀ + x) (y₀ + y) b := by
  obtain ⟨hrow, hcolumn, hcell⟩ := place_decode (y := y) hx hb
  unfold within
  rw [hrow, hcolumn, hcell]

/-- No two cells of the rectangle are in one place. -/
theorem nodup_within (y₀ : Nat) (hx : x₀ + w ≤ W) :
    ((List.range (w * h * B)).map (within W B x₀ y₀ w)).Nodup := by
  refine List.Nodup.map_on (fun m hm n hn heq => ?_) List.nodup_range
  obtain ⟨i, j, b, hi, -, hb, rfl⟩ := exists_place (List.mem_range.mp hm)
  obtain ⟨i', j', b', hi', -, hb', rfl⟩ := exists_place (List.mem_range.mp hn)
  rw [within_place hi hb, within_place hi' hb'] at heq
  obtain ⟨hrow, hcolumn, hcell⟩ := place_decode (y := y₀ + j) (show x₀ + i < W by omega) hb
  obtain ⟨hrow', hcolumn', hcell'⟩ := place_decode (y := y₀ + j') (show x₀ + i' < W by omega) hb'
  rw [heq] at hrow hcolumn hcell
  have h₁ : i = i' := by omega
  have h₂ : j = j' := by omega
  rw [h₁, h₂, hcell.symm.trans hcell']

/-- The places of the rectangle. -/
theorem mem_within {x y b : Nat} (hx : x₀ + w ≤ W) (hxW : x < W) (hb : b < B) :
    place W B x y b ∈ (List.range (w * h * B)).map (within W B x₀ y₀ w) ↔
      (x₀ ≤ x ∧ x < x₀ + w) ∧ (y₀ ≤ y ∧ y < y₀ + h) := by
  rw [List.mem_map]
  constructor
  · rintro ⟨m, hm, heq⟩
    obtain ⟨i, j, b', hi, hj, hb', rfl⟩ := exists_place (List.mem_range.mp hm)
    rw [within_place hi hb'] at heq
    obtain ⟨hrow, hcolumn, -⟩ := place_decode (y := y₀ + j) (show x₀ + i < W by omega) hb'
    obtain ⟨hrow', hcolumn', -⟩ := place_decode (y := y) hxW hb
    rw [heq] at hrow hcolumn
    omega
  · rintro ⟨⟨hx₁, hx₂⟩, hy₁, hy₂⟩
    obtain ⟨i, rfl⟩ := Nat.exists_eq_add_of_le hx₁
    obtain ⟨j, rfl⟩ := Nat.exists_eq_add_of_le hy₁
    have hi : i < w := by omega
    exact ⟨place w B i j b, List.mem_range.mpr (place_lt hi (by omega) hb), within_place hi hb⟩

/-- **A loop over the cells of a rectangle**, whose turns look at nothing but the cell they are
about to write.  Every cell of the rectangle is written once, and the others are as they were. -/
theorem foldlM_rectangle (turn : List α → Nat → Nat → Nat → Option (List α))
    (g : Nat → Nat → Nat → α) (block : List α) (hblock : W * H * B ≤ block.length)
    (hx : x₀ + w ≤ W) (hy : y₀ + h ≤ H)
    (hturn : ∀ out, ∀ y < h, ∀ x < w, ∀ b < B, out.length = block.length →
      out[place W B (x₀ + x) (y₀ + y) b]? = block[place W B (x₀ + x) (y₀ + y) b]? →
      turn out y x b = some (out.set (place W B (x₀ + x) (y₀ + y) b) (g y x b))) :
    ∃ out, (List.range h).foldlM (fun out y => (List.range w).foldlM (fun out x =>
        (List.range B).foldlM (fun out b => turn out y x b) out) out) block = some out ∧
      out.length = block.length ∧
      ∀ x y b, x < W → b < B → out[place W B x y b]? =
        if (x₀ ≤ x ∧ x < x₀ + w) ∧ (y₀ ≤ y ∧ y < y₀ + h) then some (g (y - y₀) (x - x₀) b)
        else block[place W B x y b]? := by
  -- the three loops are one, over the places in the order of the turns
  have hone : (List.range h).foldlM (fun out y => (List.range w).foldlM (fun out x =>
        (List.range B).foldlM (fun out b => turn out y x b) out) out) block
      = ((List.range (w * h * B)).map (within W B x₀ y₀ w)).foldlM
          (fun out n => turn out (n / B / W - y₀) (n / B % W - x₀) (n % B)) block := by
    rw [foldlM_range_mul (fun out y x => (List.range B).foldlM (fun out b => turn out y x b) out),
      foldlM_range_mul (fun out m b => turn out (m / w) (m % w) b), Nat.mul_comm h w,
      List.foldlM_map]
    refine foldlM_range_congr block fun m hm out => ?_
    obtain ⟨i, j, b, hi, -, hb, rfl⟩ := exists_place hm
    obtain ⟨hrow, hcolumn, hcell⟩ := place_decode (y := j) hi hb
    obtain ⟨hrow', hcolumn', hcell'⟩ := place_decode (y := y₀ + j) (show x₀ + i < W by omega) hb
    rw [within_place hi hb, hrow, hcolumn, hcell, hrow', hcolumn', hcell',
      Nat.add_sub_cancel_left, Nat.add_sub_cancel_left]
  obtain ⟨out, hout, hlen, hcells⟩ := foldlM_pointwise
    (fun out n => turn out (n / B / W - y₀) (n / B % W - x₀) (n % B))
    (fun n => g (n / B / W - y₀) (n / B % W - x₀) (n % B)) block (nodup_within y₀ hx)
    fun out n hn hlen hold => by
      obtain ⟨m, hm, rfl⟩ := List.mem_map.mp hn
      obtain ⟨i, j, b, hi, hj, hb, rfl⟩ := exists_place (List.mem_range.mp hm)
      obtain ⟨hrow, hcolumn, hcell⟩ := place_decode (y := y₀ + j) (show x₀ + i < W by omega) hb
      rw [within_place hi hb] at hold ⊢
      rw [hrow, hcolumn, hcell, Nat.add_sub_cancel_left, Nat.add_sub_cancel_left]
      exact ⟨(place_lt (by omega) (by omega) hb).trans_le hblock,
        hturn out j hj i hi b hb hlen hold⟩
  refine ⟨out, hone.trans hout, hlen, fun x y b hxW hb => ?_⟩
  obtain ⟨hrow, hcolumn, hcell⟩ := place_decode (y := y) hxW hb
  simp only [hcells, mem_within hx hxW hb, hrow, hcolumn, hcell]

end

end Lib.Raster
