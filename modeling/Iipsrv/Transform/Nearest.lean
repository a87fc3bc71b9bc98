/-
# Resizing to the nearest pixel

`Transform::interpolate_nearestneighbour` writes into the buffer it reads from, unless the result
needs a larger one.  The pixels are gone through in the order of the RESULT, so a pixel of the input
may have been overwritten before it is read.

`nearest_in_place_iff` says when the result is right all the same: if every pixel that is read
behind the loop has been left as it was.  A reduction in both directions never reads behind the
loop.  An image of at least two columns that is made wider, and lower so that it fits, is ALWAYS
wrong (`not_undisturbed_of_wider`): its columns 0 and 1 become one.

The scale factors are exact rationals.
-/
import Mathlib.Algebra.Order.Floor.Semifield
import Iipsrv.Transform.Canvas
import Iipsrv.Lib.Fill
import Iipsrv.Lib.InPlace

namespace Iipsrv.Transform

open Lib Lib.Word Lib.Buffer Lib.Fill Lib.Raster Lib.Loop Lib.InPlace

/-! ## 1. The loops -/

/-- `(unsigned int) floorf(i*xscale)`, where the scale is `n / resampled`. -/
def scaled (n resampled i : Nat) : Nat := u32 ⌊(i : ℚ) * ((n : ℚ) / resampled)⌋₊

/-- The three loops.  `input` is the buffer that is read from, which may be the one that is written
to. -/
def nearestLoops (width height channels resampledWidth resampledHeight : Nat)
    (input : List (Option UInt8) → List (Option UInt8)) (output : List (Option UInt8)) :
    Option (List (Option UInt8)) :=
  (List.range resampledHeight).foldlM (fun output j =>
    (List.range resampledWidth).foldlM (fun output i =>
      let ii := scaled width resampledWidth i
      let jj := scaled height resampledHeight j
      let pyramidIndex := channels * (ii + jj * width)
      let resampledIndex := u32 (i + j * resampledWidth) * channels
      (List.range channels).foldlM (fun output k =>
        (input output)[pyramidIndex + k]?.bind fun a => store output (resampledIndex + k) a)
        output) output) output

namespace Canvas

/-- With a new buffer for the result. -/
def nearestSeparate (resampledWidth resampledHeight : Nat) (t : Canvas) : Option Canvas :=
  (nearestLoops t.header.width t.header.height t.header.channels resampledWidth resampledHeight
    (fun _ => t.cells) (fresh (resampledWidth * resampledHeight * t.header.channels))).map
    fun cells =>
      ⟨Transform.interpolateNearestneighbour resampledWidth resampledHeight t.header, cells⟩

/-- In the buffer of the input. -/
def nearestInPlace (resampledWidth resampledHeight : Nat) (t : Canvas) : Option Canvas :=
  (nearestLoops t.header.width t.header.height t.header.channels resampledWidth resampledHeight
    id t.cells).map fun cells =>
      ⟨Transform.interpolateNearestneighbour resampledWidth resampledHeight t.header, cells⟩

/-- `Transform::interpolate_nearestneighbour`: create new buffer if size is larger than input
size. -/
def interpolateNearestneighbour (resampledWidth resampledHeight : Nat) (t : Canvas) :
    Option Canvas :=
  if u32 (t.header.width * t.header.height) < u32 (resampledWidth * resampledHeight) then
    t.nearestSeparate resampledWidth resampledHeight
  else t.nearestInPlace resampledWidth resampledHeight

end Canvas

/-! ## 2. Which pixel is read -/

/-- Rounding down is division. -/
theorem floor_scale (n resampled i : Nat) :
    ⌊(i : ℚ) * ((n : ℚ) / resampled)⌋₊ = i * n / resampled := by
  rw [← mul_div_assoc, ← Nat.cast_mul, Nat.floor_div_eq_div]

theorem scaled_eq {n resampled i : Nat} (hn : n < 2 ^ 32) (hi : i < resampled) :
    scaled n resampled i = i * n / resampled := by
  have hle : i * n / resampled ≤ n := by
    refine Nat.div_le_of_le_mul ?_
    exact Nat.mul_le_mul_right n (Nat.le_of_lt hi)
  unfold scaled
  rw [floor_scale, u32_of_lt (by omega)]

/-- The column or row that is read is inside. -/
theorem scaled_lt {n resampled i : Nat} (hn : 0 < n) (hi : i < resampled) :
    i * n / resampled < n := by
  refine Nat.div_lt_of_lt_mul ?_
  exact (Nat.mul_lt_mul_right hn).mpr hi

/-- The number of the pixel that is read for pixel `p` of the result. -/
def source (width height resampledWidth resampledHeight p : Nat) : Nat :=
  p / resampledWidth * height / resampledHeight * width
    + p % resampledWidth * width / resampledWidth

section
variable {w h c rw rh : Nat}

theorem source_lt (hw : 0 < w) (hh : 0 < h) (hrw : 0 < rw) {p : Nat} (hp : p < rw * rh) :
    source w h rw rh p < w * h := by
  have hcol := scaled_lt hw (Nat.mod_lt p hrw)
  have hrow := scaled_lt hh (Nat.div_lt_of_lt_mul hp)
  exact number_lt hcol hrow

theorem spread_source_lt (hw : 0 < w) (hh : 0 < h) (hrw : 0 < rw) (hc : 0 < c) {m : Nat}
    (hm : m < rw * rh * c) : spread c (source w h rw rh) m < w * h * c := by
  have hp : m / c < rw * rh := Nat.div_lt_of_lt_mul (by rwa [Nat.mul_comm])
  have hsource : source w h rw rh (m / c) + 1 ≤ w * h := source_lt hw hh hrw hp
  have hle := Nat.mul_le_mul_right c hsource
  have hk := Nat.mod_lt m hc
  rw [Nat.succ_mul] at hle
  unfold spread
  omega

/-- **The loops as one**, over the cells of the result. -/
theorem nearestLoops_eq (hw : w < 2 ^ 32) (hh : h < 2 ^ 32) (hrw : 0 < rw)
    (hfit : rw * rh < 2 ^ 32) {input : List (Option UInt8) → List (Option UInt8)}
    {output : List (Option UInt8)} :
    nearestLoops w h c rw rh input output
      = (List.range (rw * rh * c)).foldlM (fun out m =>
          (input out)[spread c (source w h rw rh) m]?.bind fun a => store out m a) output := by
  unfold nearestLoops
  dsimp only
  rw [foldlM_range_mul (fun output j i => (List.range c).foldlM (fun output k => _) output),
    foldlM_range_mul (fun output p k => _), Nat.mul_comm rh rw]
  refine foldlM_range_congr output fun m hm out => ?_
  have hp : m / c < rw * rh := Nat.div_lt_of_lt_mul (by rwa [Nat.mul_comm])
  have hi := Nat.mod_lt (m / c) hrw
  have hj : m / c / rw < rh := Nat.div_lt_of_lt_mul hp
  have hread : c * (scaled w rw (m / c % rw) + scaled h rh (m / c / rw) * w) + m % c
      = spread c (source w h rw rh) m := by
    rw [scaled_eq hw hi, scaled_eq hh hj]
    unfold spread source
    ring
  rw [hread, Nat.mod_add_div', u32_of_lt (by omega), Nat.div_add_mod']

/-- Without channels the loops do nothing. -/
theorem nearestLoops_zero {input : List (Option UInt8) → List (Option UInt8)}
    {output : List (Option UInt8)} : nearestLoops w h 0 rw rh input output = some output :=
  foldlM_idle (fun out _ => foldlM_idle (fun _ _ => rfl) _ out) _ output

end

/-! ## 3. What the result should be -/

/-- Every pixel of the result is the pixel of the plane that it falls on. -/
def nearestPlane (resampledWidth resampledHeight : Nat) {α : Type*} (P : Plane α) : Plane α where
  width := resampledWidth
  height := resampledHeight
  depth := P.depth
  cell x y b := P.cell (x * P.width / resampledWidth) (y * P.height / resampledHeight) b

section
variable {rw rh : Nat} {P : Plane (Option UInt8)}

/-- A cell of the result, in the block of the input. -/
theorem getElem?_nearestPlane (hw : 0 < P.width) (hh : 0 < P.height) {m : Nat}
    (hm : m < rw * rh * P.depth) :
    (nearestPlane rw rh P).cells[m]?
      = P.cells[spread P.depth (source P.width P.height rw rh) m]? := by
  obtain ⟨x, y, b, hx, hy, hb, rfl⟩ := exists_place hm
  have hsource : spread P.depth (source P.width P.height rw rh) (place rw P.depth x y b)
      = place P.width P.depth (x * P.width / rw) (y * P.height / rh) b := by
    unfold place
    rw [spread_apply _ hb, source, Nat.mul_add_mod_of_lt hx, number_div hx]
  rw [hsource, P.getElem?_cells (scaled_lt hw hx) (scaled_lt hh hy) hb]
  exact (nearestPlane rw rh P).getElem?_cells hx hy hb

/-- **With a buffer of its own the result is always right.** -/
theorem nearestLoops_separate (hw : 0 < P.width) (hh : 0 < P.height) (hw' : P.width < 2 ^ 32)
    (hh' : P.height < 2 ^ 32) (hrw : 0 < rw) (hfit : rw * rh < 2 ^ 32) :
    nearestLoops P.width P.height P.depth rw rh (fun _ => P.cells) (fresh (rw * rh * P.depth))
      = some (nearestPlane rw rh P).cells := by
  have hlen := (nearestPlane rw rh P).length_cells
  change _ = rw * rh * P.depth at hlen
  obtain ⟨out, hout, houtlen, hcell⟩ := foldlM_pointwise
    (fun out m => P.cells[spread P.depth (source P.width P.height rw rh) m]?.bind fun a =>
      store out m a)
    (fun m => (nearestPlane rw rh P).cells[m]?.getD none) (fresh (rw * rh * P.depth))
    (List.nodup_range (n := rw * rh * P.depth)) fun b m hm hb _ => by
      have hm' := List.mem_range.mp hm
      rw [length_fresh] at hb ⊢
      refine ⟨hm', ?_⟩
      rw [← getElem?_nearestPlane hw hh hm', List.getElem?_eq_getElem (by omega), Option.bind_some,
        store_of_lt _ (by omega)]
      rfl
  rw [nearestLoops_eq hw' hh' hrw hfit, hout]
  refine congrArg some (List.ext_getElem? fun m => ?_)
  rw [hcell m]
  by_cases hm : m < rw * rh * P.depth
  · rw [if_pos (List.mem_range.mpr hm), List.getElem?_eq_getElem (by omega)]
    rfl
  · rw [if_neg (mt List.mem_range.mp hm), List.getElem?_eq_none (by rw [length_fresh]; omega),
      List.getElem?_eq_none (by omega)]

/-- **In the buffer of the input** a cell of the result comes from the origin of its source. -/
theorem nearestLoops_inPlace (hw : 0 < P.width) (hh : 0 < P.height) (hw' : P.width < 2 ^ 32)
    (hh' : P.height < 2 ^ 32) (hrw : 0 < rw) (hfit : rw * rh < 2 ^ 32)
    (hle : rw * rh ≤ P.width * P.height) :
    ∃ out, nearestLoops P.width P.height P.depth rw rh id P.cells = some out ∧
      ∀ m < rw * rh * P.depth,
        out[m]? = P.cells[origin (spread P.depth (source P.width P.height rw rh)) m]? := by
  have hroom : rw * rh * P.depth ≤ P.cells.length := by
    rw [P.length_cells]
    exact Nat.mul_le_mul_right P.depth hle
  have hin : ∀ m < rw * rh * P.depth,
      spread P.depth (source P.width P.height rw rh) m < P.cells.length := by
    intro m hm
    have hc : 0 < P.depth := Nat.pos_of_ne_zero fun h0 => by simp [h0] at hm
    rw [P.length_cells]
    exact spread_source_lt hw hh hrw hc hm
  obtain ⟨out, hout, -, hcell⟩ := gather_eq hroom hin
  refine ⟨out, (nearestLoops_eq hw' hh' hrw hfit).trans hout, fun m hm => ?_⟩
  rw [hcell m, if_pos hm]

end

/-! ## 4. When the result is right -/

/-- The header of a tile of 8 bits. -/
def sized (width height channels : Nat) : Header :=
  ⟨width, height, channels, 8, width * height * channels⟩

theorem consistent_sized (width height channels : Nat) :
    Consistent (sized width height channels) := by
  change width * height * channels = width * height * channels * (8 / 8)
  rw [Nat.div_self (by decide), Nat.mul_one]

namespace Picture

/-- A tile of these bytes. -/
def ofBytes {w h c : Nat} (bytes : List UInt8) (hlen : bytes.length = w * h * c)
    (hlt : w * h * c < 2 ^ 32) : Picture :=
  ⟨sized w h c, bytes, rfl, consistent_sized w h c, hlen, hlt⟩

/-- A tile that is white in cell `n`, and black elsewhere. -/
def marked {w h c : Nat} (hlt : w * h * c < 2 ^ 32) (n : Nat) : Picture :=
  ofBytes ((List.replicate (w * h * c) 0).set n 255)
    (by rw [List.length_set, List.length_replicate]) hlt

theorem getD_marked {w h c n m : Nat} (hlt : w * h * c < 2 ^ 32) (hn : n < w * h * c) :
    (marked hlt n).bytes[m]?.getD 0 = if m = n then 255 else 0 := by
  change ((List.replicate (w * h * c) 0).set n 255)[m]?.getD 0 = _
  by_cases hm : m = n
  · subst hm
    rw [if_pos rfl, List.getElem?_set_self (by rwa [List.length_replicate])]
    rfl
  · rw [if_neg hm, List.getElem?_set_ne (Ne.symm hm), List.getElem?_replicate]
    split <;> rfl

/-- **The tile is resampled.**  Every pixel of the result is the pixel of the original input that it
falls on, as with a buffer of its own.  The buffer may be longer than the result. -/
structure Resampled (p : Picture) (rw rh : Nat) (t : Canvas) : Prop where
  header : t.header = resample rw rh p.header
  pixels : t.cells.take (rw * rh * p.header.channels) = (nearestPlane rw rh p.plane).cells
  separate : p.canvas.nearestSeparate rw rh
    = some ⟨t.header, t.cells.take (rw * rh * p.header.channels)⟩

section
variable {p : Picture} {w h c rw rh : Nat}

/-- The loops of a tile are those of its plane. -/
theorem nearestSeparate_eq (hw : 0 < p.header.width) (hh : 0 < p.header.height)
    (hw' : p.header.width < 2 ^ 32) (hh' : p.header.height < 2 ^ 32) (hrw : 0 < rw)
    (hfit : rw * rh < 2 ^ 32) :
    p.canvas.nearestSeparate rw rh
      = some ⟨resample rw rh p.header, (nearestPlane rw rh p.plane).cells⟩ := by
  have hloops := nearestLoops_separate (P := p.plane) hw hh hw' hh' hrw hfit
  rw [p.cells_plane] at hloops
  unfold Canvas.nearestSeparate
  change (nearestLoops p.plane.width p.plane.height p.plane.depth rw rh (fun _ => p.bytes.map some)
    (fresh (rw * rh * p.plane.depth))).map _ = _
  rw [hloops]
  rfl

/-- The pixels of the result, one by one. -/
theorem take_eq_cells_iff (out : List (Option UInt8)) {n : Nat} {P : Plane (Option UInt8)}
    (hlen : P.cells.length = n) : out.take n = P.cells ↔ ∀ m < n, out[m]? = P.cells[m]? := by
  constructor
  · intro h m hm
    rw [← h, List.getElem?_take_of_lt hm]
  · intro h
    refine List.ext_getElem? fun m => ?_
    by_cases hm : m < n
    · rw [List.getElem?_take_of_lt hm, h m hm]
    · rw [List.getElem?_eq_none (by rw [List.length_take]; omega),
        List.getElem?_eq_none (by omega)]

/-- **A tile is resampled if each value comes from a cell of the same value.** -/
theorem resampled_iff (p : Picture) (rw rh : Nat) (hc : 0 < p.header.channels) (hrw : 0 < rw)
    (hrh : 0 < rh) (hle : rw * rh ≤ p.header.width * p.header.height) :
    (∃ t, p.canvas.interpolateNearestneighbour rw rh = some t ∧ p.Resampled rw rh t) ↔
      ∀ m < rw * rh * p.header.channels,
        p.bytes[origin (spread p.header.channels
          (source p.header.width p.header.height rw rh)) m]?
        = p.bytes[spread p.header.channels (source p.header.width p.header.height rw rh) m]? := by
  have hpixels := Nat.lt_of_lt_of_le (Nat.mul_pos hrw hrh) hle
  have hw := Nat.pos_of_mul_pos_right hpixels
  have hh := Nat.pos_of_mul_pos_left hpixels
  have hlt : p.header.width * p.header.height < 2 ^ 32 := by
    refine Nat.lt_of_le_of_lt (Nat.le_mul_of_pos_right _ hc) ?_
    rw [← p.extent_eq]
    exact p.extent_lt
  have hw' := Nat.lt_of_le_of_lt (Nat.le_mul_of_pos_right p.header.width hh) hlt
  have hh' := Nat.lt_of_le_of_lt (Nat.le_mul_of_pos_left p.header.height hw) hlt
  have hfit : rw * rh < 2 ^ 32 := Nat.lt_of_le_of_lt hle hlt
  obtain ⟨out, hout, hcell⟩ := nearestLoops_inPlace (P := p.plane) hw hh hw' hh' hrw hfit hle
  rw [p.cells_plane] at hout
  have hcanvas : p.canvas.interpolateNearestneighbour rw rh
      = some ⟨resample rw rh p.header, out⟩ := by
    unfold Canvas.interpolateNearestneighbour
    rw [if_neg (by
      change ¬ u32 (p.header.width * p.header.height) < u32 (rw * rh)
      rw [u32_of_lt hlt, u32_of_lt hfit]
      omega)]
    unfold Canvas.nearestInPlace
    change (nearestLoops p.plane.width p.plane.height p.plane.depth rw rh id
      (p.bytes.map some)).map _ = _
    rw [hout]
    rfl
  have hsome := Option.map_injective (Option.some_injective UInt8)
  have hvalue : ∀ m < rw * rh * p.header.channels,
      (out[m]? = (nearestPlane rw rh p.plane).cells[m]? ↔ _) := fun m hm => by
    rw [hcell m hm, getElem?_nearestPlane hw hh hm, p.cells_plane, List.getElem?_map,
      List.getElem?_map, hsome.eq_iff]
  have htake := take_eq_cells_iff out (nearestPlane rw rh p.plane).length_cells
  constructor
  · rintro ⟨t, ht, hright⟩ m hm
    obtain rfl := Option.some.inj (hcanvas.symm.trans ht)
    exact (hvalue m hm).mp (htake.mp hright.pixels m hm)
  · intro hall
    have hpix := htake.mpr fun m hm => (hvalue m hm).mpr (hall m hm)
    refine ⟨_, hcanvas, rfl, hpix, ?_⟩
    rw [nearestSeparate_eq hw hh hw' hh' hrw hfit]
    exact congrArg (fun cells => some (Canvas.mk (resample rw rh p.header) cells)) hpix.symm

/-- A tile without channels is resampled in any case. -/
theorem resampled_of_channels_eq_zero (hc : p.header.channels = 0) :
    ∃ t, p.canvas.interpolateNearestneighbour rw rh = some t ∧ p.Resampled rw rh t := by
  have hbytes : p.bytes = [] := by
    rw [← List.length_eq_zero_iff, p.length_samples, hc, Nat.mul_zero]
  have hnil : (nearestPlane rw rh p.plane).cells = [] := Plane.cells_eq_nil (by
    change rw * rh * p.header.channels = 0
    rw [hc, Nat.mul_zero])
  have hseparate : p.canvas.nearestSeparate rw rh = some ⟨resample rw rh p.header, []⟩ := by
    unfold Canvas.nearestSeparate
    change (nearestLoops _ _ p.header.channels rw rh _ (fresh (rw * rh * p.header.channels))).map _
      = _
    rw [hc, nearestLoops_zero]
    rfl
  have hplace : p.canvas.nearestInPlace rw rh = some ⟨resample rw rh p.header, []⟩ := by
    unfold Canvas.nearestInPlace
    change (nearestLoops _ _ p.header.channels rw rh id (p.bytes.map some)).map _ = _
    rw [hc, nearestLoops_zero, hbytes]
    rfl
  refine ⟨⟨resample rw rh p.header, []⟩, ?_, rfl, ?_, ?_⟩
  · unfold Canvas.interpolateNearestneighbour
    rw [hseparate, hplace, ite_self]
  · rw [hnil]
    exact List.take_nil
  · rw [hseparate]
    exact congrArg (fun cells => some (Canvas.mk (resample rw rh p.header) cells))
      List.take_nil.symm

end

/-- **When resizing in place is right.**  For tiles of 8 bits of any size and number of channels,
and every target size that needs no larger buffer: the result is right for ALL tiles of this size if
and only if every pixel that is read behind the loop has been left as it was. -/
theorem nearest_in_place_iff {w h c rw rh : Nat} (hlt : w * h * c < 2 ^ 32) (hrw : 1 ≤ rw)
    (hrh : 1 ≤ rh) (hle : rw * rh ≤ w * h) :
    (∀ p : Picture, p.header = sized w h c →
      ∃ t, p.canvas.interpolateNearestneighbour rw rh = some t ∧ p.Resampled rw rh t) ↔
      c = 0 ∨ Undisturbed (source w h rw rh) (rw * rh) := by
  rcases Nat.eq_zero_or_pos c with rfl | hc
  · refine iff_of_true (fun p hp => resampled_of_channels_eq_zero ?_) (.inl rfl)
    rw [hp]
    rfl
  have hpixels := Nat.lt_of_lt_of_le (Nat.mul_pos hrw hrh) hle
  have hvalues : ∀ p : Picture, p.header = sized w h c →
      ((∃ t, p.canvas.interpolateNearestneighbour rw rh = some t ∧ p.Resampled rw rh t) ↔
        ∀ m < rw * rh * c, p.bytes[origin (spread c (source w h rw rh)) m]?
          = p.bytes[spread c (source w h rw rh) m]?) := by
    intro p hp
    have hresampled := resampled_iff p rw rh
    rw [hp] at hresampled
    exact hresampled hc hrw hrh hle
  rw [← undisturbed_spread_iff hc, ← origin_eq_iff]
  constructor
  · intro hall
    refine .inr fun m hm => ?_
    by_contra hne
    -- a tile that is white at the source
    have hin := spread_source_lt (Nat.pos_of_mul_pos_right hpixels)
      (Nat.pos_of_mul_pos_left hpixels) hrw hc hm
    have hsame := (hvalues (marked hlt (spread c (source w h rw rh) m)) rfl).mp (hall _ rfl) m hm
    have hwhite := congrArg (·.getD 0) hsame
    rw [getD_marked hlt hin, getD_marked hlt hin, if_neg hne, if_pos rfl] at hwhite
    exact absurd hwhite (by decide)
  · rintro (rfl | hkept) p hp
    · exact absurd hc (by decide)
    · refine (hvalues p hp).mpr fun m hm => ?_
      rw [hkept m hm]

end Picture

/-! ## 5. Reductions, and targets that are wider -/

/-- **A reduction in both directions never reads behind the loop.** -/
theorem undisturbed_of_reduction (w h rw rh : Nat) (hrw : 0 < rw) (hrh : 0 < rh) (hw : rw ≤ w)
    (hh : rh ≤ h) : Undisturbed (source w h rw rh) (rw * rh) := by
  intro p _
  left
  have hcol : p % rw ≤ p % rw * w / rw := by
    rw [Nat.le_div_iff_mul_le hrw]
    exact Nat.mul_le_mul_left _ hw
  have hrow : p / rw ≤ p / rw * h / rh := by
    rw [Nat.le_div_iff_mul_le hrh]
    exact Nat.mul_le_mul_left _ hh
  calc p = p / rw * rw + p % rw := (Nat.div_add_mod' p rw).symm
    _ ≤ p / rw * h / rh * w + p % rw * w / rw :=
      Nat.add_le_add (Nat.mul_le_mul hrow hw) hcol

/-- **A target that is wider.**  The first pixel that should be the one in column 1 finds column 0
there. -/
theorem not_undisturbed_of_wider {w h rw rh : Nat} (hw : 2 ≤ w) (hwider : w < rw) (hrh : 0 < rh) :
    ¬ Undisturbed (source w h rw rh) (rw * rh) := by
  intro hkept
  -- the first column of the result that falls on column 1
  obtain ⟨i, hi, htwo, hlo, hhi⟩ : ∃ i, i < rw ∧ 2 ≤ i ∧ rw ≤ i * w ∧ i * w < 2 * rw := by
    have hnum := Nat.div_add_mod (rw - 1) w
    have hmod := Nat.mod_lt (rw - 1) (by omega : 0 < w)
    have hpos : 1 ≤ (rw - 1) / w := (Nat.one_le_div_iff (by omega)).mpr (by omega)
    have hdouble := Nat.mul_le_mul_right ((rw - 1) / w) hw
    refine ⟨(rw - 1) / w + 1, by omega, by omega, ?_, ?_⟩ <;>
      rw [Nat.succ_mul, Nat.mul_comm] <;> omega
  have hrow : ∀ x < rw, source w h rw rh x = x * w / rw := by
    intro x hx
    unfold source
    rw [Nat.div_eq_of_lt hx, Nat.mod_eq_of_lt hx, Nat.zero_mul, Nat.zero_div, Nat.zero_mul,
      Nat.zero_add]
  have hone : i * w / rw = 1 := Nat.div_eq_of_lt_le (by omega) (by omega)
  have hzero : 1 * w / rw = 0 := Nat.div_eq_of_lt (by omega)
  have hthis := hkept i (Nat.lt_of_lt_of_le hi (Nat.le_mul_of_pos_right rw hrh))
  rw [hrow i hi, hone, hrow 1 (by omega), hzero] at hthis
  omega

namespace Picture

theorem nearest_in_place_iff_halved :
    Undisturbed (source 4 4 2 2) (2 * 2) ∧ ∀ p : Picture, p.header = sized 4 4 3 →
      ∃ t, p.canvas.interpolateNearestneighbour 2 2 = some t ∧ p.Resampled 2 2 t := by
  have hkept := undisturbed_of_reduction 4 4 2 2 (by decide) (by decide) (by decide) (by decide)
  exact ⟨hkept, (nearest_in_place_iff (by decide) (by decide) (by decide) (by decide)).mpr
    (.inr hkept)⟩

/-- Two columns and three rows. -/
def sixPixels : Picture := ofBytes (w := 2) (h := 3) (c := 1) [0, 1, 2, 3, 4, 5] rfl (by decide)

/-- **Wider and lower.**  Three columns and two rows take as many pixels, so the buffer is reused.
The first pixel runs through all of them, where the rows should be `0, 0, 1` and `2, 2, 3`. -/
theorem wider_and_lower :
    sixPixels.canvas.interpolateNearestneighbour 3 2
        = some ⟨sized 3 2 1, [0, 0, 0, 0, 0, 0].map some⟩ ∧
      (nearestPlane 3 2 sixPixels.plane).cells = [0, 0, 1, 2, 2, 3].map some ∧
      ¬ ∃ t, sixPixels.canvas.interpolateNearestneighbour 3 2 = some t ∧
        sixPixels.Resampled 3 2 t := by
  have hresult : sixPixels.canvas.interpolateNearestneighbour 3 2
      = some ⟨sized 3 2 1, [0, 0, 0, 0, 0, 0].map some⟩ := by
    change (nearestLoops 2 3 1 3 2 id ([0, 1, 2, 3, 4, 5].map some)).map _ = _
    rw [nearestLoops_eq (by decide) (by decide) (by decide) (by decide)]
    decide +kernel
  have hright : (nearestPlane 3 2 sixPixels.plane).cells = [0, 0, 1, 2, 2, 3].map some := by
    decide +kernel
  refine ⟨hresult, hright, ?_⟩
  rintro ⟨t, ht, hres⟩
  obtain rfl := Option.some.inj (hresult.symm.trans ht)
  exact absurd (hres.pixels.trans hright) (by decide +kernel)

end Picture

end Iipsrv.Transform
