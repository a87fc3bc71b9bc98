/-
# Exporting a region

`CVT::send` (`CVT.cc`), up to the call of `getRegion`: the level for the view, the viewport in
pixels of that level, cut to the level, and the size of the output.  With it the commands of
`Task.cc` that set up the view: `RGN`, `WID` and `HEI`.

`extract_inLevel_iff` says when the region is not empty and lies inside the level: when the
viewport begins before the last pixel border of the level, in both directions.  The widths need
no condition.  `left_border_wraps` is a viewport of a 7 x 7 image for which the subtraction
`im_width - view_left` wraps.
-/
import Iipsrv.View.Level
import Iipsrv.Lib.Effects

namespace Iipsrv

open Lib.Rounding Lib.Word Lib.Effects

/-! ## 1. Commands -/

/-- `RGN::run`, on the values of its comma separated argument: only if there are four values and
the width and height are greater than zero. -/
def RGN.run (v : View) : List ℚ → View
  | x :: y :: w :: h :: _ =>
    if 0 < w ∧ 0 < h then
      (((v.setViewLeft x).setViewTop y).setViewWidth w).setViewHeight h
    else v
  | _ => v

/-- `WID::run`, on the number in its argument. -/
def WID.run (v : View) (requestedWidth : Int32) : View :=
  v.setRequestWidth requestedWidth.toUInt32.toNat

/-- `HEI::run`, on the number in its argument. -/
def HEI.run (v : View) (requestedHeight : Int32) : View :=
  v.setRequestHeight requestedHeight.toUInt32.toNat

namespace CVT

/-! ## 2. The region and the size of the output -/

/-- What `send` computes before it sends anything: the level, the region of it, and the size the
region is resampled to. -/
structure Extraction where
  resolution : Nat
  viewLeft : Nat
  viewTop : Nat
  viewWidth : Nat
  viewHeight : Nat
  resampledWidth : Nat
  resampledHeight : Nat

/-- Make sure our region fits within the image. -/
def clip (size pos len : Nat) : Nat := if size < u32 (len + pos) then sub32 size pos else len

/-- Make sure the final image fits within the requested size, if the aspect ratio is to be
maintained. -/
def keepAspect (width height viewWidth viewHeight : Nat) : Nat × Nat :=
  let scaleX : ℚ := width / viewWidth
  let scaleY : ℚ := height / viewHeight
  let ratio := scaleX / scaleY
  if ratio < 1001 / 1000 then (width, nearest (scaleX * viewHeight))
  else if 1001 / 1000 < ratio then (nearest (scaleY * viewWidth), height)
  else (width, height)

/-- The region of a level of this size, and the size of the output. -/
def cut (v : View) (imWidth imHeight : Nat) : Extraction :=
  let viewLeft := if v.viewPortSet then v.getViewLeft else 0
  let viewTop := if v.viewPortSet then v.getViewTop else 0
  let viewWidth := if v.viewPortSet then clip imWidth viewLeft v.getViewWidth else imWidth
  let viewHeight := if v.viewPortSet then clip imHeight viewTop v.getViewHeight else imHeight
  let width := if ¬ v.allowUpscaling ∧ imWidth < v.getRequestWidth then imWidth
    else v.getRequestWidth
  let height := if ¬ v.allowUpscaling ∧ imHeight < v.getRequestHeight then imHeight
    else v.getRequestHeight
  let resampled := if v.maintainAspect then keepAspect width height viewWidth viewHeight
    else (width, height)
  ⟨v.resolution, viewLeft, viewTop, viewWidth, viewHeight, resampled.1, resampled.2⟩

/-- The first part of `send`: the view is set up and asked for the resolution. -/
def extract (im : ImageInfo) (v : View) : Except Failure (View × Extraction) :=
  match im.imageWidths[0]?, im.imageHeights[0]? with
  | some width, some height =>
    let v := (v.setup im width height).getResolution
    match im.imageWidths[im.numResolutions - v.resolution - 1]?,
        im.imageHeights[im.numResolutions - v.resolution - 1]? with
    | some imWidth, some imHeight => .ok (v, cut v imWidth imHeight)
    | _, _ => .error (.fault .levelSubscript)
  | _, _ => .error (.fault .levelSubscript)

/-! ## 3. When the region is inside the level -/

/-- The region is not empty and inside the level, and the subtractions that cut it to the level
do not wrap. -/
structure InLevel (v : View) (imWidth imHeight : Nat) (e : Extraction) : Prop where
  width_pos : 1 ≤ e.viewWidth
  height_pos : 1 ≤ e.viewHeight
  right : e.viewLeft + e.viewWidth ≤ imWidth
  bottom : e.viewTop + e.viewHeight ≤ imHeight
  no_wrap_x : v.viewPortSet = true → imWidth < u32 (v.getViewWidth + v.getViewLeft) →
    v.getViewLeft ≤ imWidth
  no_wrap_y : v.viewPortSet = true → imHeight < u32 (v.getViewHeight + v.getViewTop) →
    v.getViewTop ≤ imHeight

/-- One axis: a cut of a level of `s` pixels is right exactly if it begins inside. -/
theorem clip_inside_iff {s p l : Nat} (hl : 1 ≤ l) (hsum : l + p < 2 ^ 32) :
    (1 ≤ clip s p l ∧ p + clip s p l ≤ s ∧ (s < u32 (l + p) → p ≤ s)) ↔ p < s := by
  unfold clip
  rw [u32_of_lt hsum]
  by_cases hp : p ≤ s
  · rw [sub32_of_le hp]
    split <;> omega
  · constructor
    · rintro ⟨-, -, hwrap⟩
      exact absurd (hwrap (by omega)) hp
    · omega

/-- One axis of the viewport at the level after `k` halvings. -/
theorem clip_view_iff {size k : Nat} (hsize : size < 2 ^ 31) (hpos : 1 ≤ size / 2 ^ k)
    (pos len : Ratio) :
    (1 ≤ clip (size / 2 ^ k) (View.viewPos size k pos) (View.viewExtent size k pos len) ∧
      View.viewPos size k pos +
        clip (size / 2 ^ k) (View.viewPos size k pos) (View.viewExtent size k pos len)
          ≤ size / 2 ^ k ∧
      (size / 2 ^ k < u32 (View.viewExtent size k pos len + View.viewPos size k pos) →
        View.viewPos size k pos ≤ size / 2 ^ k)) ↔ View.BeginsBefore size k pos := by
  obtain ⟨hl, hle⟩ := View.viewExtent_spec hsize hpos pos len
  have hp := View.viewPos_le size k pos
  have hR := View.nearest_half_le size k
  rw [clip_inside_iff hl (by omega), View.viewPos_lt_iff]

/-- Both axes: the region cut from a level of the view's image. -/
theorem cut_inLevel_iff {v : View} {W H k : Nat} (hW : v.width = W) (hH : v.height = H)
    (hk : v.shift = k) (hWlt : W < 2 ^ 31) (hHlt : H < 2 ^ 31) (hWk : 1 ≤ W / 2 ^ k)
    (hHk : 1 ≤ H / 2 ^ k) :
    InLevel v (W / 2 ^ k) (H / 2 ^ k) (cut v (W / 2 ^ k) (H / 2 ^ k)) ↔
      (v.viewPortSet = true →
        View.BeginsBefore W k v.viewLeft ∧ View.BeginsBefore H k v.viewTop) := by
  subst hW hH hk
  have hx := clip_view_iff hWlt hWk v.viewLeft v.viewWidth
  have hy := clip_view_iff hHlt hHk v.viewTop v.viewHeight
  by_cases hset : v.viewPortSet = true
  · constructor
    · rintro ⟨h1, h2, h3, h4, h5, h6⟩ -
      simp only [cut, if_pos hset] at h1 h2 h3 h4
      exact ⟨hx.mp ⟨h1, h3, h5 hset⟩, hy.mp ⟨h2, h4, h6 hset⟩⟩
    · intro hbegin
      obtain ⟨h1, h3, h5⟩ := hx.mpr (hbegin hset).1
      obtain ⟨h2, h4, h6⟩ := hy.mpr (hbegin hset).2
      refine ⟨?_, ?_, ?_, ?_, fun _ => h5, fun _ => h6⟩ <;>
        simp only [cut, if_pos hset] <;> assumption
  · -- the whole level
    refine ⟨fun _ h => absurd h hset, fun _ => ⟨?_, ?_, ?_, ?_, ?_, ?_⟩⟩
    · simpa only [cut, if_neg hset] using hWk
    · simpa only [cut, if_neg hset] using hHk
    · simp only [cut, if_neg hset, Nat.zero_add, Nat.le_refl]
    · simp only [cut, if_neg hset, Nat.zero_add, Nat.le_refl]
    · exact fun h => absurd h hset
    · exact fun h => absurd h hset

variable {im : ImageInfo} {W H : Nat}

theorem level_lt (hn : 1 ≤ im.numResolutions) (v : View) :
    (v.setup im W H).level < im.numResolutions := by
  have hle : (v.setup im W H).level ≤ im.numResolutions - 1 := Nat.min_le_left _ _
  omega

/-- **What `send` extracts**: the viewport at the level of the view, cut to the size that the
pyramid has there. -/
theorem extract_of_levels (hp : LevelSizes im W H) (v : View) :
    ∃ v' sW sH, im.imageWidths[(v.setup im W H).level]? = some sW ∧
      im.imageHeights[(v.setup im W H).level]? = some sH ∧
      extract im v = .ok (v', cut v' sW sH) ∧ v'.shift = (v.setup im W H).level ∧
      ∃ w h, v' = (v.setup im W H).withLevel
        (im.numResolutions - 1 - (v.setup im W H).level) w h := by
  have hlt := level_lt (W := W) (H := H) hp.levels v
  obtain ⟨w, h, hres⟩ := View.getResolution_spec (v := v.setup im W H) rfl
  have hshift : im.numResolutions - (im.numResolutions - 1 - (v.setup im W H).level) - 1
      = (v.setup im W H).level := by omega
  obtain ⟨sW, hsW, -⟩ := hp.width_at _ hlt
  obtain ⟨sH, hsH, -⟩ := hp.height_at _ hlt
  refine ⟨(v.setup im W H).withLevel
    (im.numResolutions - 1 - (v.setup im W H).level) w h, sW, sH, hsW, hsH, ?_, hshift, w, h, rfl⟩
  have hlevel : ((v.setup im W H).withLevel
      (im.numResolutions - 1 - (v.setup im W H).level) w h).resolution
        = im.numResolutions - 1 - (v.setup im W H).level := rfl
  have hmax : (v.setup im W H).maxResolutions = im.numResolutions := rfl
  unfold extract
  rw [hp.width, hp.height]
  dsimp only
  rw [hres, hmax, hlevel, hshift, hsW, hsH]

/-- The same for a pyramid of halved levels. -/
theorem extract_spec (hp : FloorPyramid im W H) (v : View) :
    ∃ v', extract im v = .ok (v', cut v' (W / 2 ^ (v.setup im W H).level)
          (H / 2 ^ (v.setup im W H).level)) ∧
      v'.shift = (v.setup im W H).level ∧
      ∃ w h, v' = (v.setup im W H).withLevel
        (im.numResolutions - 1 - (v.setup im W H).level) w h := by
  have hlt := level_lt (W := W) (H := H) hp.levels v
  obtain ⟨v', sW, sH, hsW, hsH, hext, hv'⟩ := extract_of_levels hp.levelSizes v
  obtain rfl := Option.some.inj ((hp.width_at hlt).1.symm.trans hsW)
  obtain rfl := Option.some.inj ((hp.height_at hlt).1.symm.trans hsH)
  exact ⟨v', hext, hv'⟩

/-- **Regions inside the level.**  For every image with a pyramid of halved levels and every
view, `send` finds the level, and the region it extracts is a non-empty part of it, found
without wrapping around, exactly if no viewport has been set or the viewport begins before the
last pixel border of that level in both directions. -/
theorem extract_inLevel_iff (im : ImageInfo) (W H : Nat) (hp : FloorPyramid im W H) (v : View) :
    ∃ v' e imWidth imHeight, extract im v = .ok (v', e) ∧
      im.imageWidths[im.numResolutions - e.resolution - 1]? = some imWidth ∧
      im.imageHeights[im.numResolutions - e.resolution - 1]? = some imHeight ∧
      (InLevel v' imWidth imHeight e ↔
        (v.viewPortSet = true →
          View.BeginsBefore W (v.setup im W H).level v.viewLeft ∧
            View.BeginsBefore H (v.setup im W H).level v.viewTop)) := by
  obtain ⟨v', hext, hshift, w, h, rfl⟩ := extract_spec hp v
  have hlt := level_lt (W := W) (H := H) hp.levels v
  obtain ⟨hWat, hWk⟩ := hp.width_at hlt
  obtain ⟨hHat, hHk⟩ := hp.height_at hlt
  have hindex : im.numResolutions - (im.numResolutions - 1 - (v.setup im W H).level) - 1
      = (v.setup im W H).level := by omega
  refine ⟨_, _, W / 2 ^ (v.setup im W H).level, H / 2 ^ (v.setup im W H).level, hext, ?_, ?_,
    cut_inLevel_iff rfl rfl hshift hp.width_lt hp.height_lt hWk hHk⟩
  · exact (congrArg (im.imageWidths[·]?) hindex).trans hWat
  · exact (congrArg (im.imageHeights[·]?) hindex).trans hHat

/-- An image of 7 by 7 pixels with three levels: 7, 3 and 1. -/
def sevenBySeven : ImageInfo :=
  { tileWidth := 4, tileHeight := 4, numResolutions := 3, imageWidths := [7, 3, 1]
    imageHeights := [7, 3, 1], channels := 1, bpc := 8, sampleType := .fixedPoint
    colourspace := .greyscale, regionDecoding := false }

theorem floorPyramid_sevenBySeven : FloorPyramid sevenBySeven 7 7 :=
  ⟨by decide, by decide, by decide, by decide, by decide, by decide, by decide⟩

/-- The left half of the image, at the smallest level. -/
theorem extract_inLevel_iff_left_half :
    ∃ v' e imWidth imHeight,
      extract sevenBySeven (RGN.run (HEI.run .new 1) [0, 0, 1 / 2, 1]) = .ok (v', e) ∧
      InLevel v' imWidth imHeight e := by
  obtain ⟨v', e, w, h, hext, -, -, hiff⟩ := extract_inLevel_iff sevenBySeven 7 7
    floorPyramid_sevenBySeven (RGN.run (HEI.run .new 1) [0, 0, 1 / 2, 1])
  exact ⟨v', e, w, h, hext, hiff.mpr fun _ => by decide +kernel⟩

/-- **The border wraps.**  The last tenth of the 7 pixels, at the smallest level: it begins at
pixel 2 of a level of width 1, and the width that is left over is `1 - 2`. -/
theorem left_border_wraps :
    ∃ v' e, extract sevenBySeven (RGN.run (HEI.run .new 1) [9 / 10, 0, 1 / 10, 1]) = .ok (v', e) ∧
      e.resolution = 0 ∧ sevenBySeven.imageWidths[2]? = some 1 ∧ e.viewLeft = 2 ∧
      e.viewWidth = 4294967295 ∧ ¬ InLevel v' 1 1 e := by
  have hrun : (extract sevenBySeven (RGN.run (HEI.run .new 1) [9 / 10, 0, 1 / 10, 1])).toOption.map
      (fun p => (p.2.resolution, p.2.viewLeft, p.2.viewWidth)) = some (0, 2, 4294967295) := by
    decide +kernel
  obtain ⟨p, hext, hp⟩ := of_toOption_map hrun
  obtain ⟨hres, hp⟩ := Prod.mk.inj hp
  obtain ⟨hleft, hwidth⟩ := Prod.mk.inj hp
  refine ⟨p.1, p.2, hext, hres, rfl, hleft, hwidth, fun hin => ?_⟩
  have := hin.right
  omega

end CVT

end Iipsrv
