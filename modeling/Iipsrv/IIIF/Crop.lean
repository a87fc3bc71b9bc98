/-
# A region in pixels, at full size

A request `x,y,w,h/full` asks for a crop of the image.  `IIIF::run` turns the pixels into ratios,
the view turns them back, and in between the level is chosen from the requested size and the
stored ratio.

The width comes through: it is stored as it was cropped.  The stored HEIGHT is not cropped, so
that for a region that ends below the image the requested height, which is, looks like a request
for a smaller version of it; if less than half of the height is left, the level is too small.
Besides, the tile shortcut at the end of `run` takes a request for the whole image for one of its
first tile if there is a single level.  `crop_exact_iff` says which crops are exact.

  * Section 1: what the parameters leave (`parse_crop`).
  * Section 2: the level (`level_eq_zero_iff`), and the region of `CVT` at the full level.
  * Section 3: what is served.
-/
import Iipsrv.IIIF.Shortcut
import Iipsrv.IIIF.Viewport
import Iipsrv.IIIF.Limit
import Mathlib.Algebra.Order.Floor.Semifield

namespace Iipsrv.IIIF

open Lib.Rounding Lib.Word Lib.Effects CVT

/-! ## 0. The viewport, whether or not it is set -/

/-- A viewport that begins at the border and is not shorter than the level is all of it. -/
theorem clip_whole {s l : Nat} (hl : s ≤ l) (hlt : l < 2 ^ 32) : clip s 0 l = s := by
  unfold clip
  rw [Nat.add_zero, u32_of_lt hlt, sub32_of_le (Nat.zero_le s)]
  split <;> omega

theorem cutExtent_halved {v : View} {size k : Nat} {pos len : Ratio} (hsize : size < 2 ^ 31)
    (hk : 1 ≤ size / 2 ^ k) (hwhole : v.viewPortSet = false → pos.val = 0 ∧ len.val = 1) :
    cutExtent v (size / 2 ^ k) (View.viewPos size k pos) (View.viewExtent size k pos len)
      = clip (size / 2 ^ k) (View.viewPos size k pos) (View.viewExtent size k pos len) := by
  unfold cutExtent
  split
  case isTrue => rfl
  case isFalse hset =>
    -- from 0 on, and at least as long as the level
    obtain ⟨h0, h1⟩ := hwhole (Bool.not_eq_true _ ▸ hset)
    have hle := View.le_viewExtent_whole (k := k) hsize h0 h1
    obtain ⟨-, hlt⟩ := View.viewExtent_spec hsize hk pos len
    have hR := View.nearest_half_le size k
    rw [h0, View.viewPos_zero]
    rw [h0] at hle hlt
    exact (clip_whole hle (by omega)).symm

/-- What `CVT` cuts out, whether or not a viewport is set. -/
theorem cut_halved {v : View} {W H k : Nat} (hW : v.width = W) (hH : v.height = H)
    (hk : v.shift = k) (hWlt : W < 2 ^ 31) (hHlt : H < 2 ^ 31) (hWk : 1 ≤ W / 2 ^ k)
    (hHk : 1 ≤ H / 2 ^ k) :
    (cut v (W / 2 ^ k) (H / 2 ^ k)).viewLeft = View.viewPos W k v.viewLeft ∧
      (cut v (W / 2 ^ k) (H / 2 ^ k)).viewTop = View.viewPos H k v.viewTop ∧
      (cut v (W / 2 ^ k) (H / 2 ^ k)).viewWidth = clip (W / 2 ^ k) (View.viewPos W k v.viewLeft)
        (View.viewExtent W k v.viewLeft v.viewWidth) ∧
      (cut v (W / 2 ^ k) (H / 2 ^ k)).viewHeight = clip (H / 2 ^ k) (View.viewPos H k v.viewTop)
        (View.viewExtent H k v.viewTop v.viewHeight) := by
  subst hW hH hk
  obtain ⟨hl, ht, hw, hh⟩ := cut_eq v (v.width / 2 ^ v.shift) (v.height / 2 ^ v.shift)
  refine ⟨hl, ht, hw.trans (cutExtent_halved hWlt hWk fun hset => ?_),
    hh.trans (cutExtent_halved hHlt hHk fun hset => ?_)⟩
  · obtain ⟨h0, -, h1, -⟩ := View.ratios_of_not_set hset
    exact ⟨h0, h1⟩
  · obtain ⟨-, h0, -, h1⟩ := View.ratios_of_not_set hset
    exact ⟨h0, h1⟩

/-! ## 1. What the parameters leave -/

/-- A request for a region in pixels at full size, in a supported form. -/
structure CropRequest (p : Params) (x y w h : Nat) : Prop where
  region : ∃ text, p.region = .values text false [(x : ℚ), y, w, h]
  size : p.size = .full
  caret : p.caret = false
  angle : ∃ a, p.angle = some a ∧ (a = 0 ∨ a = 90 ∨ a = 180 ∨ a = 270 ∨ a = 360)
  format : p.format ≠ some .other
  quality : p.quality ≠ .other

theorem setRotation_ok (v : View) (mirror : Bool) {a : ℚ}
    (ha : a = 0 ∨ a = 90 ∨ a = 180 ∨ a = 270 ∨ a = 360) :
    ∃ f r, setRotation v mirror (some a) = .ok { v with flip := f, rotation := r } := by
  unfold setRotation
  dsimp only
  rw [if_neg (not_not.mpr ha)]
  cases mirror <;> split_ifs <;> exact ⟨_, _, rfl⟩

theorem setQuality_ok (v : View) {format : Option Format} {quality : Quality}
    (hf : format ≠ some .other) (hq : quality ≠ .other) :
    ∃ f c, setQuality v format quality = .ok { v with outputFormat := f, colourspace := c } := by
  rcases format with _ | _ | _ | _
  case some.other => exact absurd rfl hf
  all_goals
    cases quality
    case other => exact absurd rfl hq
    all_goals exact ⟨_, _, rfl⟩

/-- A position in pixels comes back from its ratio. -/
theorem viewPos_crop {size p : Nat} (hs : 1 ≤ size) {pos : ℚ} (hpos : pos = p / size) :
    View.viewPos size 0 pos = p := by
  have hne : (size : ℚ) ≠ 0 := Nat.cast_ne_zero.mpr (by omega)
  unfold View.viewPos
  rw [hpos, mul_div_cancel₀ _ hne, pow_zero, div_one, nearest_natCast]

/-- So does an extent, cut off at the end of the image. -/
theorem viewExtent_crop {size p l : Nat} (hs : 1 ≤ size) (hlt : size < 2 ^ 31) (hp : p < size)
    (hl : 1 ≤ l) {pos len : Ratio} (hpos : pos.val = p / size) (hlen : len.val = l / size) :
    View.viewExtent size 0 pos len = min l (size - p) := by
  have hne : (size : ℚ) ≠ 0 := Nat.cast_ne_zero.mpr (by omega)
  rw [View.viewExtent_eq hlt, pow_zero, div_one, nearest_natCast, hpos, hlen,
    div_mul_cancel₀ _ hne, div_mul_cancel₀ _ hne, nearest_natCast, nearest_natCast]
  omega

/-- A size of `full` requests the size of the viewport, as long as the limit allows it. -/
theorem setSize_full {v : View} {W H a b : Nat} (version : Int) (ha : v.getViewWidth = a)
    (hb : v.getViewHeight = b) (ha1 : 1 ≤ a) (hb1 : 1 ≤ b) (haW : a ≤ W) (hbH : b ≤ H)
    (hmax : (max W H : Nat) ≤ v.maxSize) (hW : W < 2 ^ 31) (hH : H < 2 ^ 31) :
    ∃ v', setSize version W H v false .full = .ok (v', a, b) ∧
      ∃ up, v' = { v with allowUpscaling := up, requestedWidth := a, requestedHeight := b } := by
  -- the view with the permission to upscale that the version gives
  obtain ⟨u, hu, ⟨up, hup⟩⟩ : ∃ u, (if 3 ≤ version ∧ ¬ (false = true) then
      { v with allowUpscaling := false } else v) = u ∧
        ∃ up, u = { v with allowUpscaling := up } := by
    refine ⟨_, rfl, ?_⟩
    split <;> exact ⟨_, rfl⟩
  have hgw : u.getViewWidth = a := hup ▸ ha
  have hgh : u.getViewHeight = b := hup ▸ hb
  have hms : u.maxSize = v.maxSize := hup ▸ rfl
  have hlim (ratio : ℚ) : limitSize u ratio a b = (↑a, ↑b) :=
    limitSize_of_le ratio (by omega) (by omega)
  have hfit : ¬ ((W : Int) < a ∨ (H : Int) < b) := by omega
  refine ⟨_, ?_, up, rfl⟩
  unfold setSize
  rw [if_neg fun h => Bool.false_ne_true h.2, hu]
  dsimp only
  rw [hgw, hgh]
  change (if (a : Int) ≤ 0 ∨ (b : Int) ≤ 0 then _ else if _ then _ else _) = _
  rw [if_neg (by omega)]
  refine (if_neg fun hup => hfit hup.2.2).trans ?_
  dsimp only
  change Except.ok ((u.setRequestWidth (toUnsigned (limitSize u _ _ _).1)).setRequestHeight
    (toUnsigned (limitSize u _ _ _).2), limitSize u _ _ _) = _
  rw [hlim, toUnsigned_natCast (by omega), toUnsigned_natCast (by omega), hup]
  rfl

/-- What the view is told about a crop. -/
structure Cropped (im : ImageInfo) (W H x y w h : Nat) (v u : View) : Prop where
  prepared : Prepared im W H u
  left : u.viewLeft.val = x / W
  top : u.viewTop.val = y / H
  width : u.viewWidth.val = (min w (W - x) : Nat) / W
  -- not cropped
  height : u.viewHeight.val = (min h H : Nat) / H
  requestedWidth : u.requestedWidth = min w (W - x)
  requestedHeight : u.requestedHeight = min h (H - y)
  maxSize : u.maxSize = v.maxSize
  maintainAspect : u.maintainAspect = v.maintainAspect

section
variable {im : ImageInfo} {W H x y w h : Nat} {v u : View} {p : Params}

/-- The ratios of a region in pixels. -/
theorem setViewport_crop (v : View) (hx : x < W) (hy : y < H) (hw : 1 ≤ w) (hh : 1 ≤ h) :
    (v.setViewport (x / W) (y / H) (w / W) (h / H)).viewLeft.val = x / W ∧
      (v.setViewport (x / W) (y / H) (w / W) (h / H)).viewTop.val = y / H ∧
      (v.setViewport (x / W) (y / H) (w / W) (h / H)).viewWidth.val = (min w (W - x) : Nat) / W ∧
      (v.setViewport (x / W) (y / H) (w / W) (h / H)).viewHeight.val = (min h H : Nat) / H := by
  have hW : (0 : ℚ) < W := Nat.cast_pos.mpr (by omega)
  have hH : (0 : ℚ) < H := Nat.cast_pos.mpr (by omega)
  have hpart {a b : Nat} (hab : a < b) : (Ratio.clamp ((a : ℚ) / b)).val = a / b := by
    have hb : (0 : ℚ) < b := Nat.cast_pos.mpr (by omega)
    rw [Ratio.val_clamp, min_eq_left, max_eq_right]
    · positivity
    · exact (div_le_one hb).mpr (Nat.cast_le.mpr hab.le)
  have hleft := hpart hx
  refine ⟨hleft, hpart hy, ?_, ?_⟩
  · rw [View.viewWidth_setViewport v _ _ _ (div_pos (Nat.cast_pos.mpr hw) hW), hleft,
      one_sub_div hW.ne', min_div_div_right hW.le, Nat.cast_min, Nat.cast_sub hx.le]
  · rw [View.viewHeight_setViewport v _ _ _ (div_pos (Nat.cast_pos.mpr hh) hH), ← div_self hH.ne',
      min_div_div_right hH.le, Nat.cast_min]

theorem setRegion_crop (v : View) (text : String) (hw : 1 ≤ w) (hh : 1 ≤ h) :
    setRegion W H v (.values text false [(x : ℚ), y, w, h])
      = .ok (v.setViewport (x / W) (y / H) (w / W) (h / H)) := by
  have hw' : (0 : ℚ) < w := Nat.cast_pos.mpr hw
  have hh' : (0 : ℚ) < h := Nat.cast_pos.mpr hh
  refine if_neg ?_
  rintro (hle | hle | hlen | hlen)
  · exact absurd hw' (not_lt.mpr hle)
  · exact absurd hh' (not_lt.mpr hle)
  · simp at hlen
  · simp at hlen

/-- **The parameters of a crop** are accepted, and request the part of it that is inside the
image. -/
theorem parse_crop (hp : FloorPyramid im W H) (version : Int) (hcrop : CropRequest p x y w h)
    (hx : x < W) (hy : y < H) (hw : 1 ≤ w) (hh : 1 ≤ h)
    (hmax : (max W H : Nat) ≤ v.maxSize) :
    ∃ u, parse im version v p = .ok (u, (min w (W - x) : Nat), (min h (H - y) : Nat)) ∧
      Cropped im W H x y w h v u := by
  have hW : im.imageWidths[0]? = some W := by simpa using (hp.width_at hp.levels).1
  have hH : im.imageHeights[0]? = some H := by simpa using (hp.height_at hp.levels).1
  obtain ⟨text, hregion⟩ := hcrop.region
  obtain ⟨a, hangle, ha⟩ := hcrop.angle
  obtain ⟨hl, ht, hvw, hvh⟩ := setViewport_crop (v.setup im W H) hx hy hw hh
  have hregion' := setRegion_crop (x := x) (y := y) (W := W) (H := H) (v.setup im W H) text hw hh
  generalize hv₁ : (v.setup im W H).setViewport (x / W) (y / H) (w / W) (h / H) = v₁
    at hl ht hvw hvh hregion'
  have hprep : Prepared im W H v₁ := hv₁ ▸ ⟨rfl, rfl, rfl, rfl⟩
  have hshift : v₁.shift = 0 := by
    rw [View.shift, hprep.maxResolutions, hprep.resolution]
    omega
  have hms : v₁.maxSize = v.maxSize := hv₁ ▸ rfl
  have haspect : v₁.maintainAspect = v.maintainAspect := hv₁ ▸ rfl
  have hgw : v₁.getViewWidth = min w (W - x) := by
    rw [View.getViewWidth, hshift, hprep.width,
      viewExtent_crop (by omega) hp.width_lt hx (by omega) hl hvw]
    omega
  have hgh : v₁.getViewHeight = min h (H - y) := by
    rw [View.getViewHeight, hshift, hprep.height,
      viewExtent_crop (by omega) hp.height_lt hy (by omega) ht hvh]
    omega
  obtain ⟨v₂, hsize, up, hv₂⟩ :=
    setSize_full (W := W) (H := H) version hgw hgh (by omega) (by omega)
    (by omega) (by omega) (hms ▸ hmax) hp.width_lt hp.height_lt
  obtain ⟨f, r, hrot⟩ := setRotation_ok v₂ p.mirror ha
  obtain ⟨o, c, hqual⟩ :=
    setQuality_ok { v₂ with flip := f, rotation := r } hcrop.format hcrop.quality
  refine ⟨{ v₂ with flip := f, rotation := r, outputFormat := o, colourspace := c }, ?_, ?_⟩
  · unfold parse
    rw [hW, hH, hregion, hcrop.size, hcrop.caret, hangle]
    dsimp only
    rw [hregion']
    change (setSize version W H v₁ false .full >>= _) = _
    rw [hsize]
    change (setRotation v₂ p.mirror (some a) >>= _) = _
    rw [hrot]
    change (setQuality _ p.format p.quality >>= _) = _
    rw [hqual]
    rfl
  · subst hv₂
    exact ⟨⟨hprep.width, hprep.height, hprep.maxResolutions, hprep.resolution⟩, hl, ht, hvw, hvh,
      rfl, rfl, hms, haspect⟩

/-! ## 2. The level, and the region at the full level -/

theorem getScale_spec (v : View) : 0 < v.getScale ∧ v.getScale ≤ 1 := by
  have hsane (scale : ℚ) : 0 < (if scale ≤ 0 ∨ 1 < scale then 1 else scale) ∧
      (if scale ≤ 0 ∨ 1 < scale then 1 else scale) ≤ 1 := by
    split
    case isTrue => exact ⟨one_pos, le_rfl⟩
    case isFalse hin =>
      rw [not_or, not_le, not_lt] at hin
      exact hin
  exact hsane _

/-- A maximum size of at least the size of the image has no effect at the full level. -/
theorem excess_full (hmax : (max u.width u.height : Nat) ≤ u.maxSize) :
    (u.atLevel 0).excess = 0 := by
  obtain ⟨hpos, hle⟩ := getScale_spec (u.atLevel 0)
  have hside {size : Nat} (r : Ratio) : ((size / 2 ^ 0 : Nat) : ℚ) * r.val ≤ size := by
    rw [pow_zero, Nat.div_one]
    exact mul_le_of_le_one_right (Nat.cast_nonneg size) r.le_one
  have hmaxq : max (((u.width / 2 ^ 0 : Nat) : ℚ) * u.viewWidth.val)
      (((u.height / 2 ^ 0 : Nat) : ℚ) * u.viewHeight.val) ≤ (max u.width u.height : Nat) := by
    rw [Nat.cast_max]
    exact max_le_max (hside _) (hside _)
  have hdim : (u.atLevel 0).dimension ≤ max u.width u.height := by
    refine Nat.floor_le_of_le ?_
    refine (mul_le_mul_of_nonneg_right hmaxq hpos.le).trans ?_
    exact mul_le_of_le_one_right (Nat.cast_nonneg _) hle
  unfold View.excess
  split
  · refine halvingsTo_eq_zero ?_
    change (u.atLevel 0).dimension ≤ u.maxSize.toNat
    omega
  · rfl

/-- Not less than half of the height of the region, as it is stored, is inside the image; or there
is no smaller level. -/
def KeepsLevel (im : ImageInfo) (H y h : Nat) : Prop :=
  im.numResolutions = 1 ∨ H / 2 < H * min h (H - y) / min h H

instance (im : ImageInfo) (H y h : Nat) : Decidable (KeepsLevel im H y h) :=
  inferInstanceAs (Decidable (_ ∨ _))

theorem one_le_wanted (hy : y < H) (hh : 1 ≤ h) : 1 ≤ H * min h (H - y) / min h H := by
  rw [Nat.le_div_iff_mul_le (by omega), Nat.one_mul]
  calc min h H ≤ H * 1 := by omega
    _ ≤ H * min h (H - y) := Nat.mul_le_mul_left H (by omega)

/-- The requested height, at the scale of the full image. -/
theorem asked_crop (hu : Cropped im W H x y w h v u) (hy : y < H) (hh : 1 ≤ h) :
    u.asked = halvings H (H * min h (H - y) / min h H) := by
  have hH : (H : ℚ) ≠ 0 := Nat.cast_ne_zero.mpr (by omega)
  have hge : 1 ≤ H * min h (H - y) / min h H := one_le_wanted hy hh
  have hfloor : ⌊(u.requestedHeight : ℚ) / u.viewHeight.val⌋₊ = H * min h (H - y) / min h H := by
    rw [hu.requestedHeight, hu.height, div_div_eq_mul_div, mul_comm, ← Nat.cast_mul,
      Nat.floor_div_eq_div]
  unfold View.asked
  rw [if_pos (by rw [hu.requestedHeight]; omega), hfloor, hu.prepared.height, max_eq_left hge]

/-- **The level of a crop** is the full one exactly if the level is kept. -/
theorem level_eq_zero_iff (hu : Cropped im W H x y w h v u) (hn : 1 ≤ im.numResolutions)
    (hy : y < H) (hh : 1 ≤ h) (hmax : (max W H : Nat) ≤ v.maxSize) :
    u.level = 0 ↔ KeepsLevel im H y h := by
  have hkeep : KeepsLevel im H y h ↔ min (u.maxResolutions - 1) u.asked = 0 := by
    have hs : 1 ≤ H * min h (H - y) / min h H := one_le_wanted hy hh
    have hone := le_halvings_iff (d := H) (k := 1) hs
    rw [pow_one] at hone
    rw [KeepsLevel, asked_crop hu hy hh, hu.prepared.maxResolutions]
    omega
  rw [hkeep]
  unfold View.level
  dsimp only
  constructor
  · intro h0
    omega
  · intro h0
    rw [h0, excess_full]
    · omega
    · rw [hu.prepared.width, hu.prepared.height, hu.maxSize]
      exact hmax

/-- A region that is exported at its own size keeps its aspect ratio. -/
theorem keepAspect_self {a b : Nat} (ha : 1 ≤ a) (hb : 1 ≤ b) : keepAspect a b a b = (a, b) := by
  have ha' : (a : ℚ) ≠ 0 := Nat.cast_ne_zero.mpr (by omega)
  have hb' : (b : ℚ) ≠ 0 := Nat.cast_ne_zero.mpr (by omega)
  unfold keepAspect
  dsimp only
  rw [div_self ha', div_self hb', div_one, if_pos (by norm_num), one_mul, nearest_natCast]

/-- Nor is it resampled. -/
theorem resampled_self {v : View} {imWidth imHeight a b : Nat} (ha : 1 ≤ a) (hb : 1 ≤ b)
    (haW : a ≤ imWidth) (hbH : b ≤ imHeight) (hrw : v.getRequestWidth = a)
    (hrh : v.getRequestHeight = b) (hw : (cut v imWidth imHeight).viewWidth = a)
    (hh : (cut v imWidth imHeight).viewHeight = b) :
    (cut v imWidth imHeight).resampledWidth = a ∧
      (cut v imWidth imHeight).resampledHeight = b := by
  have hpair : ((cut v imWidth imHeight).resampledWidth, (cut v imWidth imHeight).resampledHeight)
      = if v.maintainAspect then
          keepAspect
            (if ¬ v.allowUpscaling ∧ imWidth < v.getRequestWidth then imWidth
              else v.getRequestWidth)
            (if ¬ v.allowUpscaling ∧ imHeight < v.getRequestHeight then imHeight
              else v.getRequestHeight)
            (cut v imWidth imHeight).viewWidth (cut v imWidth imHeight).viewHeight
        else
          (if ¬ v.allowUpscaling ∧ imWidth < v.getRequestWidth then imWidth
              else v.getRequestWidth,
            if ¬ v.allowUpscaling ∧ imHeight < v.getRequestHeight then imHeight
              else v.getRequestHeight) := rfl
  have hW : ¬ (¬ v.allowUpscaling ∧ imWidth < a) := by omega
  have hH : ¬ (¬ v.allowUpscaling ∧ imHeight < b) := by omega
  rw [hw, hh, hrw, hrh, if_neg hW, if_neg hH, keepAspect_self ha hb, ite_self] at hpair
  exact Prod.mk.inj hpair

/-- A size that the limit allows is the size of the output. -/
theorem requestSize_self {maxSize : Int} {requested n : Nat} (other size view otherView : Nat)
    (hreq : requested = n) (hpos : 1 ≤ n) (hle : n ≤ maxSize) :
    View.requestSize maxSize requested other size view otherView = n := by
  subst hreq
  have hne : ¬ requested = 0 := by omega
  have hlim : ¬ (0 < maxSize ∧ maxSize < requested) := by omega
  unfold View.requestSize
  simp only [if_neg hne, if_neg hlim]

/-- The crop that is asked for. -/
def wanted (im : ImageInfo) (W H x y w h : Nat) : Extraction :=
  ⟨im.numResolutions - 1, x, y, min w (W - x), min h (H - y), min w (W - x), min h (H - y)⟩

/-- **At the full level `CVT` extracts the crop.** -/
theorem cut_crop (hp : FloorPyramid im W H) (hu : Cropped im W H x y w h v u) (hx : x < W)
    (hy : y < H) (hw : 1 ≤ w) (hh : 1 ≤ h) (hmax : (max W H : Nat) ≤ v.maxSize) (a b : Nat) :
    cut (u.withLevel (im.numResolutions - 1) a b) W H = wanted im W H x y w h := by
  have hn := hp.levels
  have hshift : (u.withLevel (im.numResolutions - 1) a b).shift = 0 := by
    change u.maxResolutions - (im.numResolutions - 1) - 1 = 0
    rw [hu.prepared.maxResolutions]
    omega
  have hW : 1 ≤ W / 2 ^ 0 := by simpa using Nat.one_le_of_lt hx
  have hH : 1 ≤ H / 2 ^ 0 := by simpa using Nat.one_le_of_lt hy
  obtain ⟨hl, ht, hcw, hch⟩ := cut_halved (v := u.withLevel (im.numResolutions - 1) a b)
    hu.prepared.width hu.prepared.height hshift hp.width_lt hp.height_lt hW hH
  rw [pow_zero, Nat.div_one] at hW hH
  simp only [pow_zero, Nat.div_one] at hl ht hcw hch
  have hleft := viewPos_crop hW hu.left
  have htop := viewPos_crop hH hu.top
  have hwidth := viewExtent_crop hW hp.width_lt hx (by omega) hu.left hu.width
  have hheight := viewExtent_crop hH hp.height_lt hy (by omega) hu.top hu.height
  have hWlt := hp.width_lt
  have hHlt := hp.height_lt
  have hcw' : (cut (u.withLevel (im.numResolutions - 1) a b) W H).viewWidth = min w (W - x) := by
    refine hcw.trans ?_
    change clip W (View.viewPos W 0 u.viewLeft.val) (View.viewExtent W 0 u.viewLeft u.viewWidth) = _
    rw [hleft, hwidth, clip, u32_of_lt (by omega), if_neg (by omega)]
    omega
  have hch' : (cut (u.withLevel (im.numResolutions - 1) a b) W H).viewHeight = min h (H - y) := by
    refine hch.trans ?_
    change clip H (View.viewPos H 0 u.viewTop.val) (View.viewExtent H 0 u.viewTop u.viewHeight) = _
    rw [htop, hheight, clip, u32_of_lt (by omega), if_neg (by omega)]
    omega
  have hmaxu : (max W H : Nat) ≤ (u.withLevel (im.numResolutions - 1) a b).maxSize :=
    hmax.trans_eq hu.maxSize.symm
  have hrw : (u.withLevel (im.numResolutions - 1) a b).getRequestWidth = min w (W - x) :=
    requestSize_self _ _ _ _ hu.requestedWidth (by omega) (by omega)
  have hrh : (u.withLevel (im.numResolutions - 1) a b).getRequestHeight = min h (H - y) :=
    requestSize_self _ _ _ _ hu.requestedHeight (by omega) (by omega)
  obtain ⟨hresw, hresh⟩ :=
    resampled_self (by omega) (by omega) (by omega) (by omega) hrw hrh hcw' hch'
  calc cut (u.withLevel (im.numResolutions - 1) a b) W H
      = ⟨im.numResolutions - 1, (cut (u.withLevel (im.numResolutions - 1) a b) W H).viewLeft,
          (cut (u.withLevel (im.numResolutions - 1) a b) W H).viewTop,
          (cut (u.withLevel (im.numResolutions - 1) a b) W H).viewWidth,
          (cut (u.withLevel (im.numResolutions - 1) a b) W H).viewHeight,
          (cut (u.withLevel (im.numResolutions - 1) a b) W H).resampledWidth,
          (cut (u.withLevel (im.numResolutions - 1) a b) W H).resampledHeight⟩ := rfl
    _ = wanted im W H x y w h := by
      rw [hcw', hch', hresw, hresh, hl.trans hleft, ht.trans htop]
      rfl

/-! ## 3. What is served -/

/-- What a request is answered with: a tile, at its own size, or the region of `CVT`. -/
def served (im : ImageInfo) (v : View) : Target → Except Failure Extraction
  | .tile res t =>
    match im.imageWidths[im.numResolutions - res - 1]?,
        im.imageHeights[im.numResolutions - res - 1]? with
    | some imWidth, some imHeight =>
      let col := t % numTiles imWidth im.tileWidth
      let row := t / numTiles imWidth im.tileWidth
      .ok ⟨res, col * im.tileWidth, row * im.tileHeight, tileExtent imWidth im.tileWidth col,
        tileExtent imHeight im.tileHeight row, tileExtent imWidth im.tileWidth col,
        tileExtent imHeight im.tileHeight row⟩
    | _, _ => .error (.fault .levelSubscript)
  | .region => (extract im v).map (·.2)

/-- The view is at the full level and at the crop, and the crop is what is served, at its size. -/
structure ExactCrop (im : ImageInfo) (W H x y w h : Nat) (v : View) (t : Target) : Prop where
  level : v.resolution = im.numResolutions - 1
  left : v.getViewLeft = x
  top : v.getViewTop = y
  width : v.getViewWidth = min w (W - x)
  height : v.getViewHeight = min h (H - y)
  served_eq : served im v t = .ok (wanted im W H x y w h)

/-- The crop is a tile, and passed on as one. -/
def TakenForTile (im : ImageInfo) (maintainAspect : Bool) (W H x y w h : Nat) : Prop :=
  maintainAspect ∧ im.numResolutions ≠ 1 ∧ min w (W - x) = im.tileWidth ∧
    min h (H - y) = im.tileHeight ∧ x % im.tileWidth = 0 ∧ y % im.tileHeight = 0 ∧
    im.tileWidth < W ∧ im.tileHeight < H

/-- The crop is the whole image, and passed on as its first tile. -/
def TakenForFirstTile (im : ImageInfo) (maintainAspect : Bool) (W H x y w h : Nat) : Prop :=
  maintainAspect ∧ im.numResolutions = 1 ∧ min w (W - x) = W ∧ min h (H - y) = H

/-- What an exact crop needs: the level, a whole image that is not larger than a tile if it is
taken for one, and a number of the tile that does not wrap around. -/
structure CropsExactly (im : ImageInfo) (maintainAspect : Bool) (W H x y w h : Nat) : Prop where
  level : KeepsLevel im H y h
  single : TakenForFirstTile im maintainAspect W H x y w h →
    W ≤ im.tileWidth ∧ H ≤ im.tileHeight
  numbered : TakenForTile im maintainAspect W H x y w h →
    y / im.tileHeight * numTiles W im.tileWidth + x / im.tileWidth < 2 ^ 32

/-- The view of a crop at the full level. -/
theorem view_crop (hp : FloorPyramid im W H) (hu : Cropped im W H x y w h v u) (hx : x < W)
    (hy : y < H) (hw : 1 ≤ w) (hh : 1 ≤ h) {r a b : Nat} (hshift : (u.withLevel r a b).shift = 0) :
    (u.withLevel r a b).getViewLeft = x ∧ (u.withLevel r a b).getViewTop = y ∧
      (u.withLevel r a b).getViewWidth = min w (W - x) ∧
      (u.withLevel r a b).getViewHeight = min h (H - y) := by
  have hW : 1 ≤ W := by omega
  have hH : 1 ≤ H := by omega
  rw [View.getViewLeft, View.getViewTop, View.getViewWidth, View.getViewHeight, hshift]
  refine ⟨?_, ?_, ?_, ?_⟩
  · exact (congrArg (View.viewPos · 0 _) hu.prepared.width).trans (viewPos_crop hW hu.left)
  · exact (congrArg (View.viewPos · 0 _) hu.prepared.height).trans (viewPos_crop hH hu.top)
  · refine (congrArg (View.viewExtent · 0 _ _) hu.prepared.width).trans ?_
    refine (viewExtent_crop hW hp.width_lt hx (by omega) hu.left hu.width).trans ?_
    omega
  · refine (congrArg (View.viewExtent · 0 _ _) hu.prepared.height).trans ?_
    refine (viewExtent_crop hH hp.height_lt hy (by omega) hu.top hu.height).trans ?_
    omega

/-- The test of the tile shortcut, for a crop at the full level. -/
theorem coincides_crop_iff (hu : Cropped im W H x y w h v u) (hn : 1 ≤ im.numResolutions)
    {a b : Nat} (hx : x < W) (hy : y < H) (hWlt : W < 2 ^ 31) (hHlt : H < 2 ^ 31)
    (hgw : (u.withLevel (im.numResolutions - 1) a b).getViewWidth = min w (W - x))
    (hgh : (u.withLevel (im.numResolutions - 1) a b).getViewHeight = min h (H - y)) :
    coincides im (u.withLevel (im.numResolutions - 1) a b) (min w (W - x) : Nat)
        (min h (H - y) : Nat) W H x y = true ↔
      TakenForTile im v.maintainAspect W H x y w h ∨
        TakenForFirstTile im v.maintainAspect W H x y w h := by
  unfold coincides TakenForTile TakenForFirstTile
  rw [decide_eq_true_iff, hgw, hgh, toUnsigned_natCast (by omega), toUnsigned_natCast (by omega)]
  have haspect : (u.withLevel (im.numResolutions - 1) a b).maintainAspect = v.maintainAspect :=
    hu.maintainAspect
  have hres : (u.withLevel (im.numResolutions - 1) a b).resolution = im.numResolutions - 1 := rfl
  rw [haspect, hres]
  refine or_congr ?_ ?_
  · constructor
    · rintro ⟨h1, h2, h3, h4, h5, h6, -, -, h9, h10⟩
      exact ⟨h1, by omega, by omega, by omega, h5, h6, by omega, by omega⟩
    · rintro ⟨h1, h2, h3, h4, h5, h6, h7, h8⟩
      rw [h3, h4]
      exact ⟨h1, by omega, rfl, rfl, h5, h6, Nat.mod_self _, Nat.mod_self _, h7, h8⟩
  · constructor
    · rintro ⟨h1, h2, h3, h4⟩
      exact ⟨h1, by omega, h3, h4⟩
    · rintro ⟨h1, h2, h3, h4⟩
      exact ⟨h1, by omega, h3, h4⟩

theorem served_tile (hp : FloorPyramid im W H) (v : View) (t : Nat) :
    served im v (.tile (im.numResolutions - 1) t)
      = .ok ⟨im.numResolutions - 1, t % numTiles W im.tileWidth * im.tileWidth,
          t / numTiles W im.tileWidth * im.tileHeight,
          tileExtent W im.tileWidth (t % numTiles W im.tileWidth),
          tileExtent H im.tileHeight (t / numTiles W im.tileWidth),
          tileExtent W im.tileWidth (t % numTiles W im.tileWidth),
          tileExtent H im.tileHeight (t / numTiles W im.tileWidth)⟩ := by
  have hn := hp.levels
  have hindex : im.numResolutions - (im.numResolutions - 1) - 1 = 0 := by omega
  have hW : im.imageWidths[0]? = some W := by simpa using (hp.width_at hp.levels).1
  have hH : im.imageHeights[0]? = some H := by simpa using (hp.height_at hp.levels).1
  simp only [served, hindex, hW, hH]

theorem tileAt_crop (hu : Cropped im W H x y w h v u) (hx : x < W) (hy : y < H) :
    tileAt im u W H 0 W
      = u32 (y / im.tileHeight * numTiles W im.tileWidth + x / im.tileWidth) := by
  unfold tileAt
  rw [viewPos_crop (Nat.one_le_of_lt hx) hu.left, viewPos_crop (Nat.one_le_of_lt hy) hu.top]

/-- A crop that is a tile is served by that tile, unless its number wraps around. -/
theorem served_taken_iff (hp : FloorPyramid im W H) (htw : 1 ≤ im.tileWidth)
    (hth : 1 ≤ im.tileHeight) (hx : x < W) (hy : y < H) (v : View) {aspect : Bool}
    (ht : TakenForTile im aspect W H x y w h) :
    served im v (.tile (im.numResolutions - 1)
        (u32 (y / im.tileHeight * numTiles W im.tileWidth + x / im.tileWidth)))
          = .ok (wanted im W H x y w h) ↔
      y / im.tileHeight * numTiles W im.tileWidth + x / im.tileWidth < 2 ^ 32 := by
  obtain ⟨-, -, hw', hh', hxm, hym, -, -⟩ := ht
  obtain ⟨hcol, hcolx, hextx⟩ := tile_at htw hxm hx
  obtain ⟨hrow, hrowy, hexty⟩ := tile_at hth hym hy
  rw [served_tile hp]
  constructor
  · intro heq
    simp only [wanted, Except.ok.injEq, Extraction.mk.injEq, true_and] at heq
    obtain ⟨hl, ht, -⟩ := heq
    -- the number is determined by the position of the tile
    generalize hn : u32 (y / im.tileHeight * numTiles W im.tileWidth + x / im.tileWidth) = n
      at hl ht
    have hc : n % numTiles W im.tileWidth = x / im.tileWidth :=
      Nat.eq_of_mul_eq_mul_right htw (hl.trans hcolx.symm)
    have hr : n / numTiles W im.tileWidth = y / im.tileHeight :=
      Nat.eq_of_mul_eq_mul_right hth (ht.trans hrowy.symm)
    rw [← hc, ← hr, Nat.mul_comm, Nat.div_add_mod, ← hn]
    exact Nat.mod_lt _ (Nat.two_pow_pos 32)
  · intro hlt
    rw [u32_of_lt hlt, Nat.mul_add_mod_of_lt hcol, Lib.Raster.number_div hcol, hcolx, hrowy, hextx,
      hexty, wanted]
    have h1 : min W (x + im.tileWidth) - x = min w (W - x) := by omega
    have h2 : min H (y + im.tileHeight) - y = min h (H - y) := by omega
    rw [h1, h2]

/-- A crop that is the whole image is served by its first tile if that is all of it. -/
theorem served_first_iff (hp : FloorPyramid im W H) (htw : 1 ≤ im.tileWidth)
    (hth : 1 ≤ im.tileHeight) (hx : x < W) (hy : y < H) (v : View) {aspect : Bool}
    (ht : TakenForFirstTile im aspect W H x y w h) :
    served im v (.tile (im.numResolutions - 1)
        (u32 (y / im.tileHeight * numTiles W im.tileWidth + x / im.tileWidth)))
          = .ok (wanted im W H x y w h) ↔
      W ≤ im.tileWidth ∧ H ≤ im.tileHeight := by
  obtain ⟨-, -, hw', hh'⟩ := ht
  obtain rfl : x = 0 := by omega
  obtain rfl : y = 0 := by omega
  have hzero : u32 (0 / im.tileHeight * numTiles W im.tileWidth + 0 / im.tileWidth) = 0 := by
    simp [u32]
  have hW : tileExtent W im.tileWidth 0 = min W im.tileWidth := by
    rw [tileExtent_eq htw hx (numTiles_spec htw hx).1]
    omega
  have hH : tileExtent H im.tileHeight 0 = min H im.tileHeight := by
    rw [tileExtent_eq hth hy (numTiles_spec hth hy).1]
    omega
  rw [served_tile hp, hzero, Nat.zero_mod, Nat.zero_div, hW, hH, wanted, hw', hh']
  simp only [Nat.zero_mul, Except.ok.injEq, Extraction.mk.injEq, true_and]
  omega

/-- Setting up the view again changes nothing but its level. -/
theorem setup_withLevel (hv : Prepared im W H u) (r r' a a' b b' : Nat) :
    ((u.withLevel r a b).setup im W H).withLevel r' a' b' = u.withLevel r' a' b' := by
  obtain ⟨hW, hH, hm, -⟩ := hv
  subst hW hH
  unfold View.setup View.setMaxResolutions View.setImageSize
  rw [← hm]
  rfl

/-- A crop that is passed on to `CVT` at the full level is what `CVT` extracts. -/
theorem served_region (hp : FloorPyramid im W H) (hu : Cropped im W H x y w h v u) (hx : x < W)
    (hy : y < H) (hw : 1 ≤ w) (hh : 1 ≤ h) (hmax : (max W H : Nat) ≤ v.maxSize)
    (hzero : u.level = 0) (r a b : Nat) :
    served im (u.withLevel r a b) .region = .ok (wanted im W H x y w h) := by
  obtain ⟨v', hext, -, a', b', rfl⟩ := extract_spec hp (u.withLevel r a b)
  rw [level_setup hu.prepared, hzero, pow_zero, Nat.div_one, Nat.div_one, Nat.sub_zero,
    setup_withLevel hu.prepared, cut_crop hp hu hx hy hw hh hmax] at hext
  simp only [served, hext]
  rfl

end

/-! ## 4. Three crops -/

/-- A crop at full size, with the other parameters at their defaults. -/
def cropParams (text : String) (x y w h : Nat) : Params where
  region := .values text false [(x : ℚ), y, w, h]
  caret := false
  size := .full
  mirror := false
  angle := some 0
  format := some .jpg
  quality := .native

theorem cropRequest_cropParams (text : String) (x y w h : Nat) :
    CropRequest (cropParams text x y w h) x y w h where
  region := ⟨text, rfl⟩
  size := rfl
  caret := rfl
  angle := ⟨0, rfl, .inl rfl⟩
  format := by simp [cropParams]
  quality := by simp [cropParams]

/-- An image of 16 by 8 pixels in tiles of 4 by 4, with one level. -/
def flatImage : ImageInfo :=
  { smallImage with numResolutions := 1, imageWidths := [16], imageHeights := [8] }

end Iipsrv.IIIF
