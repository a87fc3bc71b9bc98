/-
# Which level a view is read from

The loops of `calculateResolution` and `getResolution` count halvings: how often the image can
be halved and still be as large as requested, and how often the result has to be halved again
to respect the maximum size.  `View.level` says both as logarithms of the request, and
`getResolution_spec` that the code computes it.

The second half is about one axis of the viewport in the pixels of that level.
-/
import Iipsrv.View.Model
import Iipsrv.TileManager.Model
import Mathlib.Data.List.Iterate

namespace Iipsrv

open Lib.Rounding Lib.Word

namespace View

/-! ## 1. The level -/

/-- With more turns than the dimension has pixels the loop is left by its `break`, and has stepped
down once for every halving. -/
theorem descendLoop_eq {rs : Nat} (hrs : 1 ≤ rs) (fuel : Nat) :
    ∀ (d : Nat) (j : Int), d < fuel → descendLoop rs fuel d j = some (j - halvings d rs) := by
  induction fuel with
  | zero =>
    intro d j hd
    omega
  | succ fuel ih =>
    intro d j hd
    simp only [descendLoop]
    split
    case isTrue h => simp [halvings_eq_zero h]
    case isFalse h =>
      rw [ih _ _ (by omega), halvings_half hrs (not_lt.mp h)]
      congr 1
      omega

/-- The view with another resolution and its sizes. -/
def withLevel (v : View) (r w h : Nat) : View :=
  { v with resolution := r, resWidth := w, resHeight := h }

/-- **`calculateResolution`** picks the smallest level that is not smaller than requested. -/
theorem calculateResolution_eq (v : View) (d s : Nat) :
    v.calculateResolution d s
      = v.withLevel (v.maxResolutions - 1 - halvings d (max s 1)) v.resWidth v.resHeight := by
  have hrs : (if s < minSize then minSize else s) = max s 1 := by
    unfold minSize
    split <;> omega
  unfold calculateResolution withLevel
  rw [hrs]
  dsimp only
  rw [descendLoop_eq (Nat.le_max_right s 1) (d + 1) d _ (Nat.lt_succ_self d), Option.getD_some]
  congr 1
  generalize halvings d (max s 1) = k
  split_ifs <;> omega

/-- How often the image can be halved for the requested size: by the height if one has been
requested, else by the width. -/
def asked (v : View) : Nat :=
  if v.requestedHeight ≠ 0 then
    halvings v.height (max ⌊(v.requestedHeight : ℚ) / v.viewHeight⌋₊ 1)
  else if v.requestedWidth ≠ 0 then
    halvings v.width (max ⌊(v.requestedWidth : ℚ) / v.viewWidth⌋₊ 1)
  else 0

/-- The view at the level after `k` halvings. -/
def atLevel (v : View) (k : Nat) : View :=
  v.withLevel (v.maxResolutions - 1 - k) (v.width / 2 ^ k) (v.height / 2 ^ k)

/-- The larger side of the scaled viewport. -/
def dimension (v : View) : Nat :=
  ⌊max ((v.resWidth : ℚ) * v.viewWidth) (v.resHeight * v.viewHeight) * v.getScale⌋₊

/-- How often the viewport has to be halved to respect the maximum size, if there is one. -/
def excess (v : View) : Nat :=
  if 0 < v.maxSize then halvingsTo v.dimension v.maxSize.toNat else 0

/-- The level a view is read from, counted from the full image on. -/
def level (v : View) : Nat :=
  let k := min (v.maxResolutions - 1) v.asked
  min (v.maxResolutions - 1) (k + (v.atLevel k).excess)

/-- The loop over the smaller levels steps down once for every halving. -/
theorem shrink_spec (r : Nat) : ∀ (d : Nat) (v : View), 0 < v.maxSize → v.resolution = r →
    ∃ w h, shrink r d v = v.withLevel (r - halvingsTo d v.maxSize.toNat) w h := by
  induction r with
  | zero =>
    rintro d v - hr
    have hself : v.withLevel 0 v.resWidth v.resHeight = v := by
      rw [← hr]
      rfl
    exact ⟨v.resWidth, v.resHeight, by rw [Nat.zero_sub, hself]; rfl⟩
  | succ r ih =>
    intro d v hmax hr
    unfold shrink
    split
    case isTrue h =>
      obtain ⟨w, h', hrec⟩ := ih (d / 2) (v.withLevel r (v.width / 2) (v.height / 2)) hmax rfl
      refine ⟨w, h', hrec.trans ?_⟩
      rw [halvingsTo_half (by omega : v.maxSize.toNat < d), Nat.add_sub_add_right]
      rfl
    case isFalse h =>
      refine ⟨v.resWidth, v.resHeight, ?_⟩
      rw [halvingsTo_eq_zero (by omega), Nat.sub_zero, ← hr]
      rfl

/-- The limit of the maximum size steps down as far as the larger side requires. -/
theorem limitResolution_spec (v : View) :
    ∃ w h, v.limitResolution = v.withLevel (v.resolution - v.excess) w h := by
  unfold limitResolution excess dimension
  dsimp only
  generalize (v.resWidth : ℚ) * v.viewWidth = w
  generalize (v.resHeight : ℚ) * v.viewHeight = h
  by_cases hmax : 0 < v.maxSize
  swap
  · -- no limit
    refine ⟨v.resWidth, v.resHeight, ?_⟩
    rw [if_neg fun hc => hmax hc.1, if_neg hmax, Nat.sub_zero]
    rfl
  have hpos : (0 : ℚ) < v.maxSize := Int.cast_pos.mpr hmax
  rw [if_pos hmax]
  split
  case isTrue hover =>
    have hside : (if h / v.maxSize < w / v.maxSize then ⌊w * v.getScale⌋₊
        else ⌊h * v.getScale⌋₊) = ⌊max w h * v.getScale⌋₊ := by
      split
      case isTrue hlt =>
        rw [max_eq_left ((div_lt_div_iff_of_pos_right hpos).mp hlt).le]
      case isFalse hle =>
        rw [max_eq_right (not_lt.mp (mt (div_lt_div_iff_of_pos_right hpos).mpr hle))]
    rw [hside]
    exact shrink_spec _ _ _ hmax rfl
  case isFalse hunder =>
    -- both sides respect the limit, so nothing has to be halved
    have hle : max w h * v.getScale ≤ v.maxSize := by
      rcases max_choice w h with hm | hm <;> rw [hm] <;> by_contra hlt
      · exact hunder ⟨hmax, .inl (not_le.mp hlt)⟩
      · exact hunder ⟨hmax, .inr (not_le.mp hlt)⟩
    have hfloor : ⌊max w h * v.getScale⌋₊ ≤ v.maxSize.toNat := by
      refine Nat.floor_le_of_le (hle.trans_eq ?_)
      rw [← Int.cast_natCast, Int.toNat_of_nonneg hmax.le]
    refine ⟨v.resWidth, v.resHeight, ?_⟩
    rw [halvingsTo_eq_zero hfloor, Nat.sub_zero]
    rfl

/-- Of the two requests the later one, for the height, decides. -/
theorem requestResolution_eq {v : View} (hres : v.resolution = v.maxResolutions - 1) :
    v.requestResolution
      = v.withLevel (v.maxResolutions - 1 - v.asked) v.resWidth v.resHeight := by
  unfold requestResolution asked
  dsimp only
  by_cases hh : v.requestedHeight ≠ 0 <;> by_cases hw : v.requestedWidth ≠ 0
  · rw [if_pos hw, calculateResolution_eq, if_pos hh]
    exact (if_pos hh).trans (calculateResolution_eq _ _ _)
  · rw [if_neg hw, if_pos hh, if_pos hh, calculateResolution_eq]
  · rw [if_pos hw, calculateResolution_eq, if_neg hh, if_pos hw]
    exact if_neg hh
  · rw [if_neg hw, if_neg hh, if_neg hh, if_neg hw, Nat.sub_zero, ← hres]
    rfl

/-- What `getResolution` has set before it looks at the maximum size. -/
def measured (v : View) : View :=
  { v.requestResolution with
    resWidth :=
      (· / 2)^[v.requestResolution.maxResolutions - v.requestResolution.resolution - 1]
        v.requestResolution.width
    resHeight :=
      (· / 2)^[v.requestResolution.maxResolutions - v.requestResolution.resolution - 1]
        v.requestResolution.height }

/-- It is the view at the level that was asked for. -/
theorem measured_eq {v : View} (hres : v.resolution = v.maxResolutions - 1) :
    v.measured = v.atLevel (min (v.maxResolutions - 1) v.asked) := by
  unfold measured
  rw [requestResolution_eq hres]
  unfold withLevel atLevel
  dsimp only
  rw [iterate_half, iterate_half]
  have hr : v.maxResolutions - 1 - v.asked
      = v.maxResolutions - 1 - min (v.maxResolutions - 1) v.asked := by omega
  have hk : v.maxResolutions - (v.maxResolutions - 1 - v.asked) - 1
      = min (v.maxResolutions - 1) v.asked := by omega
  rw [hk, hr]
  rfl

theorem getResolution_eq {v : View} (hres : v.resolution = v.maxResolutions - 1) :
    v.getResolution
      = limitResolution (v.atLevel (min (v.maxResolutions - 1) v.asked)) :=
  congrArg limitResolution (measured_eq hres)

/-- **`getResolution`** finds the level, and touches nothing but the resolution and its
sizes. -/
theorem getResolution_spec {v : View} (hres : v.resolution = v.maxResolutions - 1) :
    ∃ w h, v.getResolution = v.withLevel (v.maxResolutions - 1 - v.level) w h := by
  obtain ⟨w, h, hlim⟩ :=
    (v.atLevel (min (v.maxResolutions - 1) v.asked)).limitResolution_spec
  refine ⟨w, h, (getResolution_eq hres).trans (hlim.trans ?_)⟩
  have hr : (v.atLevel (min (v.maxResolutions - 1) v.asked)).resolution -
      (v.atLevel (min (v.maxResolutions - 1) v.asked)).excess
        = v.maxResolutions - 1 - v.level := by
    have hatl : (v.atLevel (min (v.maxResolutions - 1) v.asked)).resolution
        = v.maxResolutions - 1 - min (v.maxResolutions - 1) v.asked := rfl
    unfold level
    dsimp only
    rw [hatl]
    omega
  rw [hr]
  rfl

/-! ## 2. One axis of the viewport, in pixels of the level -/

/-- The viewport begins before the last pixel border of the level: its exact position is at
least half a pixel to the left of the border. -/
def BeginsBefore (size k : Nat) (pos : ℚ) : Prop :=
  size * pos < ((size / 2 ^ k : Nat) - 1 / 2) * 2 ^ k

instance (size k : Nat) (pos : ℚ) : Decidable (BeginsBefore size k pos) :=
  inferInstanceAs (Decidable (_ < _))

theorem viewPos_lt_iff (size k : Nat) (pos : Ratio) :
    viewPos size k pos < size / 2 ^ k ↔ BeginsBefore size k pos := by
  have h0 : (0 : ℚ) ≤ size * pos / 2 ^ k :=
    div_nonneg (mul_nonneg (Nat.cast_nonneg size) pos.nonneg) (by positivity)
  unfold viewPos BeginsBefore
  rw [nearest_lt_iff h0, div_lt_iff₀ (by positivity)]

/-- The level in pixels as the view rounds it is not smaller than it is, ... -/
theorem le_nearest_half (size k : Nat) : size / 2 ^ k ≤ nearest ((size : ℚ) / 2 ^ k) :=
  le_nearest (cast_half_le size k)

/-- ... and not larger than the image. -/
theorem nearest_half_le (size k : Nat) : nearest ((size : ℚ) / 2 ^ k) ≤ size :=
  nearest_le (div_le_self (Nat.cast_nonneg size) (one_le_pow₀ (by norm_num)))

theorem viewPos_le (size k : Nat) (pos : Ratio) :
    viewPos size k pos ≤ nearest ((size : ℚ) / 2 ^ k) := by
  refine nearest_mono (div_le_div_of_nonneg_right ?_ (by positivity))
  exact mul_le_of_le_one_right (Nat.cast_nonneg size) pos.le_one

theorem one_le_viewExtent (size k : Nat) (pos len : ℚ) : 1 ≤ viewExtent size k pos len := by
  have hmin (n : Nat) : 1 ≤ if n < minSize then minSize else n := by
    unfold minSize
    split <;> omega
  exact hmin _

/-- The extent of the viewport: what it covers of the rounded level, at least one pixel. -/
theorem viewExtent_eq {size : Nat} (hsize : size < 2 ^ 31) (k : Nat) (pos len : Ratio) :
    viewExtent size k pos len
      = max 1 (min (nearest (len * nearest ((size : ℚ) / 2 ^ k)))
          (nearest ((size : ℚ) / 2 ^ k) - nearest (pos * nearest ((size : ℚ) / 2 ^ k)))) := by
  have hR := nearest_half_le size k
  unfold viewExtent minSize
  dsimp only
  generalize nearest ((size : ℚ) / 2 ^ k) = R at hR
  have hw : nearest (len * R) ≤ R := nearest_mul_le len.le_one
  have hl : nearest (pos * R) ≤ R := nearest_mul_le pos.le_one
  rw [u32_of_lt (by omega), sub32_of_le hl]
  split_ifs <;> omega

theorem le_viewExtent_whole {size k : Nat} (hsize : size < 2 ^ 31) {pos len : Ratio}
    (h0 : pos.val = 0) (h1 : len.val = 1) : size / 2 ^ k ≤ viewExtent size k pos len := by
  have hR := le_nearest_half size k
  have hzero : nearest (0 : ℚ) = 0 := nearest_natCast 0
  rw [viewExtent_eq hsize, h0, h1, one_mul, zero_mul, nearest_natCast, hzero]
  omega

/-- At least one pixel, and not more than the rounded level. -/
theorem viewExtent_spec {size k : Nat} (hsize : size < 2 ^ 31) (hpos : 1 ≤ size / 2 ^ k)
    (pos len : Ratio) :
    1 ≤ viewExtent size k pos len ∧
      viewExtent size k pos len ≤ nearest ((size : ℚ) / 2 ^ k) := by
  have := le_nearest_half size k
  rw [viewExtent_eq hsize]
  omega

end View

/-! ## 3. The levels of an image -/

/-- Setup our view with some basic info. -/
def View.setup (v : View) (im : ImageInfo) (width height : Nat) : View :=
  (v.setImageSize width height).setMaxResolutions im.numResolutions

/-- The levels of an image of size `W` by `H` are obtained by repeated halving, and none is
empty. -/
structure FloorPyramid (im : ImageInfo) (W H : Nat) : Prop where
  levels : 1 ≤ im.numResolutions
  widths : im.imageWidths = List.iterate (· / 2) W im.numResolutions
  heights : im.imageHeights = List.iterate (· / 2) H im.numResolutions
  width_pos : ∀ w ∈ im.imageWidths, 1 ≤ w
  height_pos : ∀ h ∈ im.imageHeights, 1 ≤ h
  width_lt : W < 2 ^ 31
  height_lt : H < 2 ^ 31

theorem getElem?_iterate_half {n k : Nat} (d : Nat) (hk : k < n) :
    (List.iterate (· / 2) d n)[k]? = some (d / 2 ^ k) := by
  rw [List.getElem?_iterate _ _ _ _ hk, Lib.Rounding.iterate_half]

variable {im : ImageInfo} {W H k : Nat}

theorem FloorPyramid.width_at (h : FloorPyramid im W H) (hk : k < im.numResolutions) :
    im.imageWidths[k]? = some (W / 2 ^ k) ∧ 1 ≤ W / 2 ^ k := by
  have hget : im.imageWidths[k]? = some (W / 2 ^ k) := by
    rw [h.widths]
    exact getElem?_iterate_half W hk
  exact ⟨hget, h.width_pos _ (List.mem_of_getElem? hget)⟩

theorem FloorPyramid.height_at (h : FloorPyramid im W H) (hk : k < im.numResolutions) :
    im.imageHeights[k]? = some (H / 2 ^ k) ∧ 1 ≤ H / 2 ^ k := by
  have hget : im.imageHeights[k]? = some (H / 2 ^ k) := by
    rw [h.heights]
    exact getElem?_iterate_half H hk
  exact ⟨hget, h.height_pos _ (List.mem_of_getElem? hget)⟩

/-- Any pyramid: at least one level, and every level has a size that an `unsigned int` holds.  How
the levels follow from each other is up to the file. -/
structure LevelSizes (im : ImageInfo) (W H : Nat) : Prop where
  levels : 1 ≤ im.numResolutions
  width : im.imageWidths[0]? = some W
  height : im.imageHeights[0]? = some H
  width_at : ∀ k < im.numResolutions, ∃ s, im.imageWidths[k]? = some s ∧ 1 ≤ s ∧ s < 2 ^ 32
  height_at : ∀ k < im.numResolutions, ∃ s, im.imageHeights[k]? = some s ∧ 1 ≤ s ∧ s < 2 ^ 32

theorem FloorPyramid.levelSizes (h : FloorPyramid im W H) : LevelSizes im W H where
  levels := h.levels
  width := by simpa using (h.width_at h.levels).1
  height := by simpa using (h.height_at h.levels).1
  width_at k hk := by
    have := h.width_lt
    have := Nat.div_le_self W (2 ^ k)
    exact ⟨_, (h.width_at hk).1, (h.width_at hk).2, by omega⟩
  height_at k hk := by
    have := h.height_lt
    have := Nat.div_le_self H (2 ^ k)
    exact ⟨_, (h.height_at hk).1, (h.height_at hk).2, by omega⟩

end Iipsrv
