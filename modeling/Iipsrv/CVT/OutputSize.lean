/-
# The size of the output

What `CVT::send` makes of the size that a client asks for.  Two computations are in the way.

If only the width or only the height is given, `View` works out the other one in proportion, from
a product of two `unsigned int`s that is taken BEFORE the maximum size is looked at, and from its
quotient as a `float`.  Section 1 says for which requests the product does not wrap and the quotient
is rounded as the exact one; `square_of_nothing` is one whose width comes out as 0.

Then `send` is to make sure that the final image fits within the requested size.  It keeps one side
and replaces the other; which one, a comparison of the two scales with 1.001 decides.  Section 2
says when the result fits, with exact numbers.  It does not if the new side is rounded to zero, and
it does not in the tolerance: between 1 and 1.001 it is the height that is replaced, by a LARGER
one.
-/
import Iipsrv.CVT
import Iipsrv.View.Single

namespace Iipsrv

open Lib.Rounding Lib.Word Lib.Effects

/-! ## 1. The side that has not been requested -/

namespace View

/-- Exactly one of the two sizes has been requested. -/
def Alone (v : View) : Prop :=
  (v.requestedWidth = 0 ∧ 0 < v.requestedHeight) ∨ (v.requestedHeight = 0 ∧ 0 < v.requestedWidth)

instance (v : View) : Decidable v.Alone := inferInstanceAs (Decidable (_ ∨ _))

/-- A size under the maximum size, if there is one. -/
def limited (maxSize : Int) (n : Nat) : Nat :=
  if 0 < maxSize ∧ maxSize < n then maxSize.toNat else n

/-- Two sizes are the same under the maximum size if they are the same or both reach it. -/
theorem limited_eq_iff {maxSize : Int} {m n : Nat} :
    limited maxSize m = limited maxSize n ↔
      m = n ∨ (0 < maxSize ∧ maxSize ≤ m ∧ maxSize ≤ n) := by
  unfold limited
  split_ifs <;> omega

/-- A size as it should be: the requested one, or the one in proportion to the other. -/
def proportional (requested other view otherView : Nat) : Nat :=
  if requested = 0 then nearest (((view * other : Nat) : ℚ) / otherView) else requested

namespace Single

open Lib.Single (quotient nearest_quotient)

/-- **No product wraps**, those of `getScale` and those of `getRequestWidth` and
`getRequestHeight`, and the two sizes are the exactly rounded ones. -/
structure Exact (v : View) : Prop where
  scaleWidth : u32 (v.resWidth * v.requestedHeight) = v.resWidth * v.requestedHeight
  scaleHeight : u32 (v.resHeight * v.requestedWidth) = v.resHeight * v.requestedWidth
  viewWidth : u32 (getViewWidth v * v.requestedHeight) = getViewWidth v * v.requestedHeight
  viewHeight : u32 (getViewHeight v * v.requestedWidth) = getViewHeight v * v.requestedWidth
  width : getRequestWidth v = limited v.maxSize
    (proportional v.requestedWidth v.requestedHeight (getViewWidth v) (getViewHeight v))
  height : getRequestHeight v = limited v.maxSize
    (proportional v.requestedHeight v.requestedWidth (getViewHeight v) (getViewWidth v))

/-- The pixels of the viewport at the level after `k` halvings, along the two axes. -/
def covered (v : View) (k : Nat) : Nat × Nat :=
  (viewExtent v.width k v.viewLeft v.viewWidth, viewExtent v.height k v.viewTop v.viewHeight)

/-- The larger of the level and of what the viewport covers of it, times the request, is below
`2 ^ 32`. -/
def Unwrapped (v : View) (k : Nat) : Prop :=
  max (v.width / 2 ^ k) (covered v k).1 * v.requestedHeight < 2 ^ 32 ∧
    max (v.height / 2 ^ k) (covered v k).2 * v.requestedWidth < 2 ^ 32

instance (v : View) (k : Nat) : Decidable (Unwrapped v k) := inferInstanceAs (Decidable (_ ∧ _))

/-- The `float` quotient of `m` and `n` is rounded to the same whole number as the exact one, or
both reach the maximum size. -/
def Rounds (maxSize : Int) (m n : Nat) : Prop :=
  u32 (nearest (quotient m n)) = nearest ((m : ℚ) / n) ∨
    (0 < maxSize ∧ maxSize ≤ (u32 (nearest (quotient m n)) : Nat) ∧
      maxSize ≤ (nearest ((m : ℚ) / n) : Nat))

/-- The side that has not been requested is rounded right. -/
def Rounded (v : View) (k : Nat) : Prop :=
  (v.requestedWidth = 0 → Rounds v.maxSize ((covered v k).1 * v.requestedHeight) (covered v k).2) ∧
    (v.requestedHeight = 0 →
      Rounds v.maxSize ((covered v k).2 * v.requestedWidth) (covered v k).1)

/-- **Small requests are rounded right**: where the product and the divisor together have at most
23 digits. -/
theorem rounds_of_lt {maxSize : Int} {m n : Nat} (hn : 1 ≤ n) (h : m + n < 2 ^ 23) :
    Rounds maxSize m n := by
  have hnearest := nearest_quotient hn h
  have hle : nearest ((m : ℚ) / n) ≤ m := by
    refine nearest_le (div_le_self (Nat.cast_nonneg m) ?_)
    exact_mod_cast hn
  refine .inl ?_
  rw [hnearest, u32_of_lt (by omega)]

theorem max_mul_lt_iff {a b n m : Nat} : max a b * n < m ↔ a * n < m ∧ b * n < m := by
  rw [max_mul_of_nonneg a b (Nat.zero_le n)]
  exact max_lt_iff

/-- Where the product is exact and the other size has been requested, the missing one is right
exactly if the quotient is. -/
theorem requestSize_eq_iff {maxSize : Int} {requested other size view otherView : Nat}
    (hone : requested = 0 → 0 < other) (hexact : u32 (view * other) = view * other) :
    requestSize maxSize requested other size view otherView
        = limited maxSize (proportional requested other view otherView) ↔
      (requested = 0 → Rounds maxSize (view * other) otherView) := by
  unfold requestSize proportional
  by_cases h : requested = 0
  · rw [if_pos h, if_pos h, if_pos (Nat.pos_iff_ne_zero.mp (hone h)), hexact]
    exact limited_eq_iff.trans ⟨fun hr _ => hr, fun hr => hr h⟩
  · rw [if_neg h, if_neg h]
    exact ⟨fun _ h0 => absurd h0 h, fun _ => rfl⟩

variable {v : View} {k : Nat}

theorem shift_atLevel (hk : k < v.maxResolutions) : (v.atLevel k).shift = k := by
  change v.maxResolutions - (v.maxResolutions - 1 - k) - 1 = k
  omega

theorem covered_eq (hk : k < v.maxResolutions) :
    covered v k = (getViewWidth (v.atLevel k), getViewHeight (v.atLevel k)) := by
  unfold getViewWidth getViewHeight
  rw [shift_atLevel hk]
  rfl

end Single

end View

namespace CVT

/-- A tiled image without a pyramid. -/
def singleLevel (width height : Nat) : ImageInfo :=
  { tileWidth := 256, tileHeight := 256, numResolutions := 1, imageWidths := [width]
    imageHeights := [height], channels := 1, bpc := 8, sampleType := .fixedPoint
    colourspace := .greyscale, regionDecoding := false }

-- nothing wraps for HEI=4049 and 5000 by 5013 pixels, but the quotient 4038.4999 is not a float:
-- the width is 4039 instead of 4038
example :
    View.Single.getRequestWidth
        (((HEI.run .new 4049).setup (singleLevel 5000 5013) 5000 5013).atLevel 0) = 4039 ∧
      View.proportional 0 4049 5000 5013 = 4038 := by decide +kernel

/-! ## 2. The requested box -/

/-- The size that is requested of the output: limited to the level if upscaling is prevented. -/
def requested (v : View) (imWidth imHeight : Nat) : Nat × Nat :=
  (if ¬ v.allowUpscaling ∧ imWidth < v.getRequestWidth then imWidth else v.getRequestWidth,
    if ¬ v.allowUpscaling ∧ imHeight < v.getRequestHeight then imHeight else v.getRequestHeight)

/-- The output is not empty, and fits within `w` by `h`. -/
structure Fits (w h : Nat) (size : Nat × Nat) : Prop where
  width_pos : 1 ≤ size.1
  width_le : size.1 ≤ w
  height_pos : 1 ≤ size.2
  height_le : size.2 ≤ h

/-- The sizes for which it does, in whole numbers.  If the height is replaced, the exact one is at
least half a pixel, and less than half a pixel above the requested one; if the width is replaced,
the exact one is at least half a pixel. -/
def Roomy (w h viewWidth viewHeight : Nat) : Prop :=
  if 1000 * (w * viewHeight) < 1001 * (h * viewWidth) then
    viewWidth ≤ 2 * (w * viewHeight) ∧ 2 * (w * viewHeight) < (2 * h + 1) * viewWidth
  else if 1001 * (h * viewWidth) < 1000 * (w * viewHeight) then viewHeight ≤ 2 * (h * viewWidth)
  else True

instance (w h viewWidth viewHeight : Nat) : Decidable (Roomy w h viewWidth viewHeight) := by
  unfold Roomy
  infer_instance

/-- A side that is replaced: the exact one is the quotient of `m` and `v`. -/
theorem one_le_nearest_div {m v : Nat} (hv : 1 ≤ v) : 1 ≤ nearest ((m : ℚ) / v) ↔ v ≤ 2 * m := by
  have hpos : (0 : ℚ) < v := by exact_mod_cast hv
  rw [le_nearest_iff (by positivity), le_div_iff₀ hpos]
  constructor
  · intro h
    have : (v : ℚ) ≤ 2 * m := by
      push_cast at h
      linarith
    exact_mod_cast this
  · intro h
    have : (v : ℚ) ≤ 2 * m := by exact_mod_cast h
    push_cast
    linarith

theorem nearest_div_le {m v n : Nat} (hv : 1 ≤ v) :
    nearest ((m : ℚ) / v) ≤ n ↔ 2 * m < (2 * n + 1) * v := by
  have hpos : (0 : ℚ) < v := by exact_mod_cast hv
  rw [← Nat.lt_succ_iff, nearest_lt_iff (by positivity), div_lt_iff₀ hpos]
  constructor
  · intro h
    have : (2 * m : ℚ) < (2 * n + 1) * v := by
      push_cast at h
      linarith
    exact_mod_cast this
  · intro h
    have : (2 * m : ℚ) < (2 * n + 1) * v := by exact_mod_cast h
    push_cast
    linarith

/-- The two scales, compared with the tolerance. -/
theorem ratio_eq {w h vw vh : Nat} (hvw : 1 ≤ vw) (hh : 1 ≤ h) (hvh : 1 ≤ vh) :
    (w / vw : ℚ) / (h / vh) = ((w * vh : Nat) : ℚ) / (h * vw : Nat) := by
  have h1 : (vw : ℚ) ≠ 0 := by exact_mod_cast Nat.one_le_iff_ne_zero.mp hvw
  have h2 : (h : ℚ) ≠ 0 := by exact_mod_cast Nat.one_le_iff_ne_zero.mp hh
  have h3 : (vh : ℚ) ≠ 0 := by exact_mod_cast Nat.one_le_iff_ne_zero.mp hvh
  push_cast
  field_simp

/-- `keepAspect` in whole numbers. -/
theorem keepAspect_eq {w h vw vh : Nat} (hh : 1 ≤ h) (hvw : 1 ≤ vw) (hvh : 1 ≤ vh) :
    keepAspect w h vw vh
      = if 1000 * (w * vh) < 1001 * (h * vw) then (w, nearest (((w * vh : Nat) : ℚ) / vw))
        else if 1001 * (h * vw) < 1000 * (w * vh) then (nearest (((h * vw : Nat) : ℚ) / vh), h)
        else (w, h) := by
  have hden : (0 : ℚ) < (h * vw : Nat) := by exact_mod_cast Nat.mul_pos hh hvw
  have hlt : ((w * vh : Nat) : ℚ) / (h * vw : Nat) < 1001 / 1000 ↔
      1000 * (w * vh) < 1001 * (h * vw) := by
    rw [div_lt_div_iff₀ hden (by norm_num)]
    constructor
    · intro hq
      have : (1000 : ℚ) * (w * vh : Nat) < 1001 * (h * vw : Nat) := by linarith
      exact_mod_cast this
    · intro hn
      have : (1000 : ℚ) * (w * vh : Nat) < 1001 * (h * vw : Nat) := by exact_mod_cast hn
      linarith
  have hgt : (1001 / 1000 : ℚ) < ((w * vh : Nat) : ℚ) / (h * vw : Nat) ↔
      1001 * (h * vw) < 1000 * (w * vh) := by
    rw [div_lt_div_iff₀ (by norm_num) hden]
    constructor
    · intro hq
      have : (1001 : ℚ) * (h * vw : Nat) < 1000 * (w * vh : Nat) := by linarith
      exact_mod_cast this
    · intro hn
      have : (1001 : ℚ) * (h * vw : Nat) < 1000 * (w * vh : Nat) := by exact_mod_cast hn
      linarith
  have hheight : (w / vw : ℚ) * vh = ((w * vh : Nat) : ℚ) / vw := by
    push_cast
    ring
  have hwidth : (h / vh : ℚ) * vw = ((h * vw : Nat) : ℚ) / vh := by
    push_cast
    ring
  unfold keepAspect
  simp only [ratio_eq hvw hh hvh, hlt, hgt, hheight, hwidth]

/-- One computation of the aspect ratio. -/
theorem keepAspect_fits_iff {w h vw vh : Nat} (hw : 1 ≤ w) (hh : 1 ≤ h) (hvw : 1 ≤ vw)
    (hvh : 1 ≤ vh) : Fits w h (keepAspect w h vw vh) ↔ Roomy w h vw vh := by
  rw [keepAspect_eq hh hvw hvh]
  unfold Roomy
  split
  case isTrue hheight =>
    -- the width is kept
    rw [← one_le_nearest_div hvw, ← nearest_div_le hvw]
    constructor
    · intro hfits
      exact ⟨hfits.height_pos, hfits.height_le⟩
    · rintro ⟨hpos, hle⟩
      exact ⟨hw, le_rfl, hpos, hle⟩
  case isFalse hheight =>
    split
    case isTrue hwidth =>
      -- the height is kept, and the new width is below the requested one
      rw [← one_le_nearest_div hvh]
      have hle : nearest (((h * vw : Nat) : ℚ) / vh) ≤ w := by
        rw [nearest_div_le hvh, Nat.add_mul, Nat.mul_assoc]
        omega
      constructor
      · intro hfits
        exact hfits.width_pos
      · intro hpos
        exact ⟨hpos, hle, hh, le_rfl⟩
    case isFalse hwidth =>
      exact ⟨fun _ => trivial, fun _ => ⟨hw, le_rfl, hh, le_rfl⟩⟩

/-- The requested size respects the maximum size. -/
theorem limited_le {maxSize : Int} (hmax : 0 < maxSize) (n : Nat) :
    (View.limited maxSize n : Int) ≤ maxSize := by
  unfold View.limited
  split
  case isTrue h => rw [Int.toNat_of_nonneg hmax.le]
  case isFalse h =>
    by_contra hlt
    exact h ⟨hmax, not_le.mp hlt⟩

theorem requested_le {v : View} (hmax : 0 < v.maxSize) (imWidth imHeight : Nat) :
    ((requested v imWidth imHeight).1 : Int) ≤ v.maxSize ∧
      ((requested v imWidth imHeight).2 : Int) ≤ v.maxSize := by
  have hw : (v.getRequestWidth : Int) ≤ v.maxSize := limited_le hmax _
  have hh : (v.getRequestHeight : Int) ≤ v.maxSize := limited_le hmax _
  unfold requested
  constructor <;> dsimp only <;> split_ifs <;> omega

/-- **When the output fits within the requested size.**  For every view that maintains the aspect
ratio and every level, with a region and a requested size that are not empty: the output that
`send` works out has at least one pixel and fits if and only if the sizes are roomy.  If it fits,
no side exceeds the maximum size. -/
theorem cut_fits_iff (v : View) (imWidth imHeight : Nat) (haspect : v.maintainAspect = true)
    (hvw : 1 ≤ (cut v imWidth imHeight).viewWidth) (hvh : 1 ≤ (cut v imWidth imHeight).viewHeight)
    (hw : 1 ≤ (requested v imWidth imHeight).1) (hh : 1 ≤ (requested v imWidth imHeight).2) :
    (Fits (requested v imWidth imHeight).1 (requested v imWidth imHeight).2
        ((cut v imWidth imHeight).resampledWidth, (cut v imWidth imHeight).resampledHeight) ↔
      Roomy (requested v imWidth imHeight).1 (requested v imWidth imHeight).2
        (cut v imWidth imHeight).viewWidth (cut v imWidth imHeight).viewHeight) ∧
      (Roomy (requested v imWidth imHeight).1 (requested v imWidth imHeight).2
          (cut v imWidth imHeight).viewWidth (cut v imWidth imHeight).viewHeight →
        0 < v.maxSize →
        ((cut v imWidth imHeight).resampledWidth : Int) ≤ v.maxSize ∧
          ((cut v imWidth imHeight).resampledHeight : Int) ≤ v.maxSize) := by
  have hsize : ((cut v imWidth imHeight).resampledWidth, (cut v imWidth imHeight).resampledHeight)
      = keepAspect (requested v imWidth imHeight).1 (requested v imWidth imHeight).2
          (cut v imWidth imHeight).viewWidth (cut v imWidth imHeight).viewHeight := by
    simp only [cut, requested, haspect, if_true]
  have hfits := keepAspect_fits_iff hw hh hvw hvh
  rw [← hsize] at hfits
  refine ⟨hfits, fun hroomy hmax => ?_⟩
  obtain ⟨-, hwle, -, hhle⟩ := hfits.mpr hroomy
  obtain ⟨hw', hh'⟩ := requested_le hmax imWidth imHeight
  constructor <;> omega

/-- The whole of a 7 by 7 image, at half its size. -/
theorem cut_fits_iff_half :
    Fits 3 3 ((cut (WID.run (HEI.run ((View.new).setup sevenBySeven 7 7) 3) 3) 7 7).resampledWidth,
      (cut (WID.run (HEI.run ((View.new).setup sevenBySeven 7 7) 3) 3) 7 7).resampledHeight) :=
  (cut_fits_iff (WID.run (HEI.run ((View.new).setup sevenBySeven 7 7) 3) 3) 7 7 rfl
    (by decide +kernel) (by decide +kernel) (by decide +kernel) (by decide +kernel)).1.mpr
      (by decide +kernel)

/-- **Above the maximum.**  An image of 5000 by 5002 pixels and a maximum size of 5000, the
default: both sides are limited to 5000, but the scales differ by less than a thousandth, so the
height is set to the width's scale again, which is 5002.  And a strip of 3 pixels, one high, that
is to be one pixel wide, becomes zero pixels high. -/
theorem height_above_maximum :
    (∃ v e, extract (singleLevel 5000 5002) { View.new with maxSize := 5000 } = .ok (v, e) ∧
      requested v 5000 5002 = (5000, 5000) ∧ e.viewWidth = 5000 ∧ e.viewHeight = 5002 ∧
      e.resampledWidth = 5000 ∧ e.resampledHeight = 5002) ∧
    keepAspect 1 1 3 1 = (1, 0) := by
  refine ⟨?_, by decide +kernel⟩
  have hrun : (extract (singleLevel 5000 5002) { View.new with maxSize := 5000 }).toOption.map
      (fun p => (requested p.1 5000 5002, p.2.viewWidth, p.2.viewHeight, p.2.resampledWidth,
        p.2.resampledHeight)) = some ((5000, 5000), 5000, 5002, 5000, 5002) := by
    decide +kernel
  obtain ⟨p, hext, hp⟩ := of_toOption_map hrun
  obtain ⟨hreq, hp⟩ := Prod.mk.inj hp
  obtain ⟨hvw, hp⟩ := Prod.mk.inj hp
  obtain ⟨hvh, hp⟩ := Prod.mk.inj hp
  obtain ⟨hw, hh⟩ := Prod.mk.inj hp
  exact ⟨p.1, p.2, hext, hreq, hvw, hvh, hw, hh⟩

end CVT

end Iipsrv
