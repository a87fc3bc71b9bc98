/-
# The choice of the level

`calculateResolution` looks for the smallest level that is not smaller than requested.  Its loop
is a `while( true )` with one exit; `calculateResolution_smallest` says that it ends and which level
it finds.

`getResolution` calls it twice, for the requested width and for the requested height.  The
comment in it says that the value is only updated if the calculated resolution is greater than
the one that has been set; but the function RESETS the resolution first, so that the call for the
height forgets what the width needs.  `getResolution_larger_iff` says for which requests that
makes no difference: those whose height cannot be halved more often than their width.
`narrow_strip` is one where the image is sent from a level smaller than requested.
-/
import Iipsrv.View.Level

namespace Iipsrv.View

open Lib.Rounding Lib.Word

/-! ## 1. The smallest sufficient level -/

theorem resolution_calculateResolution (v : View) (d s : Nat) :
    (v.calculateResolution d s).resolution
      = v.maxResolutions - 1 - halvings d (max s 1) := by
  rw [calculateResolution_eq]
  rfl

/-- **`calculateResolution` picks the smallest sufficient level.**  Its loop ends, and finds the
largest number of halvings after which the dimension is not below the requested size.  As long
as there are that many levels, the level is not smaller than requested, or it is the full image;
and the next smaller one is. -/
theorem calculateResolution_smallest (v : View) (d s : Nat) :
    ∃ k : Nat, IsGreatest {k | k = 0 ∨ max s 1 ≤ d / 2 ^ k} k ∧
      (∃ turns, ∀ fuel, turns ≤ fuel →
        descendLoop (max s 1) fuel d (v.maxResolutions - 1)
          = some ((v.maxResolutions : Int) - 1 - k)) ∧
      ((v.calculateResolution d s).resolution : Int) = max 0 ((v.maxResolutions : Int) - 1 - k) ∧
      (k ≤ v.maxResolutions - 1 →
        (max s 1 ≤ d / 2 ^ (v.maxResolutions - 1 - (v.calculateResolution d s).resolution) ∨
          (v.calculateResolution d s).resolution = v.maxResolutions - 1) ∧
        d / 2 ^ (v.maxResolutions - 1 - (v.calculateResolution d s).resolution + 1)
          < max s 1) := by
  have hs : 1 ≤ max s 1 := le_max_right s 1
  have hgreatest := isGreatest_halvings d hs
  refine ⟨halvings d (max s 1), hgreatest, ⟨d + 1, ?_⟩, ?_, ?_⟩
  · intro fuel hfuel
    exact descendLoop_eq hs fuel d _ (by omega)
  · rw [resolution_calculateResolution]
    omega
  · intro hk
    have hshift : v.maxResolutions - 1 - (v.calculateResolution d s).resolution
        = halvings d (max s 1) := by
      rw [resolution_calculateResolution]
      omega
    rw [hshift]
    constructor
    · rcases hgreatest.1 with hzero | hle
      · right
        rw [resolution_calculateResolution, hzero, Nat.sub_zero]
      · exact .inl hle
    · -- one halving more is not among those that leave enough
      by_contra hge
      have := hgreatest.2 (Or.inr (not_lt.mp hge))
      omega

/-! ## 2. Two dimensions -/

/-- The requested width at the scale of the full image, at least `min_size`. -/
def wantedWidth (v : View) : Nat := max ⌊(v.requestedWidth : ℚ) / v.viewWidth⌋₊ 1

/-- The requested height at the scale of the full image, at least `min_size`. -/
def wantedHeight (v : View) : Nat := max ⌊(v.requestedHeight : ℚ) / v.viewHeight⌋₊ 1

/-- Without a maximum size there is nothing to limit. -/
theorem limitResolution_of_unlimited {v : View} (hmax : v.maxSize = 0) : v.limitResolution = v := by
  unfold limitResolution
  dsimp only
  rw [if_neg]
  rintro ⟨hpos, -⟩
  omega

/-- Of the two calls the one for the height decides, whatever the width needs. -/
theorem resolution_getResolution {v : View} (hmax : v.maxSize = 0)
    (hheight : 0 < v.requestedHeight) :
    v.getResolution.resolution = v.maxResolutions - 1 - halvings v.height v.wantedHeight := by
  have hreq : ∃ u : View, u.maxSize = 0 ∧ u.maxResolutions = v.maxResolutions ∧
      v.requestResolution = u.calculateResolution v.height
        ⌊(v.requestedHeight : ℚ) / v.viewHeight⌋₊ := by
    unfold requestResolution
    dsimp only
    split
    case isTrue hwidth =>
      -- the width's level is set, and forgotten
      rw [calculateResolution_eq]
      exact ⟨_, hmax, rfl, if_pos (Nat.ne_of_gt hheight)⟩
    case isFalse hwidth => exact ⟨v, hmax, rfl, if_pos (Nat.ne_of_gt hheight)⟩
  obtain ⟨u, hu, hlevels, heq⟩ := hreq
  unfold getResolution
  dsimp only
  rw [limitResolution_of_unlimited]
  · dsimp only
    rw [heq, resolution_calculateResolution, hlevels]
    rfl
  · dsimp only
    rw [heq, calculateResolution_eq]
    exact hu

/-- Among the levels there are, those for the height that are sufficient are sufficient for the
width too. -/
def HeightDecides (v : View) : Prop :=
  ∀ k, 1 ≤ k → k < v.maxResolutions → v.wantedHeight ≤ v.height / 2 ^ k →
    v.wantedWidth ≤ v.width / 2 ^ k

/-- As numbers of halvings. -/
theorem heightDecides_iff (v : View) :
    HeightDecides v ↔
      min (v.maxResolutions - 1) (halvings v.height v.wantedHeight)
        ≤ halvings v.width v.wantedWidth := by
  have hw : 1 ≤ v.wantedWidth := le_max_right _ _
  have hh : 1 ≤ v.wantedHeight := le_max_right _ _
  constructor
  · intro h
    by_cases hzero : min (v.maxResolutions - 1) (halvings v.height v.wantedHeight) = 0
    · omega
    · -- the largest number of halvings for the height is one of those compared
      rcases (le_halvings_iff hh).mp (min_le_right (v.maxResolutions - 1) _) with h0 | hle
      · exact absurd h0 hzero
      · exact (le_halvings_iff hw).mpr (.inr (h _ (by omega) (by omega) hle))
  · intro h k hk hlt hle
    have hkh := (le_halvings_iff hh).mpr (.inr hle)
    rcases (le_halvings_iff hw).mp ((le_min (by omega) hkh).trans h) with h0 | hle'
    · omega
    · exact hle'

/-- The resolution that `calculateResolution` derives from the requested width. -/
def resolutionForWidth (v : View) : Nat :=
  (v.calculateResolution v.width ⌊(v.requestedWidth : ℚ) / v.viewWidth⌋₊).resolution

/-- The resolution that `calculateResolution` derives from the requested height. -/
def resolutionForHeight (v : View) : Nat :=
  (v.calculateResolution v.height ⌊(v.requestedHeight : ℚ) / v.viewHeight⌋₊).resolution

/-- **When both dimensions are respected.**  The resolution is one of the image's; and it is the
larger one of those for the width and for the height if and only if the height decides. -/
theorem getResolution_larger_iff (v : View) (hmax : v.maxSize = 0)
    (hrh : 0 < v.requestedHeight) :
    (v.getResolution.resolution = max v.resolutionForWidth v.resolutionForHeight ∧
      v.getResolution.resolution ≤ v.maxResolutions - 1) ↔ HeightDecides v := by
  rw [heightDecides_iff, resolution_getResolution hmax hrh]
  unfold resolutionForWidth resolutionForHeight
  rw [resolution_calculateResolution, resolution_calculateResolution]
  change (_ = max (_ - _ - halvings v.width v.wantedWidth)
    (_ - _ - halvings v.height v.wantedHeight) ∧ _) ↔ _
  omega

/-- A square image of 100 x 100 pixels with three levels, of which a strip of 100 x 25 pixels is
requested. -/
def strip : View :=
  { View.new with
    width := 100, height := 100, maxResolutions := 3, resolution := 2,
    requestedWidth := 100, requestedHeight := 25 }

/-- **The width is forgotten.**  The strip is read from the smallest level, 25 pixels wide, though
only the full image is as wide as requested. -/
theorem narrow_strip :
    strip.getResolution.resolution = 0 ∧ strip.resolutionForWidth = 2 ∧
      strip.resolutionForHeight = 0 := by
  decide +kernel

/-- The strip's height does not decide; at its full height the image is read at its full size. -/
theorem strip_at_full_height :
    ¬ HeightDecides strip ∧
      ((strip.setRequestHeight 100).getResolution.resolution
          = max (strip.setRequestHeight 100).resolutionForWidth
            (strip.setRequestHeight 100).resolutionForHeight ∧
        (strip.setRequestHeight 100).getResolution.resolution ≤ 2) := by
  constructor
  · rw [← getResolution_larger_iff strip rfl (by decide)]
    decide +kernel
  · refine (getResolution_larger_iff (strip.setRequestHeight 100) rfl (by decide)).mpr ?_
    rw [heightDecides_iff]
    decide +kernel

end Iipsrv.View
