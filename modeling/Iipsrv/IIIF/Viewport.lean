/-
# Viewports inside the image

`RGN::run` and the region parameter of `IIIF::run` set the viewport of a view.  The commands look
at the width and the height they are given, not at what becomes of them: the setter of the width
crops it by the left border, down to nothing if the viewport begins at the right border of the
image, and the setter of the height does not crop at all.

  * Section 1: what the four setters leave (`setViewport_inside_iff`).
  * Section 2: the divisors of `View::getResolution`, `getScale`, `getRequestWidth` and
    `getRequestHeight`.  None is zero if the viewport is not empty and no level of the image has a
    width but no height (`divisors_ne_zero`).
  * Section 3: both, along every sequence of commands (`views_sound_iff`).  `outside_the_image`
    has a viewport without a width, one that ends below the image, and a level without a height.
-/
import Iipsrv.IIIF.Model

namespace Iipsrv

open Lib.Rounding Lib.Word

/-! ## 1. The setters -/

theorem Ratio.val_clamp (x : ℚ) : (Ratio.clamp x).val = max 0 (min x 1) := by
  unfold Ratio.clamp
  split_ifs with h1 h0
  · rw [min_eq_right h1.le, max_eq_right zero_le_one]
  · rw [min_eq_left (not_lt.mp h1), max_eq_left h0.le]
  · rw [min_eq_left (not_lt.mp h1), max_eq_right (not_lt.mp h0)]

namespace View

/-- The viewport is a part of the image that is not empty. -/
structure Inside (v : View) : Prop where
  left_nonneg : 0 ≤ v.viewLeft.val
  width_pos : 0 < v.viewWidth.val
  right_le : v.viewLeft.val + v.viewWidth.val ≤ 1
  top_nonneg : 0 ≤ v.viewTop.val
  height_pos : 0 < v.viewHeight.val
  bottom_le : v.viewTop.val + v.viewHeight.val ≤ 1

theorem inside_new : View.new.Inside := by
  constructor <;> decide +kernel

/-- The four setters, in the order of both commands. -/
def setViewport (v : View) (x y w h : ℚ) : View :=
  (((v.setViewLeft x).setViewTop y).setViewWidth w).setViewHeight h

/-- The width is cropped by the left border: what is left of it. -/
theorem viewWidth_setViewport (v : View) (x y : ℚ) {w : ℚ} (h : ℚ) (hw : 0 < w) :
    (v.setViewport x y w h).viewWidth.val = min w (1 - (Ratio.clamp x).val) := by
  have hl := (Ratio.clamp x).nonneg
  have hr := (Ratio.clamp x).le_one
  change (Ratio.clamp (if 1 < (Ratio.clamp x).val + w then 1 - (Ratio.clamp x).val else w)).val = _
  rw [Ratio.val_clamp]
  split_ifs with hcrop
  · rw [min_eq_left (by linarith), max_eq_right (by linarith), min_eq_right (by linarith)]
  · rw [min_eq_left (by linarith), max_eq_right (by linarith), min_eq_left (by linarith)]

/-- Not so the height. -/
theorem viewHeight_setViewport (v : View) (x y w : ℚ) {h : ℚ} (hh : 0 < h) :
    (v.setViewport x y w h).viewHeight.val = min h 1 := by
  change (Ratio.clamp h).val = _
  rw [Ratio.val_clamp, max_eq_right]
  exact le_min hh.le zero_le_one

/-- The viewport begins before the right border of the image, and ends before the lower one. -/
def Fits (x y h : ℚ) : Prop := x < 1 ∧ max 0 y + min h 1 ≤ 1

instance (x y h : ℚ) : Decidable (Fits x y h) := inferInstanceAs (Decidable (_ ∧ _))

/-- **What the setters leave** of a width and a height that are not zero. -/
theorem setViewport_inside_iff (v : View) (x y : ℚ) {w h : ℚ} (hw : 0 < w) (hh : 0 < h) :
    (v.setViewport x y w h).Inside ↔ Fits x y h := by
  have hwidth := viewWidth_setViewport v x y h hw
  have hheight := viewHeight_setViewport v x y w hh
  have hleft : (v.setViewport x y w h).viewLeft.val = max 0 (min x 1) := Ratio.val_clamp x
  have htop : (v.setViewport x y w h).viewTop.val = max 0 (min y 1) := Ratio.val_clamp y
  rw [Ratio.val_clamp] at hwidth
  have hmin : 0 < min h 1 := lt_min hh one_pos
  constructor
  · rintro ⟨-, hpos, -, -, -, hbottom⟩
    rw [hwidth, lt_min_iff, sub_pos] at hpos
    rw [htop, hheight] at hbottom
    have hx : min x 1 < 1 := (le_max_right _ _).trans_lt hpos.2
    have hy : min y 1 < 1 := (le_max_right 0 _).trans_lt (by linarith)
    rw [min_lt_iff, or_iff_left (lt_irrefl 1)] at hx hy
    rw [min_eq_left hy.le] at hbottom
    exact ⟨hx, hbottom⟩
  · rintro ⟨hx, hbottom⟩
    have hy : max 0 y < 1 := by linarith
    rw [min_eq_left hx.le] at hleft hwidth
    rw [min_eq_left ((le_max_right 0 y).trans hy.le)] at htop
    have hl : max 0 x < 1 := max_lt one_pos hx
    refine ⟨(v.setViewport x y w h).viewLeft.nonneg, ?_, ?_,
      (v.setViewport x y w h).viewTop.nonneg, ?_, ?_⟩
    · rw [hwidth]
      exact lt_min hw (sub_pos.mpr hl)
    · rw [hleft, hwidth]
      have := min_le_right w (1 - max 0 x)
      linarith
    · rw [hheight]
      exact hmin
    · rw [htop, hheight]
      exact hbottom

/-! ## 2. Divisors -/

/-- The divisors of `getScale`. -/
def scaleDivisors (v : View) : List ℚ :=
  (if v.requestedWidth = 0 ∧ 0 < v.requestedHeight then [(v.resHeight : ℚ)] else []) ++
  (if v.requestedHeight = 0 ∧ 0 < v.requestedWidth then [(v.resWidth : ℚ)] else []) ++
  [(v.width : ℚ), (v.resHeight : ℚ)]

/-- The divisors of `getResolution`, with those of the calls of `getScale` in it. -/
def resolutionDivisors (v : View) : List ℚ :=
  (if v.requestedWidth ≠ 0 then [v.viewWidth.val] else []) ++
  (if v.requestedHeight ≠ 0 then [v.viewHeight.val] else []) ++
  v.measured.scaleDivisors ++
  -- the comparison of the sides, and `dimension / i` in the loop, where `i` is 1
  (if 0 < v.maxSize ∧
      (v.maxSize < v.measured.resWidth * v.viewWidth.val * v.measured.getScale ∨
        v.maxSize < v.measured.resHeight * v.viewHeight.val * v.measured.getScale) then
    [(v.maxSize : ℚ), 1] else [])

/-- The divisors of `getRequestWidth` and `getRequestHeight`: those of `getViewWidth` and
`getViewHeight`, and the extent of the other axis. -/
def requestDivisors (v : View) (requested other otherView : Nat) : List ℚ :=
  if requested = 0 ∧ other ≠ 0 then [2 ^ v.shift, (otherView : ℚ)] else []

/-- What is divided by from `getResolution` on until the size of the output is known. -/
def divisors (v : View) : List ℚ :=
  v.resolutionDivisors ++
  v.getResolution.requestDivisors v.requestedWidth v.requestedHeight
    v.getResolution.getViewHeight ++
  v.getResolution.requestDivisors v.requestedHeight v.requestedWidth v.getResolution.getViewWidth

/-- A view of an image of `W` by `H` pixels with `m` levels, asked for a size. -/
def request (v : View) (W H m : Nat) (requestedWidth requestedHeight : Nat) (maxSize : Int) :
    View :=
  { (v.setImageSize W H).setMaxResolutions m with
    requestedWidth := requestedWidth, requestedHeight := requestedHeight, maxSize := maxSize }

/-- No level that has a width is without a height. -/
def LevelsHaveHeight (W H m : Nat) : Prop := ∀ k < m, 1 ≤ W / 2 ^ k → 1 ≤ H / 2 ^ k

instance (W H m : Nat) : Decidable (LevelsHaveHeight W H m) :=
  inferInstanceAs (Decidable (∀ k < m, _))

/-- A size that is halved for its own sake is not halved away. -/
theorem half_pos {d s k : Nat} (hd : 1 ≤ d) (hs : 1 ≤ s) (hk : k ≤ halvings d s) :
    1 ≤ d / 2 ^ k := by
  rcases (le_halvings_iff hs).mp hk with rfl | hle
  · simpa using hd
  · exact hs.trans hle

section
variable {v : View}

/-- The level that was asked for has a width, if it was not asked for by its height. -/
theorem half_width_pos (hwidth : 1 ≤ v.width) (hrh : v.requestedHeight = 0) :
    1 ≤ v.width / 2 ^ min (v.maxResolutions - 1) v.asked := by
  by_cases hrw : v.requestedWidth = 0
  · simpa [asked, hrh, hrw] using hwidth
  · have hask : v.asked = halvings v.width (max ⌊(v.requestedWidth : ℚ) / v.viewWidth⌋₊ 1) := by
      simp [asked, hrh, hrw]
    rw [hask]
    exact half_pos hwidth (le_max_right _ _) (min_le_right _ _)

/-- It has a height too, if the levels have one. -/
theorem half_height_pos (hm : 1 ≤ v.maxResolutions) (hwidth : 1 ≤ v.width)
    (hheight : 1 ≤ v.height) (hlevels : LevelsHaveHeight v.width v.height v.maxResolutions) :
    1 ≤ v.height / 2 ^ min (v.maxResolutions - 1) v.asked := by
  by_cases hrh : v.requestedHeight = 0
  · exact hlevels _ (by omega) (half_width_pos hwidth hrh)
  · have hask : v.asked = halvings v.height (max ⌊(v.requestedHeight : ℚ) / v.viewHeight⌋₊ 1) := by
      simp [asked, hrh]
    rw [hask]
    exact half_pos hheight (le_max_right _ _) (min_le_right _ _)

theorem scaleDivisors_ne_zero (hres : v.resolution = v.maxResolutions - 1)
    (hm : 1 ≤ v.maxResolutions) (hwidth : 1 ≤ v.width) (hheight : 1 ≤ v.height)
    (hlevels : LevelsHaveHeight v.width v.height v.maxResolutions) :
    ∀ d ∈ v.measured.scaleDivisors, d ≠ 0 := by
  have hresH : (v.atLevel (min (v.maxResolutions - 1) v.asked)).resHeight ≠ 0 :=
    Nat.ne_of_gt (half_height_pos hm hwidth hheight hlevels)
  have hresW (hrh : v.requestedHeight = 0) :
      (v.atLevel (min (v.maxResolutions - 1) v.asked)).resWidth ≠ 0 :=
    Nat.ne_of_gt (half_width_pos hwidth hrh)
  have hW : (v.atLevel (min (v.maxResolutions - 1) v.asked)).width ≠ 0 := Nat.ne_of_gt hwidth
  rw [measured_eq hres]
  intro d hd
  simp only [scaleDivisors, List.mem_append, List.mem_ite_nil_right, List.mem_cons,
    List.not_mem_nil, or_false] at hd
  rcases hd with (⟨-, rfl⟩ | ⟨hreq, rfl⟩) | rfl | rfl
  · exact Nat.cast_ne_zero.mpr hresH
  · exact Nat.cast_ne_zero.mpr (hresW hreq.1)
  · exact Nat.cast_ne_zero.mpr hW
  · exact Nat.cast_ne_zero.mpr hresH

theorem resolutionDivisors_ne_zero (hin : v.Inside)
    (hscale : ∀ d ∈ v.measured.scaleDivisors, d ≠ 0) :
    ∀ d ∈ v.resolutionDivisors, d ≠ 0 := by
  intro d hd
  simp only [resolutionDivisors, List.mem_append, List.mem_ite_nil_right, List.mem_cons,
    List.not_mem_nil, or_false] at hd
  rcases hd with ((⟨-, rfl⟩ | ⟨-, rfl⟩) | hd) | ⟨⟨hmax, -⟩, rfl | rfl⟩
  · exact hin.width_pos.ne'
  · exact hin.height_pos.ne'
  · exact hscale d hd
  · exact Int.cast_ne_zero.mpr hmax.ne'
  · exact one_ne_zero

/-- The extent of an axis is at least one pixel, so it can be divided by. -/
theorem requestDivisors_ne_zero (v : View) (requested other : Nat) {otherView : Nat}
    (hview : 1 ≤ otherView) : ∀ d ∈ v.requestDivisors requested other otherView, d ≠ 0 := by
  intro d hd
  simp only [requestDivisors, List.mem_ite_nil_right, List.mem_cons, List.not_mem_nil,
    or_false] at hd
  rcases hd with ⟨-, rfl | rfl⟩
  · exact pow_ne_zero _ two_ne_zero
  · exact Nat.cast_ne_zero.mpr (Nat.ne_of_gt hview)

/-- **No zero divisor** for a viewport inside the image, if the levels have a height. -/
theorem divisors_ne_zero (hin : v.Inside) (hres : v.resolution = v.maxResolutions - 1)
    (hm : 1 ≤ v.maxResolutions) (hwidth : 1 ≤ v.width) (hheight : 1 ≤ v.height)
    (hlevels : LevelsHaveHeight v.width v.height v.maxResolutions) :
    ∀ d ∈ v.divisors, d ≠ 0 := by
  intro d hd
  simp only [divisors, List.mem_append] at hd
  rcases hd with (hd | hd) | hd
  · exact resolutionDivisors_ne_zero hin
      (scaleDivisors_ne_zero hres hm hwidth hheight hlevels) d hd
  · exact requestDivisors_ne_zero _ _ _ (one_le_viewExtent _ _ _ _) d hd
  · exact requestDivisors_ne_zero _ _ _ (one_le_viewExtent _ _ _ _) d hd

end

/-- Conversely, a width of one pixel is asked for at the last level that has a width. -/
theorem levelsHaveHeight_of_divisors {W H m : Nat}
    (h : ∀ d ∈ (View.new.request W H m 1 0 0).divisors, d ≠ 0) : LevelsHaveHeight W H m := by
  have hask : (View.new.request W H m 1 0 0).asked = halvings W 1 := by
    have hone : max ⌊((1 : Nat) : ℚ) / View.new.viewWidth.val⌋₊ 1 = 1 := by decide +kernel
    exact congrArg (halvings W) hone
  have hres : ((H / 2 ^ min (m - 1) (halvings W 1) : Nat) : ℚ) ≠ 0 := by
    refine h _ ?_
    simp only [divisors, resolutionDivisors, List.mem_append]
    refine .inl (.inl (.inl (.inr ?_)))
    rw [measured_eq rfl, hask]
    exact List.mem_append_right _ (List.mem_cons_of_mem _ List.mem_cons_self)
  intro k hk hw
  have hle : k ≤ min (m - 1) (halvings W 1) :=
    le_min (by omega) ((le_halvings_iff le_rfl).mpr (.inr hw))
  have hpos : 1 ≤ H / 2 ^ min (m - 1) (halvings W 1) :=
    Nat.pos_of_ne_zero (Nat.cast_ne_zero.mp hres)
  exact hpos.trans (Nat.div_le_div_left (Nat.pow_le_pow_right two_pos hle) (Nat.two_pow_pos k))

end View

namespace IIIF

/-! ## 3. Sequences of commands -/

/-- A command that sets the viewport, or an IIIF region parameter. -/
inductive Command
  | rgn (values : List ℚ)
  | iiif (region : RegionParam)

/-- One command, on an image of `W` by `H` pixels. -/
def Command.run (W H : Nat) (v : View) : Command → Except Failure View
  | .rgn values => .ok (RGN.run v values)
  | .iiif region => setRegion W H v region

/-- Everything but four numbers with a width and a height is refused by `IIIF`, and ignored by
`RGN`. -/
def Command.Accepted : Command → Prop
  | .iiif (.values _ _ numbers) =>
    numbers.length = 4 ∧ 0 < numbers.getD 2 1 ∧ 0 < numbers.getD 3 1
  | _ => True

/-- The viewport that is asked for fits into the image. -/
def Command.Fits (W H : Nat) : Command → Prop
  | .rgn (x :: y :: w :: h :: _) => 0 < w → 0 < h → View.Fits x y h
  | .rgn _ => True
  | .iiif (.values _ pct numbers) =>
    let wd : ℚ := if pct then 100 else W
    let hd : ℚ := if pct then 100 else H
    View.Fits (numbers.getD 0 0 / wd) (numbers.getD 1 0 / hd) (numbers.getD 3 1 / hd)
  | .iiif _ => True

instance : DecidablePred Command.Accepted
  | .rgn _ | .iiif .full | .iiif .square => inferInstanceAs (Decidable True)
  | .iiif (.values _ _ _) => inferInstanceAs (Decidable (_ ∧ _))

instance (W H : Nat) : DecidablePred (Command.Fits W H)
  | .rgn (_ :: _ :: _ :: _ :: _) => inferInstanceAs (Decidable (_ → _))
  | .rgn [] | .rgn [_] | .rgn [_, _] | .rgn [_, _, _] => inferInstanceAs (Decidable True)
  | .iiif .full | .iiif .square => inferInstanceAs (Decidable True)
  | .iiif (.values _ _ _) => inferInstanceAs (Decidable (View.Fits _ _ _))

/-- The views at every point of a sequence of commands, from the first on. -/
def views (W H : Nat) : View → List Command → List View
  | v, [] => [v]
  | v, c :: cs =>
    v :: match c.run W H v with
      | .ok v' => views W H v' cs
      | .error _ => []

variable {W H : Nat} {v v' : View}

/-- A centred square is inside the image. -/
theorem square_inside (hW : 1 ≤ W) (hH : 1 ≤ H) (hv : v.Inside) :
    ∃ v', setRegion W H v .square = .ok v' ∧ v'.Inside := by
  have hWq : (0 : ℚ) < W := Nat.cast_pos.mpr hW
  have hHq : (0 : ℚ) < H := Nat.cast_pos.mpr hH
  rcases lt_trichotomy W H with hlt | heq | hgt
  · have h1 : (W : ℚ) / H < 1 := (div_lt_one hHq).mpr (Nat.cast_lt.mpr hlt)
    have h0 : (0 : ℚ) < W / H := div_pos hWq hHq
    refine ⟨_, if_pos hlt, hv.left_nonneg, hv.width_pos, hv.right_le, Ratio.nonneg _, ?_, ?_⟩
    · change 0 < (Ratio.clamp _).val
      rw [Ratio.val_clamp]
      exact lt_max_of_lt_right (lt_min h0 one_pos)
    · change (Ratio.clamp _).val + (Ratio.clamp _).val ≤ 1
      rw [Ratio.val_clamp, Ratio.val_clamp, min_eq_left (by linarith), min_eq_left h1.le,
        max_eq_right (by linarith), max_eq_right h0.le]
      linarith
  · refine ⟨v, ?_, hv⟩
    unfold setRegion
    dsimp only
    rw [if_neg (by omega), if_neg (by omega)]
  · have h1 : (H : ℚ) / W < 1 := (div_lt_one hWq).mpr (Nat.cast_lt.mpr hgt)
    have h0 : (0 : ℚ) < H / W := div_pos hHq hWq
    have hl : (Ratio.clamp ((1 - (H : ℚ) / W) / 2)).val = (1 - (H : ℚ) / W) / 2 := by
      rw [Ratio.val_clamp, min_eq_left (by linarith), max_eq_right (by linarith)]
    -- the square ends inside the image, so that its width is not cropped
    have hw : (((v.setViewLeft ((1 - (H : ℚ) / W) / 2)).setViewWidth (H / W)).viewWidth).val
        = H / W := by
      change (Ratio.clamp (if 1 < (Ratio.clamp _).val + _ then _ else _)).val = _
      rw [if_neg (by rw [hl]; linarith), Ratio.val_clamp, min_eq_left h1.le, max_eq_right h0.le]
    refine ⟨_, (if_neg (by omega)).trans (if_pos hgt), Ratio.nonneg _, ?_, ?_, hv.top_nonneg,
      hv.height_pos, hv.bottom_le⟩
    · rw [hw]
      exact h0
    · rw [hw]
      change (Ratio.clamp _).val + _ ≤ 1
      rw [hl]
      linarith

/-- **One command.**  From a viewport inside the image it leads to one exactly if it fits. -/
theorem Command.run_inside_iff {c : Command} (hW : 1 ≤ W) (hH : 1 ≤ H) (hv : v.Inside)
    (hc : c.Accepted) : ∃ v', c.run W H v = .ok v' ∧ (v'.Inside ↔ c.Fits W H) := by
  rcases c with values | region
  · -- `RGN`
    refine ⟨_, rfl, ?_⟩
    match values with
    | x :: y :: w :: h :: more =>
      change (RGN.run v (x :: y :: w :: h :: more)).Inside ↔ (0 < w → 0 < h → View.Fits x y h)
      simp only [RGN.run]
      split
      case isTrue hpos =>
        refine (View.setViewport_inside_iff v x y hpos.1 hpos.2).trans ?_
        exact ⟨fun h _ _ => h, fun h => h hpos.1 hpos.2⟩
      case isFalse hnot =>
        -- ignored
        exact ⟨fun _ hw hh => absurd ⟨hw, hh⟩ hnot, fun _ => hv⟩
    | [] | [_] | [_, _] | [_, _, _] => exact ⟨fun _ => trivial, fun _ => hv⟩
  · match region with
    | .full => exact ⟨v, rfl, fun _ => trivial, fun _ => hv⟩
    | .square =>
      obtain ⟨v', hrun, hin⟩ := square_inside hW hH hv
      exact ⟨v', hrun, fun _ => trivial, fun _ => hin⟩
    | .values text pct numbers =>
      obtain ⟨hlen, hw, hh⟩ := hc
      have hWd : 0 < if pct then (100 : ℚ) else W := by
        split
        · norm_num
        · exact Nat.cast_pos.mpr hW
      have hHd : 0 < if pct then (100 : ℚ) else H := by
        split
        · norm_num
        · exact Nat.cast_pos.mpr hH
      refine ⟨_, if_neg ?_, View.setViewport_inside_iff v _ _ (div_pos hw hWd) (div_pos hh hHd)⟩
      rintro (h | h | h | h)
      · exact absurd hw (not_lt.mpr h)
      · exact absurd hh (not_lt.mpr h)
      · omega
      · omega

/-- **Every command of a sequence**, by induction on it: the first viewport outside the image is
that of the first command that does not fit. -/
theorem views_inside_iff (hW : 1 ≤ W) (hH : 1 ≤ H) (cs : List Command) :
    ∀ v : View, v.Inside → (∀ c ∈ cs, c.Accepted) →
      ((∀ u ∈ views W H v cs, u.Inside) ↔ ∀ c ∈ cs, c.Fits W H) := by
  induction cs with
  | nil =>
    intro v hv _
    simpa [views] using hv
  | cons c cs ih =>
    intro v hv hacc
    rw [List.forall_mem_cons] at hacc
    obtain ⟨v', hrun, hfits⟩ := Command.run_inside_iff hW hH hv hacc.1
    have hself : v' ∈ views W H v' cs := by
      cases cs <;> exact List.mem_cons_self
    simp only [views, hrun, List.forall_mem_cons]
    constructor
    · rintro ⟨-, hall⟩
      have hv' := hall v' hself
      exact ⟨hfits.mp hv', (ih v' hv' hacc.2).mp hall⟩
    · rintro ⟨hc, hcs⟩
      exact ⟨hv, (ih v' (hfits.mpr hc) hacc.2).mpr hcs⟩

/-- At a point of a sequence the viewport is a non-empty part of the image, and whatever size is
asked for, nothing is divided by zero. -/
structure Sound (W H m : Nat) (v : View) : Prop where
  inside : v.Inside
  divisors : ∀ (requestedWidth requestedHeight : Nat) (maxSize : Int),
    ∀ d ∈ (v.request W H m requestedWidth requestedHeight maxSize).divisors, d ≠ 0

theorem new_mem_views (cs : List Command) : View.new ∈ views W H View.new cs := by
  cases cs <;> exact List.mem_cons_self

/-- **When accepted viewports are parts of the image.**  At every point of a sequence of commands,
its beginning included, the viewport is a non-empty part of the image and no divisor is zero, if
and only if every command fits into the image, and no level with a width is without a height. -/
theorem views_sound_iff {m : Nat} (hW : 1 ≤ W) (hH : 1 ≤ H) (hm : 1 ≤ m) (cs : List Command)
    (hacc : ∀ c ∈ cs, c.Accepted) :
    (∀ v ∈ views W H View.new cs, Sound W H m v) ↔
      (∀ c ∈ cs, c.Fits W H) ∧ View.LevelsHaveHeight W H m := by
  have hin := views_inside_iff hW hH cs View.new View.inside_new hacc
  constructor
  · intro h
    refine ⟨hin.mp fun v hv => (h v hv).inside, ?_⟩
    exact View.levelsHaveHeight_of_divisors ((h _ (new_mem_views cs)).divisors 1 0 0)
  · rintro ⟨hfits, hlevels⟩ v hv
    have hv' := hin.mpr hfits v hv
    refine ⟨hv', fun w h maxSize => ?_⟩
    refine View.divisors_ne_zero ?_ rfl hm hW hH hlevels
    obtain ⟨h1, h2, h3, h4, h5, h6⟩ := hv'
    exact ⟨h1, h2, h3, h4, h5, h6⟩

/-- **Outside the image.**  `RGN=1,0,1,1` leaves a viewport without a width and `RGN=0,0.5,1,1`
one that ends half an image below the image; and an image of 8 x 1 pixels with four levels is
divided by the height of its smallest level, if one pixel of its width is asked for. -/
theorem outside_the_image :
    (RGN.run View.new [1, 0, 1, 1]).viewWidth.val = 0 ∧
      (RGN.run View.new [0, 1 / 2, 1, 1]).viewTop.val +
        (RGN.run View.new [0, 1 / 2, 1, 1]).viewHeight.val = 3 / 2 ∧
      0 ∈ (View.new.request 8 1 4 1 0 0).divisors := by
  decide +kernel

/-- A quarter of an image, then a square, then a region in pixels. -/
def threeRegions : List Command :=
  [.rgn [1 / 4, 1 / 4, 1 / 2, 1 / 2], .iiif .square,
    .iiif (.values "10,20,50,60" false [10, 20, 50, 60])]

/-- They are accepted, and sound on an image of 100 x 80 pixels with three levels. -/
theorem threeRegions_sound :
    (∀ c ∈ threeRegions, c.Accepted) ∧
      ∀ v ∈ views 100 80 View.new threeRegions, Sound 100 80 3 v := by
  have hacc : ∀ c ∈ threeRegions, c.Accepted := by decide +kernel
  refine ⟨hacc, ?_⟩
  refine (views_sound_iff (by decide) (by decide) (by decide) threeRegions hacc).mpr ⟨?_, by decide⟩
  decide +kernel

end IIIF

end Iipsrv
