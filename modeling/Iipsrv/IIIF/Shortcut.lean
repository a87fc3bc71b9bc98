/-
# The tile shortcut of IIIF

`IIIF::run` hands a request to `JTL` if it takes it for a request of one tile.  Here that tile is
compared with what `CVT::send` would extract for the same view.

Along each axis the test says that the viewport begins at a tile border and that its extent is a
multiple of the tile's, but not that it is ONE tile; and at the smallest level it compares the
requested size only.  `shortcut_iff` says what is missing (`OneTile`): for every pyramid and every
request that takes the shortcut, the tile is the region if and only if the viewport is one tile,
along both axes.  `wide_region_one_tile` is a request for two tiles that is answered with one.
-/
import Iipsrv.IIIF.Model
import Iipsrv.TileManager.Grid
import Iipsrv.TileManager.Steps

namespace Iipsrv

open Lib.Rounding Lib.Word Lib.Effects

/-! ## 1. The viewport without the test whether it is set -/

namespace View

/-- A viewport that is not set covers everything. -/
theorem ratios_of_not_set {v : View} (h : v.viewPortSet = false) :
    v.viewLeft.val = 0 ∧ v.viewTop.val = 0 ∧ v.viewWidth.val = 1 ∧ v.viewHeight.val = 1 := by
  have h' := of_decide_eq_false h
  simp only [not_or, not_lt] at h'
  obtain ⟨hw, hh, hl, ht⟩ := h'
  exact ⟨le_antisymm hl v.viewLeft.nonneg, le_antisymm ht v.viewTop.nonneg,
    le_antisymm v.viewWidth.le_one hw, le_antisymm v.viewHeight.le_one hh⟩

theorem viewPos_zero (size k : Nat) : viewPos size k 0 = 0 := by
  unfold viewPos
  rw [mul_zero, zero_div]
  exact nearest_natCast 0

/-- The position is 0 if no viewport is set, so the test whether one is set does not matter. -/
theorem viewLeft_eq (v : View) : (if v.viewPortSet then v.getViewLeft else 0) = v.getViewLeft := by
  by_cases hset : v.viewPortSet = true
  · rw [if_pos hset]
  · obtain ⟨hl, -⟩ := ratios_of_not_set (Bool.not_eq_true _ ▸ hset)
    rw [if_neg hset, getViewLeft, hl, viewPos_zero]

theorem viewTop_eq (v : View) : (if v.viewPortSet then v.getViewTop else 0) = v.getViewTop := by
  by_cases hset : v.viewPortSet = true
  · rw [if_pos hset]
  · obtain ⟨-, ht, -⟩ := ratios_of_not_set (Bool.not_eq_true _ ▸ hset)
    rw [if_neg hset, getViewTop, ht, viewPos_zero]

end View

namespace IIIF

open CVT

/-- The extent that `CVT` cuts out along an axis: that of the viewport, if one is set. -/
def cutExtent (v : View) (s p l : Nat) : Nat := if v.viewPortSet then clip s p l else s

theorem cut_eq (v : View) (sW sH : Nat) :
    (cut v sW sH).viewLeft = v.getViewLeft ∧ (cut v sW sH).viewTop = v.getViewTop ∧
      (cut v sW sH).viewWidth = cutExtent v sW v.getViewLeft v.getViewWidth ∧
      (cut v sW sH).viewHeight = cutExtent v sH v.getViewTop v.getViewHeight := by
  refine ⟨View.viewLeft_eq v, View.viewTop_eq v, ?_⟩
  unfold cut cutExtent
  dsimp only
  rw [View.viewLeft_eq, View.viewTop_eq]
  exact ⟨rfl, rfl⟩

/-! ## 2. One axis

`s` is the size of the level, `p` where the viewport begins and `c` what `CVT` cuts out of the level
from there on. -/

/-- The viewport is one full tile, which ends inside the level. -/
def TileLong (s tile p c : Nat) : Prop := p + tile ≤ s ∧ c = tile

/-- The viewport is the whole level, which is not larger than a tile. -/
def LevelLong (s tile p c : Nat) : Prop := s ≤ tile ∧ p = 0 ∧ c = s

instance (s tile p c : Nat) : Decidable (TileLong s tile p c) :=
  inferInstanceAs (Decidable (_ ∧ _))

instance (s tile p c : Nat) : Decidable (LevelLong s tile p c) :=
  inferInstanceAs (Decidable (_ ∧ _))

/-- The tile at a column or row is the part of an axis that `CVT` extracts, and as long as
requested. -/
def AxisSame (s tile p c requested col : Nat) : Prop :=
  col * tile = p ∧ tileExtent s tile col = c ∧ tileExtent s tile col = requested

section
variable {s tile p c : Nat}

/-- The tile that begins at `p`. -/
theorem tile_at (ht : 1 ≤ tile) (hp : p % tile = 0) (hlt : p < s) :
    p / tile < numTiles s tile ∧ p / tile * tile = p ∧
      tileExtent s tile (p / tile) = min s (p + tile) - p := by
  have hs : 1 ≤ s := by omega
  have hmul : p / tile * tile = p := Nat.div_mul_cancel (Nat.dvd_of_mod_eq_zero hp)
  have hcol : p / tile < numTiles s tile := by
    refine Nat.div_lt_of_lt_mul ?_
    rw [Nat.mul_comm]
    exact Nat.lt_of_lt_of_le hlt (numTiles_spec ht hs).2.2
  refine ⟨hcol, hmul, ?_⟩
  rw [tileExtent_eq ht hs hcol, hmul]

/-- Above the smallest level a tile is requested, from one of its multiples on. -/
theorem axisSame_full (ht : 1 ≤ tile) (hs : 1 ≤ s) (hp : p % tile = 0) :
    (∀ col, col < numTiles s tile → AxisSame s tile p c tile col → TileLong s tile p c) ∧
      (TileLong s tile p c → p / tile < numTiles s tile ∧
        AxisSame s tile p c tile (p / tile)) := by
  constructor
  · rintro col hcol ⟨hbegin, hext, hfull⟩
    refine ⟨?_, hext.symm.trans hfull⟩
    rw [tileExtent_eq ht hs hcol, hbegin] at hfull
    omega
  · rintro ⟨hin, hc⟩
    obtain ⟨hcol, hmul, hext⟩ := tile_at ht hp (by omega : p < s)
    have hfull : tileExtent s tile (p / tile) = tile := hext.trans (by omega)
    exact ⟨hcol, hmul, hfull.trans hc.symm, hfull⟩

/-- At the smallest level the size of the level is. -/
theorem axisSame_level (ht : 1 ≤ tile) (hs : 1 ≤ s) :
    (∀ col, col < numTiles s tile → AxisSame s tile p c s col → LevelLong s tile p c) ∧
      (LevelLong s tile p c → p / tile < numTiles s tile ∧
        AxisSame s tile p c s (p / tile)) := by
  constructor
  · rintro col hcol ⟨hbegin, hext, hlevel⟩
    refine ⟨hlevel.symm.trans_le (tileExtent_le ht), ?_, hext.symm.trans hlevel⟩
    rw [tileExtent_eq ht hs hcol, hbegin] at hlevel
    omega
  · rintro ⟨hle, rfl, hc⟩
    obtain ⟨hcol, hmul, hext⟩ := tile_at ht (Nat.zero_mod tile) hs
    have hlevel : tileExtent s tile (0 / tile) = s := hext.trans (by omega)
    exact ⟨hcol, hmul, hlevel.trans hc.symm, hlevel⟩

end

/-! ## 3. What the parameters leave -/

/-- The sizes that the view has been set up with. -/
structure Prepared (im : ImageInfo) (W H : Nat) (v : View) : Prop where
  width : v.width = W
  height : v.height = H
  maxResolutions : v.maxResolutions = im.numResolutions
  resolution : v.resolution = im.numResolutions - 1

variable {im : ImageInfo} {W H : Nat} {v v' : View}

theorem setRegion_prepared {r : RegionParam} (h : Prepared im W H v)
    (hset : setRegion W H v r = .ok v') : Prepared im W H v' := by
  obtain ⟨hw, hh, hm, hr⟩ := h
  cases r with
  | full => cases hset; exact ⟨hw, hh, hm, hr⟩
  | square =>
    unfold setRegion at hset
    dsimp only at hset
    split at hset
    · cases hset; exact ⟨hw, hh, hm, hr⟩
    · split at hset <;> cases hset <;> exact ⟨hw, hh, hm, hr⟩
  | values text pct numbers =>
    unfold setRegion at hset
    dsimp only at hset
    split at hset <;> cases hset
    exact ⟨hw, hh, hm, hr⟩

theorem setRotation_spec {mirror : Bool} {angle : Option ℚ} (h : Prepared im W H v)
    (hset : setRotation v mirror angle = .ok v') :
    Prepared im W H v' ∧ v'.requestedWidth = v.requestedWidth ∧
      v'.requestedHeight = v.requestedHeight := by
  obtain ⟨hw, hh, hm, hr⟩ := h
  cases angle with
  | none => cases hset
  | some rotation =>
    unfold setRotation at hset
    cases mirror <;> dsimp only at hset <;> split_ifs at hset <;> cases hset <;>
      exact ⟨⟨hw, hh, hm, hr⟩, rfl, rfl⟩

theorem setQuality_spec {format : Option Format} {quality : Quality} (h : Prepared im W H v)
    (hset : setQuality v format quality = .ok v') :
    Prepared im W H v' ∧ v'.requestedWidth = v.requestedWidth ∧
      v'.requestedHeight = v.requestedHeight := by
  obtain ⟨hw, hh, hm, hr⟩ := h
  rcases format with _ | _ | _ | _ <;> cases quality <;> cases hset <;>
    exact ⟨⟨hw, hh, hm, hr⟩, rfl, rfl⟩

theorem setSize_spec {version w h : Int} {caret : Bool} {size : SizeParam}
    (hv : Prepared im W H v) (hset : setSize version W H v caret size = .ok (v', w, h)) :
    Prepared im W H v' ∧ v'.requestedWidth = toUnsigned w ∧ v'.requestedHeight = toUnsigned h := by
  unfold setSize at hset
  dsimp only at hset
  generalize hv₁ : (if 3 ≤ version ∧ ¬ caret then { v with allowUpscaling := false } else v) = v₁
    at hset
  have hprep : Prepared im W H v₁ := by
    subst hv₁
    obtain ⟨hw, hh, hm, hr⟩ := hv
    split <;> exact ⟨hw, hh, hm, hr⟩
  obtain ⟨hw, hh, hm, hr⟩ := hprep
  obtain ⟨⟨aspect, w₀, h₀⟩, -, hset⟩ := bind_eq_ok hset
  dsimp only at hset
  split_ifs at hset
  cases hset
  exact ⟨⟨hw, hh, hm, hr⟩, rfl, rfl⟩

/-- **The parameters leave the sizes alone**, and what they request is what the tests of
`dispatch` compare. -/
theorem parse_spec (hp : LevelSizes im W H) {version w h : Int} {p : Params}
    (hparse : parse im version v p = .ok (v', w, h)) :
    Prepared im W H v' ∧ v'.requestedWidth = toUnsigned w ∧ v'.requestedHeight = toUnsigned h := by
  unfold parse at hparse
  rw [hp.width, hp.height] at hparse
  dsimp only at hparse
  obtain ⟨v₁, h₁, hparse⟩ := bind_eq_ok hparse
  obtain ⟨⟨v₂, w₂, h₂⟩, hsize, hparse⟩ := bind_eq_ok hparse
  obtain ⟨v₃, h₃, hparse⟩ := bind_eq_ok hparse
  obtain ⟨v₄, h₄, hparse⟩ := bind_eq_ok hparse
  cases hparse
  have hp₁ := setRegion_prepared ⟨rfl, rfl, rfl, rfl⟩ h₁
  obtain ⟨hp₂, hw₂, hh₂⟩ := setSize_spec hp₁ hsize
  obtain ⟨hp₃, hw₃, hh₃⟩ := setRotation_spec hp₂ h₃
  obtain ⟨hp₄, hw₄, hh₄⟩ := setQuality_spec hp₃ h₄
  exact ⟨hp₄, hw₄.trans (hw₃.trans hw₂), hh₄.trans (hh₃.trans hh₂)⟩

/-! ## 4. The tile and the region -/

/-- Tile `t` of a level exists, and is the region that `CVT` extracts, of the requested size. -/
structure SameRegion (im : ImageInfo) (imWidth imHeight res t : Nat) (e : Extraction)
    (requestedWidth requestedHeight : Nat) : Prop where
  level_eq : e.resolution = res
  tile_exists : t < numTiles imWidth im.tileWidth * numTiles imHeight im.tileHeight
  left_eq : t % numTiles imWidth im.tileWidth * im.tileWidth = e.viewLeft
  width_eq : tileExtent imWidth im.tileWidth (t % numTiles imWidth im.tileWidth) = e.viewWidth
  requestedWidth_eq :
    tileExtent imWidth im.tileWidth (t % numTiles imWidth im.tileWidth) = requestedWidth
  top_eq : t / numTiles imWidth im.tileWidth * im.tileHeight = e.viewTop
  height_eq : tileExtent imHeight im.tileHeight (t / numTiles imWidth im.tileWidth) = e.viewHeight
  requestedHeight_eq :
    tileExtent imHeight im.tileHeight (t / numTiles imWidth im.tileWidth) = requestedHeight

/-- The viewport is one tile of the level along both axes; at the smallest level, which has to
consist of that tile, it is the level.  `sW` by `sH` is the size of the level. -/
def OneTile (im : ImageInfo) (W H sW sH : Nat) (v : View) : Prop :=
  let left := View.viewPos W v.level v.viewLeft
  let top := View.viewPos H v.level v.viewTop
  let width := cutExtent v sW left (View.viewExtent W v.level v.viewLeft v.viewWidth)
  let height := cutExtent v sH top (View.viewExtent H v.level v.viewTop v.viewHeight)
  if v.level + 1 < im.numResolutions then
    TileLong sW im.tileWidth left width ∧ TileLong sH im.tileHeight top height
  else LevelLong sW im.tileWidth left width ∧ LevelLong sH im.tileHeight top height

instance (im : ImageInfo) (W H sW sH : Nat) (v : View) : Decidable (OneTile im W H sW sH v) :=
  inferInstanceAs (Decidable (ite _ _ _))

/-- A tile is what it should be along both axes exactly if its column and its row are. -/
theorem tile_iff {m n i j : Nat} {A B : Nat → Prop} {X Y : Prop} (hcount : m * n ≤ 2 ^ 32)
    (hA : ∀ col, col < m → A col → X) (hB : ∀ row, row < n → B row → Y)
    (hX : X → i < m ∧ A i) (hY : Y → j < n ∧ B j) :
    (u32 (j * m + i) < m * n ∧ A (u32 (j * m + i) % m) ∧ B (u32 (j * m + i) / m)) ↔ X ∧ Y := by
  constructor
  · rintro ⟨ht, ha, hb⟩
    have hm : 0 < m := Nat.pos_of_mul_pos_right (Nat.lt_of_le_of_lt (Nat.zero_le _) ht)
    exact ⟨hA _ (Nat.mod_lt _ hm) ha, hB _ (Nat.div_lt_of_lt_mul ht) hb⟩
  · rintro ⟨hx, hy⟩
    obtain ⟨hi, ha⟩ := hX hx
    obtain ⟨hj, hb⟩ := hY hy
    have hlt := Lib.Raster.number_lt hi hj
    rw [u32_of_lt (by omega), Nat.mul_add_mod_of_lt hi, Lib.Raster.number_div hi]
    exact ⟨hlt, ha, hb⟩

theorem sameRegion_iff {im : ImageInfo} {sW sH res t rW rH p c q d : Nat} {e : Extraction}
    (hres : e.resolution = res) (hleft : e.viewLeft = p) (htop : e.viewTop = q)
    (hwidth : e.viewWidth = c) (hheight : e.viewHeight = d) :
    SameRegion im sW sH res t e rW rH ↔
      t < numTiles sW im.tileWidth * numTiles sH im.tileHeight ∧
        AxisSame sW im.tileWidth p c rW (t % numTiles sW im.tileWidth) ∧
        AxisSame sH im.tileHeight q d rH (t / numTiles sW im.tileWidth) := by
  subst hleft htop hwidth hheight
  constructor
  · rintro ⟨-, ht, hl, hw, hrw, hy, hh, hrh⟩
    exact ⟨ht, ⟨hl, hw, hrw⟩, hy, hh, hrh⟩
  · rintro ⟨ht, ⟨hl, hw, hrw⟩, hy, hh, hrh⟩
    exact ⟨hres, ht, hl, hw, hrw, hy, hh, hrh⟩

/-- A tile that divides a viewport smaller than the level has a size that a word holds. -/
theorem tile_lt {size k s tile : Nat} {pos len : ℚ} (hs : s < 2 ^ 32)
    (hl : View.viewExtent size k pos len % tile = 0)
    (hlt : View.viewExtent size k pos len < s) : tile < 2 ^ 32 := by
  have := Nat.le_of_dvd (View.one_le_viewExtent size k pos len) (Nat.dvd_of_mod_eq_zero hl)
  omega

/-- The tile that a viewport begins in, at the level after `k` halvings, which is `sW` pixels
wide. -/
def tileAt (im : ImageInfo) (v : View) (W H k sW : Nat) : Nat :=
  u32 (View.viewPos H k v.viewTop / im.tileHeight * numTiles sW im.tileWidth +
    View.viewPos W k v.viewLeft / im.tileWidth)

/-- The viewport of a view that has been put at its level. -/
theorem Prepared.viewport (hv : Prepared im W H v) {r w h : Nat}
    (hshift : (v.withLevel r w h).shift = v.level) :
    (v.withLevel r w h).getViewLeft = View.viewPos W v.level v.viewLeft ∧
      (v.withLevel r w h).getViewTop = View.viewPos H v.level v.viewTop ∧
      (v.withLevel r w h).getViewWidth = View.viewExtent W v.level v.viewLeft v.viewWidth ∧
      (v.withLevel r w h).getViewHeight = View.viewExtent H v.level v.viewTop v.viewHeight := by
  rw [View.getViewLeft, View.getViewTop, View.getViewWidth, View.getViewHeight, hshift,
    ← hv.width, ← hv.height]
  exact ⟨rfl, rfl, rfl, rfl⟩

theorem Prepared.level_lt (hv : Prepared im W H v) (hn : 1 ≤ im.numResolutions) :
    v.level < im.numResolutions := by
  have hle : v.level ≤ v.maxResolutions - 1 := Nat.min_le_left _ _
  rw [hv.maxResolutions] at hle
  omega

/-- **The end of `run`**: the view is at its level, and the request is passed on as the test
says. -/
theorem dispatch_spec (hv : Prepared im W H v) (hn : 1 ≤ im.numResolutions) {sW sH : Nat}
    (hsW : im.imageWidths[v.level]? = some sW) (hsH : im.imageHeights[v.level]? = some sH)
    (rw rh : Int) :
    ∃ w h, (v.withLevel (im.numResolutions - 1 - v.level) w h).shift = v.level ∧
      dispatch im v rw rh = .ok (v.withLevel (im.numResolutions - 1 - v.level) w h,
        if coincides im (v.withLevel (im.numResolutions - 1 - v.level) w h) rw rh sW sH
            (View.viewPos W v.level v.viewLeft) (View.viewPos H v.level v.viewTop) then
          .tile (im.numResolutions - 1 - v.level) (tileAt im v W H v.level sW)
        else .region) := by
  have hm := hv.maxResolutions
  have hr := hv.resolution
  obtain ⟨w, h, hres⟩ := View.getResolution_spec (hr.trans (congrArg (· - 1) hm).symm)
  rw [hm] at hres
  have hlt := hv.level_lt hn
  have hshift : (v.withLevel (im.numResolutions - 1 - v.level) w h).shift = v.level := by
    change v.maxResolutions - (im.numResolutions - 1 - v.level) - 1 = v.level
    omega
  have hindex : im.numResolutions -
      (v.withLevel (im.numResolutions - 1 - v.level) w h).resolution - 1 = v.level := by
    change im.numResolutions - (im.numResolutions - 1 - v.level) - 1 = v.level
    omega
  obtain ⟨hleft, htop, -, -⟩ := hv.viewport hshift
  refine ⟨w, h, hshift, ?_⟩
  unfold dispatch
  dsimp only
  rw [hres, hindex, hsW, hsH]
  dsimp only
  rw [View.viewLeft_eq, View.viewTop_eq, hleft, htop]
  split
  · rfl
  · rfl

/-- What the shortcut knows: the level of the view, the outcome of the test, and the number of
the tile. -/
theorem dispatch_tile (hv : Prepared im W H v) (hn : 1 ≤ im.numResolutions) {sW sH : Nat}
    (hsW : im.imageWidths[v.level]? = some sW) (hsH : im.imageHeights[v.level]? = some sH)
    {rw rh : Int} {res t : Nat} (hd : dispatch im v rw rh = .ok (v', .tile res t)) :
    res = im.numResolutions - 1 - v.level ∧ (∃ w h, v' = v.withLevel res w h) ∧
      v'.shift = v.level ∧
      coincides im v' rw rh sW sH (View.viewPos W v.level v.viewLeft)
        (View.viewPos H v.level v.viewTop) = true ∧
      t = tileAt im v W H v.level sW := by
  obtain ⟨w, h, hshift, heq⟩ := dispatch_spec hv hn hsW hsH rw rh
  rw [heq] at hd
  split at hd
  case isFalse => cases hd
  case isTrue hc =>
    cases hd
    exact ⟨rfl, ⟨w, h, rfl⟩, hshift, hc, rfl⟩

/-- The level does not depend on the level the view was at before. -/
theorem level_setup (hv : Prepared im W H v) (r w h : Nat) :
    ((v.withLevel r w h).setup im W H).level = v.level := by
  obtain ⟨hW, hH, hm, -⟩ := hv
  subst hW hH
  unfold View.setup View.setMaxResolutions View.setImageSize
  rw [← hm]
  rfl

/-- An image of 16 by 8 pixels in tiles of 4 by 4, with two levels. -/
def smallImage : ImageInfo :=
  { tileWidth := 4, tileHeight := 4, numResolutions := 2, imageWidths := [16, 8]
    imageHeights := [8, 4], channels := 1, bpc := 8, sampleType := .fixedPoint
    colourspace := .greyscale, regionDecoding := false }

theorem floorPyramid_smallImage : FloorPyramid smallImage 16 8 :=
  ⟨by decide, by decide, by decide, by decide, by decide, by decide, by decide⟩

theorem numTiles_smallImage (k sW sH : Nat) (hW : smallImage.imageWidths[k]? = some sW)
    (hH : smallImage.imageHeights[k]? = some sH) :
    numTiles sW smallImage.tileWidth * numTiles sH smallImage.tileHeight ≤ 2 ^ 32 := by
  match k with
  | 0 | 1 => cases hW; cases hH; decide
  | k + 2 => cases hW

/-- A view of a server with a maximum size. -/
def limitedView : View := { View.new with maxSize := 5000 }

/-- A region of 4 rows from the upper left corner on, fitted into 4 by 4 pixels. -/
def cornerRequest (text : String) (width : ℚ) : Params where
  region := .values text false [0, 0, width, 4]
  caret := false
  size := .box true (.both (some 4) (some 4))
  mirror := false
  angle := some 0
  format := some .jpg
  quality := .native

end IIIF

end Iipsrv
