/-
# The pyramid of a JPEG2000 image

`loadImageInfo` of `OpenJPEGImage` and of `KakaduImage` appends to the same two vectors in two
loops: first a size for every encoded level, then, while it counts how many levels there have to
be, a size for each that is not encoded.  The classes differ in what they count as encoded: the
number of resolutions here, the number of wavelet levels, which is one less and may be 0, there.

* `levelSizes_eq`: the two loops together write an unbroken list of halvings;
* `loadImageInfo_pyramid`: it is a complete pyramid, for both classes and every file;
* `levels_have_pixels_iff`: it has pixels on every level exactly if neither side of the image is
  too short for the other.  The loop goes on until the LONGER side fits into a tile, and halves
  the shorter one along with it, down to 0.
-/
import Iipsrv.Image.Levels
import Iipsrv.Image.Partition

namespace Iipsrv

open Lib.Print (Text)
open OpenJPEGImage (encodedLevels fitLevels extraLevels fitting)

/-! ## 1. Kakadu -/

/-- What Kakadu reports about a file: the size of the first layer, the codestream, and the
resolution and the profile of the JPX container. -/
structure JpxFile where
  layerWidth : Nat
  layerHeight : Nat
  numComponents : Nat
  minDwtLevels : Nat
  bitDepth : Nat
  resolution : ℚ
  aspectRatio : ℚ
  iccProfile : Option Text
  maxTileLayers : Nat

namespace KakaduImage

/-- An object as the constructor leaves it, with a tile size. -/
def fresh (path : Text) (tw th : Nat) : IIPImage :=
  { IIPImage.new path with tileWidth := tw, tileHeight := th }

/-- `KakaduImage::loadImageInfo`.  The loops over the levels are those of `OpenJPEGImage`, for
the number of wavelet levels; the palette is left out. -/
def loadImageInfo (f : JpxFile) (im : IIPImage) : IIPImage :=
  let encoded := (f.layerWidth, f.layerHeight) ::
    encodedLevels (f.minDwtLevels - 1) f.layerWidth f.layerHeight
  let widths := im.imageWidths ++ encoded.map Prod.fst
  let heights := im.imageHeights ++ encoded.map Prod.snd
  let fit := fitLevels im.tileWidth im.tileHeight f.minDwtLevels 1 (widths.headD 0)
    (heights.headD 0)
  let channels := if f.bitDepth = 1 then 1 else f.numComponents
  -- JP2 are in pixels/m, so convert to cm
  let dpi := if 0 < f.resolution then f.resolution / 100 else 0
  { im with
    qualityLayers := f.maxTileLayers
    bpc := f.bitDepth
    channels := channels
    imageWidths := widths ++ fit.2.map Prod.fst
    imageHeights := heights ++ fit.2.map Prod.snd
    virtualLevels := extraLevels f.minDwtLevels fit.1 im.virtualLevels
    numResolutions := fit.1
    dpiY := dpi
    dpiX := if 0 < f.resolution then dpi * f.aspectRatio else im.dpiX
    dpiUnits := if 0 < f.resolution then 2 else im.dpiUnits
    metadata := fun k =>
      if k = "icc".toList then f.iccProfile <|> im.metadata k else im.metadata k
    -- decided before bilevel images are forced to one channel
    colourspace :=
      if f.numComponents = 1 then if f.bitDepth = 1 then .binary else .greyscale else .sRGB
    min := im.min ++ List.replicate channels 0
    max := im.max ++
      List.replicate channels (if 8 < f.bitDepth ∧ f.bitDepth ≤ 16 then 65535 else 255)
    isSet := true }

end KakaduImage

/-! ## 2. The list of sizes -/

/-- The size of level `i`, counted from the full image. -/
def halved (w h i : Nat) : Nat × Nat := (w / 2 ^ i, h / 2 ^ i)

theorem halved_half (w h i : Nat) : halved (w / 2) (h / 2) i = halved w h (i + 1) := by
  simp only [halved, Nat.div_div_eq_div_mul, Nat.pow_succ, Nat.mul_comm]

/-- Halvings of the half are halvings, from one level further on. -/
theorem map_halved_half (w h s n : Nat) :
    (List.range' s n).map (halved (w / 2) (h / 2)) = (List.range' (s + 1) n).map (halved w h) := by
  rw [Nat.add_comm s 1, ← List.map_add_range', List.map_map]
  refine List.map_congr_left fun i _ => ?_
  rw [halved_half, Function.comp_apply, Nat.add_comm]

theorem encodedLevels_eq (count w h : Nat) :
    encodedLevels count w h = (List.range' 1 count).map (halved w h) := by
  induction count generalizing w h with
  | zero => rfl
  | succ count ih =>
    rw [encodedLevels, ih, map_halved_half, List.range'_succ, List.map_cons]
    rfl

/-- **What the second loop appends**: the levels beyond the encoded ones, up to the one that fits
into a tile.  At `n` the size `w` by `h` is that of level `n - 1`. -/
theorem fitLevels_snd (tw th encoded n w h : Nat) :
    (fitLevels tw th encoded n w h).2
      = (List.range' (max 1 (encoded + 1 - n))
          (fitting tw th w h + 1 - max 1 (encoded + 1 - n))).map (halved w h) := by
  fun_induction fitLevels tw th encoded n w h with
  | case1 n w h hbig rest ih =>
    change rest.2 = _ at ih
    rw [map_halved_half] at ih
    rw [OpenJPEGImage.fitting_half hbig]
    dsimp only
    split
    case isTrue hvirtual =>
      -- the level just reached is the first of the list
      have hstart : max 1 (encoded + 1 - n) = 1 := by omega
      have hnext : max 1 (encoded + 1 - (n + 1)) = 1 := by omega
      rw [ih, hstart, hnext, Nat.add_sub_cancel, Nat.add_sub_cancel, List.range'_succ,
        List.map_cons]
      rfl
    case isFalse hencoded =>
      have hstart : max 1 (encoded + 1 - n) = max 1 (encoded + 1 - (n + 1)) + 1 := by omega
      rw [ih, hstart]
      congr 2
      omega
  | case2 n w h hfit =>
    have hnone : fitting tw th w h + 1 - max 1 (encoded + 1 - n) = 0 := by
      rw [OpenJPEGImage.fitting_eq_zero hfit]
      omega
    rw [hnone]
    rfl

/-- What both loops append to empty vectors. -/
def levelSizes (tw th encoded w h : Nat) : List (Nat × Nat) :=
  (w, h) :: encodedLevels (encoded - 1) w h ++ (fitLevels tw th encoded 1 w h).2

/-- **The list is unbroken**: the second loop goes on where the first has ended, also if nothing
is encoded, and appends nothing if enough is. -/
theorem levelSizes_eq (tw th encoded w h : Nat) :
    levelSizes tw th encoded w h
      = (List.range (max (max 1 encoded) (fitting tw th w h + 1))).map (halved w h) := by
  have hfirst : (w, h) :: encodedLevels (encoded - 1) w h
      = (List.range' 0 (max 1 encoded)).map (halved w h) := by
    have hcount : max 1 encoded = encoded - 1 + 1 := by omega
    rw [encodedLevels_eq, hcount, List.range'_succ, List.map_cons]
    simp [halved]
  have hlength : max (max 1 encoded) (fitting tw th w h + 1)
      = max 1 encoded + (fitting tw th w h + 1 - max 1 encoded) := by omega
  rw [levelSizes, hfirst, fitLevels_snd, Nat.add_sub_cancel, ← List.map_append, hlength,
    List.range_eq_range', ← List.range'_append_1, Nat.zero_add]

/-! ## 3. The pyramid -/

/-- **A complete pyramid over `w` by `h` pixels**: as many levels as it takes until one fits into
a tile, and in the two vectors, which are equally long, the sizes of all of them and perhaps of
more, each half of the one before. -/
structure CompletePyramid (im : IIPImage) (tw th w h : Nat) : Prop where
  least : IsLeast {n | 1 ≤ n ∧ w / 2 ^ (n - 1) ≤ tw ∧ h / 2 ^ (n - 1) ≤ th} im.numResolutions
  enough : im.numResolutions ≤ im.imageWidths.length
  equal : im.imageHeights.length = im.imageWidths.length
  widths : ∀ i < im.imageWidths.length, im.imageWidths[i]? = some (w / 2 ^ i)
  heights : ∀ i < im.imageWidths.length, im.imageHeights[i]? = some (h / 2 ^ i)

/-- An object with a tile size, and the counter and the sizes of the two loops. -/
structure Loaded (im : IIPImage) (tw th encoded w h : Nat) : Prop where
  tileWidth : im.tileWidth = tw
  tileHeight : im.tileHeight = th
  numResolutions : im.numResolutions = fitting tw th w h + 1
  imageWidths : im.imageWidths = (levelSizes tw th encoded w h).map Prod.fst
  imageHeights : im.imageHeights = (levelSizes tw th encoded w h).map Prod.snd

theorem loaded_openJPEG (f : Jp2File) (path : Text) (tw th : Nat) :
    Loaded (OpenJPEGImage.loadImageInfo f (OpenJPEGImage.fresh path tw th)) tw th
      f.numResolutions f.width f.height where
  tileWidth := rfl
  tileHeight := rfl
  numResolutions := (OpenJPEGImage.numResolutions_fresh f path tw th).trans (Nat.add_comm _ _)
  imageWidths := List.map_append.symm
  imageHeights := List.map_append.symm

theorem loaded_kakadu (f : JpxFile) (path : Text) (tw th : Nat) :
    Loaded (KakaduImage.loadImageInfo f (KakaduImage.fresh path tw th)) tw th
      f.minDwtLevels f.layerWidth f.layerHeight where
  tileWidth := rfl
  tileHeight := rfl
  numResolutions :=
    (OpenJPEGImage.fitLevels_fst tw th f.minDwtLevels 1 f.layerWidth f.layerHeight).trans
      (Nat.add_comm _ _)
  imageWidths := List.map_append.symm
  imageHeights := List.map_append.symm

namespace Loaded

variable {im : IIPImage} {tw th encoded w h : Nat}

theorem pyramid (hl : Loaded im tw th encoded w h) : CompletePyramid im tw th w h := by
  have hw : im.imageWidths
      = (List.range (max (max 1 encoded) (fitting tw th w h + 1))).map (w / 2 ^ ·) := by
    rw [hl.imageWidths, levelSizes_eq, List.map_map]
    rfl
  have hh : im.imageHeights
      = (List.range (max (max 1 encoded) (fitting tw th w h + 1))).map (h / 2 ^ ·) := by
    rw [hl.imageHeights, levelSizes_eq, List.map_map]
    rfl
  constructor
  · rw [hl.numResolutions]
    refine ⟨⟨Nat.le_add_left 1 _, OpenJPEGImage.fitting_le_iff.mp (Nat.le_refl _)⟩, ?_⟩
    rintro n ⟨hn, hfits⟩
    have := OpenJPEGImage.fitting_le_iff.mpr hfits
    omega
  · simp [hl.numResolutions, hw]
  · simp [hw, hh]
  · intro i hi
    simp_all
  · intro i hi
    simp_all

end Loaded

/-- **JPEG2000 levels form a complete pyramid.**  For every file, every number of encoded
resolutions or wavelet levels, 0 included, and every size of image and tile: the loops end, with
the smallest number of levels of which the last fits into a tile, and with all their sizes. -/
theorem loadImageInfo_pyramid (f : Jp2File) (g : JpxFile) (path : Text) (tw th : Nat) :
    CompletePyramid (OpenJPEGImage.loadImageInfo f (OpenJPEGImage.fresh path tw th)) tw th
        f.width f.height ∧
      CompletePyramid (KakaduImage.loadImageInfo g (KakaduImage.fresh path tw th)) tw th
        g.layerWidth g.layerHeight :=
  ⟨(loaded_openJPEG f path tw th).pyramid, (loaded_kakadu g path tw th).pyramid⟩

/-! ## 4. Levels without pixels -/

/-- `getTile` of the classes for JPEG2000, up to the rectangle of the tile: the resolution is
checked, and its level looked up in the two vectors. -/
def levelTile (codec : String) (im : IIPImage) (res tile : Nat) :
    Option (Except Failure TileRect) :=
  if im.numResolutions < res then
    some (.error (.thrown (codec ++ " :: Asked for non-existent resolution: " ++ toString res)))
  -- the check lets one too many through, for which `vipsres` is negative
  else if im.numResolutions = res then none
  else do
    let vipsres := im.numResolutions - 1 - res
    let imWidth ← im.imageWidths[vipsres]?
    let imHeight ← im.imageHeights[vipsres]?
    some (codecTile codec imWidth imHeight im.tileWidth im.tileHeight tile)

/-- Every level that an object exposes has pixels, and the first tile of the smallest one is not
refused. -/
def HasPixels (codec : String) (im : IIPImage) : Prop :=
  (∀ i < im.numResolutions, ∃ w h, im.imageWidths[i]? = some w ∧ im.imageHeights[i]? = some h ∧
      1 ≤ w ∧ 1 ≤ h) ∧
    ∃ r, levelTile codec im 0 0 = some (.ok r)

/-- **Neither side is too short for the other.**  For every power of two: if a side is longer than
that many tiles' sides, so that the image is halved once more, the other is at least twice that
many pixels. -/
def Proportionate (w h tw th : Nat) : Prop :=
  ∀ k, ((tw + 1) * 2 ^ k ≤ w → 2 ^ (k + 1) ≤ h) ∧ ((th + 1) * 2 ^ k ≤ h → 2 ^ (k + 1) ≤ w)

/-- Every image that has to be halved `k` times has at least `2 ^ k` pixels on a side. -/
theorem proportionate_iff {w h tw th : Nat} (hw : 1 ≤ w) (hh : 1 ≤ h) (htw : 1 ≤ tw)
    (hth : 1 ≤ th) :
    Proportionate w h tw th ↔ 2 ^ fitting tw th w h ≤ w ∧ 2 ^ fitting tw th w h ≤ h := by
  have hlarge (d t k : Nat) : (t + 1) * 2 ^ k ≤ d ↔ ¬ d / 2 ^ k ≤ t := by
    rw [Nat.not_le, ← Nat.succ_le_iff, Nat.le_div_iff_mul_le (Nat.two_pow_pos k)]
  -- as long as the image is too large, it has to be halved more often
  have hmore (k : Nat) : (¬ w / 2 ^ k ≤ tw ∨ ¬ h / 2 ^ k ≤ th) ↔ k < fitting tw th w h := by
    rw [← Nat.not_le, OpenJPEGImage.fitting_le_iff, not_and_or]
  constructor
  · intro hp
    cases hm : fitting tw th w h with
    | zero => exact ⟨hw, hh⟩
    | succ k =>
      have htwo (d t : Nat) (ht : 1 ≤ t) (hd : (t + 1) * 2 ^ k ≤ d) : 2 ^ (k + 1) ≤ d := by
        rw [Nat.pow_succ, Nat.mul_comm]
        exact Nat.le_trans (Nat.mul_le_mul_right _ (by omega)) hd
      rcases (hmore k).mpr (by omega) with hlong | hlong
      · have hd := (hlarge w tw k).mpr hlong
        exact ⟨htwo w tw htw hd, (hp k).1 hd⟩
      · have hd := (hlarge h th k).mpr hlong
        exact ⟨(hp k).2 hd, htwo h th hth hd⟩
  · rintro ⟨hmw, hmh⟩ k
    have hpow (hlong : ¬ w / 2 ^ k ≤ tw ∨ ¬ h / 2 ^ k ≤ th) :
        2 ^ (k + 1) ≤ 2 ^ fitting tw th w h :=
      Nat.pow_le_pow_right (by decide) ((hmore k).mp hlong)
    exact ⟨fun hd => Nat.le_trans (hpow (.inl ((hlarge w tw k).mp hd))) hmh,
      fun hd => Nat.le_trans (hpow (.inr ((hlarge h th k).mp hd))) hmw⟩

/-- A level that fits into a tile has one tile, or none if it has no pixels. -/
theorem codecTile_zero_iff (codec : String) {w h tw th : Nat} (hw : w ≤ tw) (hh : h ≤ th)
    (htw : 1 ≤ tw) (hth : 1 ≤ th) :
    (∃ r, codecTile codec w h tw th 0 = .ok r) ↔ 1 ≤ w ∧ 1 ≤ h := by
  have hone (d t : Nat) (ht : 1 ≤ t) (hd : d ≤ t) : numTiles d t = if d = 0 then 0 else 1 := by
    rcases Nat.lt_or_eq_of_le hd with hlt | rfl
    · rw [numTiles, Nat.div_eq_of_lt hlt, Nat.mod_eq_of_lt hlt, Nat.zero_add]
    · have hd0 : d ≠ 0 := by omega
      simp [numTiles, Nat.div_self ht, hd0]
  constructor
  · rintro ⟨r, hok⟩
    have hpos := (codecTile_ok_iff.mp hok).1
    rw [hone w tw htw hw, hone h th hth hh] at hpos
    by_contra hnone
    have hzero : w = 0 ∨ h = 0 := by omega
    rcases hzero with rfl | rfl
    · simp [Lib.Word.u32] at hpos
    · simp [Lib.Word.u32] at hpos
  · rintro ⟨hw1, hh1⟩
    refine ⟨_, codecTile_ok_iff.mpr ⟨?_, rfl⟩⟩
    rw [hone w tw htw hw, hone h th hth hh, if_neg (by omega), if_neg (by omega)]
    decide

namespace Loaded

variable {im : IIPImage} {tw th encoded w h : Nat}

/-- The first tile of the smallest level. -/
theorem levelTile_zero (hl : Loaded im tw th encoded w h) (codec : String) :
    levelTile codec im 0 0
      = some (codecTile codec (w / 2 ^ fitting tw th w h) (h / 2 ^ fitting tw th w h) tw th 0) := by
  have hp := hl.pyramid
  have hn := hl.numResolutions
  have hlast : fitting tw th w h < im.imageWidths.length := by
    have := hp.enough
    omega
  have hvipsres : im.numResolutions - 1 - 0 = fitting tw th w h := by omega
  rw [levelTile, if_neg (by omega), if_neg (by omega)]
  simp [hvipsres, hp.widths _ hlast, hp.heights _ hlast, hl.tileWidth, hl.tileHeight]

/-- **The smallest level decides**: all others have more pixels. -/
theorem hasPixels_iff (hl : Loaded im tw th encoded w h) (codec : String) (htw : 1 ≤ tw)
    (hth : 1 ≤ th) :
    HasPixels codec im ↔ 2 ^ fitting tw th w h ≤ w ∧ 2 ^ fitting tw th w h ≤ h := by
  have hp := hl.pyramid
  have hn := hl.numResolutions
  have henough := hp.enough
  have hpos (d k : Nat) : 1 ≤ d / 2 ^ k ↔ 2 ^ k ≤ d := by
    rw [Nat.le_div_iff_mul_le (Nat.two_pow_pos k), Nat.one_mul]
  constructor
  · rintro ⟨hall, -⟩
    obtain ⟨w', h', hw', hh', hw1, hh1⟩ := hall (fitting tw th w h) (by omega)
    rw [hp.widths _ (by omega), Option.some.injEq] at hw'
    rw [hp.heights _ (by omega), Option.some.injEq] at hh'
    exact ⟨(hpos w _).mp (hw' ▸ hw1), (hpos h _).mp (hh' ▸ hh1)⟩
  · rintro ⟨hmw, hmh⟩
    constructor
    · intro i hi
      have hle : 2 ^ i ≤ 2 ^ fitting tw th w h := Nat.pow_le_pow_right (by decide) (by omega)
      exact ⟨_, _, hp.widths i (by omega), hp.heights i (by omega),
        (hpos w i).mpr (Nat.le_trans hle hmw), (hpos h i).mpr (Nat.le_trans hle hmh)⟩
    · obtain ⟨hfw, hfh⟩ := OpenJPEGImage.fitting_le_iff.mp (Nat.le_refl (fitting tw th w h))
      obtain ⟨r, hok⟩ := (codecTile_zero_iff codec hfw hfh htw hth).mpr
        ⟨(hpos w _).mpr hmw, (hpos h _).mpr hmh⟩
      exact ⟨r, by rw [hl.levelTile_zero, hok]⟩

end Loaded

/-- **When every advertised level has pixels.**  For every file of at least one pixel, every
number of encoded levels and every tile size: exactly if neither side of the image is too short
for the other. -/
theorem levels_have_pixels_iff (f : Jp2File) (g : JpxFile) (path : Text) (tw th : Nat)
    (htw : 1 ≤ tw) (hth : 1 ≤ th) (hf : 1 ≤ f.width ∧ 1 ≤ f.height)
    (hg : 1 ≤ g.layerWidth ∧ 1 ≤ g.layerHeight) :
    (HasPixels "OpenJPEG" (OpenJPEGImage.loadImageInfo f (OpenJPEGImage.fresh path tw th)) ↔
        Proportionate f.width f.height tw th) ∧
      (HasPixels "Kakadu" (KakaduImage.loadImageInfo g (KakaduImage.fresh path tw th)) ↔
        Proportionate g.layerWidth g.layerHeight tw th) := by
  rw [proportionate_iff hf.1 hf.2 htw hth, proportionate_iff hg.1 hg.2 htw hth]
  exact ⟨(loaded_openJPEG f path tw th).hasPixels_iff _ htw hth,
    (loaded_kakadu g path tw th).hasPixels_iff _ htw hth⟩

/-- An image of one component, of one resolution and no wavelet level. -/
def plainJp2 (width height : Nat) : Jp2File := ⟨0, 0, width, height, 1, 8, 1, 1, Nat.succ_pos 7⟩

def plainJpx (width height : Nat) : JpxFile := ⟨width, height, 1, 0, 8, 0, 1, none, 1⟩

/-- 1000 x 700 pixels in tiles of 256 x 256 are three levels, the last of 250 x 175 pixels. -/
theorem levels_have_pixels_1000_by_700 :
    HasPixels "OpenJPEG"
        (OpenJPEGImage.loadImageInfo (plainJp2 1000 700) (OpenJPEGImage.fresh [] 256 256)) ∧
      HasPixels "Kakadu"
        (KakaduImage.loadImageInfo (plainJpx 1000 700) (KakaduImage.fresh [] 256 256)) := by
  have hp : Proportionate 1000 700 256 256 :=
    (proportionate_iff (by decide) (by decide) (by decide) (by decide)).mpr (by decide)
  have hiff := levels_have_pixels_iff (plainJp2 1000 700) (plainJpx 1000 700) [] 256 256
    (by decide) (by decide) (by decide) (by decide)
  exact ⟨hiff.1.mpr hp, hiff.2.mpr hp⟩

/-- **A strip of 1000 pixels.**  It is three levels, of which the second has 500 x 0 pixels, and
the only tile of the smallest one does not exist. -/
theorem strip_without_pixels :
    (OpenJPEGImage.loadImageInfo (plainJp2 1000 1) (OpenJPEGImage.fresh [] 256 256)).imageHeights
        = [1, 0, 0] ∧
      levelTile "OpenJPEG"
          (OpenJPEGImage.loadImageInfo (plainJp2 1000 1) (OpenJPEGImage.fresh [] 256 256)) 0 0
        = some (.error (.thrown "OpenJPEG :: Asked for non-existent tile: 0")) ∧
      ¬ HasPixels "OpenJPEG"
          (OpenJPEGImage.loadImageInfo (plainJp2 1000 1) (OpenJPEGImage.fresh [] 256 256)) ∧
      ¬ HasPixels "Kakadu"
          (KakaduImage.loadImageInfo (plainJpx 1000 1) (KakaduImage.fresh [] 256 256)) := by
  have hopen := loaded_openJPEG (plainJp2 1000 1) [] 256 256
  have hkakadu := loaded_kakadu (plainJpx 1000 1) [] 256 256
  refine ⟨?_, ?_, ?_, ?_⟩
  · rw [hopen.imageHeights, levelSizes_eq]
    decide
  · rw [hopen.levelTile_zero]
    rfl
  · rw [hopen.hasPixels_iff _ (by decide) (by decide)]
    decide
  · rw [hkakadu.hasPixels_iff _ (by decide) (by decide)]
    decide

end Iipsrv
