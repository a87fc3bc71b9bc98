/-
# The levels of a JPEG2000 image

`loadImageInfo` counts how often the image has to be halved to fit into a tile.  If the file has
fewer resolutions, the missing levels are made by subsampling the smallest encoded one: `process`
then discards that many levels and keeps every `factor`-th sample.

* `fitLevels_fst`: the loop counts halvings;
* `virtualLevels_loadImageInfo`: `virtual_levels` is ONE LESS than the number of missing levels;
* `scale_exact_iff`: so the scale of a level is right exactly if the level is encoded.
-/
import Iipsrv.Image.Model

namespace Iipsrv.OpenJPEGImage

open Lib.Print (Text)
open Lib.Rounding

/-! ## 1. The number of levels -/

/-- How often an image has to be halved until it fits into a tile. -/
def fitting (tw th w h : Nat) : Nat := max (halvingsTo w tw) (halvingsTo h th)

theorem fitting_eq_zero {tw th w h : Nat} (hfit : ¬ (tw < w ∨ th < h)) :
    fitting tw th w h = 0 := by
  unfold fitting
  rw [halvingsTo_eq_zero (by omega), halvingsTo_eq_zero (by omega)]
  rfl

theorem fitting_half {tw th w h : Nat} (hbig : tw < w ∨ th < h) :
    fitting tw th w h = fitting tw th (w / 2) (h / 2) + 1 := by
  have step : ∀ d m : Nat, halvingsTo (d / 2) m + 1 = max (halvingsTo d m) 1 := by
    intro d m
    by_cases hd : m < d
    · rw [halvingsTo_half hd]
      omega
    · rw [halvingsTo_eq_zero (d := d) (by omega), halvingsTo_eq_zero (by omega)]
      rfl
  have hpos : 1 ≤ halvingsTo w tw ∨ 1 ≤ halvingsTo h th := by
    rcases hbig with hw | hh
    · exact .inl (halvingsTo_half hw ▸ Nat.le_add_left _ _)
    · exact .inr (halvingsTo_half hh ▸ Nat.le_add_left _ _)
  have hw := step w tw
  have hh := step h th
  unfold fitting
  omega

theorem fitting_le_iff {tw th w h k : Nat} :
    fitting tw th w h ≤ k ↔ w / 2 ^ k ≤ tw ∧ h / 2 ^ k ≤ th := by
  unfold fitting
  rw [Nat.max_le, halvingsTo_le_iff, halvingsTo_le_iff]

/-- **The loop counts halvings**, whatever it starts from. -/
theorem fitLevels_fst (tw th encoded n w h : Nat) :
    (fitLevels tw th encoded n w h).1 = n + fitting tw th w h := by
  fun_induction fitLevels tw th encoded n w h with
  | case1 n w h hbig rest ih =>
    rw [fitting_half hbig, ← Nat.add_assoc, Nat.add_right_comm]
    exact ih
  | case2 n w h hfit =>
    rw [fitting_eq_zero hfit]
    rfl

/-- The loop generates the sizes of the levels beyond the encoded ones. -/
theorem le_length_fitLevels (tw th encoded n w h : Nat) :
    (fitLevels tw th encoded n w h).1
      ≤ max encoded n + (fitLevels tw th encoded n w h).2.length := by
  fun_induction fitLevels tw th encoded n w h with
  | case1 n w h hbig rest ih =>
    change rest.1 ≤ max encoded (n + 1) + rest.2.length at ih
    dsimp only
    split
    · rw [List.length_cons]
      omega
    · omega
  | case2 n w h hfit => simp

section

variable {f : Jp2File} {im : IIPImage}

/-- The number of levels of an object that has been loaded once. -/
theorem numResolutions_loadImageInfo (hw : im.imageWidths = []) (hh : im.imageHeights = []) :
    (loadImageInfo f im).numResolutions
      = 1 + fitting im.tileWidth im.tileHeight f.width f.height := by
  have hfit := fitLevels_fst im.tileWidth im.tileHeight f.numResolutions 1 f.width f.height
  simpa [loadImageInfo, hw, hh] using hfit

/-- **The virtual levels are one less than the missing ones.** -/
theorem virtualLevels_loadImageInfo (hw : im.imageWidths = []) (hh : im.imageHeights = [])
    (hv : im.virtualLevels = 0) :
    (loadImageInfo f im).virtualLevels
      = fitting im.tileWidth im.tileHeight f.width f.height - f.numResolutions := by
  have h : (loadImageInfo f im).virtualLevels
      = extraLevels f.numResolutions (loadImageInfo f im).numResolutions 0 := by
    rw [← hv]
    rfl
  rw [h, numResolutions_loadImageInfo hw hh, extraLevels]
  split <;> omega

end

/-! ## 2. The scale of a level -/

/-- An object as the constructor leaves it, with a tile size. -/
def fresh (path : Text) (tw th : Nat) : IIPImage :=
  { ofIIPImage (.new path) with tileWidth := tw, tileHeight := th }

theorem numResolutions_fresh (f : Jp2File) (path : Text) (tw th : Nat) :
    (loadImageInfo f (fresh path tw th)).numResolutions = 1 + fitting tw th f.width f.height :=
  numResolutions_loadImageInfo rfl rfl

theorem virtualLevels_fresh (f : Jp2File) (path : Text) (tw th : Nat) :
    (loadImageInfo f (fresh path tw th)).virtualLevels
      = fitting tw th f.width f.height - f.numResolutions :=
  virtualLevels_loadImageInfo rfl rfl rfl

/-- **A level is decoded at its scale exactly if it is encoded.**  The `n` levels of an object
number from the smallest one; `R` of them are in the file.  For every other level the decoder is
asked to discard `R` levels, one more than it can, and the factor is `2 * k` where `2 ^ k` is
needed. -/
theorem scale_exact_iff (f : Jp2File) (path : Text) (tw th res : Nat)
    (hR : 1 ≤ f.numResolutions)
    (hres : res < (loadImageInfo f (fresh path tw th)).numResolutions) :
    ((scale (loadImageInfo f (fresh path tw th)) res).2 ≤ f.numResolutions - 1 ∧
      (scale (loadImageInfo f (fresh path tw th)) res).1
          * 2 ^ (scale (loadImageInfo f (fresh path tw th)) res).2.toNat
        = 2 ^ ((loadImageInfo f (fresh path tw th)).numResolutions - 1 - res)) ↔
    f.width / 2 ^ (f.numResolutions - 1 + res) ≤ tw ∧
      f.height / 2 ^ (f.numResolutions - 1 + res) ≤ th := by
  rw [← fitting_le_iff]
  unfold scale
  rw [virtualLevels_fresh]
  rw [numResolutions_fresh] at hres ⊢
  generalize fitting tw th f.width f.height = m at *
  split
  case isTrue hvirtual =>
    constructor
    · rintro ⟨hle, -⟩
      omega
    · intro hm
      omega
  case isFalse hencoded =>
    have hexp : ((1 + m : Nat) - 1 - res : Int).toNat = 1 + m - 1 - res := by omega
    constructor
    · rintro ⟨hle, -⟩
      dsimp only at hle
      omega
    · intro hm
      refine ⟨by dsimp only; omega, ?_⟩
      dsimp only
      rw [hexp, Nat.one_mul]

/-- 512 pixels are two levels, and the upper one is encoded. -/
theorem scale_exact_iff_square :
    (scale (loadImageInfo (squareJp2 512) (fresh [] 256 256)) 1).2
        ≤ (squareJp2 512).numResolutions - 1 ∧
      (scale (loadImageInfo (squareJp2 512) (fresh [] 256 256)) 1).1
          * 2 ^ (scale (loadImageInfo (squareJp2 512) (fresh [] 256 256)) 1).2.toNat
        = 2 ^ ((loadImageInfo (squareJp2 512) (fresh [] 256 256)).numResolutions - 1 - 1) :=
  (scale_exact_iff (squareJp2 512) [] 256 256 1 (by decide)
    (by rw [numResolutions_fresh]; decide)).mpr (by decide)

/-- **The smallest of two levels.**  One resolution is encoded, the decoder is asked to discard
one. -/
theorem scale_overshoots :
    (loadImageInfo (squareJp2 512) (fresh [] 256 256)).numResolutions = 2 ∧
      ¬ (scale (loadImageInfo (squareJp2 512) (fresh [] 256 256)) 0).2
        ≤ ((squareJp2 512).numResolutions : Int) - 1 := by
  unfold scale
  rw [numResolutions_fresh, virtualLevels_fresh]
  decide

end Iipsrv.OpenJPEGImage
