/-
# The levels of DeepZoom

A DeepZoom client counts levels down to a single pixel, an image has the levels it has.
`DeepZoom::run`, and a second time `sendExistingFileResponse` of `DeepZoomExt`, come from one to the
other by

    resolution = resolution - (dzi_res-numResolutions) - 1;
    if( resolution < 0 ) resolution = 0;
    if( (unsigned int)resolution > numResolutions-1 ) resolution = numResolutions-1;

where `resolution` is an `int` and the other two are `unsigned int`s, so that every operation of the
first line is one on unsigned words, and wraps: `dzi_res-numResolutions` wherever the image has more
levels than the client counts.  The wraps cancel, because the result is stored as an `int` again
(`zoomResolution_eq`), and from there on it is arithmetic (`resolution_served`).
-/
import Mathlib.Tactic
import Iipsrv.Address.Model

namespace Iipsrv

theorem clog_le (width height : UInt32) : Nat.clog 2 (max width.toNat height.toNat) ≤ 32 := by
  apply Nat.clog_le_of_le_pow
  have hw := width.toNat_lt
  have hh := height.toNat_lt
  omega

theorem toNat_dziRes (width height : UInt32) :
    (dziRes width height).toNat = Nat.clog 2 (max width.toNat height.toNat) := by
  have hmax : (if width < height then height else width).toNat = max width.toNat height.toNat := by
    split
    case isTrue h => rw [max_eq_right (UInt32.lt_iff_toNat_lt.mp h).le]
    case isFalse h => rw [max_eq_left (not_lt.mp fun h' => h (UInt32.lt_iff_toNat_lt.mpr h'))]
  have hlog := clog_le width height
  unfold dziRes
  dsimp only
  rw [UInt32.toNat_ofNat', hmax, Nat.mod_eq_of_lt (by omega)]

theorem toInt32_eq_ofInt (x : UInt32) : x.toInt32 = Int32.ofInt x.toNat := by
  rw [Int32.ofInt_eq_ofNat, ← UInt32.toInt32_ofNat', UInt32.ofNat_toNat]

/-- **The wraps cancel.**  Whatever the three numbers are, the first line is their difference as an
`int`. -/
theorem toInt32_sub_sub (dziRes numResolutions : UInt32) (resolution : Int32) :
    (resolution.toUInt32 - (dziRes - numResolutions) - 1).toInt32
      = Int32.ofInt (resolution.toInt - (dziRes.toNat - numResolutions.toNat) - 1) := by
  rw [UInt32.toInt32_sub, UInt32.toInt32_sub, UInt32.toInt32_sub, Int32.toInt32_toUInt32,
    toInt32_eq_ofInt dziRes, toInt32_eq_ofInt numResolutions, Int32.ofInt_sub, Int32.ofInt_sub,
    Int32.ofInt_sub, Int32.ofInt_toInt]
  rfl

/-- The level of an image for a level of the client's, for levels that the client counts. -/
theorem toInt_zoomResolution {d n : UInt32} {r : Int32} (hn : 1 ≤ n.toNat) (hint : n.toNat ≤ 2 ^ 31)
    (hd : d.toNat ≤ 32) (h0 : 0 ≤ r.toInt) (hr : r.toInt ≤ d.toNat) :
    (zoomResolution d n r).toInt = max 0 ((n.toNat : Int) - 1 - (d.toNat - r.toInt)) := by
  set z : Int := r.toInt - (d.toNat - n.toNat) - 1 with hz
  have hword : (Int32.ofInt z).toInt = z := Int32.toInt_ofInt_of_le (by omega) (by omega)
  have hlast : (n - 1).toNat = n.toNat - 1 :=
    UInt32.toNat_sub_of_le _ _ (UInt32.le_iff_toNat_le.mpr hn)
  have hzero : (0 : Int32).toInt = 0 := rfl
  -- the second line takes the larger one of 0 and the difference
  have hclamp : (if Int32.ofInt z < 0 then 0 else Int32.ofInt z).toInt = max 0 z := by
    have hneg : Int32.ofInt z < 0 ↔ z < 0 := by
      rw [Int32.lt_iff_toInt_lt, hword, hzero]
    split
    case isTrue h => rw [hzero, max_eq_left (hneg.mp h).le]
    case isFalse h => rw [hword, max_eq_right (not_lt.mp (mt hneg.mpr h))]
  unfold zoomResolution
  dsimp only
  rw [toInt32_sub_sub, ← hz]
  generalize (if Int32.ofInt z < 0 then 0 else Int32.ofInt z) = level at hclamp
  -- the third line changes nothing
  have hcast : level.toUInt32.toNat = level.toInt.toNat :=
    Int32.toNat_toUInt32_of_le (Int32.le_iff_toInt_le.mpr (by rw [hclamp, hzero]; omega))
  have hle : ¬ n - 1 < level.toUInt32 := by
    rw [UInt32.lt_iff_toNat_lt, hlast, hcast, hclamp]
    omega
  rw [if_neg hle, hclamp]
  omega

/-- **Every level of the client is served from the level that is reduced as much.**  An image counts
its levels in an `int`.  The level that both handlers come to is the client's, counted from the full
size, or the smallest there is; and where the image has that level its sizes are those of the image
divided by a power of two. -/
theorem resolution_served (W H n : UInt32) (r : Int32) (L : Nat)
    (hL : L = Nat.clog 2 (max W.toNat H.toNat)) (hn : 1 ≤ n.toNat) (hint : n.toNat ≤ 2 ^ 31)
    (h0 : 0 ≤ r.toInt) (hr : r.toInt ≤ L) :
    ∀ level ∈ [DeepZoom.resolution W H n r, DeepZoomExt.resolution W H n r],
      level.toInt = max 0 ((n.toNat : Int) - 1 - (L - r.toInt)) ∧ level.toInt ≤ n.toNat - 1 ∧
        ∀ im : ImageInfo, im.numResolutions = n.toNat →
          (∀ k < n.toNat, im.imageWidths[k]? = some (W.toNat / 2 ^ k)) →
          (∀ k < n.toNat, im.imageHeights[k]? = some (H.toNat / 2 ^ k)) →
          L - r.toInt < n.toNat →
            JTL.levelSize im level = some (W.toNat / 2 ^ (L - r.toInt).toNat,
              H.toNat / 2 ^ (L - r.toInt).toNat) := by
  intro level hlevel
  have hd : (dziRes W H).toNat = L := (toNat_dziRes W H).trans hL.symm
  have hsame : level = zoomResolution (dziRes W H) n r := by
    simpa [DeepZoom.resolution, DeepZoomExt.resolution] using hlevel
  have hlog : L ≤ 32 := hL.trans_le (clog_le W H)
  have hvalue : level.toInt = max 0 ((n.toNat : Int) - 1 - (L - r.toInt)) := by
    rw [hsame, toInt_zoomResolution hn hint (by omega) h0 (by omega), hd]
  refine ⟨hvalue, by omega, ?_⟩
  intro im hlevels hwidths hheights hlt
  have hsubscript : (im.numResolutions : Int) - level.toInt - 1 = L - r.toInt := by omega
  unfold JTL.levelSize
  dsimp only
  rw [hsubscript, if_neg (by omega), hwidths _ (by omega), hheights _ (by omega)]

/-- An image of 1000 by 600 pixels with twelve levels, one more than the client counts. -/
theorem resolution_served_twelve :
    (DeepZoom.resolution 1000 600 12 3).toInt = 4 ∧
      (DeepZoomExt.resolution 1000 600 12 3).toInt = 4 := by
  have hlog : 10 = Nat.clog 2 (max (1000 : UInt32).toNat (600 : UInt32).toNat) := by
    decide
  have hserved := resolution_served 1000 600 12 3 10 hlog (by decide) (by decide) (by decide)
    (by decide)
  exact ⟨(hserved _ (by simp)).1, (hserved _ (by simp)).1⟩

end Iipsrv
