/-
# The size limit of the server

`Environment::getMaxCVT` (`Environment.h`) reads the largest size of an exported image; `main`
passes it on to the view of every request, and the size parameter of `IIIF::run` limits the
requested size to it.

It does so wrongly in two ways.  A region that is wider than high is limited by its WIDTH, but its
height is then multiplied by the ratio of the sides instead of divided by it (and the other way
round for a region that is higher than wide), so that the other side exceeds the limit.  And -1,
which stands for no maximum, is compared like any other limit.  `limitSize_respects_iff` says
which sizes come out right.
-/
import Iipsrv.IIIF.Model
import Iipsrv.Lib.Str

namespace Iipsrv

open Lib.Rounding Lib.Word Lib.Str Lib.Print

/-! ## 1. The limit -/

namespace Environment

/-- `MAX_CVT`, the default. -/
def defaultMaxCVT : Int32 := 5000

/-- `getMaxCVT`, on the value of the environment variable if it is set: -1 indicates no maximum,
otherwise the minimum is 1. -/
def getMaxCVT : Option Text → Int32
  | some envpara =>
    let maxCVT := atoi envpara
    if maxCVT < -1 then 1
    -- If zero, use default
    else if maxCVT = 0 then defaultMaxCVT
    else maxCVT
  | none => defaultMaxCVT

/-- Either no maximum or a positive one. -/
theorem getMaxCVT_cases (envpara : Option Text) :
    (getMaxCVT envpara).toInt = -1 ∨ 0 < (getMaxCVT envpara).toInt := by
  cases envpara with
  | none => exact .inr (by decide)
  | some envpara =>
    simp only [getMaxCVT]
    generalize atoi envpara = m
    split_ifs with hlow hzero
    · exact .inr (by decide)
    · exact .inr (by decide)
    · have hge : -1 ≤ m.toInt := by
        rw [Int32.lt_iff_toInt_lt] at hlow
        exact Int.not_lt.mp hlow
      have hne : m.toInt ≠ 0 := fun h => hzero (Int32.toInt_inj.mp h)
      omega

end Environment

namespace IIIF

/-! ## 2. The limited size -/

/-- What a maximum size asks of a requested size `w` by `h` and the size `w'` by `h'` that the view
is given instead. -/
structure Respects (maxSize w h w' h' : Int) : Prop where
  width : 0 < maxSize → 1 ≤ w' ∧ w' ≤ maxSize
  height : 0 < maxSize → 1 ≤ h' ∧ h' ≤ maxSize
  unchanged : 0 < maxSize → w ≤ maxSize → h ≤ maxSize → w' = w ∧ h' = h
  unlimited : maxSize = -1 → w' = w ∧ h' = h

/-- For a size that exceeds a positive limit the bounds are all that is asked. -/
theorem respects_iff_of_lt {maxSize w h w' h' : Int} (hpos : 0 < maxSize)
    (hover : maxSize < w ∨ maxSize < h) :
    Respects maxSize w h w' h' ↔ (1 ≤ w' ∧ w' ≤ maxSize) ∧ 1 ≤ h' ∧ h' ≤ maxSize := by
  constructor
  · intro hresp
    exact ⟨hresp.width hpos, hresp.height hpos⟩
  · rintro ⟨hw, hh⟩
    exact ⟨fun _ => hw, fun _ => hh, by omega, by omega⟩

/-- A size that the limit allows is left alone. -/
theorem limitSize_of_le {v : View} {w h : Int} (ratio : ℚ) (hw : w ≤ v.maxSize)
    (hh : h ≤ v.maxSize) : limitSize v ratio w h = (w, h) :=
  if_neg fun hover => by omega

/-- The side that is computed from the limit `M` and a ratio that is not smaller than 1. -/
theorem nearest_limit_spec {M : Int} {r : ℚ} (hM : 0 < M) (hr : 1 ≤ r) :
    1 ≤ (nearest (M * r) : Int) ∧ ((nearest (M * r) : Int) ≤ M ↔ M * r < M + 1 / 2) := by
  obtain ⟨n, rfl⟩ := Int.eq_ofNat_of_zero_le hM.le
  have hn : (1 : ℚ) ≤ n := by exact_mod_cast hM
  have hle : (n : ℚ) ≤ n * r := le_mul_of_one_le_right (by linarith) hr
  constructor
  · have := le_nearest hle
    simp only [Int.cast_natCast]
    omega
  · simp only [Int.cast_natCast, Int.ofNat_le]
    rw [← Nat.lt_succ_iff, nearest_lt_iff (by linarith)]
    push_cast
    constructor <;> intro h <;> linarith

/-- One of a ratio and its inverse is not smaller than 1. -/
theorem one_le_max_inv {r : ℚ} (hr : 0 < r) : 1 ≤ max r r⁻¹ := by
  rcases le_total 1 r with h | h
  · exact h.trans (le_max_left _ _)
  · exact ((one_le_inv₀ hr).mpr h).trans (le_max_right _ _)

/-- The requested size is allowed, or the aspect ratio need not be kept, or it is so close to 1
that the other side is rounded to the limit. -/
def Limits (maxSize : Int) (maintainAspect : Bool) (ratio : ℚ) (w h : Int) : Prop :=
  0 < maxSize ∧ ((w ≤ maxSize ∧ h ≤ maxSize) ∨ maintainAspect = false ∨
    maxSize * max ratio ratio⁻¹ < maxSize + 1 / 2)

instance (maxSize : Int) (maintainAspect : Bool) (ratio : ℚ) (w h : Int) :
    Decidable (Limits maxSize maintainAspect ratio w h) :=
  inferInstanceAs (Decidable (_ ∧ _))

/-- What a size that exceeds a positive limit is replaced by. -/
theorem limitSize_of_lt {v : View} {ratio : ℚ} {w h : Int} (hratio : 0 < ratio)
    (hpos : 0 < v.maxSize) (hlt : v.maxSize < 2 ^ 32) (hover : v.maxSize < w ∨ v.maxSize < h) :
    limitSize v ratio w h
      = if 1 < ratio then
          (v.maxSize, if v.maintainAspect then
            (nearest (v.maxSize * max ratio ratio⁻¹) : Int) else v.maxSize)
        else
          (if v.maintainAspect then
            (nearest (v.maxSize * max ratio ratio⁻¹) : Int) else v.maxSize, v.maxSize) := by
  have hcast : (toUnsigned v.maxSize : ℚ) = v.maxSize := by
    unfold toUnsigned
    rw [Int.emod_eq_of_lt hpos.le hlt, ← Int.cast_natCast, Int.toNat_of_nonneg hpos.le]
  refine (if_pos hover).trans ?_
  rw [hcast]
  split_ifs with hr
  · rw [max_eq_left]
    exact (inv_le_one_of_one_le₀ hr.le).trans hr.le
  · rfl
  · rw [max_eq_right, div_eq_mul_inv]
    exact (not_lt.mp hr).trans ((one_le_inv₀ hratio).mpr (not_lt.mp hr))
  · rfl

/-- **When the limit is respected.**  For every maximum size the server can be given, every
requested size and every ratio: the size that the view is given respects the limit if and only if
there is a limit, and the size need not be changed, the aspect ratio need not be kept, or the
region is a square up to rounding. -/
theorem limitSize_respects_iff (envpara : Option Text) (v : View)
    (hmax : v.maxSize = (Environment.getMaxCVT envpara).toInt) (ratio : ℚ) (hratio : 0 < ratio)
    (w h : Int) (hw : 0 < w) (hh : 0 < h) :
    Respects v.maxSize w h (limitSize v ratio w h).1 (limitSize v ratio w h).2 ↔
      Limits v.maxSize v.maintainAspect ratio w h := by
  have hlt : v.maxSize < 2 ^ 31 := hmax.trans_lt (Int32.toInt_lt _)
  rcases hmax ▸ Environment.getMaxCVT_cases envpara with hnone | hpos
  · -- no maximum: one of the two sides is replaced by -1
    have hover : v.maxSize < w ∨ v.maxSize < h := by omega
    constructor
    · intro hresp
      obtain ⟨h1, h2⟩ := hresp.unlimited hnone
      have hlim : limitSize v ratio w h = _ := if_pos hover
      rw [hlim] at h1 h2
      split at h1
      case isTrue hr => dsimp only at h1; omega
      case isFalse hr => rw [if_neg hr] at h2; dsimp only at h2; omega
    · rintro ⟨hpos, -⟩
      omega
  · by_cases hover : v.maxSize < w ∨ v.maxSize < h
    · have hside := nearest_limit_spec hpos (one_le_max_inv hratio)
      have hself : 1 ≤ v.maxSize ∧ v.maxSize ≤ v.maxSize := ⟨hpos, le_rfl⟩
      have hnot : ¬ (w ≤ v.maxSize ∧ h ≤ v.maxSize) := by omega
      rw [limitSize_of_lt hratio hpos (by omega) hover, respects_iff_of_lt hpos hover, Limits]
      simp only [hpos, hnot, true_and, false_or]
      cases v.maintainAspect with
      | false => split <;> simp [hself]
      | true => split <;> simp [hself, hside]
    · have hle : w ≤ v.maxSize ∧ h ≤ v.maxSize := by omega
      rw [limitSize_of_le ratio hle.1 hle.2]
      refine ⟨fun _ => ⟨hpos, .inl hle⟩, fun _ => ⟨?_, ?_, ?_, ?_⟩⟩
      · exact fun _ => ⟨hw, hle.1⟩
      · exact fun _ => ⟨hh, hle.2⟩
      · exact fun _ _ _ => ⟨rfl, rfl⟩
      · omega

/-- The view that `main` sets up for a request. -/
def requestView (envpara : Option Text) : View :=
  { View.new with maxSize := (Environment.getMaxCVT envpara).toInt }

/-- **Beyond the limit.**  A region of 6000 x 3000 pixels is limited to a width of 5000, and its
height to 10000.  Without a maximum a region of 600 x 300 pixels is given the width -1. -/
theorem wide_region_exceeds :
    limitSize (requestView none) 2 6000 3000 = (5000, 10000) ∧
      limitSize (requestView (some ['-', '1'])) 2 600 300 = (-1, 8589934590) := by
  decide +kernel

/-- A square region respects the same limit. -/
theorem square_region_limited :
    Respects (requestView none).maxSize 6000 6000 (limitSize (requestView none) 1 6000 6000).1
      (limitSize (requestView none) 1 6000 6000).2 :=
  (limitSize_respects_iff none (requestView none) rfl 1 (by decide) 6000 6000 (by decide)
    (by decide)).mpr (by decide +kernel)

end IIIF

end Iipsrv
