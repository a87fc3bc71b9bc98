/-
# The levels and the tiles of Zoomify

A Zoomify client wants the largest level that fits into one tile as its level 0, and the number of
tiles of all levels from there on.  `Zoomify::run` gets both from one loop, which counts the levels
that are SMALLER than a tile and adds up the tiles of the others, starting from 1 for the one small
level that is kept.

* A level exactly as large as a tile fits, but is not smaller.  So level 0 is the largest one that
  fits exactly if no level but the last has its longer side as long as a tile (`level_zero_iff`).
* The 1 is right exactly if there is a small level, and the one that is kept is not empty
  (`numTiles_iff`).

The sizes are read into `int`s.  A first level of `2 ^ 31` pixels and more comes out negative, and
can be counted as small: then the two mistakes make up for each other.
-/
import Mathlib.Algebra.Order.Floor.Div
import Mathlib.Data.Nat.Count
import Mathlib.Tactic
import Iipsrv.Lib.Loop
import Iipsrv.Lib.Signed
import Iipsrv.Server.Opening

namespace Iipsrv.Zoomify

open Lib.Signed Lib.Word
open Lib.Double (ceil_double_div ceil_natCast_div ceilDiv_of_lt)

/-! ## 1. Which levels are small -/

/-- The test of the loop. -/
def Small (im : ImageInfo) (n : Nat) : Prop :=
  Int32.ofNat (im.imageWidths.getD n 0) < Int32.ofNat im.tileWidth ∧
    Int32.ofNat (im.imageHeights.getD n 0) < Int32.ofNat im.tileWidth

instance (im : ImageInfo) : DecidablePred (Small im) :=
  fun _ => inferInstanceAs (Decidable (_ ∧ _))

/-- Small levels are discarded, all but one. -/
theorem discarded_eq (im : ImageInfo) :
    discarded im = Nat.count (Small im) im.numResolutions - 1 := by
  have hcount : discarded im = if 0 < Nat.count (Small im) im.numResolutions then
      Nat.count (Small im) im.numResolutions - 1 else Nat.count (Small im) im.numResolutions := rfl
  rw [hcount]
  split <;> omega

theorem discarded_lt {im : ImageInfo} (hpos : 0 < im.numResolutions) :
    discarded im < im.numResolutions := by
  have hcount : Nat.count (Small im) im.numResolutions ≤ im.numResolutions := Nat.count_le _
  rw [discarded_eq]
  omega

/-- Where everything from a place on counts. -/
theorem count_tail {p : Nat → Prop} [DecidablePred p] {n k : Nat} (hk : k ≤ n)
    (h : ∀ i, k ≤ i → i < n → p i) : Nat.count p n = Nat.count p k + (n - k) := by
  obtain ⟨m, rfl⟩ := Nat.exists_eq_add_of_le hk
  have htail : Nat.count (fun i => p (k + i)) m = m :=
    Nat.count_of_forall fun i hi => h (k + i) (by omega) (by omega)
  rw [Nat.count_add, htail, Nat.add_sub_cancel_left]

/-! ## 2. The level of a request -/

/-- The subscript of the level that a request for level `r` is served from, counted from the full
size. -/
def served (im : ImageInfo) (r : Int32) : Int := im.numResolutions - (level im r).toInt - 1

theorem served_eq {im : ImageInfo} {r : Int32} (h0 : 0 ≤ r.toInt)
    (h : r.toInt + discarded im < 2 ^ 31) :
    served im r = im.numResolutions - (r.toInt + discarded im) - 1 := by
  have hword : (level im r).toInt = r.toInt + discarded im :=
    Int32.toInt_ofInt_of_le (by omega) (by omega)
  rw [served, hword]

/-- A pyramid in which every level has half the size of the last one, rounded down. -/
structure Halving (im : ImageInfo) (W H : Nat) : Prop where
  width : ∀ k < im.numResolutions, im.imageWidths.getD k 0 = W / 2 ^ k
  height : ∀ k < im.numResolutions, im.imageHeights.getD k 0 = H / 2 ^ k

/-- The longer side of a level. -/
def longer (W H k : Nat) : Nat := max (W / 2 ^ k) (H / 2 ^ k)

/-- The first level does not fit, and is counted as small: one of its sides is negative as an
`int`. -/
def Mistaken (tw W H : Nat) : Prop :=
  tw < max W H ∧ Int32.ofNat W < Int32.ofNat tw ∧ Int32.ofNat H < Int32.ofNat tw

section
variable {im : ImageInfo} {W H : Nat}

theorem longer_zero (W H : Nat) : longer W H 0 = max W H := by
  rw [longer, Nat.pow_zero, Nat.div_one, Nat.div_one]

/-- The longer side is halved with the others. -/
theorem longer_succ (W H k : Nat) : longer W H (k + 1) = longer W H k / 2 := by
  have hhalf : Monotone fun n : Nat => n / 2 := fun a b h => Nat.div_le_div_right h
  unfold longer
  rw [hhalf.map_max, Nat.pow_succ, Nat.div_div_eq_div_mul, Nat.div_div_eq_div_mul]

theorem longer_anti {j k : Nat} (h : j ≤ k) : longer W H k ≤ longer W H j := by
  induction k, h using Nat.le_induction with
  | base => exact le_rfl
  | succ k _ ih =>
    rw [longer_succ]
    omega

/-- The test of the first level. -/
theorem Halving.small_zero_iff (hlevels : Halving im W H) (hpos : 0 < im.numResolutions) :
    Small im 0 ↔
      Int32.ofNat W < Int32.ofNat im.tileWidth ∧ Int32.ofNat H < Int32.ofNat im.tileWidth := by
  rw [Small, hlevels.width 0 hpos, hlevels.height 0 hpos, Nat.pow_zero, Nat.div_one, Nat.div_one]

/-- **Where the test is right.**  It is right at every level but the first, and there too unless it
is mistaken. -/
theorem small_iff (hW : W < 2 ^ 32) (hH : H < 2 ^ 32) (htw : im.tileWidth < 2 ^ 31)
    (hlevels : Halving im W H) {k : Nat} (hk : k < im.numResolutions)
    (hright : k = 0 → ¬ Mistaken im.tileWidth W H) :
    Small im k ↔ longer W H k < im.tileWidth := by
  have hint : W / 2 ^ k < 2 ^ 31 → H / 2 ^ k < 2 ^ 31 →
      (Small im k ↔ longer W H k < im.tileWidth) := by
    intro hw hh
    rw [Small, hlevels.width k hk, hlevels.height k hk, ofNat_lt_ofNat hw htw,
      ofNat_lt_ofNat hh htw, longer, max_lt_iff]
  cases k with
  | zero =>
    rw [Nat.pow_zero, Nat.div_one, Nat.div_one] at hint
    by_cases hlarge : max W H < 2 ^ 31
    · exact hint (by omega) (by omega)
    · refine iff_of_false (fun hsmall => hright rfl ⟨by omega, ?_⟩) ?_
      · exact (hlevels.small_zero_iff hk).mp hsmall
      · rw [longer_zero]
        omega
  | succ k =>
    have hhalf : ∀ n, n < 2 ^ 32 → n / 2 ^ (k + 1) < 2 ^ 31 := by
      intro n hn
      rw [Nat.pow_succ', ← Nat.div_div_eq_div_mul]
      exact (Nat.div_le_self _ _).trans_lt (by omega)
    exact hint (hhalf W hW) (hhalf H hH)

/-- The levels that fit into one tile. -/
def Fits (im : ImageInfo) (W H : Nat) : Set Nat :=
  {k | k < im.numResolutions ∧ W / 2 ^ k ≤ im.tileWidth ∧ H / 2 ^ k ≤ im.tileWidth}

/-- The first level that is smaller than a tile: the largest one that fits, or the one behind it if
that is exactly as large. -/
def firstSmall (im : ImageInfo) (W H k₀ : Nat) : Nat :=
  if longer W H k₀ < im.tileWidth then k₀ else k₀ + 1

theorem firstSmall_le_iff {k₀ k : Nat} (htw : 1 ≤ im.tileWidth) (hleast : IsLeast (Fits im W H) k₀)
    (hk : k < im.numResolutions) :
    firstSmall im W H k₀ ≤ k ↔ longer W H k < im.tileWidth := by
  obtain ⟨⟨-, hfits⟩, hmin⟩ := hleast
  have hfits : longer W H k₀ ≤ im.tileWidth := max_le_iff.mpr hfits
  have hlarge : k < k₀ → im.tileWidth < longer W H k := by
    intro hlt
    by_contra hle
    exact absurd (hmin ⟨hk, max_le_iff.mp (not_lt.mp hle)⟩) (by omega)
  have hbehind : k₀ + 1 ≤ k → longer W H k < im.tileWidth := by
    intro hlt
    have hanti := @longer_anti W H _ _ hlt
    rw [longer_succ] at hanti
    omega
  unfold firstSmall
  rcases Nat.lt_trichotomy k k₀ with hlt | rfl | hgt
  · have := hlarge hlt
    split <;> omega
  · split <;> omega
  · have := hbehind hgt
    split <;> omega

/-- How many levels count as small. -/
theorem count_small (hW : W < 2 ^ 32) (hH : H < 2 ^ 32) (htw : 1 ≤ im.tileWidth)
    (htw' : im.tileWidth < 2 ^ 31) (hlevels : Halving im W H) {k₀ : Nat}
    (hleast : IsLeast (Fits im W H) k₀) [Decidable (Mistaken im.tileWidth W H)] :
    Nat.count (Small im) im.numResolutions = im.numResolutions - firstSmall im W H k₀ +
      if Mistaken im.tileWidth W H then 1 else 0 := by
  set first := firstSmall im W H k₀ with hfirst
  have hfirst_le : first ≤ im.numResolutions := by
    have := hleast.1.1
    rw [hfirst, firstSmall]
    split <;> omega
  have hlarge : ∀ i < first, (i = 0 → ¬ Mistaken im.tileWidth W H) → ¬ Small im i := by
    intro i hi hright
    rw [small_iff hW hH htw' hlevels (by omega) hright,
      ← firstSmall_le_iff htw hleast (by omega)]
    omega
  have hzero : ∀ i, i = 0 → Mistaken im.tileWidth W H → 0 < im.numResolutions → Small im i := by
    rintro i rfl hmistaken hpos
    exact (hlevels.small_zero_iff hpos).mpr hmistaken.2
  have htail : ∀ i, first ≤ i → i < im.numResolutions → Small im i := by
    intro i hi hlt
    by_cases hright : i = 0 ∧ Mistaken im.tileWidth W H
    · exact hzero i hright.1 hright.2 (by omega)
    · rw [small_iff hW hH htw' hlevels hlt fun h0 hm => hright ⟨h0, hm⟩,
        ← firstSmall_le_iff htw hleast hlt]
      exact hi
  rw [count_tail hfirst_le htail, Nat.add_comm]
  congr 1
  split
  case isFalse hright =>
    exact Nat.count_of_forall_not fun i hi => hlarge i hi fun _ => hright
  case isTrue hmistaken =>
    -- the first level counts, and none of the others that do not fit
    have hpos : 1 ≤ first := by
      by_contra hnot
      have hk₀ := hleast.1.1
      have h0 := (firstSmall_le_iff htw hleast (k := 0) (by omega)).mp (by omega)
      rw [longer_zero] at h0
      exact absurd hmistaken.1 (by omega)
    obtain ⟨j, hj⟩ := Nat.exists_eq_add_of_le' hpos
    have hnone : Nat.count (fun i => Small im (i + 1)) j = 0 :=
      Nat.count_of_forall_not fun i hi => hlarge (i + 1) (by omega) fun h => absurd h (by omega)
    rw [hj, Nat.count_succ', hnone, if_pos (hzero 0 rfl hmistaken (by omega))]

/-- Only the largest level that fits can be exactly as large as a tile. -/
theorem eq_of_longer_eq {k₀ k : Nat} (htw : 1 ≤ im.tileWidth) (hleast : IsLeast (Fits im W H) k₀)
    (hk : k < im.numResolutions) (heq : longer W H k = im.tileWidth) : k = k₀ := by
  have hle : k₀ ≤ k := hleast.2 ⟨hk, max_le_iff.mp heq.le⟩
  have hnot := mt (firstSmall_le_iff htw hleast hk).mp (by omega)
  unfold firstSmall at hnot
  split at hnot <;> omega

/-- The level that level 0 is served from. -/
theorem served_zero_iff (hW : W < 2 ^ 32) (hH : H < 2 ^ 32) (htw : 1 ≤ im.tileWidth)
    (htw' : im.tileWidth < 2 ^ 31) (hlevels : Halving im W H) {k₀ : Nat}
    (hleast : IsLeast (Fits im W H) k₀) :
    im.numResolutions - discarded im - 1 = k₀ ↔
      (Mistaken im.tileWidth W H → longer W H k₀ = im.tileWidth) ∧
        (¬ Mistaken im.tileWidth W H →
          longer W H k₀ < im.tileWidth ∨ k₀ + 1 = im.numResolutions) := by
  classical
  have hlt := hleast.1.1
  have hfits : longer W H k₀ ≤ im.tileWidth := max_le_iff.mpr hleast.1.2
  rw [discarded_eq, count_small hW hH htw htw' hlevels hleast]
  by_cases hmistaken : Mistaken im.tileWidth W H
  · rw [if_pos hmistaken, imp_iff_right hmistaken, and_iff_left fun h => absurd hmistaken h,
      firstSmall]
    -- the first level does not fit
    have hpos : k₀ ≠ 0 := by
      rintro rfl
      rw [longer_zero] at hfits
      exact absurd hmistaken.1 (by omega)
    split <;> omega
  · rw [if_neg hmistaken, imp_iff_right hmistaken, and_iff_right fun h => absurd h hmistaken,
      firstSmall]
    split <;> omega

end

/-- **Level 0 is the largest level that fits into one tile**, and every other level as many steps
above it as its number says, exactly if no level but the last has its longer side as long as a tile.
If the first level is counted as small because it is negative, it is the other way round. -/
theorem level_zero_iff (im : ImageInfo) (W H k₀ : Nat) (hW : W < 2 ^ 32) (hH : H < 2 ^ 32)
    (htw : 1 ≤ im.tileWidth) (htw' : im.tileWidth < 2 ^ 31) (hn : im.numResolutions < 2 ^ 31)
    (hlevels : Halving im W H)
    (hleast : IsLeast
      {k | k < im.numResolutions ∧ W / 2 ^ k ≤ im.tileWidth ∧ H / 2 ^ k ≤ im.tileWidth} k₀) :
    (∀ r : Int32, 0 ≤ r.toInt → r.toInt ≤ k₀ → served im r = k₀ - r.toInt) ↔
      (Mistaken im.tileWidth W H →
          ∃ k < im.numResolutions, max (W / 2 ^ k) (H / 2 ^ k) = im.tileWidth) ∧
        (¬ Mistaken im.tileWidth W H →
          ∀ k, k + 1 < im.numResolutions → max (W / 2 ^ k) (H / 2 ^ k) ≠ im.tileWidth) := by
  have hlt := hleast.1.1
  have hzero := served_zero_iff hW hH htw htw' hlevels hleast
  have hbound : discarded im < im.numResolutions := discarded_lt (by omega)
  -- the requests are served right if the one for level 0 is
  have hall : (∀ r : Int32, 0 ≤ r.toInt → r.toInt ≤ k₀ → served im r = k₀ - r.toInt) ↔
      im.numResolutions - discarded im - 1 = k₀ := by
    constructor
    · intro h
      have h0 := h 0 le_rfl (Int.natCast_nonneg k₀)
      rw [served_eq le_rfl (by change 0 + _ < _; omega)] at h0
      change (_ : Int) - (0 + _) - 1 = _ - 0 at h0
      omega
    · intro h r hr hr'
      rw [served_eq hr (by omega)]
      omega
  have hexact : ∀ k < im.numResolutions, longer W H k = im.tileWidth → k = k₀ :=
    fun k hk heq => eq_of_longer_eq htw hleast hk heq
  have hfits : longer W H k₀ ≤ im.tileWidth := max_le_iff.mpr hleast.1.2
  rw [hall, hzero]
  refine and_congr (imp_congr_right fun _ => ?_) (imp_congr_right fun _ => ?_)
  · constructor
    · intro heq
      exact ⟨k₀, hlt, heq⟩
    · rintro ⟨k, hk, heq⟩
      obtain rfl := hexact k hk heq
      exact heq
  · constructor
    · rintro hcond k hk heq
      obtain rfl := hexact k (by omega) heq
      change longer W H k = _ at heq
      omega
    · intro hne
      by_contra hnot
      exact hne k₀ (by omega) (show longer W H k₀ = _ by omega)

/-- A pyramid of `n` halved levels, for tiles of one size. -/
def pyramid (W H n tw : Nat) : ImageInfo where
  tileWidth := tw
  tileHeight := tw
  numResolutions := n
  imageWidths := (List.range n).map (W / 2 ^ ·)
  imageHeights := (List.range n).map (H / 2 ^ ·)
  channels := 3
  bpc := 8
  sampleType := .fixedPoint
  colourspace := .sRGB
  regionDecoding := false

theorem halving_pyramid (W H n tw : Nat) : Halving (pyramid W H n tw) W H := by
  have hlevel : ∀ L k, k < n → ((List.range n).map (L / 2 ^ ·)).getD k 0 = L / 2 ^ k := by
    intro L k hk
    rw [List.getD_eq_getElem?_getD, List.getElem?_map, List.getElem?_range hk]
    rfl
  exact ⟨hlevel W, hlevel H⟩

/-- An image of 1000 by 600 pixels: the third level is the first that fits. -/
theorem level_zero_iff_thousand : served (pyramid 1000 600 4 256) 0 = 2 := by
  have hright : ¬ Mistaken 256 1000 600 := by
    rintro ⟨-, h, -⟩
    exact absurd h (by decide)
  refine (level_zero_iff (pyramid 1000 600 4 256) 1000 600 2 (by decide) (by decide) (by decide)
    (by decide) (by decide) (halving_pyramid _ _ _ _) ⟨by decide, ?_⟩).mpr
      ⟨fun h => absurd h hright, fun _ => ?_⟩ 0 le_rfl (by decide)
  · rintro k ⟨-, hw, -⟩
    by_contra hlt
    obtain rfl | rfl : k = 0 ∨ k = 1 := by omega
    · exact absurd hw (by decide)
    · exact absurd hw (by decide)
  · intro k hk
    obtain rfl | rfl | rfl : k = 0 ∨ k = 1 ∨ k = 2 := by
      have hk : k + 1 < 4 := hk
      omega
    all_goals decide

/-- **A level that fits exactly is passed over.**  Of the levels of 512, 256 and 128 pixels the
second fits into a tile of 256, and level 0 is served from the third. -/
theorem exact_level_passed_over :
    IsLeast {k | k < 3 ∧ 512 / 2 ^ k ≤ 256 ∧ 512 / 2 ^ k ≤ 256} 1 ∧
      served (pyramid 512 512 3 256) 0 = 2 := by
  refine ⟨⟨by decide, ?_⟩, by decide⟩
  rintro k ⟨-, hw, -⟩
  by_contra hlt
  obtain rfl : k = 0 := by omega
  exact absurd hw (by decide)

/-! ## 3. The number of tiles -/

/-- One turn of the loop that adds up the tiles: the product of two `int`s is added to an
`unsigned int`. -/
def addTiles (im : ImageInfo) (ntiles n : Nat) : Option Nat :=
  let tw := Int32.ofNat im.tileWidth
  if Small im n then some ntiles
  else do
    let product ← checked (across (Int32.ofNat (im.imageWidths.getD n 0)) tw *
      across (Int32.ofNat (im.imageHeights.getD n 0)) tw)
    return toUnsigned (ntiles + product)

/-- The value of NUMTILES, if no `int` overflows. -/
def countTiles (im : ImageInfo) : Option Nat :=
  (List.range im.numResolutions).foldlM (addTiles im) 1

/-- It is the number that is sent. -/
theorem numTiles_of_countTiles {im : ImageInfo} {ntiles : Nat} (h : countTiles im = some ntiles) :
    numTiles im = ntiles := by
  unfold countTiles at h
  unfold numTiles
  generalize List.range im.numResolutions = l at h ⊢
  generalize 1 = start at h ⊢
  induction l generalizing start with
  | nil => exact Option.some.inj h
  | cons n l ih =>
    rw [List.foldlM_cons] at h
    obtain ⟨next, hnext, hrest⟩ := Option.bind_eq_some_iff.mp h
    rw [List.foldl_cons, ← ih next hrest]
    congr 1
    unfold addTiles at hnext
    split at hnext
    case isTrue hsmall => exact (if_pos hsmall).trans (Option.some.inj hnext)
    case isFalse hlarge =>
      obtain ⟨product, hproduct, hsum⟩ := Option.bind_eq_some_iff.mp hnext
      unfold checked at hproduct
      split at hproduct
      case isTrue =>
        obtain rfl := Option.some.inj hproduct
        exact (if_neg hlarge).trans (Option.some.inj hsum)
      case isFalse => cases hproduct

/-- The tiles of a level. -/
def tilesOf (im : ImageInfo) (k : Nat) : Nat :=
  (im.imageWidths.getD k 0 ⌈/⌉ im.tileWidth) * (im.imageHeights.getD k 0 ⌈/⌉ im.tileWidth)

/-- A pyramid whose levels do not grow. -/
structure Descending (im : ImageInfo) : Prop where
  width : ∀ i j, i ≤ j → j < im.numResolutions →
    im.imageWidths.getD j 0 ≤ im.imageWidths.getD i 0
  height : ∀ i j, i ≤ j → j < im.numResolutions →
    im.imageHeights.getD j 0 ≤ im.imageHeights.getD i 0

/-- Sizes that an `int` holds. -/
structure IntSizes (im : ImageInfo) : Prop where
  tileWidth_lt : im.tileWidth < 2 ^ 31
  width_lt : ∀ k < im.numResolutions, im.imageWidths.getD k 0 < 2 ^ 31
  height_lt : ∀ k < im.numResolutions, im.imageHeights.getD k 0 < 2 ^ 31

/-- Halving does not let a level grow. -/
theorem Halving.descending {im : ImageInfo} {W H : Nat} (hlevels : Halving im W H) :
    Descending im := by
  have hle : ∀ (L : Nat) {i j : Nat}, i ≤ j → L / 2 ^ j ≤ L / 2 ^ i := fun L i j h =>
    Nat.div_le_div_left (Nat.pow_le_pow_right (by decide) h) (Nat.two_pow_pos i)
  refine ⟨fun i j hij hj => ?_, fun i j hij hj => ?_⟩
  · rw [hlevels.width j hj, hlevels.width i (by omega)]
    exact hle W hij
  · rw [hlevels.height j hj, hlevels.height i (by omega)]
    exact hle H hij

/-- **The `double` quotient is rounded up as the numbers are.** -/
theorem across_ofNat {size tw : Nat} (hsize : size < 2 ^ 31) (htw : 1 ≤ tw) (htw' : tw < 2 ^ 31) :
    across (Int32.ofNat size) (Int32.ofNat tw) = ((size ⌈/⌉ tw : Nat) : Int) := by
  unfold across
  rw [Int32.toInt_ofNat_of_lt hsize, Int32.toInt_ofNat_of_lt htw',
    ceil_double_div (by rw [abs_of_nonneg] <;> omega) (by omega)]
  exact ceil_natCast_div htw

section
variable {im : ImageInfo}

/-- The test, for such sizes. -/
theorem IntSizes.small_iff (hints : IntSizes im) {k : Nat} (hk : k < im.numResolutions) :
    Small im k ↔
      im.imageWidths.getD k 0 < im.tileWidth ∧ im.imageHeights.getD k 0 < im.tileWidth := by
  rw [Small, ofNat_lt_ofNat (hints.width_lt k hk) hints.tileWidth_lt,
    ofNat_lt_ofNat (hints.height_lt k hk) hints.tileWidth_lt]

/-- **The small levels are the last ones.** -/
theorem Descending.exists_first (hdesc : Descending im) (hints : IntSizes im) :
    ∃ first ≤ im.numResolutions, ∀ k < im.numResolutions, Small im k ↔ first ≤ k := by
  classical
  by_cases hsome : ∃ k, k < im.numResolutions ∧ Small im k
  · obtain ⟨hlt, hsmall⟩ := Nat.find_spec hsome
    refine ⟨Nat.find hsome, hlt.le, fun k hk => ⟨fun h => Nat.find_min' hsome ⟨hk, h⟩, fun h => ?_⟩⟩
    rw [hints.small_iff hlt] at hsmall
    rw [hints.small_iff hk]
    exact ⟨(hdesc.width _ k h hk).trans_lt hsmall.1, (hdesc.height _ k h hk).trans_lt hsmall.2⟩
  · refine ⟨im.numResolutions, le_rfl, fun k hk => iff_of_false (fun h => hsome ⟨k, hk, h⟩) ?_⟩
    exact not_le.mpr hk

/-- One turn, in numbers. -/
theorem IntSizes.addTiles_eq (hints : IntSizes im) (htw : 1 ≤ im.tileWidth) {k : Nat}
    (hk : k < im.numResolutions) (ntiles : Nat) :
    addTiles im ntiles k =
      if Small im k then some ntiles
      else if tilesOf im k < 2 ^ 31 then some (u32 (ntiles + tilesOf im k)) else none := by
  have hproduct : across (Int32.ofNat (im.imageWidths.getD k 0)) (Int32.ofNat im.tileWidth) *
      across (Int32.ofNat (im.imageHeights.getD k 0)) (Int32.ofNat im.tileWidth)
        = (tilesOf im k : Int) := by
    rw [across_ofNat (hints.width_lt k hk) htw hints.tileWidth_lt,
      across_ofNat (hints.height_lt k hk) htw hints.tileWidth_lt, tilesOf]
    push_cast
    rfl
  have hsum : toUnsigned ((ntiles : Int) + tilesOf im k) = u32 (ntiles + tilesOf im k) := by
    unfold toUnsigned u32
    omega
  unfold addTiles
  dsimp only
  split
  case isTrue => rfl
  case isFalse =>
    rw [hproduct]
    split
    case isTrue hlt =>
      rw [checked_of_bounds (by omega) (by omega)]
      exact congrArg some hsum
    case isFalse hge =>
      rw [checked_eq_none (by omega)]
      rfl

/-- **The loop** starts with 1, and adds the tiles of the levels that are not small. -/
theorem IntSizes.countTiles_eq (hints : IntSizes im) (htw : 1 ≤ im.tileWidth) {first : Nat}
    (hfirst : first ≤ im.numResolutions)
    (hsmall : ∀ k < im.numResolutions, Small im k ↔ first ≤ k)
    (hproduct : ∀ k < first, tilesOf im k < 2 ^ 31) :
    countTiles im = some (u32 (1 + ∑ k ∈ Finset.range first, tilesOf im k)) := by
  have hrun : ∃ ntiles, (List.range' 0 im.numResolutions).foldlM (addTiles im) 1 = some ntiles ∧
      ntiles = u32 (1 + ∑ k ∈ Finset.range (min (0 + im.numResolutions) first), tilesOf im k) := by
    refine Lib.Loop.foldlM_some
      (fun i ntiles => ntiles = u32 (1 + ∑ k ∈ Finset.range (min i first), tilesOf im k))
      im.numResolutions 0 1 ?_ ?_
    · rw [Nat.zero_min, Finset.sum_range_zero]
      rfl
    · rintro i ntiles - hi rfl
      have hi : i < im.numResolutions := by omega
      rw [hints.addTiles_eq htw hi]
      by_cases hbehind : first ≤ i
      · refine ⟨_, if_pos ((hsmall i hi).mpr hbehind), ?_⟩
        rw [Nat.min_eq_right hbehind, Nat.min_eq_right (by omega)]
      · refine ⟨_, (if_neg (mt (hsmall i hi).mp hbehind)).trans
          (if_pos (hproduct i (by omega))), ?_⟩
        rw [Nat.min_eq_left (by omega), Nat.min_eq_left (by omega), Finset.sum_range_succ]
        unfold u32
        omega
  obtain ⟨ntiles, hcount, rfl⟩ := hrun
  rw [countTiles, List.range_eq_range', hcount, Nat.zero_add, Nat.min_eq_right hfirst]

/-- A level with too many tiles. -/
theorem IntSizes.countTiles_eq_none (hints : IntSizes im) (htw : 1 ≤ im.tileWidth) {k : Nat}
    (hk : k < im.numResolutions) (hlarge : ¬ Small im k) (hover : 2 ^ 31 ≤ tilesOf im k) :
    countTiles im = none := by
  refine Lib.Loop.foldlM_eq_none (addTiles im) (List.mem_range.mpr hk) (fun ntiles => ?_) 1
  rw [hints.addTiles_eq htw hk, if_neg hlarge, if_neg (not_lt.mpr hover)]

theorem discarded_of_first {first : Nat} (hfirst : first ≤ im.numResolutions)
    (hsmall : ∀ k < im.numResolutions, Small im k ↔ first ≤ k) :
    discarded im = im.numResolutions - first - 1 := by
  have hnone : Nat.count (Small im) first = 0 :=
    Nat.count_of_forall_not fun i hi => by
      rw [hsmall i (by omega)]
      omega
  rw [discarded_eq, count_tail hfirst fun i hi hlt => (hsmall i hlt).mpr hi, hnone, Nat.zero_add]

/-- **The levels that a client can reach** are those that are not discarded. -/
theorem reachable_iff (hn : im.numResolutions < 2 ^ 31) (k : Nat) :
    (k < im.numResolutions ∧ ∃ r : Int32, 0 ≤ r.toInt ∧ served im r = k) ↔
      k < im.numResolutions - discarded im := by
  constructor
  · rintro ⟨hk, r, h0, hserved⟩
    have hlt := @discarded_lt im (by omega)
    by_cases hword : r.toInt + discarded im < 2 ^ 31
    · rw [served_eq h0 hword] at hserved
      omega
    · -- the number wraps around, and the level is negative
      have hr := r.toInt_lt
      have hwrapped : (level im r).toInt = (r.toInt + discarded im).bmod (2 ^ 32) :=
        Int32.toInt_ofInt
      rw [served, hwrapped] at hserved
      rw [Int.bmod_def] at hserved
      split at hserved <;> omega
  · intro hk
    have hr : (Int32.ofNat (im.numResolutions - discarded im - 1 - k)).toInt
        = ((im.numResolutions - discarded im - 1 - k : Nat) : Int) :=
      Int32.toInt_ofNat_of_lt (by omega)
    refine ⟨by omega, Int32.ofNat (im.numResolutions - discarded im - 1 - k), by omega, ?_⟩
    rw [served_eq (by omega) (by omega), hr]
    omega

/-- The only tile of a small level. -/
theorem tilesOf_of_small {k : Nat}
    (hsmall : im.imageWidths.getD k 0 < im.tileWidth ∧ im.imageHeights.getD k 0 < im.tileWidth) :
    tilesOf im k =
      if 1 ≤ im.imageWidths.getD k 0 ∧ 1 ≤ im.imageHeights.getD k 0 then 1 else 0 := by
  rw [tilesOf, ceilDiv_of_lt hsmall.1, ceilDiv_of_lt hsmall.2, ite_mul, one_mul, zero_mul, ite_and]

/-- A small level that is not empty. -/
def HasLast (im : ImageInfo) : Prop :=
  ∃ k < im.numResolutions,
    (im.imageWidths.getD k 0 < im.tileWidth ∧ im.imageHeights.getD k 0 < im.tileWidth) ∧
      1 ≤ im.imageWidths.getD k 0 ∧ 1 ≤ im.imageHeights.getD k 0

/-- **The 1 that the loop starts with** is the tile of the first small level, if there is one and it
is not empty. -/
theorem Descending.reachable_sum (hdesc : Descending im) (hints : IntSizes im) {first : Nat}
    (hfirst : first ≤ im.numResolutions)
    (hsmall : ∀ k < im.numResolutions, Small im k ↔ first ≤ k) :
    ∑ k ∈ Finset.range (im.numResolutions - discarded im), tilesOf im k =
      ∑ k ∈ Finset.range first, tilesOf im k + 1 ∧ HasLast im ∨
    ∑ k ∈ Finset.range (im.numResolutions - discarded im), tilesOf im k =
      ∑ k ∈ Finset.range first, tilesOf im k ∧ ¬ HasLast im := by
  have hbehind : ∀ k, k < im.numResolutions →
      (im.imageWidths.getD k 0 < im.tileWidth ∧ im.imageHeights.getD k 0 < im.tileWidth) →
        first ≤ k :=
    fun k hk h => (hsmall k hk).mp ((hints.small_iff hk).mpr h)
  rw [discarded_of_first hfirst hsmall]
  obtain hlt | rfl := hfirst.lt_or_eq
  · have hlevel := (hints.small_iff hlt).mp ((hsmall first hlt).mpr le_rfl)
    have hreached : im.numResolutions - (im.numResolutions - first - 1) = first + 1 := by omega
    rw [hreached, Finset.sum_range_succ, tilesOf_of_small hlevel]
    split
    case isTrue hfull => exact Or.inl ⟨rfl, first, hlt, hlevel, hfull⟩
    case isFalse hempty =>
      refine Or.inr ⟨rfl, ?_⟩
      rintro ⟨k, hk, hk', hw, hh⟩
      have hle := hbehind k hk hk'
      exact hempty ⟨hw.trans (hdesc.width first k hle hk), hh.trans (hdesc.height first k hle hk)⟩
  · refine Or.inr ⟨by rw [Nat.sub_self, Nat.zero_sub, Nat.sub_zero], ?_⟩
    rintro ⟨k, hk, hk', -⟩
    exact absurd (hbehind k hk hk') (not_le.mpr hk)

/-- What is counted is what is sent, if anything is. -/
theorem countTiles_eq_some_iff {ntiles : Nat} :
    countTiles im = some ntiles ↔ countTiles im ≠ none ∧ numTiles im = ntiles := by
  constructor
  · intro h
    exact ⟨fun hnone => by simp [hnone] at h, numTiles_of_countTiles h⟩
  · rintro ⟨hsome, rfl⟩
    obtain ⟨ntiles, h⟩ := Option.ne_none_iff_exists'.mp hsome
    rw [h, numTiles_of_countTiles h]

/-- The two numbers, for sizes that an `int` holds. -/
theorem Descending.numTiles_eq_iff (hdesc : Descending im) (hints : IntSizes im)
    (htw : 1 ≤ im.tileWidth) :
    countTiles im ≠ none ∧
        numTiles im = ∑ k ∈ Finset.range (im.numResolutions - discarded im), tilesOf im k ↔
      HasLast im ∧ (∀ k < im.numResolutions, tilesOf im k < 2 ^ 31) ∧
        ∑ k ∈ Finset.range (im.numResolutions - discarded im), tilesOf im k < 2 ^ 32 := by
  obtain ⟨first, hfirst, hsmall⟩ := hdesc.exists_first hints
  by_cases hproducts : ∀ k < im.numResolutions, tilesOf im k < 2 ^ 31
  · have hcount := hints.countTiles_eq htw hfirst hsmall fun k hk => hproducts k (by omega)
    rw [← countTiles_eq_some_iff, hcount, Option.some_inj, u32]
    obtain ⟨hsum, hlast⟩ | ⟨hsum, hnone⟩ := hdesc.reachable_sum hints hfirst hsmall
    · rw [hsum]
      refine ⟨fun h => ⟨hlast, hproducts, by omega⟩, ?_⟩
      rintro ⟨-, -, hlt⟩
      omega
    · rw [hsum]
      refine iff_of_false (by omega) ?_
      rintro ⟨hlast, -⟩
      exact hnone hlast
  · refine iff_of_false ?_ fun h => hproducts h.2.1
    rintro ⟨hsome, -⟩
    refine hproducts fun k hk => ?_
    by_contra hover
    by_cases hone : Small im k
    · rw [tilesOf_of_small ((hints.small_iff hk).mp hone)] at hover
      split at hover <;> omega
    · exact hsome (hints.countTiles_eq_none htw hk hone (by omega))

end

/-- **NUMTILES is the number of tiles of the levels that can be reached**, if a level is smaller
than a tile and not empty, and no number overflows.  Where an `int` holds the sizes, it is the
number only then. -/
theorem numTiles_iff (im : ImageInfo) (R : Finset Nat) (htw : 1 ≤ im.tileWidth)
    (hn : im.numResolutions < 2 ^ 31) (hdesc : Descending im)
    (hR : ∀ k, k ∈ R ↔
      k < im.numResolutions ∧ ∃ r : Int32, 0 ≤ r.toInt ∧ served im r = k) :
    (IntSizes im ∧ HasLast im ∧ (∀ k < im.numResolutions, tilesOf im k < 2 ^ 31) ∧
        ∑ k ∈ R, tilesOf im k < 2 ^ 32 →
      countTiles im ≠ none ∧ numTiles im = ∑ k ∈ R, tilesOf im k) ∧
    (IntSizes im → countTiles im ≠ none ∧ numTiles im = ∑ k ∈ R, tilesOf im k →
      HasLast im ∧ (∀ k < im.numResolutions, tilesOf im k < 2 ^ 31) ∧
        ∑ k ∈ R, tilesOf im k < 2 ^ 32) := by
  obtain rfl : R = Finset.range (im.numResolutions - discarded im) := by
    ext k
    rw [hR, reachable_iff hn, Finset.mem_range]
  refine ⟨?_, fun hints => (hdesc.numTiles_eq_iff hints htw).mp⟩
  rintro ⟨hints, hrest⟩
  exact (hdesc.numTiles_eq_iff hints htw).mpr hrest

theorem intSizes_pyramid {W H n tw : Nat} (hW : W < 2 ^ 31) (hH : H < 2 ^ 31) (htw : tw < 2 ^ 31) :
    IntSizes (pyramid W H n tw) where
  tileWidth_lt := htw
  width_lt := fun k hk => by
    rw [(halving_pyramid W H n tw).width k hk]
    exact (Nat.div_le_self _ _).trans_lt hW
  height_lt := fun k hk => by
    rw [(halving_pyramid W H n tw).height k hk]
    exact (Nat.div_le_self _ _).trans_lt hH

/-- An image of 1000 by 600 pixels has 12, 4 and 1 tiles on the levels that are not discarded. -/
theorem numTiles_iff_thousand : numTiles (pyramid 1000 600 4 256) = 17 := by
  have hreach : ∀ k, k ∈ Finset.range 3 ↔
      k < 4 ∧ ∃ r : Int32, 0 ≤ r.toInt ∧ served (pyramid 1000 600 4 256) r = k :=
    fun k => Finset.mem_range.trans
      (@reachable_iff (pyramid 1000 600 4 256) (by decide) k).symm
  have hnumber := (numTiles_iff (pyramid 1000 600 4 256) (Finset.range 3) (by decide) (by decide)
    (halving_pyramid _ _ _ _).descending hreach).1
      ⟨intSizes_pyramid (by decide) (by decide) (by decide),
        ⟨2, by decide, by decide, by decide⟩, by decide, by decide⟩
  exact hnumber.2.trans (by decide)

/-- **An image of exactly one tile.**  Its only level is not smaller than a tile, and the number
sent is 2. -/
theorem one_tile_counted_twice :
    numTiles (pyramid 256 256 1 256) = 2 ∧
      (∀ k : Nat,
        (k < 1 ∧ ∃ r : Int32, 0 ≤ r.toInt ∧ served (pyramid 256 256 1 256) r = k) ↔ k = 0) ∧
      tilesOf (pyramid 256 256 1 256) 0 = 1 := by
  refine ⟨?_, fun k => ?_, by decide⟩
  · have hints : IntSizes (pyramid 256 256 1 256) :=
      intSizes_pyramid (by decide) (by decide) (by decide)
    exact numTiles_of_countTiles
      (@IntSizes.countTiles_eq _ hints (by decide) 1 (by decide) (by decide) (by decide))
  · rw [← Nat.lt_one_iff]
    exact @reachable_iff (pyramid 256 256 1 256) (by decide) k

end Iipsrv.Zoomify
