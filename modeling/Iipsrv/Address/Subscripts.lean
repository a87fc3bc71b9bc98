/-
# Subscripts on the way to a tile

Where a level lies outside the vectors of an image.  `getTile` tests `res > numResolutions`, so it
lets the level `numResolutions` through.

* `Within`: the subscript of a level lies inside both vectors of level sizes;
* `getTile_overruns_iff`: the one level that `getTile` gets wrong.

The whole requests, on an object that they change, are in `Server/Subscripts.lean`.
-/
import Iipsrv.Address.Model
import Iipsrv.Lib.Effects

namespace Iipsrv

open Lib.Word Lib.Effects

/-! ## 1. Levels -/

/-- The subscript of a level lies inside both vectors. -/
def Within (im : ImageInfo) (resolution : Int32) : Prop :=
  0 ≤ (im.numResolutions : Int) - resolution.toInt - 1 ∧
    (im.numResolutions : Int) - resolution.toInt - 1 < im.imageWidths.length ∧
    (im.numResolutions : Int) - resolution.toInt - 1 < im.imageHeights.length

instance (im : ImageInfo) (resolution : Int32) : Decidable (Within im resolution) :=
  inferInstanceAs (Decidable (_ ∧ _ ∧ _))

theorem levelSize_of_within {im : ImageInfo} {resolution : Int32} (h : Within im resolution) :
    ∃ size, JTL.levelSize im resolution = some size := by
  obtain ⟨h0, hw, hh⟩ := h
  unfold JTL.levelSize
  dsimp only
  generalize (im.numResolutions : Int) - resolution.toInt - 1 = k at h0 hw hh ⊢
  rw [if_neg (by omega), List.getElem?_eq_getElem (by omega : k.toNat < im.imageWidths.length),
    List.getElem?_eq_getElem (by omega : k.toNat < im.imageHeights.length)]
  exact ⟨_, rfl⟩

theorem levelSize_of_not_within {im : ImageInfo} {resolution : Int32}
    (h : ¬ Within im resolution) : JTL.levelSize im resolution = none := by
  unfold Within at h
  unfold JTL.levelSize
  dsimp only
  generalize (im.numResolutions : Int) - resolution.toInt - 1 = k at h ⊢
  by_cases hneg : k < 0
  · rw [if_pos hneg]
  · rw [if_neg hneg]
    by_cases hw : k < im.imageWidths.length
    · rw [List.getElem?_eq_none (l := im.imageHeights) (by omega)]
      cases im.imageWidths[k.toNat]? <;> rfl
    · rw [List.getElem?_eq_none (l := im.imageWidths) (by omega)]

namespace Pyramid

variable {P : Pyramid} {res tile : Int32}

/-- The levels that exist. -/
theorem within_of_lt (h0 : 0 ≤ res.toInt) (hlt : res.toInt < P.info.numResolutions) :
    Within P.info res := by
  have hw := P.length_widths
  have hh := P.length_heights
  exact ⟨by omega, by omega, by omega⟩

/-- A level inside the vectors is one that exists, or a negative number. -/
theorem lt_of_within (h : Within P.info res) : res.toInt < P.info.numResolutions := by
  have := h.1
  omega

theorem toUnsigned_of_nonneg {x : Int32} (h : 0 ≤ x.toInt) :
    (toUnsigned x.toInt : Int) = x.toInt := by
  have := x.toInt_lt
  unfold toUnsigned
  omega

theorem lt_toUnsigned_of_neg (h : res.toInt < 0) :
    P.info.numResolutions < toUnsigned res.toInt := by
  have := res.le_toInt
  have := P.levels_le
  unfold toUnsigned
  omega

theorem setDirectory_of_lt {k : Int} (h0 : 0 ≤ k) (hlt : k < P.info.numResolutions) :
    P.setDirectory k = .ok () := by
  unfold setDirectory
  split
  · exact if_pos ⟨h0, hlt⟩
  · next hoffsets =>
    have hlen := P.length_offsets (fun h => hoffsets (.inl h))
    have hne : k ≠ 0 := fun h => hoffsets (.inr h)
    exact if_pos ⟨by omega, by omega⟩

/-- `getTile` at a level that does not exist, for every level but one. -/
theorem getTile_of_outside (h : res.toInt < 0 ∨ (P.info.numResolutions : Int) < res.toInt) :
    P.getTile res tile = .error (.thrown "Asked for non-existent resolution") := by
  refine if_pos ?_
  rcases h with hneg | hbig
  · exact lt_toUnsigned_of_neg hneg
  · have := toUnsigned_of_nonneg (x := res) (by omega)
    omega

/-- `getTile` at a level that exists. -/
theorem getTile_of_lt (h0 : 0 ≤ res.toInt) (hlt : res.toInt < P.info.numResolutions)
    {w h : Nat} (hsize : JTL.levelSize P.info res = some (w, h)) :
    P.getTile res tile =
      if P.tileCount w h ≤ toUnsigned tile.toInt then
        .error (.thrown "Asked for non-existent tile")
      else .ok (toUnsigned tile.toInt) := by
  have hres := toUnsigned_of_nonneg h0
  unfold getTile
  rw [if_neg (by omega), setDirectory_of_lt (by omega) (by omega), hsize]
  cases P.imageClass <;> rfl

/-- The classes that use the level as a subscript without a test for it. -/
def Unchecked (P : Pyramid) : Prop := P.imageClass ≠ .tpt ∨ P.subIfdOffsets ≠ []

instance (P : Pyramid) : Decidable P.Unchecked := inferInstanceAs (Decidable (_ ∨ _))

/-- `getTile` at the level that it lets through. -/
theorem getTile_of_eq (h : res.toInt = P.info.numResolutions) :
    P.getTile res tile =
      if P.Unchecked then .error (.fault .levelSubscript)
      else .error (.thrown "TPTImage :: TIFFSetDirectory() failed") := by
  have hres := toUnsigned_of_nonneg (x := res) (by omega)
  have hnone : JTL.levelSize P.info res = none :=
    levelSize_of_not_within fun hin => by have := lt_of_within hin; omega
  have hk : (P.info.numResolutions : Int) - 1 - toUnsigned res.toInt = -1 := by omega
  unfold getTile Unchecked
  rw [if_neg (by omega), hnone, hk]
  by_cases hclass : P.imageClass = .tpt
  · by_cases hoffsets : P.subIfdOffsets = []
    · simp [hclass, hoffsets, setDirectory, bind, Except.bind]
    · simp [hclass, hoffsets, setDirectory, bind, Except.bind]
  · simp [hclass]

/-- **`getTile` reads outside a vector** at one level only, and not for every class. -/
theorem getTile_overruns_iff :
    P.getTile res tile = .error (.fault .levelSubscript) ↔
      res.toInt = P.info.numResolutions ∧ P.Unchecked := by
  by_cases heq : res.toInt = P.info.numResolutions
  · rw [getTile_of_eq heq, and_iff_right heq]
    split
    case isTrue h => exact iff_of_true rfl h
    case isFalse h => exact iff_of_false nofun h
  · refine iff_of_false ?_ (fun h => heq h.1)
    by_cases hout : res.toInt < 0 ∨ (P.info.numResolutions : Int) < res.toInt
    · rw [getTile_of_outside hout]
      exact nofun
    · have h0 : 0 ≤ res.toInt := by omega
      have hlt : res.toInt < P.info.numResolutions := by omega
      obtain ⟨⟨w, h⟩, hsize⟩ := levelSize_of_within (within_of_lt h0 hlt)
      rw [getTile_of_lt h0 hlt hsize]
      split <;> exact nofun

theorem fetch_of_within (h : Within P.info res) : P.fetch res tile = P.getTile res tile := by
  obtain ⟨size, hsize⟩ := levelSize_of_within h
  unfold fetch
  rw [hsize]

end Pyramid

/-! ## 2. Handlers -/

section

variable {P : Pyramid} {v : View} {histogram : List Nat}

/-- The view is turned by 180 degrees, so tiles are counted from the other end. -/
def Turned (v : View) : Prop :=
  Int.tmod (if 0 ≤ v.rotation then ⌊v.rotation⌋ else ⌈v.rotation⌉) 360 = 180

instance (v : View) : Decidable (Turned v) := inferInstanceAs (Decidable (_ = _))

theorem remap_of_not_turned {im : ImageInfo} {resolution tile : Int32} (h : ¬ Turned v) :
    JTL.remap im v resolution tile = .ok tile := if_neg h

theorem remap_of_not_within {im : ImageInfo} {resolution tile : Int32} (hturned : Turned v)
    (h : ¬ Within im resolution) :
    JTL.remap im v resolution tile = .error (.fault .levelSubscript) := by
  unfold Turned at hturned
  unfold JTL.remap
  dsimp only
  rw [if_pos hturned, levelSize_of_not_within h]

/-- The smallest tile is needed for the histogram and cannot be had. -/
def NoThumbnail (P : Pyramid) (v : View) (histogram : List Nat) : Prop :=
  v.requireHistogram ∧ histogram = [] ∧ ∃ e, P.getTile 0 0 = .error e

/-- Without the smallest tile nothing is fetched, ... -/
theorem located_of_noThumbnail (h : NoThumbnail P v histogram) (resolution tile : Int32) :
    ∃ e, P.getTile 0 0 = .error e ∧ JTL.located P v histogram resolution tile = .error e := by
  obtain ⟨hneeds, hempty, e, he⟩ := h
  refine ⟨e, he, ?_⟩
  unfold JTL.located
  rw [if_pos ⟨hneeds, hempty⟩, he]
  rfl

/-- ... and otherwise the tile asked for. -/
theorem located_of_thumbnail {resolution tile : Int32} (h : ¬ NoThumbnail P v histogram) :
    JTL.located P v histogram resolution tile = P.fetch resolution tile := by
  unfold JTL.located
  by_cases hneeds : v.requireHistogram ∧ histogram = []
  · rw [if_pos hneeds]
    cases hget : P.getTile 0 0 with
    | error e => exact absurd ⟨hneeds.1, hneeds.2, e, hget⟩ h
    | ok t => rfl
  · rw [if_neg hneeds]

end

end Iipsrv
