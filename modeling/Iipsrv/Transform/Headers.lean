/-
# Headers that fit their pixels

A tile's `dataLength` is to be `width * height * channels * (bpc / 8)`, the number of bytes its
pixels take.  The operations that change one of these fields restore this, each by a formula of its
own, as long as it is called in the format that `JTL::send` and `CVT::send` call it with.

ONE DOES NOT.  `cmap` replaces the channels by three, but counts three values for every SAMPLE of
the tile: `dataLength` is right if the tile has one channel, and too large by the number of
channels otherwise.  A colour map over an RGB tile leaves three times the length.  Behind it
`contrast` works out the length anew, so what is sent is right again.

* §1 is the equation, and what one call needs.
* §2 goes through the operations, one lemma for each that writes the header.
* §3 puts them together: a step, and from it every sequence.
-/
import Iipsrv.Transform.Model

namespace Iipsrv.Transform

open Lib.Word Lib.Steps

/-! ## 1. The equation -/

/-- The bytes that the pixels take. -/
def extent (h : Header) : Nat := h.width * h.height * h.channels * (h.bpc / 8)

/-- The header fits the pixels. -/
def Consistent (h : Header) : Prop := h.dataLength = extent h

instance (h : Header) : Decidable (Consistent h) := inferInstanceAs (Decidable (_ = _))

/-- A call in its format, with all products below `2 ^ 29`: those of the tile, and for a resize
those of the new size. -/
def Step.Called (s : Step) (h : Header) : Prop :=
  s.format.Holds h ∧ extent h < 2 ^ 29 ∧
    ∀ width height, s = .interpolateNearestneighbour width height ∨
        s = .interpolateBilinear width height →
      width * height * h.channels * (h.bpc / 8) < 2 ^ 29

/-- A colour map is applied to a tile of one channel, or to one without pixels. -/
def Step.Keeps (s : Step) (h : Header) : Prop :=
  s = .op .cmap → h.channels = 1 ∨ h.width * h.height = 0

variable {h : Header}

/-- Every format is one of raw tiles. -/
theorem Format.Holds.raw : ∀ {f : Format}, f.Holds h → Format.raw.Holds h
  | .raw, hf => hf
  | .floats, hf => ⟨.inr (.inr hf.1), hf.2⟩
  | .bytes, hf => ⟨.inl hf.1, hf.2⟩

/-- In every format there are no more samples than bytes. -/
theorem samples_le (hf : Format.raw.Holds h) : h.width * h.height * h.channels ≤ extent h := by
  have hbytes : 1 ≤ h.bpc / 8 := by
    obtain ⟨hbpc, -⟩ := hf
    omega
  exact Nat.le_mul_of_pos_right _ hbytes

/-- And no more pixels than samples. -/
theorem pixels_le (hf : Format.raw.Holds h) : h.width * h.height ≤ extent h :=
  (Nat.le_mul_of_pos_right _ hf.2).trans (samples_le hf)

/-! ## 2. The operations -/

/-- **Samples counted from the length.** -/
theorem sampleCount_eq (hc : Consistent h) (hf : Format.raw.Holds h) (hsmall : extent h < 2 ^ 29) :
    sampleCount h = h.width * h.height * h.channels := by
  have hlength : h.dataLength = h.width * h.height * h.channels * (h.bpc / 8) := hc
  have hlt : h.dataLength * 8 < 2 ^ 32 := by
    rw [show h.dataLength = extent h from hc]
    omega
  unfold sampleCount
  rw [u32_of_lt hlt, hlength]
  obtain ⟨hbpc | hbpc | hbpc, -⟩ := hf <;> rw [hbpc] <;> omega

theorem consistent_normalize (hc : Consistent h) (hf : Format.raw.Holds h)
    (hsmall : extent h < 2 ^ 29) : Consistent (normalize h) := by
  have hle := samples_le hf
  change u32 (sampleCount h * (32 / 8)) = h.width * h.height * h.channels * (32 / 8)
  rw [sampleCount_eq hc hf hsmall, u32_of_lt (by omega)]

theorem consistent_shade (hf : Format.floats.Holds h) (hsmall : extent h < 2 ^ 29) :
    Consistent (shade h) := by
  have hle : h.width * h.height * (h.bpc / 8) ≤ extent h :=
    Nat.mul_le_mul_right _ (Nat.le_mul_of_pos_right _ hf.2)
  change u32 (h.width * h.height * (h.bpc / 8)) = h.width * h.height * 1 * (h.bpc / 8)
  rw [u32_of_lt (by omega), Nat.mul_one]

/-- **A colour map counts samples for pixels.** -/
theorem consistent_cmap_iff (hc : Consistent h) (hf : Format.floats.Holds h)
    (hsmall : extent h < 2 ^ 29) :
    Consistent (cmap h) ↔ h.channels = 1 ∨ h.width * h.height = 0 := by
  have hextent : extent h = h.width * h.height * h.channels * (32 / 8) := by
    unfold extent
    rw [hf.1]
  have hlength : (cmap h).dataLength = h.width * h.height * h.channels * 12 := by
    change u32 (sampleCount h * 3 * (h.bpc / 8)) = _
    rw [sampleCount_eq hc hf.raw hsmall, hf.1, u32_of_lt (by omega)]
    omega
  have hpixels : extent (cmap h) = h.width * h.height * 12 := by
    change h.width * h.height * 3 * (h.bpc / 8) = _
    rw [hf.1]
    omega
  unfold Consistent
  rw [hlength, hpixels, Nat.mul_left_inj (by decide)]
  exact mul_right_eq_self₀

theorem consistent_contrast (hf : Format.floats.Holds h) (hsmall : extent h < 2 ^ 29) :
    Consistent (contrast h) := by
  have hle := samples_le hf.raw
  change u32 (u32 (h.width * h.height * h.channels) * (8 / 8))
    = h.width * h.height * h.channels * (8 / 8)
  rw [u32_of_lt (by omega : h.width * h.height * h.channels < 2 ^ 32), u32_of_lt (by omega)]

theorem consistent_flatten (bands : Nat) (hc : Consistent h) (hf : Format.bytes.Holds h)
    (hsmall : extent h < 2 ^ 29) : Consistent (flatten bands h) := by
  unfold flatten
  split
  · exact hc
  case isFalse hbands =>
    have hle := pixels_le hf.raw
    have hnew : h.width * h.height * bands * (h.bpc / 8) ≤ extent h :=
      Nat.mul_le_mul_right _ (Nat.mul_le_mul_left _ (by omega))
    change u32 (u32 (h.width * h.height) * bands * (h.bpc / 8))
      = h.width * h.height * bands * (h.bpc / 8)
    rw [u32_of_lt (by omega : h.width * h.height < 2 ^ 32), u32_of_lt (by omega)]

theorem consistent_greyscale (hc : Consistent h) (hf : Format.bytes.Holds h)
    (hsmall : extent h < 2 ^ 29) : Consistent (greyscale h) := by
  unfold greyscale
  split
  · exact hc
  · have hle := pixels_le hf.raw
    change u32 (h.width * h.height) = h.width * h.height * 1 * (h.bpc / 8)
    rw [u32_of_lt (by omega), hf.1]
    omega

theorem consistent_binary (hc : Consistent h) (hf : Format.bytes.Holds h)
    (hsmall : extent h < 2 ^ 29) : Consistent (binary h) := by
  unfold binary
  split
  · exact hc
  · exact consistent_greyscale hc hf hsmall

theorem consistent_rotate (angle : ℚ) (hc : Consistent h) : Consistent (rotate angle h) := by
  unfold rotate
  split
  · split
    · change h.dataLength = h.height * h.width * h.channels * (h.bpc / 8)
      rw [Nat.mul_comm h.height]
      exact hc
    · exact hc
  · exact hc

theorem consistent_resample {width height : Nat}
    (hsmall : width * height * h.channels * (h.bpc / 8) < 2 ^ 29) :
    Consistent (resample width height h) :=
  u32_of_lt (hsmall.trans (by decide))

/-! ## 3. Steps and sequences -/

/-- **One call.**  It leaves a header that fits, unless it is a colour map over several
channels. -/
theorem Step.consistent_apply_iff (s : Step) (hc : Consistent h) (hcalled : s.Called h) :
    Consistent (s.apply h) ↔ s.Keeps h := by
  obtain ⟨hf, hsmall, htarget⟩ := hcalled
  -- every operation but one keeps the equation, and its condition says nothing
  have keeps : s ≠ .op .cmap → Consistent (s.apply h) → (Consistent (s.apply h) ↔ s.Keeps h) :=
    fun hne hkept => ⟨fun _ heq => absurd heq hne, fun _ => hkept⟩
  cases s with
  | interpolateNearestneighbour width height =>
    exact keeps nofun (consistent_resample (htarget width height (.inl rfl)))
  | interpolateBilinear width height =>
    exact keeps nofun (consistent_resample (htarget width height (.inr rfl)))
  | op op =>
    cases op with
    | normalize range => exact keeps nofun (consistent_normalize hc hf hsmall)
    | shade => exact keeps nofun (consistent_shade hf hsmall)
    | cmap =>
      exact (consistent_cmap_iff hc hf hsmall).trans ⟨fun hone _ => hone, fun hone => hone rfl⟩
    | contrast c => exact keeps nofun (consistent_contrast hf hsmall)
    | flatten bands => exact keeps nofun (consistent_flatten bands hc hf hsmall)
    | greyscale => exact keeps nofun (consistent_greyscale hc hf hsmall)
    | binary threshold => exact keeps nofun (consistent_binary hc hf hsmall)
    | rotate angle => exact keeps nofun (consistent_rotate angle hc)
    | lab2sRGB | twist _ | log | gamma _ | inv | equalize _ | flip _ => exact keeps nofun hc

/-- **Every sequence.**  From a header that fits, with every operation called in its format, the
header fits after every call exactly if each colour map is applied to a tile of one channel (or
without pixels). -/
theorem consistent_along_iff {steps : List Step} (hc : Consistent h)
    (hcalled : Along Step.apply Step.Called steps h) :
    Along Step.apply (fun s h => Consistent (s.apply h)) steps h
      ↔ Along Step.apply Step.Keeps steps h :=
  along_invariant_iff (fun s _ hc hcalled => s.consistent_apply_iff hc hcalled) hc hcalled

/-- An elevation model of 16 bits, 2 by 2 pixels. -/
def elevation : Header := ⟨2, 2, 1, 16, 8⟩

/-- The operations of a colour map: convert to float, map, clip to 8 bit. -/
def mapped : List Step := [.op (.normalize none), .op .cmap, .op (.contrast 1)]

/-- A colour map over one channel: the lengths are 16, 48 and 12. -/
theorem elevation_mapped :
    Along Step.apply (fun s h => Consistent (s.apply h)) mapped elevation := by
  refine (consistent_along_iff (by decide) ?_).2 ?_
  · simp only [mapped, along_cons, along_nil, and_true]
    refine ⟨⟨by decide, by decide, ?_⟩, ⟨by decide, by decide, ?_⟩, ⟨by decide, by decide, ?_⟩⟩
    all_goals
      rintro width height (hresize | hresize)
      · cases hresize
      · cases hresize
  · simp only [mapped, along_cons, along_nil, and_true]
    refine ⟨?_, fun _ => .inl rfl, ?_⟩
    all_goals
      intro hcmap
      cases hcmap

/-- **A colour map over RGB.**  One pixel of 8 bits in three channels becomes three floats, 12
bytes; the map leaves three channels and a length of 36 bytes. -/
theorem rgb_mapped :
    Along Step.apply (fun s h => s.format.Holds h ∧ extent h < 2 ^ 29) mapped ⟨1, 1, 3, 8, 3⟩ ∧
      Consistent ⟨1, 1, 3, 8, 3⟩ ∧
      run Step.apply [.op (.normalize none), .op .cmap] ⟨1, 1, 3, 8, 3⟩ = ⟨1, 1, 3, 32, 36⟩ ∧
      ¬ Along Step.apply (fun s h => Consistent (s.apply h)) mapped ⟨1, 1, 3, 8, 3⟩ := by
  decide

end Iipsrv.Transform
