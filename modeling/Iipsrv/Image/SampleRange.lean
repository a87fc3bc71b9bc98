/-
# The sample range of a JPEG2000 image

`OpenJPEGImage::loadImageInfo` fills the vectors `min` and `max`, one channel at a time:

    min.push_back( 0.0 );
    if( bpc > 8 && bpc < 16 ) max.push_back( 1<<bpc );
    if( bpc == 16 ) max.push_back( 65535.0 );
    else max.push_back( 255.0 );

The `else` belongs to the LAST test alone.  Between 9 and 15 bits a channel gets two largest
samples, `2 ^ bpc` and 255, and `normalize`, which takes the entry with the number of the channel,
scales every other channel as if it had 8 bits.  The number that is meant is wrong as well: the
largest sample of 12 bits is 4095.

`ranges_iff` says that the vectors are right up to 8 bits and at 16, and at no depth between them.
Of 2 to 7 bits, the samples are put out as they are and do not reach the 255 (`isGreatest_iff`).
-/
import Iipsrv.Image.Model
import Iipsrv.Image.Virtual
import Iipsrv.Transform.Samples

namespace Iipsrv.OpenJPEGImage

open Transform

/-! ## 1. What a tile can hold -/

/-- The samples that a tile can hold: the decoder returns numbers of `bpc` bits. -/
def delivered (bpc : Nat) : Set Nat := {s | ∃ v : Int, 0 ≤ v ∧ v < 2 ^ bpc ∧ outputSample bpc v = s}

/-- The largest sample at a depth.  Up to 8 bits, samples are bytes. -/
def largest (bpc : Nat) : Nat := if bpc ≤ 8 then 255 else 2 ^ bpc - 1

section
variable {bpc : Nat} (h1 : 1 ≤ bpc) (h16 : bpc ≤ 16)
include h1 h16

/-- What is put out for a number that the decoder returns. -/
theorem outputSample_eq {v : Int} (h0 : 0 ≤ v) (hv : v < 2 ^ bpc) :
    outputSample bpc v = if bpc = 1 then v.toNat * 255 else v.toNat := by
  have hword : (2 : Int) ^ bpc ≤ 2 ^ 16 := pow_le_pow_right₀ (by decide) h16
  unfold outputSample
  split
  case isTrue hdeep => rw [if_neg (by omega), Int.emod_eq_of_lt h0 (by omega)]
  case isFalse hbyte =>
    have hbits : (2 : Int) ^ bpc ≤ 2 ^ 8 := pow_le_pow_right₀ (by decide) (by omega)
    split
    case isTrue hone =>
      subst hone
      omega
    case isFalse => rw [Int.emod_eq_of_lt h0 (by omega)]

/-- **No sample is larger.** -/
theorem delivered_le {s : Nat} (hs : s ∈ delivered bpc) : s ≤ largest bpc := by
  obtain ⟨v, h0, hv, rfl⟩ := hs
  rw [outputSample_eq h1 h16 h0 hv, largest]
  split
  case isTrue hone =>
    subst hone
    rw [if_pos (by decide)]
    omega
  case isFalse =>
    split
    case isTrue hbyte =>
      have hbits : (2 : Int) ^ bpc ≤ 2 ^ 8 := pow_le_pow_right₀ (by decide) hbyte
      omega
    case isFalse =>
      have hcast : ((2 ^ bpc : Nat) : Int) = 2 ^ bpc := by push_cast; rfl
      omega

/-- **Where it is reached.**  Only samples of one bit are scaled up to a byte. -/
theorem isGreatest_iff : IsGreatest (delivered bpc) (largest bpc) ↔ bpc = 1 ∨ 8 ≤ bpc := by
  have hcast : ((2 ^ bpc : Nat) : Int) = 2 ^ bpc := by push_cast; rfl
  have hpos : 0 < 2 ^ bpc := Nat.two_pow_pos bpc
  constructor
  · rintro ⟨⟨v, h0, hv, hs⟩, -⟩
    by_contra hshallow
    have hbits : (2 : Int) ^ bpc ≤ 2 ^ 7 := pow_le_pow_right₀ (by decide) (by omega)
    rw [outputSample_eq h1 h16 h0 hv, if_neg (by omega), largest, if_pos (by omega)] at hs
    omega
  · intro h
    refine ⟨⟨2 ^ bpc - 1, by omega, by omega, ?_⟩, fun s hs => delivered_le h1 h16 hs⟩
    rw [outputSample_eq h1 h16 (by omega) (by omega), largest]
    obtain rfl | h8 := h
    · rfl
    · rw [if_neg (by omega)]
      split
      case isTrue h8' =>
        obtain rfl : bpc = 8 := by omega
        rfl
      case isFalse => omega

end

/-! ## 2. The vectors -/

/-- **The ranges are complete and right**: one entry for each channel, which no sample exceeds, and
`normalize` scales all channels by it. -/
structure Ranged (bpc : Nat) (im : IIPImage) : Prop where
  min_length : im.min.length = im.channels
  max_length : im.max.length = im.channels
  max_eq : ∀ i < im.channels, im.max[i]? = some (largest bpc : ℚ)
  le_max : ∀ i < im.channels, ∀ m ∈ im.max[i]?, ∀ s ∈ delivered bpc, (s : ℚ) ≤ m
  normalized : ∀ t : RawSamples, t.min = im.min → t.max = im.max →
    t.header.channels = im.channels → ∃ cells,
      t.normalize = some ⟨Transform.normalize t.header, cells⟩ ∧
        ∀ n < sampleCount t.header,
          cells[n]? = some (t.samples[n]?.map (Sample.normalized 0 (largest bpc)))

/-- What `loadImageInfo` pushes for a channel, at a depth at which it pushes one number. -/
theorem maxValues_eq {bpc : Nat} (h : bpc ≤ 8 ∨ bpc = 16) :
    maxValues bpc = [(largest bpc : ℚ)] := by
  unfold maxValues largest
  rw [if_neg (by omega), List.nil_append]
  obtain h8 | rfl := h
  · rw [if_neg (by omega), if_pos h8]
    rfl
  · norm_num

/-- At the depths between it pushes two. -/
theorem length_maxValues {bpc : Nat} (h8 : 8 < bpc) (h16 : bpc < 16) :
    (maxValues bpc).length = 2 := by
  unfold maxValues
  rw [if_pos ⟨h8, h16⟩]
  rfl

/-- **The vectors decide how channels are scaled.** -/
theorem ranged_of_vectors {bpc : Nat} (h1 : 1 ≤ bpc) (h16 : bpc ≤ 16) {im : IIPImage}
    (hmin : im.min = List.replicate im.channels 0)
    (hmax : im.max = List.replicate im.channels (largest bpc : ℚ)) : Ranged bpc im := by
  have hentry : ∀ i < im.channels, im.max[i]? = some (largest bpc : ℚ) := fun i hi => by
    rw [hmax, List.getElem?_replicate, if_pos hi]
  refine ⟨by rw [hmin, List.length_replicate], by rw [hmax, List.length_replicate], hentry, ?_, ?_⟩
  · intro i hi m hm s hs
    obtain rfl := Option.some.inj ((hentry i hi).symm.trans hm)
    exact_mod_cast delivered_le h1 h16 hs
  · intro t htmin htmax hchannels
    obtain ⟨cells, hcells, -, hcell⟩ := t.normalize_spec
    refine ⟨cells, hcells, fun n hn => ?_⟩
    have hlt : n < t.samples.length := Nat.lt_of_lt_of_le hn t.sampleCount_le
    have hmod : n % t.header.channels < im.channels :=
      hchannels ▸ Nat.mod_lt n (t.channels_pos hlt)
    have hzero : t.min[n % t.header.channels]? = some 0 := by
      rw [htmin, hmin, List.getElem?_replicate, if_pos hmod]
    rw [hcell n, if_pos hn,
      t.target_eq hzero (htmax ▸ hentry _ hmod) (List.getElem?_eq_getElem hlt),
      List.getElem?_eq_getElem hlt]
    rfl

/-- **The ranges of a freshly loaded image are right** up to 8 bits and at 16 bits. -/
theorem ranges_iff (f : Jp2File) (im : IIPImage) (hmin : im.min = []) (hmax : im.max = [])
    (hcomps : 1 ≤ f.numComps) (hprec : f.prec ≤ 16) :
    Ranged f.prec (loadImageInfo f im) ↔ f.prec ≤ 8 ∨ f.prec = 16 := by
  have hmins : (loadImageInfo f im).min = List.replicate (loadImageInfo f im).channels 0 := by
    change im.min ++ _ = _
    rw [hmin, List.nil_append]
    rfl
  have hmaxs : (loadImageInfo f im).max =
      (List.replicate (loadImageInfo f im).channels (maxValues f.prec)).flatten := by
    change im.max ++ _ = _
    rw [hmax, List.nil_append]
    rfl
  constructor
  · intro hranged
    by_contra hdeep
    have hlength := hranged.max_length
    have hpos : 1 ≤ (loadImageInfo f im).channels := by
      change 1 ≤ if f.prec = 1 then 1 else f.numComps
      rwa [if_neg (by omega)]
    rw [hmaxs, List.length_flatten, List.map_replicate, List.sum_replicate,
      length_maxValues (by omega) (by omega), smul_eq_mul] at hlength
    omega
  · intro h
    rw [maxValues_eq h, List.flatten_replicate_singleton] at hmaxs
    exact ranged_of_vectors f.prec_pos hprec hmins hmaxs

/-- A file with three components. -/
def colourFile (prec : Nat) (h : 0 < prec) : Jp2File where
  x0 := 0
  y0 := 0
  x1 := 512
  y1 := 512
  numComps := 3
  prec := prec
  numResolutions := 6
  numLayers := 1
  prec_pos := h

/-- Three channels of 16 bits. -/
theorem ranges_iff_sixteen :
    Ranged 16 (loadImageInfo (colourFile 16 (by decide)) (ofIIPImage (IIPImage.new []))) :=
  (ranges_iff (colourFile 16 (by decide)) (ofIIPImage (IIPImage.new [])) rfl rfl (by decide)
    (by decide)).mpr (Or.inr rfl)

/-- **Three channels of 12 bits** have six largest samples.  That of the first is too large by one,
and that of the second is a byte's. -/
theorem twelve_bits_two_entries :
    (loadImageInfo (colourFile 12 (by decide)) (ofIIPImage (IIPImage.new []))).channels = 3 ∧
      (loadImageInfo (colourFile 12 (by decide)) (ofIIPImage (IIPImage.new []))).min = [0, 0, 0] ∧
      (loadImageInfo (colourFile 12 (by decide)) (ofIIPImage (IIPImage.new []))).max
        = [4096, 255, 4096, 255, 4096, 255] ∧
      largest 12 = 4095 := by
  have hpushed : maxValues 12 = [4096, 255] := by norm_num [maxValues]
  refine ⟨rfl, rfl, ?_, by decide⟩
  change [] ++ (List.replicate 3 (maxValues 12)).flatten = _
  rw [hpushed]
  rfl

end Iipsrv.OpenJPEGImage
