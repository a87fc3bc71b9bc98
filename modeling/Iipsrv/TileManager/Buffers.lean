/-
# The buffers of copied tiles

`RawTile.h`: the copy constructor and the assignment allocate a buffer for the copy and copy
`dataLength` bytes into it.  How much is allocated depends on the number of bits: with 16 or 32
bits the length is divided by the size of a sample, which is right for samples.  An encoded tile
keeps the bits of its samples, and its length is that of a stream.

A `Buffered` tile carries the number of bytes that its buffer has been allocated with.
`Produced` are the tiles that the codecs, cropping, the encoders and copying lead to.
-/
import Iipsrv.Lib.Word
import Iipsrv.Lib.Effects
import Iipsrv.TileManager.Model

namespace Iipsrv

open Lib.Effects Lib.Word

/-! ## 1. Copies -/

/-- A tile, and how many bytes its buffer has room for. -/
structure Buffered where
  tile : RawTile
  allocated : Nat

/-- The bytes that the copy constructor and `operator=` allocate: `dataLength/4` numbers of 4
bytes, `dataLength/2` of 2, or `dataLength` bytes. -/
def RawTile.allocation (t : RawTile) : Nat :=
  if t.bpc = 32 then 4 * (t.dataLength / 4)
  else if t.bpc = 16 then 2 * (t.dataLength / 2)
  else t.dataLength

namespace Buffered

/-- The copy constructor, and `operator=`: allocate, then copy `dataLength` bytes.  There is no
result if they do not fit. -/
def copy (b : Buffered) : Option Buffered :=
  if b.tile.dataLength ≤ b.tile.allocation then some ⟨b.tile.copy, b.tile.allocation⟩ else none

end Buffered

/-- What a tile may go through: it is copied, assigned, put into the tile cache or found there. -/
inductive CopyOp
  | construct | assign | insert | hit
  deriving DecidableEq

/-- The copies that are made.  An insertion makes a pair of key and tile, and moves it into the
list by another copy. -/
def CopyOp.run (b : Buffered) : CopyOp → Option Buffered
  | construct => b.copy
  | assign => b.copy
  | insert => b.copy.bind Buffered.copy
  | hit => b.copy

/-- A sequence of these. -/
def runCopies (b : Buffered) (ops : List CopyOp) : Option Buffered := ops.foldlM CopyOp.run b

/-- **Every copy fits its buffer**, in any sequence. -/
def CopiesFit (b : Buffered) : Prop := ∀ ops, (runCopies b ops).isSome

/-- A tile of a depth that the copies know. -/
def RawTile.Depth (t : RawTile) : Prop := t.bpc = 8 ∨ t.bpc = 16 ∨ t.bpc = 32

namespace RawTile

variable {t : RawTile}

/-- **The allocation is enough exactly if the length is a number of samples.** -/
theorem le_allocation_iff (h : t.Depth) :
    t.dataLength ≤ t.allocation ↔ t.bpc / 8 ∣ t.dataLength := by
  unfold allocation
  rcases h with h | h | h <;> rw [h] <;> simp <;> omega

theorem allocation_copy (t : RawTile) : t.copy.allocation = t.allocation := rfl

end RawTile

namespace Buffered

variable {b b' : Buffered}

theorem copy_of_le (h : b.tile.dataLength ≤ b.tile.allocation) :
    b.copy = some ⟨b.tile.copy, b.tile.allocation⟩ := if_pos h

/-- A copy has the fields of the original. -/
theorem tile_of_copy (h : b.copy = some b') : b'.tile = b.tile.copy := by
  unfold copy at h
  split at h
  · cases h
    rfl
  · cases h

end Buffered

namespace CopyOp

variable {b b' : Buffered}

theorem tile_of_run {op : CopyOp} (h : op.run b = some b') : b'.tile = b.tile.copy := by
  cases op with
  | construct | assign | hit => exact Buffered.tile_of_copy h
  | insert =>
    obtain ⟨b₁, h₁, h₂⟩ := Option.bind_eq_some_iff.mp h
    rw [Buffered.tile_of_copy h₂, Buffered.tile_of_copy h₁, RawTile.copy_copy]

/-- A tile that fits is copied, and the copy fits again. -/
theorem run_of_le (h : b.tile.dataLength ≤ b.tile.allocation) (op : CopyOp) :
    ∃ b', op.run b = some b' ∧ b'.tile = b.tile.copy := by
  have hcopy := Buffered.copy_of_le h
  cases op with
  | construct | assign | hit => exact ⟨_, hcopy, rfl⟩
  | insert =>
    refine ⟨⟨b.tile.copy, b.tile.allocation⟩, ?_, rfl⟩
    have hagain : Buffered.copy ⟨b.tile.copy, b.tile.allocation⟩ =
        some ⟨b.tile.copy.copy, b.tile.copy.allocation⟩ := Buffered.copy_of_le h
    rw [run, hcopy, Option.bind_some, hagain, RawTile.copy_copy, RawTile.allocation_copy]

end CopyOp

/-- Copies do not change the length, so one copy decides. -/
theorem copiesFit_iff (b : Buffered) : CopiesFit b ↔ b.tile.dataLength ≤ b.tile.allocation := by
  constructor
  · intro h
    by_contra hnot
    have hone := h [.construct]
    simp [runCopies, CopyOp.run, Buffered.copy, hnot] at hone
  · intro h ops
    induction ops generalizing b with
    | nil => rfl
    | cons op ops ih =>
      obtain ⟨b', hrun, htile⟩ := CopyOp.run_of_le h op
      have hrest : b'.tile.dataLength ≤ b'.tile.allocation := by
        rw [htile]
        exact h
      have hfold : runCopies b (op :: ops) = runCopies b' ops := by
        rw [runCopies, List.foldlM_cons, hrun]
        rfl
      rw [hfold]
      exact ih b' hrest

/-! ## 2. The tiles of the server -/

/-- `TIFFTileSize`: the rows of a tile, each a whole number of bytes. -/
def tiffTileSize (tileWidth tileHeight channels bpc : Nat) : Nat :=
  tileHeight * ((tileWidth * channels * bpc + 7) / 8)

/-- The tiles that `getTile` of the codecs returns: the buffer that libtiff has filled, the pixels
of a bilevel image unpacked to bytes, and the samples of a JPEG2000 image. -/
inductive FromCodec : Buffered → Prop
  | tiff (t : RawTile) (tileWidth tileHeight : Nat) (hraw : t.compressionType = .uncompressed)
      (hlength : t.dataLength = u32 (tiffTileSize tileWidth tileHeight t.channels t.bpc)) :
      FromCodec ⟨t, tiffTileSize tileWidth tileHeight t.channels t.bpc⟩
  | bilevel (t : RawTile) (np : Nat) (hraw : t.compressionType = .uncompressed) (hbpc : t.bpc = 8)
      (hlength : t.dataLength = u32 ((np + 7) / 8 * 8)) : FromCodec ⟨t, np⟩
  | openJPEG (t : RawTile) (hraw : t.compressionType = .uncompressed)
      (hbpc : t.bpc = 8 ∨ t.bpc = 16)
      (hlength : t.dataLength = u32 (t.width * t.height * t.channels * (t.bpc / 8))) :
      FromCodec ⟨t, u32 (t.width * t.height * t.channels) * (t.bpc / 8)⟩

/-- **The tiles that the server can produce.**  Cropping keeps the buffer; an encoder takes a new
one if the stream is longer than what was there. -/
inductive Produced : Buffered → Prop
  | decoded {b : Buffered} (h : FromCodec b) : Produced b
  | cropped {b : Buffered} {t : RawTile} (im : ImageInfo) (hb : Produced b)
      (h : crop im b.tile = .ok t) : Produced ⟨t, b.allocated⟩
  | compressed {b : Buffered} {t : RawTile} (E : Encoder) (ct : CompressionType) (quality : Int32)
      (hb : Produced b) (h : compress E ct quality b.tile = .ok t) :
      Produced ⟨t, if b.tile.dataLength < t.dataLength then t.dataLength else b.allocated⟩
  | copied {b b' : Buffered} (op : CopyOp) (hb : Produced b) (h : op.run b = some b') : Produced b'

/-- What is known of such a tile: samples are whole, and only 8 bit tiles are encoded as JPEG. -/
structure RawTile.Whole (t : RawTile) : Prop where
  raw : t.compressionType = .uncompressed → t.Depth → t.bpc / 8 ∣ t.dataLength
  jpeg : t.compressionType = .jpeg → t.bpc = 8
  deflate : t.compressionType ≠ .deflate

/-- The size of a sample divides the range of an `unsigned int`. -/
theorem RawTile.Depth.dvd_u32 {t : RawTile} (h : t.Depth) {n : Nat} (hn : t.bpc / 8 ∣ n) :
    t.bpc / 8 ∣ u32 n := by
  unfold u32
  rcases h with h | h | h <;> rw [h] at hn ⊢ <;> omega

theorem FromCodec.whole {b : Buffered} (h : FromCodec b) : b.tile.Whole := by
  cases h with
  | tiff t tileWidth tileHeight hraw hlength =>
    refine ⟨fun _ hdepth => ?_, fun hjpeg => ?_, fun hdeflate => ?_⟩
    · rw [hlength]
      refine hdepth.dvd_u32 (Dvd.dvd.mul_left ?_ _)
      rcases hdepth with h | h | h <;> rw [h] <;> omega
    · rw [hraw] at hjpeg
      cases hjpeg
    · rw [hraw] at hdeflate
      cases hdeflate
  | bilevel t np hraw hbpc hlength =>
    refine ⟨fun _ _ => ?_, fun _ => hbpc, fun hdeflate => ?_⟩
    · rw [hbpc]
      exact one_dvd _
    · rw [hraw] at hdeflate
      cases hdeflate
  | openJPEG t hraw hbpc hlength =>
    refine ⟨fun _ hdepth => ?_, fun hjpeg => ?_, fun hdeflate => ?_⟩
    · rw [hlength]
      exact hdepth.dvd_u32 (dvd_mul_left _ _)
    · rw [hraw] at hjpeg
      cases hjpeg
    · rw [hraw] at hdeflate
      cases hdeflate

/-- Cropping leaves a number of samples. -/
theorem RawTile.Whole.crop {im : ImageInfo} {t t' : RawTile} (ht : t.Whole)
    (h : Iipsrv.crop im t = .ok t') : t'.Whole := by
  unfold Iipsrv.crop at h
  dsimp only at h
  split at h
  · cases h
  · split at h
    · cases h
    · cases h
      refine ⟨fun _ hdepth => ?_, ht.jpeg, ht.deflate⟩
      exact RawTile.Depth.dvd_u32 hdepth (dvd_mul_left _ _)

/-- Encoding keeps the bits; a JPEG is only made of 8. -/
theorem RawTile.Whole.compress {E : Encoder} {ct : CompressionType} {quality : Int32}
    {t t' : RawTile} (ht : t.Whole) (h : Iipsrv.compress E ct quality t = .ok t') : t'.Whole := by
  cases ct with
  | uncompressed | deflate =>
    cases h
    exact ht
  | png =>
    obtain ⟨out, hout, rfl⟩ := map_eq_ok h
    refine ⟨fun hraw => ?_, fun hjpeg => ?_, fun hdeflate => ?_⟩
    · cases hraw
    · cases hjpeg
    · cases hdeflate
  | jpeg =>
    obtain ⟨out, hout, rfl⟩ := map_eq_ok h
    have hbpc : t.bpc = 8 := by
      unfold jpegBytes at hout
      split at hout
      · cases hout
      · split at hout
        · cases hout
        · exact not_not.mp ‹_›
    refine ⟨fun hraw => ?_, fun _ => hbpc, fun hdeflate => ?_⟩
    · cases hraw
    · cases hdeflate

theorem Produced.whole {b : Buffered} (h : Produced b) : b.tile.Whole := by
  induction h with
  | decoded h => exact h.whole
  | cropped im hb h ih => exact ih.crop h
  | compressed E ct quality hb h ih => exact ih.compress h
  | copied op hb h ih =>
    rw [CopyOp.tile_of_run h]
    exact ⟨ih.raw, ih.jpeg, ih.deflate⟩

/-- **The copies of a tile fit exactly if it is not a PNG stream, or the stream has the length of
a number of samples.** -/
theorem copiesFit_iff_samples (b : Buffered) (hb : Produced b) (hdepth : b.tile.Depth) :
    CopiesFit b ↔ (b.tile.compressionType = .png → b.tile.bpc / 8 ∣ b.tile.dataLength) := by
  rw [copiesFit_iff, RawTile.le_allocation_iff hdepth]
  refine ⟨fun h _ => h, fun h => ?_⟩
  cases hct : b.tile.compressionType with
  | uncompressed => exact hb.whole.raw hct hdepth
  | jpeg =>
    rw [hb.whole.jpeg hct]
    exact one_dvd _
  | deflate => exact absurd hct hb.whole.deflate
  | png => exact h hct

/-! ## 3. A stream of odd length -/

/-- A tile of one sample. -/
def oneSample (bpc : Nat) : RawTile where
  tileNum := 0
  resolution := 0
  hSequence := 0
  vSequence := 90
  compressionType := .uncompressed
  quality := 0
  filename := ⟨[], 0, le_rfl⟩
  timestamp := 0
  data := List.replicate (bpc / 8) 0
  dataLength := bpc / 8
  width := 1
  height := 1
  channels := 1
  bpc := bpc
  sampleType := .fixedPoint
  padded := false

/-- An encoder that writes three bytes. -/
def threeBytes : Encoder := ⟨fun _ _ _ _ _ => .ok [1, 2, 3], fun _ _ _ _ _ _ => .ok [1, 2, 3]⟩

theorem produced_oneSample {bpc : Nat} (h : bpc = 8 ∨ bpc = 16) :
    Produced ⟨oneSample bpc, u32 (1 * 1 * 1) * (bpc / 8)⟩ := by
  refine .decoded (.openJPEG (oneSample bpc) rfl h ?_)
  rcases h with rfl | rfl <;> rfl

/-- The tile encoded as PNG. -/
theorem produced_threeBytes {bpc : Nat} (h : bpc = 8 ∨ bpc = 16) :
    Produced ⟨(oneSample bpc).encoded .png 1 [1, 2, 3], 3⟩ := by
  have hpng := Produced.compressed threeBytes .png 1 (produced_oneSample h)
    (t := (oneSample bpc).encoded .png 1 [1, 2, 3]) rfl
  rcases h with rfl | rfl <;> exact hpng

/-- Of 8 bits, the stream is copied whatever its length is. -/
theorem copiesFit_iff_samples_eight :
    CopiesFit ⟨(oneSample 8).encoded .png 1 [1, 2, 3], 3⟩ := by
  refine (copiesFit_iff_samples _ (produced_threeBytes (.inl rfl)) (.inl rfl)).mpr fun _ => ?_
  exact one_dvd _

/-- **Of 16 bits, a stream of three bytes is copied into two.** -/
theorem png_stream_overruns :
    Produced ⟨(oneSample 16).encoded .png 1 [1, 2, 3], 3⟩ ∧
      ((oneSample 16).encoded .png 1 [1, 2, 3]).dataLength = 3 ∧
      ((oneSample 16).encoded .png 1 [1, 2, 3]).allocation = 2 ∧
      runCopies ⟨(oneSample 16).encoded .png 1 [1, 2, 3], 3⟩ [.assign] = none :=
  ⟨produced_threeBytes (.inr rfl), rfl, rfl, rfl⟩

end Iipsrv
