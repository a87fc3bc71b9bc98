/-
# What the image operations do to a tile's header

`Transforms.cc`, as far as the fields are concerned that say how the buffer of a tile is laid out:
its size, the number of channels, the bits per channel and the number of bytes.  Every operation
works these out by formulas of its own.  SOME count the samples from `dataLength`, some from the
size and the channels, and the products are those of `unsigned int`s.

The pixels are a parameter (`Pixels`): any function of the operation and the tile.  A processor
made from it sets the header as the source does.
-/
import Iipsrv.JTL.Model
import Iipsrv.Lib.Steps

namespace Iipsrv

open Lib.Word Lib.Steps

/-! ## 1. Headers -/

/-- The fields of a tile that say how its buffer is laid out. -/
structure Header where
  width : Nat
  height : Nat
  channels : Nat
  bpc : Nat
  dataLength : Nat
  deriving DecidableEq, Repr

def RawTile.header (t : RawTile) : Header := ⟨t.width, t.height, t.channels, t.bpc, t.dataLength⟩

/-- The tile with another header and another buffer. -/
def RawTile.relaid (t : RawTile) (h : Header) (data : List UInt8) : RawTile :=
  { t with
    width := h.width, height := h.height, channels := h.channels, bpc := h.bpc
    dataLength := h.dataLength, data := data }

namespace Transform

/-- `in.dataLength * 8 / in.bpc`, the samples of a tile. -/
def sampleCount (h : Header) : Nat := u32 (h.dataLength * 8) / h.bpc

/-- `normalize`: convert to float. -/
def normalize (h : Header) : Header :=
  { h with bpc := 32, dataLength := u32 (sampleCount h * (32 / 8)) }

/-- `shade`: one value for each pixel. -/
def shade (h : Header) : Header :=
  { h with channels := 1, dataLength := u32 (h.width * h.height * (h.bpc / 8)) }

/-- `cmap`: three values for each SAMPLE, although the loop writes three for each pixel. -/
def cmap (h : Header) : Header :=
  { h with channels := 3, dataLength := u32 (sampleCount h * 3 * (h.bpc / 8)) }

/-- `contrast`: clip to 8 bit. -/
def contrast (h : Header) : Header :=
  { h with bpc := 8, dataLength := u32 (u32 (h.width * h.height * h.channels) * (8 / 8)) }

/-- `flatten`: strip away extra bands. -/
def flatten (bands : Nat) (h : Header) : Header :=
  if h.channels ≤ bands then h
  else
    { h with
      channels := bands
      dataLength := u32 (u32 (h.width * h.height) * bands * (h.bpc / 8)) }

/-- `greyscale`: only for 8 bit colour. -/
def greyscale (h : Header) : Header :=
  if h.bpc ≠ 8 ∨ h.channels ≠ 3 then h
  else { h with channels := 1, dataLength := u32 (h.width * h.height) }

/-- `binary`: only for 8 bit, greyscale first. -/
def binary (h : Header) : Header := if h.bpc ≠ 8 then h else greyscale h

/-- The angle of a rotation as an `int`. -/
def degrees (angle : ℚ) : Int := if 0 ≤ angle then ⌊angle⌋ else ⌈angle⌉

/-- `rotate`: for 90 and 270 rotation swap width and height. -/
def rotate (angle : ℚ) (h : Header) : Header :=
  if Int.tmod (degrees angle) 90 = 0 ∧ Int.tmod (degrees angle) 360 ≠ 0 then
    if Int.tmod (degrees angle) 180 = 90 then { h with width := h.height, height := h.width }
    else h
  else h

/-- What both interpolations do to the header. -/
def resample (width height : Nat) (h : Header) : Header :=
  { h with
    width := width
    height := height
    dataLength := u32 (width * height * h.channels * (h.bpc / 8)) }

def interpolateNearestneighbour (width height : Nat) : Header → Header := resample width height

def interpolateBilinear (width height : Nat) : Header → Header := resample width height

/-! ## 2. Steps -/

/-- A call of one of the operations. -/
inductive Step
  | op (op : JTL.Op)
  | interpolateNearestneighbour (width height : Nat)
  | interpolateBilinear (width height : Nat)

/-- What a call does to the header.  `LAB2sRGB`, `twist`, `log`, `gamma`, `inv`, `equalize` and
`flip` change pixels only. -/
def Step.apply : Step → Header → Header
  | .op (.normalize _), h => normalize h
  | .op .shade, h => shade h
  | .op .cmap, h => cmap h
  | .op (.contrast _), h => contrast h
  | .op (.flatten bands), h => flatten bands h
  | .op .greyscale, h => greyscale h
  | .op (.binary _), h => binary h
  | .op (.rotate angle), h => rotate angle h
  | .op .lab2sRGB, h | .op (.twist _), h | .op .log, h | .op (.gamma _), h | .op .inv, h
  | .op (.equalize _), h | .op (.flip _), h => h
  | .interpolateNearestneighbour width height, h =>
    Transform.interpolateNearestneighbour width height h
  | .interpolateBilinear width height, h => Transform.interpolateBilinear width height h

/-- The formats of a tile on its way: as it comes from the tile manager, in the float pipeline, and
with one byte for each sample. -/
inductive Format
  | raw | floats | bytes
  deriving DecidableEq

/-- The tile has at least one channel, and samples of the format. -/
def Format.Holds : Format → Header → Prop
  | .raw, h => (h.bpc = 8 ∨ h.bpc = 16 ∨ h.bpc = 32) ∧ 1 ≤ h.channels
  | .floats, h => h.bpc = 32 ∧ 1 ≤ h.channels
  | .bytes, h => h.bpc = 8 ∧ 1 ≤ h.channels

instance : ∀ (f : Format) (h : Header), Decidable (f.Holds h)
  | .raw, _ | .floats, _ | .bytes, _ => inferInstanceAs (Decidable (_ ∧ _))

/-- The format an operation is called with: the conversion to float with any, the operations of
the float pipeline with floats, all others with bytes. -/
def Step.format : Step → Format
  | .op .lab2sRGB | .op (.normalize _) => .raw
  | .op .shade | .op (.twist _) | .op .log | .op (.gamma _) | .op .inv | .op .cmap
  | .op (.contrast _) => .floats
  | .op (.flatten _) | .op .greyscale | .op (.binary _) | .op (.equalize _) | .op (.flip _)
  | .op (.rotate _) | .interpolateNearestneighbour _ _ | .interpolateBilinear _ _ => .bytes

/-! ## 3. Processors -/

/-- What the operations do to the pixels, for given settings.  `nearest` is the configured method
of interpolation. -/
structure Pixels where
  samples : Step → RawTile → List UInt8
  histogram : RawTile → List Nat
  threshold : List Nat → Nat
  nearest : Bool

namespace Pixels

/-- A call, with header and pixels. -/
def call (px : Pixels) (s : Step) (t : RawTile) : RawTile :=
  t.relaid (s.apply t.header) (px.samples s t)

theorem compressionType_call (px : Pixels) (s : Step) (t : RawTile) :
    (px.call s t).compressionType = t.compressionType := rfl

/-- `session->processor`. -/
def processor (px : Pixels) : JTL.Processor where
  apply op := px.call (.op op)
  histogram := px.histogram
  threshold := px.threshold
  compressionType_apply op := px.compressionType_call (.op op)

/-- The step of a resize, by the configured method. -/
def resizing (px : Pixels) (width height : Nat) : Step :=
  if px.nearest then .interpolateNearestneighbour width height
  else .interpolateBilinear width height

theorem apply_resizing (px : Pixels) (width height : Nat) (h : Header) :
    (px.resizing width height).apply h = resample width height h := by
  unfold resizing
  split <;> rfl

/-- **Operations one after the other are a run over the header.** -/
theorem header_applyAll (px : Pixels) (w : JTL.Work) (ops : List JTL.Op) :
    (w.applyAll px.processor ops).tile.header
      = run Step.apply (ops.map Step.op) w.tile.header := by
  induction ops generalizing w with
  | nil => rfl
  | cons op ops ih => exact ih _

end Pixels

/-- A raw tile of one black pixel. -/
def onePixel (channels bpc : Nat) : RawTile where
  tileNum := 0
  resolution := 0
  hSequence := 0
  vSequence := 90
  compressionType := .uncompressed
  quality := 0
  filename := ⟨[], 0, Nat.le_refl 0⟩
  timestamp := 0
  data := List.replicate (channels * (bpc / 8)) 0
  dataLength := channels * (bpc / 8)
  width := 1
  height := 1
  channels := channels
  bpc := bpc
  sampleType := .fixedPoint
  padded := false

end Transform

end Iipsrv
