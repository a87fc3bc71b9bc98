/-
# Sending a tile

The decisions of `JTL::send` (`JTL.cc`): which tile is asked for, raw or already encoded, and which
operations are applied to it.  `Server/Output.lean` puts them together.

The operations of `Transform` are a parameter (`Processor`): here it matters which of them are
applied, to a tile of which compression type.  They are recorded in the order of the source.  The
attributes of the image are an argument of each decision, since the object that has them changes
on the way.  Logging, the physical resolution and the ICC profile of the output are left out.
-/
import Iipsrv.View.Model
import Iipsrv.TileManager.Model

namespace Iipsrv.JTL

open Lib.Word

/-! ## 1. Operations on a tile -/

/-- The operations of `Transform` that `send` applies.  `normalize` has the range that a contrast
stretch has found, or none if the image's own range is used. -/
inductive Op
  | lab2sRGB
  | normalize (range : Option (Nat × Nat))
  | shade
  | twist (ctw : List (List ℚ))
  | log
  | gamma (g : ℚ)
  | inv
  | cmap
  | contrast (c : ℚ)
  | flatten (bands : Nat)
  | greyscale
  | binary (threshold : Nat)
  | equalize (histogram : List Nat)
  | flip (orientation : Nat)
  | rotate (angle : ℚ)

/-- `session->processor`.  None of its operations assigns the compression type. -/
structure Processor where
  apply : Op → RawTile → RawTile
  histogram : RawTile → List Nat
  threshold : List Nat → Nat
  compressionType_apply : ∀ op t, (apply op t).compressionType = t.compressionType

/-- A tile that is worked on, and what has been applied to it, with the compression type it had
then. -/
structure Work where
  tile : RawTile
  applied : List (Op × CompressionType)

/-- Apply operations one after the other. -/
def Work.applyAll (P : Processor) (w : Work) (ops : List Op) : Work :=
  ops.foldl
    (fun w op => ⟨P.apply op w.tile, w.applied ++ [(op, w.tile.compressionType)]⟩) w

/-! ## 2. Which operations -/

/-- An operation that is applied if the condition holds. -/
def opIf (c : Prop) [Decidable c] (op : Op) : List Op := if c then [op] else []

/-- Convert CIELAB to sRGB. -/
def labOps (im : ImageInfo) : List Op := opIf (im.colourspace = .cieLab) .lab2sRGB

/-- The first and the last bin that is not empty, scaled up to native bit depth.  Without one the
search runs off the histogram. -/
def stretchRange (histogram : List Nat) (t : RawTile) : Option (Nat × Nat) := do
  let n0 ← histogram.findIdx? (· ≠ 0)
  let n1 ← histogram.reverse.findIdx? (· ≠ 0)
  let n1 := histogram.length - 1 - n1
  if 8 < t.bpc ∧ t.sampleType = .fixedPoint then
    return (u32 (n0 <<< (t.bpc - 8)), u32 (n1 <<< (t.bpc - 8)))
  else return (n0, n1)

/-- The float pipeline between normalization and contrast. -/
def middleOps (v : View) : List Op :=
  List.flatten
    [opIf v.shaded .shade, opIf (v.ctw ≠ []) (.twist v.ctw),
      opIf (v.gamma ≠ 1) (if v.gamma = -1 then .log else .gamma v.gamma),
      opIf v.inverted .inv, opIf v.cmapped .cmap]

/-- Only use our float pipeline if necessary.  A contrast of -1 asks for a contrast stretch, and
is reset to 1 in the view. -/
def floatOps (v : View) (histogram : List Nat) (t : RawTile) : Except Failure (View × List Op) :=
  if ¬ (8 < t.bpc ∨ v.floatProcessing = true) then .ok (v, [])
  else if v.contrast = -1 then
    match stretchRange histogram t with
    | none => .error (.fault .outOfBounds)
    | some range =>
      .ok ({ v with contrast := 1 }, .normalize (some range) :: middleOps v ++ [.contrast 1])
  else .ok (v, .normalize none :: middleOps v ++ [.contrast v.contrast])

/-- Reduce to 1 or 3 bands if the output format cannot hold the channels. -/
def flattenOps (v : View) (t : RawTile) : List Op :=
  opIf ((v.outputFormat = .jpeg ∧ (t.channels = 2 ∨ 3 < t.channels)) ∨
      (v.outputFormat = .png ∧ 4 < t.channels))
    (.flatten (if t.channels = 2 then 1 else 3))

/-- Greyscale, binary, equalization, flip and rotation. -/
def viewOps (P : Processor) (im : ImageInfo) (v : View) (histogram : List Nat) : List Op :=
  List.flatten
    [opIf (im.colourspace = .sRGB ∧ v.colourspace = .greyscale) .greyscale,
      opIf (im.colourspace ≠ .binary ∧ v.colourspace = .binary) (.binary (P.threshold histogram)),
      opIf v.equalization (.equalize histogram), opIf (v.flip ≠ 0) (.flip v.flip),
      opIf (v.rotation ≠ 0) (.rotate v.rotation)]

/-- All operations of `send`, in order.  If the search for the range fails, the work stops
there. -/
def transforms (P : Processor) (im : ImageInfo) (v : View) (histogram : List Nat) (t : RawTile) :
    Work × Except Failure View :=
  let w := Work.applyAll P ⟨t, []⟩ (labOps im)
  match floatOps v histogram w.tile with
  | .error e => (w, .error e)
  | .ok (v, ops) =>
    let w := w.applyAll P ops
    (w.applyAll P (flattenOps v w.tile ++ viewOps P im v histogram), .ok v)

/-! ## 3. Fetching the tile -/

/-- Request uncompressed tile if raw pixel data is required for processing. -/
def needsRaw (im : ImageInfo) (v : View) : Bool :=
  decide (8 < im.bpc) || decide (im.colourspace = .cieLab) ||
    decide (im.channels = 2 ∨ 3 < im.channels) ||
    decide ((v.colourspace = .greyscale ∨ v.colourspace = .binary) ∧ im.channels = 3 ∧
      im.bpc = 8) ||
    v.floatProcessing || v.equalization || decide (v.rotation ≠ 0) || decide (v.flip ≠ 0)

/-- The level `num_res-resolution-1`, if it exists. -/
def levelSize (im : ImageInfo) (resolution : Int32) : Option (Nat × Nat) :=
  let level : Int := im.numResolutions - resolution.toInt - 1
  if level < 0 then none
  else
    match im.imageWidths[level.toNat]?, im.imageHeights[level.toNat]? with
    | some w, some h => some (w, h)
    | _, _ => none

/-- If we have requested a rotation, remap the tile index to rotated coordinates.  Both
directions are divided by the tile width. -/
def remap (im : ImageInfo) (v : View) (resolution tile : Int32) : Except Failure Int32 :=
  let angle := if 0 ≤ v.rotation then ⌊v.rotation⌋ else ⌈v.rotation⌉
  if Int.tmod angle 360 = 180 then
    match levelSize im resolution with
    | none => .error (.fault .levelSubscript)
    | some (imWidth, imHeight) =>
      if im.tileWidth = 0 then .error (.fault .divisionByZero)
      else
        let ntiles : Int := ⌈(imWidth : ℚ) / im.tileWidth⌉ * ⌈(imHeight : ℚ) / im.tileWidth⌉
        .ok (Int32.ofInt (ntiles - tile.toInt - 1))
  else .ok tile

/-- The smallest tile, which the histogram is calculated from. -/
def thumbnailRequest (image : Image) (v : View) : Request :=
  ⟨image, 0, 0, 0, v.yangle, v.getLayers, .uncompressed, 0⟩

/-- The tile that is sent. -/
def sendRequest (image : Image) (im : ImageInfo) (v : View) (quality : CompressionType → Int32)
    (resolution tile : Int32) : Request :=
  if needsRaw im v then
    ⟨image, resolution, tile, v.xangle, v.yangle, v.getLayers, .uncompressed, 0⟩
  else
    ⟨image, resolution, tile, v.xangle, v.yangle, v.getLayers, v.outputFormat,
      quality v.outputFormat⟩

end Iipsrv.JTL
