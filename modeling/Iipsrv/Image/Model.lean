/-
# Image objects

`IIPImage` and the classes that read TIFF (`TPTImage`) and JPEG2000 (`OpenJPEGImage`): which
fields `openImage` and `loadImageInfo` set from a file, and which they leave as they find them.

An object is built for a path or copied from another one, and `loadImageInfo` works on whatever
the object holds already: the level sizes are APPENDED to the two vectors, the sample range of a
TIFF is cleared first, that of a JPEG2000 file is not, and the histogram is not touched.

A file is what the image library reports about it.  The number of directories and their sizes
are the file's own; the sizes of the levels of a JPEG2000 file are computed here, by halving.
Strings that only make up the file name, the look-up table and the file handles are left out.
-/
import Iipsrv.RawTile
import Iipsrv.Lib.Word
import Iipsrv.Lib.Rounding

namespace Iipsrv

open Lib.Print (Text)
open Lib.Word

/-- What the image classes and the command handlers throw. -/
inductive Thrown
  | fileError (message : String)
  | invalidArgument (message : String)
  | string (message : String)
  | status (code : Nat)
  | outOfRange
  deriving DecidableEq

/-! ## 1. Files -/

/-- `ImageFormat`. -/
inductive ImageFormat
  | tif | jpeg2000 | unsupported
  deriving DecidableEq

/-- The photometric interpretations that `loadImageInfo` tells apart. -/
inductive Photometric
  | minIsBlack | palette | yCbCr | cieLab | other
  deriving DecidableEq

/-- Where an open TIFF is: at a directory of the chain, or at one found through an offset. -/
inductive Position
  | page (k : Nat)
  | sub (offset : Nat)

/-- A TIFF file.  A tag that may be missing is an `Option`.  `directories` are the sizes of the
directories behind the first; `subIfds` the offsets in the first one, `subDirectory` the size
found at an offset.  `lower` are the photometric interpretation and the offsets of the other
directories. -/
structure TiffFile where
  tileWidth : Option Nat
  tileHeight : Option Nat
  width : Nat
  height : Nat
  samplesPerPixel : Nat
  bitsPerSample : Nat
  photometric : Photometric
  sampleFormat : Nat
  xResolution : Option ℚ
  yResolution : Option ℚ
  resolutionUnit : Option Int
  subIfds : List Nat
  subDirectory : Nat → Nat × Nat
  directories : List (Nat × Nat)
  sMinSampleValue : Nat → ℚ
  sMaxSampleValue : Nat → ℚ
  metadata : Text → Option Text
  lower : Position → Photometric × List Nat := fun _ => (photometric, [])

/-- A JPEG2000 file: the corners of the image, the first component's bits, and what the
codestream says about resolutions and layers.  The number of bits is stored less one, so there
is always one. -/
structure Jp2File where
  x0 : Nat
  y0 : Nat
  x1 : Nat
  y1 : Nat
  numComps : Nat
  prec : Nat
  numResolutions : Nat
  numLayers : Nat
  prec_pos : 0 < prec

namespace Jp2File

def width (f : Jp2File) : Nat := sub32 f.x1 f.x0

def height (f : Jp2File) : Nat := sub32 f.y1 f.y0

end Jp2File

/-- What can be read from a file. -/
inductive Content
  | tiff (f : TiffFile)
  | jp2 (f : Jp2File)
  | unreadable

/-- A file with its modification time. -/
structure FileData where
  mtime : Int
  content : Content

/-! ## 2. The base class -/

/-- `IIPImage`.  Its copy constructor copies every field. -/
structure IIPImage where
  imagePath : Text
  isFile : Bool
  format : ImageFormat
  horizontalAnglesList : List Int
  verticalAnglesList : List Int
  virtualLevels : Nat
  imageWidths : List Nat
  imageHeights : List Nat
  tileWidth : Nat
  tileHeight : Nat
  colourspace : ColourSpaces
  dpiX : ℚ
  dpiY : ℚ
  dpiUnits : Int
  numResolutions : Nat
  bpc : Nat
  channels : Nat
  sampleType : SampleType
  min : List ℚ
  max : List ℚ
  qualityLayers : Nat
  isSet : Bool
  currentX : Int
  currentY : Int
  histogram : List Nat
  metadata : Text → Option Text
  timestamp : Int

/-- The constructor that takes a path. -/
def IIPImage.new (path : Text) : IIPImage where
  imagePath := path
  isFile := false
  format := .unsupported
  horizontalAnglesList := []
  verticalAnglesList := []
  virtualLevels := 0
  imageWidths := []
  imageHeights := []
  tileWidth := 0
  tileHeight := 0
  colourspace := .none
  dpiX := 0
  dpiY := 0
  dpiUnits := 0
  numResolutions := 0
  bpc := 0
  channels := 0
  sampleType := .fixedPoint
  min := []
  max := []
  qualityLayers := 0
  isSet := false
  currentX := 0
  currentY := 90
  histogram := []
  metadata := fun _ => none
  timestamp := 0

/-! ## 3. TIFF -/

/-- A `TPTImage`: the base class, the offsets of the sub-directories, and the directory that its
open file is at. -/
structure TPTImage extends IIPImage where
  subIfdOffsets : List Nat
  position : Position := .page 0

namespace TPTImage

/-- The constructor from an `IIPImage`. -/
def ofIIPImage (image : IIPImage) : TPTImage := { image with subIfdOffsets := [] }

/-- `initializeSubIfdOffsets`: the offsets are inserted in FRONT of those already there. -/
def initializeSubIfdOffsets (f : TiffFile) (im : TPTImage) : TPTImage :=
  { im with subIfdOffsets := f.subIfds ++ im.subIfdOffsets }

/-- The sizes of the levels behind the first, and with them the number of levels. -/
def lowerLevels (f : TiffFile) (offsets : List Nat) : List (Nat × Nat) :=
  if offsets ≠ [] then offsets.map f.subDirectory else f.directories

/-- The colour space a file is declared as. -/
def colourSpace (f : TiffFile) : ColourSpaces :=
  match f.photometric with
  | .cieLab => .cieLab
  | .minIsBlack => if f.bitsPerSample = 1 then .binary else .greyscale
  | .palette => .sRGB
  | .yCbCr => .sRGB
  | .other => .sRGB

/-- Colourmapped images are stored as 1 sample per pixel, but decoded to 3 channels. -/
def numChannels (f : TiffFile) : Nat :=
  if f.photometric = .palette then 3 else f.samplesPerPixel

def sampleFormat (f : TiffFile) : SampleType :=
  if f.sampleFormat = 3 then .floatingPoint else .fixedPoint

/-- The largest sample value of a channel: a default by the number of bits if the header has
none, that is 0. -/
def maxValue (f : TiffFile) (i : Nat) : ℚ :=
  if f.sMaxSampleValue i ≠ 0 then f.sMaxSampleValue i
  else if f.bitsPerSample ≤ 8 then 255
  else if f.bitsPerSample = 12 then 4095
  else if f.bitsPerSample = 16 then 65535
  else if f.bitsPerSample = 32 ∧ sampleFormat f = .fixedPoint then 4294967295
  else 0

/-- `TPTImage::loadImageInfo`. -/
def loadImageInfo (f : TiffFile) (im : TPTImage) (seq ang : Int) : TPTImage :=
  let offsets := (im.initializeSubIfdOffsets f).subIfdOffsets
  let levels := (f.width, f.height) :: lowerLevels f offsets
  { im with
    currentX := seq
    currentY := ang
    tileWidth := f.tileWidth.getD im.tileWidth
    tileHeight := f.tileHeight.getD im.tileHeight
    dpiX := f.xResolution.getD im.dpiX
    dpiY := f.yResolution.getD im.dpiY
    dpiUnits := f.resolutionUnit.getD im.dpiUnits - 1
    channels := numChannels f
    bpc := f.bitsPerSample
    sampleType := sampleFormat f
    subIfdOffsets := offsets
    imageWidths := im.imageWidths ++ levels.map Prod.fst
    imageHeights := im.imageHeights ++ levels.map Prod.snd
    numResolutions := levels.length
    colourspace := colourSpace f
    -- the two arrays are cleared first
    min := (List.range (numChannels f)).map f.sMinSampleValue
    max := (List.range (numChannels f)).map (maxValue f)
    metadata := fun k => f.metadata k <|> im.metadata k }

/-- Load our metadata if not already loaded. -/
def ensureInfo (f : TiffFile) (im : TPTImage) : TPTImage :=
  if im.bpc = 0 then im.loadImageInfo f im.currentX im.currentY else im

/-- `TPTImage::openImage` on the file that `getFileName` names. -/
def openImage (file : Option FileData) (im : TPTImage) : Except Thrown TPTImage :=
  match file with
  | none => .error (.fileError "Unable to open file")
  | some data =>
    match data.content with
    | .tiff f =>
      let im := ensureInfo f { im with timestamp := data.mtime }
      if im.tileWidth = 0 ∧ im.tileHeight = 0 then
        .error (.fileError "TPTImage :: Image is not tiled")
      else .ok { im with isSet := true }
    | _ => .error (.fileError "TPTImage :: TIFFOpen() failed")

end TPTImage

/-! ## 4. JPEG2000 -/

namespace OpenJPEGImage

/-- `TILESIZE`. -/
def tileSize : Nat := 256

/-- The constructor from an `IIPImage`: the tile size and the number of virtual levels are set
here and not copied. -/
def ofIIPImage (image : IIPImage) : IIPImage :=
  { image with tileWidth := tileSize, tileHeight := tileSize, virtualLevels := 0 }

/-- The sizes of the encoded resolutions behind the first: each is halved, rounding down. -/
def encodedLevels : (count w h : Nat) → List (Nat × Nat)
  | 0, _, _ => []
  | count + 1, w, h => (w / 2, h / 2) :: encodedLevels count (w / 2) (h / 2)

/-- The loop that counts the levels until the image fits into a single tile.  It generates the
sizes of those that are not among the `encoded` ones. -/
def fitLevels (tw th encoded n w h : Nat) : Nat × List (Nat × Nat) :=
  if tw < w ∨ th < h then
    let rest := fitLevels tw th encoded (n + 1) (w / 2) (h / 2)
    (rest.1, if encoded < n + 1 then (w / 2, h / 2) :: rest.2 else rest.2)
  else (n, [])
termination_by w + h

/-- The number of levels that are neither encoded nor the one below the last encoded one. -/
def extraLevels (encoded n virtualLevels : Nat) : Nat :=
  if encoded < n then n - encoded - 1 else virtualLevels

/-- The largest sample values.  Between 9 and 15 bits there are two for each channel. -/
def maxValues (bpc : Nat) : List ℚ :=
  (if 8 < bpc ∧ bpc < 16 then [2 ^ bpc] else []) ++ [if bpc = 16 then 65535 else 255]

/-- `OpenJPEGImage::loadImageInfo`.  The loop starts from the first entry of the two vectors. -/
def loadImageInfo (f : Jp2File) (im : IIPImage) : IIPImage :=
  let encoded := (f.width, f.height) :: encodedLevels (f.numResolutions - 1) f.width f.height
  let widths := im.imageWidths ++ encoded.map Prod.fst
  let heights := im.imageHeights ++ encoded.map Prod.snd
  let fit := fitLevels im.tileWidth im.tileHeight f.numResolutions 1 (widths.headD 0)
    (heights.headD 0)
  let channels := if f.prec = 1 then 1 else f.numComps
  { im with
    qualityLayers := f.numLayers
    bpc := f.prec
    channels := channels
    imageWidths := widths ++ fit.2.map Prod.fst
    imageHeights := heights ++ fit.2.map Prod.snd
    virtualLevels := extraLevels f.numResolutions fit.1 im.virtualLevels
    numResolutions := fit.1
    -- decided before bilevel images are forced to one channel
    colourspace :=
      if f.numComps = 1 then if f.prec = 1 then .binary else .greyscale
      else if f.numComps = 3 then .sRGB
      else im.colourspace
    min := im.min ++ List.replicate channels 0
    max := im.max ++ (List.replicate channels (maxValues f.prec)).flatten
    isSet := true }

/-- Load our metadata if not already loaded. -/
def ensureInfo (f : Jp2File) (im : IIPImage) : IIPImage :=
  if im.bpc = 0 then loadImageInfo f im else im

/-- `OpenJPEGImage::openImage` on the file that `getFileName` names. -/
def openImage (file : Option FileData) (im : IIPImage) : Except Thrown IIPImage :=
  match file with
  | none => .error (.fileError "Unable to open file")
  | some data =>
    match data.content with
    | .jp2 f => .ok (ensureInfo f { im with timestamp := data.mtime })
    | _ => .error (.fileError "OpenJPEG :: process() :: opj_read_header() failed")

/-- What `process` asks of the decoder: the number of levels to discard, of which every
`factor`-th sample is kept, the layers, and the area on the canvas of the full size. -/
structure Plan where
  factor : Nat
  vipsres : Int
  layers : Int
  x0 : Nat
  y0 : Nat
  x1 : Nat
  y1 : Nat

/-- The downsampling factor and the reversed resolution number. -/
def scale (im : IIPImage) (res : Nat) : Nat × Int :=
  if res < im.virtualLevels then
    -- set our resolution level back to the smallest original resolution
    (2 * (im.virtualLevels - res), (im.numResolutions : Int) - 1 - im.virtualLevels)
  else (1, (im.numResolutions : Int) - 1 - res)

/-- Half of the layers if none have been asked for, all of them if a negative number has. -/
def decodeLayers (im : IIPImage) (layers : Int) : Int :=
  let layers :=
    if layers < 0 then (im.qualityLayers : Int)
    else if layers = 0 then ((im.qualityLayers + 1) / 2 : Nat)
    else layers
  if layers < 1 then 1 else layers

/-- `OpenJPEGImage::process`, up to the call of the decoder.  The shifts are of `int`s by
`vipsres`. -/
def process (im : IIPImage) (res : Nat) (layers : Int) (xoffset yoffset tw th : Nat) : Plan :=
  let (factor, vipsres) := scale im res
  let shift (n : Nat) : Nat := u32 (n <<< vipsres.toNat)
  ⟨factor, vipsres, decodeLayers im layers, shift (xoffset * factor), shift (yoffset * factor),
    shift (xoffset * factor + tw * factor), shift (yoffset * factor + th * factor)⟩

end OpenJPEGImage

/-! ## 5. Small files -/

/-- A square greyscale TIFF of one level. -/
def greyTiff (size : Nat) : TiffFile where
  tileWidth := some 4
  tileHeight := some 4
  width := size
  height := size
  samplesPerPixel := 1
  bitsPerSample := 8
  photometric := .minIsBlack
  sampleFormat := 1
  xResolution := none
  yResolution := none
  resolutionUnit := none
  subIfds := []
  subDirectory := fun _ => (0, 0)
  directories := []
  sMinSampleValue := fun _ => 0
  sMaxSampleValue := fun _ => 0
  metadata := fun _ => none

/-- A square image of one encoded resolution. -/
def squareJp2 (size : Nat) : Jp2File := ⟨0, 0, size, size, 1, 8, 1, 1, by decide⟩

end Iipsrv
