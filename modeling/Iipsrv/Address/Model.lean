/-
# From a request to a tile

How the numbers of a client become the level and the tile that are decoded: the handlers `JTL`,
`PTL`, `JTLS`, `TIL`, `SPECTRA`, `Zoomify`, `DeepZoom` and `DeepZoomExt`, each up to the call of
`getTile`, and the checks `getTile` makes itself (`TPTImage.cc`, `OpenJPEGImage.cc`,
`KakaduImage.cc`).

Levels are counted from the smallest in a request and from the largest in the vectors of an
image, so everywhere a subscript `numResolutions - resolution - 1` is formed.  A subscript outside
its vector is the fault `levelSubscript`.

A tile that is in the tile cache is not decoded; here it is not.  The image is at the view that
is asked for: for a sequence, after `getTile` has loaded that view.
-/
import Iipsrv.JTL.Model
import Iipsrv.Image.Levels
import Iipsrv.TileManager.Region

namespace Iipsrv

open Lib.Print (Text)
open Lib.Word

/-! ## 1. Images -/

/-- The image classes. -/
inductive ImageClass
  | tpt | openJPEG | kakadu
  deriving DecidableEq

/-- An image that has been opened.  The level sizes are at least as many as there are levels: for
JPEG2000 those of encoded resolutions that are not needed are kept as well.  The sub-directories
of a TIFF, where it has some, are its levels but the first.  Their number is a 16 bit one. -/
structure Pyramid where
  info : ImageInfo
  imageClass : ImageClass
  subIfdOffsets : List Nat
  levels_pos : 1 ≤ info.numResolutions
  levels_le : info.numResolutions ≤ 65536
  length_widths : info.numResolutions ≤ info.imageWidths.length
  length_heights : info.numResolutions ≤ info.imageHeights.length
  length_offsets : subIfdOffsets ≠ [] → info.numResolutions = subIfdOffsets.length + 1
  tileWidth_pos : 0 < info.tileWidth
  tileHeight_pos : 0 < info.tileHeight

/-- What the handlers read off an image object. -/
def IIPImage.info (im : IIPImage) (regionDecoding : Bool) : ImageInfo where
  tileWidth := im.tileWidth
  tileHeight := im.tileHeight
  numResolutions := im.numResolutions
  imageWidths := im.imageWidths
  imageHeights := im.imageHeights
  channels := im.channels
  bpc := im.bpc
  sampleType := im.sampleType
  colourspace := im.colourspace
  regionDecoding := regionDecoding

/-- A TIFF that has been loaded. -/
def TPTImage.pyramid (f : TiffFile) (path : Text) (hw : 0 < f.tileWidth.getD 0)
    (hh : 0 < f.tileHeight.getD 0) (hle : (lowerLevels f f.subIfds).length < 65536) : Pyramid where
  info := (loadImageInfo f (ofIIPImage (.new path)) 0 90).info false
  imageClass := .tpt
  subIfdOffsets := f.subIfds
  levels_pos := Nat.succ_pos _
  levels_le := by
    simpa [loadImageInfo, IIPImage.info, initializeSubIfdOffsets, ofIIPImage] using hle
  length_widths := by simp [loadImageInfo, IIPImage.info]
  length_heights := by simp [loadImageInfo, IIPImage.info]
  length_offsets := fun h => by
    simp [loadImageInfo, IIPImage.info, initializeSubIfdOffsets, ofIIPImage, lowerLevels, h]
  tileWidth_pos := hw
  tileHeight_pos := hh

theorem OpenJPEGImage.length_encodedLevels (count w h : Nat) :
    (encodedLevels count w h).length = count := by
  induction count generalizing w h with
  | zero => rfl
  | succ count ih => rw [encodedLevels, List.length_cons, ih]

/-- An object that has been loaded once has a size for every level. -/
theorem OpenJPEGImage.numResolutions_le_length (f : Jp2File) {im : IIPImage}
    (hw : im.imageWidths = []) (hh : im.imageHeights = []) :
    (loadImageInfo f im).numResolutions ≤ (loadImageInfo f im).imageWidths.length ∧
      (loadImageInfo f im).numResolutions ≤ (loadImageInfo f im).imageHeights.length := by
  have hfit := le_length_fitLevels im.tileWidth im.tileHeight f.numResolutions 1 f.width f.height
  simp only [loadImageInfo, hw, hh, List.nil_append, List.map_cons, List.headD_cons,
    List.length_append, List.length_cons, List.length_map, length_encodedLevels]
  omega

/-- A JPEG2000 file that has been loaded. -/
def OpenJPEGImage.pyramid (f : Jp2File) (path : Text)
    (hle : fitting tileSize tileSize f.width f.height < 65536) : Pyramid where
  info := (loadImageInfo f (ofIIPImage (.new path))).info true
  imageClass := .openJPEG
  subIfdOffsets := []
  levels_pos := by
    rw [IIPImage.info, numResolutions_loadImageInfo rfl rfl]
    exact Nat.le_add_right 1 _
  levels_le := by
    rw [IIPImage.info, numResolutions_loadImageInfo rfl rfl]
    exact Nat.one_add_le_iff.mpr hle
  length_widths := (numResolutions_le_length f rfl rfl).1
  length_heights := (numResolutions_le_length f rfl rfl).2
  length_offsets := fun h => absurd rfl h
  tileWidth_pos := Nat.succ_pos 255
  tileHeight_pos := Nat.succ_pos 255

namespace Pyramid

/-- The directory of a TIFF that a level is read from.  `TIFFSetDirectory` fails if there is no
such directory; an offset is taken from the vector without a check. -/
def setDirectory (P : Pyramid) (vipsres : Int) : Except Failure Unit :=
  if P.subIfdOffsets = [] ∨ vipsres = 0 then
    if 0 ≤ vipsres ∧ vipsres < P.info.numResolutions then .ok ()
    else .error (.thrown "TPTImage :: TIFFSetDirectory() failed")
  else if 0 ≤ vipsres - 1 ∧ vipsres - 1 < P.subIfdOffsets.length then .ok ()
  else .error (.fault .levelSubscript)

/-- The number of tiles of a level, as an `unsigned int`.  `TIFFNumberOfTiles` is 0 if it does
not fit. -/
def tileCount (P : Pyramid) (w h : Nat) : Nat :=
  let count := numTiles w P.info.tileWidth * numTiles h P.info.tileHeight
  if P.imageClass = .tpt ∧ 2 ^ 32 ≤ count then 0 else u32 count

/-- `getTile` of the image classes, up to the decoder: the number of the tile that is decoded.
The test for the level lets one through that does not exist. -/
def getTile (P : Pyramid) (res tile : Int32) : Except Failure Nat :=
  if P.info.numResolutions < toUnsigned res.toInt then
    .error (.thrown "Asked for non-existent resolution")
  else do
    if P.imageClass = .tpt then
      P.setDirectory ((P.info.numResolutions : Int) - 1 - toUnsigned res.toInt)
    match JTL.levelSize P.info res with
    | none => .error (.fault .levelSubscript)
    | some (w, h) =>
      if P.tileCount w h ≤ toUnsigned tile.toInt then
        .error (.thrown "Asked for non-existent tile")
      else .ok (toUnsigned tile.toInt)

/-- The size of the level is read for the physical resolution of the output, then the tile is
fetched. -/
def fetch (P : Pyramid) (resolution tile : Int32) : Except Failure Nat :=
  match JTL.levelSize P.info resolution with
  | none => .error (.fault .levelSubscript)
  | some _ => P.getTile resolution tile

end Pyramid

/-! ## 2. Requests by tile number -/

/-- `JTL::send` from the histogram on.  The smallest tile is fetched for it, if it is needed and
the image does not have it. -/
def JTL.located (P : Pyramid) (v : View) (histogram : List Nat) (resolution tile : Int32) :
    Except Failure Nat := do
  if v.requireHistogram ∧ histogram = [] then discard (P.getTile 0 0)
  P.fetch resolution tile

/-- `JTL::send`. -/
def JTL.address (P : Pyramid) (v : View) (histogram : List Nat) (resolution tile : Int32) :
    Except Failure Nat := do
  let tile ← remap P.info v resolution tile
  if resolution < 0 ∨ tile < 0 then .error (.thrown "JTL :: Invalid resolution/tile number")
  else JTL.located P v histogram resolution tile

/-- The tiles of `TIL::run`: those within the rectangle formed by the first and the last one. -/
def TIL.tiles (ntlx startTile endTile : Int) : List Int :=
  let endTile := if endTile < startTile then startTile else endTile
  let startx := startTile.tmod ntlx
  let starty := startTile.tdiv ntlx
  let endx := endTile.tmod ntlx
  let endy := endTile.tdiv ntlx
  -- the end tile can be 'behind' the start tile
  let (startx, endx) := if endx < startx then (endx, startx) else (startx, endx)
  (List.range (endx - startx + 1).toNat).flatMap fun (i : Nat) =>
    (List.range (endy - starty + 1).toNat).map fun (j : Nat) =>
      startx + i + (starty + j) * ntlx

/-! ## 3. Requests by column and row -/

/-- The tile in column `x` and row `y`, in unsigned arithmetic and as the `int` that is passed
on. -/
def tileIndex (ntlx : Nat) (x y : Int32) : Int32 := Int32.ofInt (y.toInt * ntlx + x.toInt)

/-- The tile in column `x` and row `y` of a level, passed on to `JTL::send`. -/
def JTL.cell (P : Pyramid) (v : View) (histogram : List Nat) (level x y : Int32) :
    Except Failure Nat :=
  match levelSize P.info level with
  | none => .error (.fault .levelSubscript)
  | some (w, _) => JTL.address P v histogram level (tileIndex (numTiles w P.info.tileWidth) x y)

/-- How many levels are too small for Zoomify. -/
def Zoomify.discarded (im : ImageInfo) : Nat :=
  let small := (List.range im.numResolutions).countP fun n =>
    decide (Int32.ofNat (im.imageWidths.getD n 0) < Int32.ofNat im.tileWidth ∧
      Int32.ofNat (im.imageHeights.getD n 0) < Int32.ofNat im.tileWidth)
  if 0 < small then small - 1 else small

/-- The level of a Zoomify request. -/
def Zoomify.level (im : ImageInfo) (resolution : Int32) : Int32 :=
  Int32.ofInt (resolution.toInt + Zoomify.discarded im)

/-- `Zoomify::run`, for a tile. -/
def Zoomify.address (P : Pyramid) (v : View) (histogram : List Nat) (resolution x y : Int32) :
    Except Failure Nat :=
  JTL.cell P v histogram (Zoomify.level P.info resolution) x y

/-- `dzi_res`: the logarithm of the larger side, rounded up. -/
def dziRes (width height : UInt32) : UInt32 :=
  let max := if width < height then height else width
  UInt32.ofNat (Nat.clog 2 max.toNat)

/-- Take into account the extra zoom levels required by the DeepZoom spec. -/
def zoomResolution (dziRes numResolutions : UInt32) (resolution : Int32) : Int32 :=
  let resolution := (resolution.toUInt32 - (dziRes - numResolutions) - 1).toInt32
  let resolution := if resolution < 0 then 0 else resolution
  if numResolutions - 1 < resolution.toUInt32 then (numResolutions - 1).toInt32 else resolution

/-- The level in `DeepZoom::run`. -/
def DeepZoom.resolution (width height numResolutions : UInt32) (resolution : Int32) : Int32 :=
  zoomResolution (dziRes width height) numResolutions resolution

/-- The level in `sendExistingFileResponse`. -/
def DeepZoomExt.resolution (width height numResolutions : UInt32) (resolution : Int32) : Int32 :=
  zoomResolution (dziRes width height) numResolutions resolution

/-- The level of a DeepZoom request: the client counts levels down to one pixel.  A level that
does not exist is replaced by the nearest. -/
def DeepZoom.level (im : ImageInfo) (resolution : Int32) : Int32 :=
  DeepZoom.resolution (.ofNat (im.imageWidths.headD 0)) (.ofNat (im.imageHeights.headD 0))
    (.ofNat im.numResolutions) resolution

/-- `DeepZoom::run`, for a tile. -/
def DeepZoom.address (P : Pyramid) (v : View) (histogram : List Nat) (resolution x y : Int32) :
    Except Failure Nat :=
  JTL.cell P v histogram (DeepZoom.level P.info resolution) x y

/-- `JTL_Ext::getTile`. -/
def JTLExt.address (P : Pyramid) (resolution tile : Int32) : Except Failure Nat :=
  if resolution < 0 ∨ tile < 0 then .error (.thrown "JTLExt :: Invalid resolution/tile number")
  else P.fetch resolution tile

/-- `sendExistingFileResponse` of `DeepZoomExt`, for a tile of one of the images. -/
def DeepZoomExt.address (P : Pyramid) (resolution x y : Int32) : Except Failure Nat :=
  let level := DeepZoom.level P.info resolution
  match JTL.levelSize P.info level with
  | none => .error (.fault .levelSubscript)
  | some (w, _) => JTLExt.address P level (tileIndex (numTiles w P.info.tileWidth) x y)

end Iipsrv
