/-
# Commands that send pixels

`JTL`, `CVT`, `TIL`, `SPECTRA` and `PFL`, from the open image to the output.  They differ in WHEN
they write: `JTL` and `PFL` when everything is there, `CVT` and `SPECTRA` a header before the
first tile is asked for, `TIL` a header and then tile by tile.

The numbers are those of the arguments, which `Commands.lean` reads.  What is read of the image is
read of the object as the last tile has left it.
-/
import Iipsrv.Server.Manager

namespace Iipsrv

open Lib.Print (Text decimal snprintf)
open Lib.Str
open Lib.Word (u32)

/-! ## 1. Common parts -/

/-- `getMimeType()` of the encoders. -/
def CompressionType.mimeType (ct : CompressionType) : Text :=
  if ct = .png then str "image/png" else str "image/jpeg"

/-- `getSuffix()` of the encoders. -/
def CompressionType.suffix (ct : CompressionType) : Text :=
  if ct = .png then str "png" else str "jpg"

/-- The encoder of the output format, JPEG by default. -/
def View.encoding (v : View) : CompressionType := if v.outputFormat = .png then .png else .jpeg

/-- The part of a buffer that is sent. -/
def RawTile.payload (t : RawTile) : Text := bytes (t.data.take t.dataLength)

namespace Server

variable (S : Server)

/-- `tilemanager.getTile`. -/
def tile (im : Opened) (q : Request) : Task (Opened × RawTile) := Task.manage S (S.tileOf im q)

/-- `tilemanager.getRegion`. -/
def region (im : Opened) (resolution xangle yangle layers : Int32) (x y w h : Nat) :
    Task (Opened × Region) :=
  Task.manage S (S.regionOf im resolution xangle yangle layers x y w h)

/-- Calculate the histogram from the smallest tile, and insert it into the image cache. -/
def addHistogram (im : Opened) : Task Opened := do
  let s ← get
  let (im, thumbnail) ← S.tile im (JTL.thumbnailRequest (S.image im) s.view)
  let histogram := (S.processor (s.settings im)).histogram thumbnail
  modify fun s =>
    { s with imageCache := s.imageCache.setHistogram im.base.imagePath histogram }
  return im.update fun b => { b with histogram := histogram }

/-- First calculate histogram if it is wanted, and the image does not have it. -/
def withHistogram (wanted : Bool) (im : Opened) : Task Opened :=
  if wanted ∧ im.base.histogram = [] then S.addHistogram im else pure im

end Server

/-! ## 2. A tile -/

/-- `JTL::send` behind the tile: the operations, and the encoder if that has not been done. -/
def JTL.deliver (S : Server) (s : Session) (im : Opened) (rawtile : RawTile) :
    Except Failure (RawTile × View) := do
  let (w, outcome) := JTL.transforms (S.processor (s.settings im)) im.info s.view im.base.histogram
    rawtile
  let v ← outcome
  if w.tile.compressionType = .uncompressed then
    return (← compress S.encoder v.encoding (s.quality v.encoding) w.tile, v)
  else return (w.tile, v)

/-- `JTL::send` behind `checkImage`, up to the tile. -/
def JTL.fetch (S : Server) (resolution tile : Int32) (im : Opened) :
    Task (Opened × RawTile) := do
  let s ← get
  let tile ← Task.ofExcept S (JTL.remap im.info s.view resolution tile)
  if resolution < 0 ∨ tile < 0 then
    Task.raise (.string ("JTL :: Invalid resolution/tile number: " ++ toString resolution ++
      "," ++ toString tile))
  else do
    let im ← S.withHistogram s.view.requireHistogram im
    -- the size of the level is read for the physical resolution of the output
    match JTL.levelSize im.info resolution with
    | none => throw (.fault .levelSubscript)
    | some _ => S.tile im (JTL.sendRequest (S.image im) im.info s.view s.quality resolution tile)

/-- `JTL::send`, up to the sending: the image, and the tile as it is sent. -/
def JTL.encoded (S : Server) (resolution tile : Int32) (im : Opened) :
    Task (Opened × RawTile) := do
  let (im, rawtile) ← JTL.fetch S resolution tile im
  let s ← get
  let (sent, v) ← Task.ofExcept S (JTL.deliver S s im rawtile)
  Task.modifyView fun _ => v
  return (im, sent)

/-- The sending. -/
def JTL.reply (S : Server) (r : Opened × RawTile) : Task Opened := do
  let s ← get
  Task.reply (s.response.createHTTPHeader S.version s.view.encoding.mimeType (S.timestamp r.1)
    r.2.dataLength ++ r.2.payload)
  return r.1

/-- `JTL::send` behind `checkImage`. -/
def JTL.task (S : Server) (resolution tile : Int32) (im : Opened) : Task Opened :=
  JTL.encoded S resolution tile im >>= JTL.reply S

/-! ## 3. A region -/

namespace CVT

/-- The image's file name without its directory and its suffix. -/
def basename (path : Text) : Text :=
  let pos := next (rfind ['/'] path)
  match rfind ['.'] path with
  | none => path.drop pos
  | some dot => if dot < pos then path.drop pos else (path.drop pos).take (dot - pos)

/-- The header, which is cut to a fixed buffer. -/
def header (S : Server) (s : Session) (im : Opened) (ct : CompressionType) : Text :=
  snprintf 1024 (IIPResponse.serverLine S.version ++ eof ++ str "X-Powered-By: IIPImage" ++ eof ++
    s.response.cacheControl ++ eof ++ str "Last-Modified: " ++ S.timestamp im ++ eof ++
    str "Content-Type: " ++ ct.mimeType ++ eof ++
    str "Content-Disposition: inline;filename=\"" ++ basename im.base.imagePath ++ '.' ::
    ct.suffix ++ str "\"" ++ eof ++ eof)

/-- The region as a tile.  Cells that have not been written hold anything. -/
def complete (S : Server) (im : Opened) (r : Region) : RawTile where
  tileNum := 0
  resolution := r.resolution
  hSequence := r.hSequence
  vSequence := r.vSequence
  compressionType := .uncompressed
  quality := 0
  filename := (S.image im).imagePath
  timestamp := im.base.timestamp
  data := r.data.map fun b => b.getD S.uninitialised
  dataLength := r.dataLength
  width := r.width
  height := r.height
  channels := r.channels
  bpc := r.bpc
  sampleType := r.sampleType
  padded := false

/-- The operations, in the order of `send`: unlike in `JTL` the image is resized behind the float
pipeline. -/
def transforms (S : Server) (s : Session) (im : Opened) (e : Extraction) (t : RawTile) :
    Except Failure (RawTile × View) := do
  let P := S.processor (s.settings im)
  let w := JTL.Work.applyAll P ⟨t, []⟩ (JTL.labOps im.info)
  let (v, ops) ← JTL.floatOps s.view im.base.histogram w.tile
  let t := (w.applyAll P ops).tile
  let t := if e.viewWidth ≠ e.resampledWidth ∨ e.viewHeight ≠ e.resampledHeight then
      S.resize e.resampledWidth e.resampledHeight t
    else t
  let w := JTL.Work.applyAll P ⟨t, []⟩
    (JTL.flattenOps v t ++ JTL.viewOps P im.info v im.base.histogram)
  return (w.tile, v)

/-- `InitCompression` of the two encoders: what they can encode, then the library. -/
def initCompression (S : Server) (ct : CompressionType) (quality : Int32) (t : RawTile)
    (height : Nat) : Except Failure (List UInt8) :=
  if ct = .png then
    if ¬ (t.channels = 1 ∨ t.channels = 2 ∨ t.channels = 3 ∨ t.channels = 4) then
      .error (.thrown "PNGCompressor:: only 1-4 channels are supported")
    else (S.strips.init ct quality t height).mapError .thrown
  else if ¬ (t.channels = 1 ∨ t.channels = 3) then
    .error (.thrown "JPEGCompressor: JPEG can only handle images of either 1 or 3 channels")
  else if t.bpc ≠ 8 then
    .error (.thrown "JPEGCompressor: JPEG can only handle 8 bit images")
  else (S.strips.init ct quality t height).mapError .thrown

/-- The strips of a fixed height: first row and number of rows. -/
def stripRows (height : Nat) : List (Nat × Nat) :=
  let strips := height / 128 + if height % 128 = 0 then 0 else 1
  (List.range strips).map fun n =>
    (n * 128, if n = strips - 1 ∧ height % 128 ≠ 0 then height % 128 else 128)

/-- The pixels of `send`: histogram, region, operations, and the head of the encoded image.  What
comes back is the image, the tile that is encoded and that head. -/
def pixels (S : Server) (ct : CompressionType) (e : Extraction) (im : Opened) :
    Task (Opened × RawTile × List UInt8) := do
  let s ← get
  let im ← S.withHistogram (s.view.requireHistogram && im.info.colourspace ≠ .binary) im
  let (im, r) ← S.region im (Int32.ofNat e.resolution) s.view.xangle s.view.yangle s.view.getLayers
    e.viewLeft e.viewTop e.viewWidth e.viewHeight
  let (t, v) ← Task.ofExcept S (transforms S s im e (complete S im r))
  Task.modifyView fun _ => v
  let height := if s.view.rotation ≠ 0 then t.height else e.resampledHeight
  let head ← Task.ofExcept S (initCompression S ct (s.quality ct) t height)
  return (im, t, head)

/-- `CVT::send` behind `checkImage`.  The header goes out before the pixels are there. -/
def task (S : Server) (im : Opened) : Task Opened := do
  let s ← get
  if ¬ (s.view.outputFormat = .jpeg ∨ s.view.outputFormat = .png) then return im
  else do
    let ct := s.view.outputFormat
    let (v, e) ← Task.ofExcept S (extract im.info s.view)
    Task.modifyView fun _ => v
    Task.write (header S s im ct)
    let (im, t, head) ← pixels S ct e im
    let height := if v.rotation ≠ 0 then t.height else e.resampledHeight
    Task.write (bytes head)
    (stripRows height).forM fun p => Task.write (bytes (S.strips.strip ct (s.quality ct) t p.1 p.2))
    Task.reply (bytes (S.strips.finish ct (s.quality ct) t))
    return im

end CVT

/-! ## 4. A range of tiles -/

namespace TIL

/-- The MIME type, sent once. -/
def header (S : Server) (s : Session) (im : Opened) : Text :=
  snprintf 1024 (IIPResponse.serverLine S.version ++ eof ++
    str "Content-Type: application/vnd.netfpx" ++ eof ++ str "Last-Modified: " ++ S.timestamp im ++
    eof ++ s.response.cacheControl ++ eof ++ eof)

/-- A tile with its prefix: which tile it is, its length, the compression type and subtype. -/
def entry (resolution : Int32) (n : Int) (t : RawTile) : Text :=
  let kind : List UInt8 := [if t.bpc = 8 then 2 else if t.bpc = 16 then 3 else 0, 0, 0, 0]
  snprintf 1024 (str "Tile," ++ decimal resolution.toInt ++ ',' :: decimal n ++ str ",0/" ++
      decimal (t.dataLength + 8) ++ [':']) ++
    bytes kind ++ bytes [0, 0x11, 0, 0] ++ t.payload ++ eof

/-- A tile of the range, encoded as JPEG. -/
def request (S : Server) (s : Session) (im : Opened) (resolution : Int32) (n : Int) : Request :=
  ⟨S.image im, resolution, Int32.ofInt n, s.view.xangle, s.view.yangle, s.view.getLayers, .jpeg,
    s.jpegQuality⟩

/-- The columns of the level and the tiles of the range. -/
def range (im : ImageInfo) (resolution startTile endTile : Int32) : Except Failure (List Int) :=
  match JTL.levelSize im resolution with
  | none => .error (.fault .levelSubscript)
  | some (w, _) =>
    if im.tileWidth = 0 ∨ im.tileHeight = 0 ∨ numTiles w im.tileWidth = 0 then
      .error (.fault .divisionByZero)
    else .ok (tiles (numTiles w im.tileWidth) startTile.toInt endTile.toInt)

/-- One tile of the range. -/
def sendTile (S : Server) (s : Session) (resolution : Int32) (im : Opened) (n : Int) :
    Task Opened := do
  let (im, t) ← S.tile im (request S s im resolution n)
  Task.write (entry resolution n t)
  return im

/-- `TIL::run` behind `checkImage`: the header if the rectangle is not empty, then one tile after
the other. -/
def task (S : Server) (resolution startTile endTile : Int32) (im : Opened) : Task Opened := do
  let s ← get
  let numbers ← Task.ofExcept S (range im.info resolution startTile endTile)
  if numbers ≠ [] then Task.write (header S s im)
  let im ← numbers.foldlM (sendTile S s resolution) im
  Task.modifyResponse .setImageSent
  return im

end TIL

/-! ## 5. A point in every band -/

namespace SPECTRA

/-- The reading of a band. -/
def point (S : Server) (n : Int) (t : RawTile) (index : Nat) : Text :=
  snprintf 1024 (str "\t<point>\n\t\t<wavelength>" ++ decimal n ++
    str "</wavelength>\n\t\t<reflectance>" ++ S.reflectance t index ++
    str "</reflectance>\n\t</point>\n")

/-- The tile of a band. -/
def request (S : Server) (s : Session) (im : Opened) (resolution tile : Int32) (n : Int) :
    Request :=
  ⟨S.image im, resolution, tile, Int32.ofInt n, s.view.yangle, s.view.getLayers, .uncompressed, 0⟩

/-- `y*tw + x`, an `unsigned int`, with the width of the image's tiles. -/
def index (im : Opened) (x y : Int32) : Nat :=
  u32 (y.toInt.toNat * im.base.tileWidth + x.toInt.toNat)

/-- The loop over the bands.  It ends at a tile that does not have the point.  The width of the
image's tiles is the one that the tile of the band has left. -/
def bands (S : Server) (s : Session) (resolution tile x y : Int32) :
    Opened → List Int → Task Opened
  | im, [] => pure im
  | im, n :: views => do
    let (im, t) ← S.tile im (request S s im resolution tile n)
    if Int32.ofNat t.width ≤ x ∨ Int32.ofNat t.height ≤ y then return im
    else do
      Task.write (point S n t (index im x y))
      bands S s resolution tile x y im views

/-- Make sure our x,y coordinates are within the tile dimensions: the part that reads the
image. -/
def outside (im : Opened) (x y : Int32) : Prop :=
  Int32.ofNat im.base.tileWidth ≤ x ∨ y < 0 ∨ Int32.ofNat im.base.tileHeight ≤ y

instance (im : Opened) (x y : Int32) : Decidable (outside im x y) :=
  inferInstanceAs (Decidable (_ ∨ _))

/-- The exception for a point that is not in the tile. -/
def rejected : Thrown :=
  .invalidArgument "SPECTRA :: Error: x,y coordinates outside of tile boundaries"

/-- `SPECTRA::run` behind `x < 0`, the part of the test that comes first. -/
def task (S : Server) (resolution tile x y : Int32) (im : Opened) : Task Opened := do
  let s ← get
  if outside im x y then Task.raise rejected
  else do
    Task.write (s.response.createHTTPHeader S.version (str "xml") (S.timestamp im) 0)
    Task.write (str "<?xml version=\"1.0\" encoding=\"UTF-8\"?>\n<spectra>\n")
    let im ← bands S s resolution tile x y im im.base.horizontalAnglesList
    Task.reply (str "</spectra>")
    return im

end SPECTRA

/-! ## 6. A profile -/

namespace PFL

/-- The exception for a level that does not exist. -/
def invalidResolution (resolution : Int32) : Thrown :=
  .string ("PFL :: Invalid resolution number: " ++ toString resolution)

/-- The region that is asked for. -/
structure Window where
  x : Nat
  y : Nat
  width : Nat
  height : Nat
  deriving DecidableEq

/-- Check for impossible coordinates.  The size of the level is converted to `int`s. -/
def impossible (w h : Nat) (x1 y1 x2 y2 : Int32) : Prop :=
  x1 < 0 ∨ x2 < 0 ∨ y1 < 0 ∨ y2 < 0 ∨ Int32.ofNat w < x1 ∨ Int32.ofNat w < x2 ∨
    Int32.ofNat h < y1 ∨ Int32.ofNat h < y2

instance (w h : Nat) (x1 y1 x2 y2 : Int32) : Decidable (impossible w h x1 y1 x2 y2) :=
  inferInstanceAs (Decidable (_ ∨ _))

/-- Determine whether we have a horizontal or vertical profile or just a single point. -/
def window (x1 y1 x2 y2 : Int32) : Window where
  x := x1.toInt.toNat
  y := y1.toInt.toNat
  width := if x1 < x2 then (x2.toInt - x1.toInt).toNat else 1
  height := if x1 < x2 then 1 else if y1 < y2 then (y2.toInt - y1.toInt).toNat else 1

/-- The bytes of sample `j`, as the depth says.  At other depths the intensity stays 0 and nothing
is read. -/
def sample (r : Region) (j : Nat) : Option (List (Option UInt8)) :=
  match sampleBytes r.bpc with
  | none => some []
  | some n => if j * n + n ≤ r.data.length then some ((r.data.drop (j * n)).take n) else none

/-- The loop over the samples of a band.  Its counter is an `unsigned int`, and `length` an
`unsigned long`: from `2 ^ 32` on it does not end. -/
def samples (r : Region) (length : Nat) : Option (List (List (Option UInt8))) :=
  if length < 2 ^ 32 then (List.range length).mapM (sample r) else none

/-- What is written for a band. -/
structure Band where
  wavelength : Int
  bpc : Nat
  sampleType : SampleType
  values : List (List (Option UInt8))

/-- The region of data for a wavelength. -/
def region (S : Server) (s : Session) (resolution : Int32) (p : Window) (im : Opened)
    (wavelength : Int) : Task (Opened × Region) :=
  S.region im resolution (Int32.ofInt wavelength) s.view.yangle s.view.getLayers p.x p.y p.width
    p.height

/-- The loop over the bands.  `length` is multiplied by the channels of EVERY band. -/
def bands (S : Server) (s : Session) (resolution : Int32) (p : Window) :
    (length : Nat) → Opened → List Int → Task (Opened × List Band)
  | _, im, [] => pure (im, [])
  | length, im, wavelength :: views => do
    let (im, r) ← region S s resolution p im wavelength
    let length := length * r.channels % 2 ^ 64
    match samples r length with
    | none => throw (.fault .outOfBounds)
    | some values => do
      let (im, rest) ← bands S s resolution p length im views
      return (im, ⟨wavelength, r.bpc, r.sampleType, values⟩ :: rest)

/-- The list of a band.  Nine digits are set for good with the first floating point number. -/
def lines (S : Server) (several : Bool) : (nine : Bool) → List Band → Text
  | _, [] => []
  | nine, b :: rest =>
    let nine := nine || (b.sampleType = .floatingPoint && b.values ≠ [])
    (if several then str "\t\t" ++ decimal b.wavelength ++ str ": " else []) ++ '[' ::
      [','].intercalate (b.values.map (S.intensity nine b.bpc b.sampleType)) ++
      (if rest = [] then str "]\n" else str "],\n") ++ lines S several nine rest

/-- The results in a string. -/
def json (S : Server) (l : List Band) : Text :=
  let several := decide (1 < l.length)
  str "\x7b\n\t\"profile\": " ++ (if several then str "\x7b\n" else []) ++
    lines S several false l ++ (if several then str "\t\x7d\n" else []) ++ str "\x7d"

/-- What follows the checks.  Nothing is written before all bands have been read. -/
def send (S : Server) (resolution : Int32) (p : Window) (im : Opened) : Task Opened := do
  let s ← get
  let (im, l) ← bands S s resolution p (p.width * p.height) im im.base.horizontalAnglesList
  Task.reply (s.response.createHTTPHeader S.version (str "json") (S.timestamp im) 0 ++ json S l)
  return im

/-- `PFL::run` behind `resolution < 0`, the part of the test that comes first. -/
def task (S : Server) (resolution x1 y1 x2 y2 : Int32) (im : Opened) : Task Opened :=
  if Int32.ofNat im.base.numResolutions ≤ resolution then Task.raise (invalidResolution resolution)
  else
    match JTL.levelSize im.info resolution with
    | none => throw (.fault .levelSubscript)
    | some (w, h) =>
      if impossible w h x1 y1 x2 y2 then
        Task.raise (.string ("PFL :: Invalid coordinates: " ++ toString x1 ++ "," ++ toString y1 ++
          "-" ++ toString x2 ++ "," ++ toString y2 ++ "\n"))
      else send S resolution (window x1 y1 x2 y2) im

end PFL

end Iipsrv
