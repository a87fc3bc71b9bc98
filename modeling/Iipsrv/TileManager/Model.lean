/-
# The tile manager

`TileManager.cc`: a request for a tile is answered from the tile cache when it holds the tile,
encoded as asked for or raw, and not older than the image; otherwise the tile is decoded,
cropped, encoded and put into the cache.

The manager works on the cache as its state, and a C++ exception leaves the cache as it is at
that point, so the model is in `EStateM`: a computation returns or fails, and either way there
is a cache afterwards.  A failure is an exception of the source (`thrown`) or undefined
behaviour (`fault`).

The codec is a parameter: what `loadImageInfo` and `getTile` of the image classes deliver is a
function of the image's path and timestamp.  So is what the encoders do with the pixels.
Watermarks and the log are left out.
-/
import Iipsrv.Cache.Refine
import Iipsrv.Lib.Buffer

namespace Iipsrv

open Lib.Print (Text)

/-! ## 1. Images and codecs -/

/-- What is read off an image object besides its tiles: the fields that `loadImageInfo` sets.  The
first entry of the two lists is the full size. -/
structure ImageInfo where
  tileWidth : Nat
  tileHeight : Nat
  numResolutions : Nat
  imageWidths : List Nat
  imageHeights : List Nat
  channels : Nat
  bpc : Nat
  sampleType : SampleType
  colourspace : ColourSpaces
  regionDecoding : Bool
  deriving DecidableEq

/-- What a codec's `getTile` sets in the tile it returns, besides the fields that say which tile
it is. -/
structure Decoded where
  width : Nat
  height : Nat
  channels : Nat
  bpc : Nat
  sampleType : SampleType
  data : List UInt8
  dataLength : Nat
  padded : Bool

/-- The image classes, as functions of path and timestamp.  The arguments behind these two are
the source's: sequence, angle, resolution, layers, and then the tile of `getTile` and the
position and size of `getRegion`. -/
structure Codec where
  info : Text → Int → ImageInfo
  getTile : Text → Int → Int32 → Int32 → Int32 → Int32 → Int32 → Except String Decoded
  getRegion : Text → Int → Int32 → Int32 → Int32 → Int32 → Nat → Nat → Nat → Nat →
    Except String Decoded

/-- An open image: `getImagePath()` and `timestamp`. -/
structure Image where
  imagePath : StdString
  timestamp : Int
  deriving DecidableEq

/-- The image libraries behind the two compressors, at a quality: from width, height, channels,
bits and the bytes of the tile to the bytes of the file. -/
structure Encoder where
  jpeg : Int32 → Nat → Nat → Nat → List UInt8 → Except String (List UInt8)
  png : Int32 → Nat → Nat → Nat → Nat → List UInt8 → Except String (List UInt8)

/-- A request to `TileManager::getTile`, with the image the manager was made for and the quality
of its compressor.  The compressor is the one for the type asked for. -/
structure Request where
  image : Image
  resolution : Int32
  tile : Int32
  xangle : Int32
  yangle : Int32
  layers : Int32
  ctype : CompressionType
  quality : Int32
  deriving DecidableEq

/-- Why a request is not answered. -/
inductive Failure
  | fault (f : Fault)
  | thrown (message : String)
  deriving DecidableEq

/-! ## 2. Cropping -/

open Lib.Buffer

/-- `TileManager::crop`: copy the tile into a buffer, then its scanlines back to the front.
`len` is an `int`, so a padded tile of 2 GiB asks `malloc` for a negative size. -/
def crop (im : ImageInfo) (t : RawTile) : Except Failure RawTile :=
  let len := im.tileWidth * im.tileHeight * t.channels * (t.bpc / 8) % 2 ^ 32
  if 2 ^ 31 ≤ len ∨ t.data.length < len then .error (.fault .outOfBounds)
  else
    let buffer := t.data.take len
    let line := t.width * t.channels * (t.bpc / 8) % 2 ^ 32
    let stride := im.tileWidth * t.channels * (t.bpc / 8) % 2 ^ 32
    let lines := (List.range t.height).foldlM
      (fun data i => copy data (i * line) buffer (i * stride) line) t.data
    match lines with
    | none => .error (.fault .outOfBounds)
    | some data => .ok
        { t with
          data := data
          dataLength := t.width * t.height * t.channels * (t.bpc / 8) % 2 ^ 32
          padded := false }

/-- The test in front of both calls of `crop`: edge tiles are cropped if they are padded. -/
def cropEdge (im : ImageInfo) (t : RawTile) : Except Failure RawTile :=
  if (t.width ≠ im.tileWidth ∨ t.height ≠ im.tileHeight) ∧ t.padded = true then crop im t
  else .ok t

/-! ## 3. Compressing -/

/-- What `Compress` leaves in the tile: the encoded bytes, in the old buffer if they fit. -/
def RawTile.encoded (t : RawTile) (ct : CompressionType) (quality : Int32) (out : List UInt8) :
    RawTile :=
  { t with
    data := if t.dataLength < out.length then out else out ++ t.data.drop out.length
    dataLength := out.length
    compressionType := ct
    quality := quality }

/-- The bytes that `JPEGCompressor::Compress` gets from the library, or why it throws. -/
def jpegBytes (E : Encoder) (quality : Int32) (t : RawTile) : Except Failure (List UInt8) :=
  if ¬ (t.channels = 1 ∨ t.channels = 3) then
    .error (.thrown "JPEGCompressor: JPEG can only handle images of either 1 or 3 channels")
  else if t.bpc ≠ 8 then
    .error (.thrown "JPEGCompressor: JPEG can only handle 8 bit images")
  else (E.jpeg quality t.width t.height t.channels (t.data.take t.dataLength)).mapError .thrown

/-- The bytes that `PNGCompressor::Compress` gets from the library, or why it throws. -/
def pngBytes (E : Encoder) (quality : Int32) (t : RawTile) : Except Failure (List UInt8) :=
  if ¬ (t.channels = 1 ∨ t.channels = 2 ∨ t.channels = 3 ∨ t.channels = 4) then
    .error (.thrown "PNGCompressor:: only 1-4 channels are supported")
  else (E.png quality t.width t.height t.channels t.bpc
    (t.data.take t.dataLength)).mapError .thrown

/-- `compressor->Compress`, for the compressor of this type. -/
def compress (E : Encoder) (ct : CompressionType) (quality : Int32) (t : RawTile) :
    Except Failure RawTile :=
  match ct with
  | .jpeg => (jpegBytes E quality t).map (t.encoded .jpeg quality)
  | .png => (pngBytes E quality t).map (t.encoded .png quality)
  | .uncompressed | .deflate => .ok t

/-- A raw tile is encoded on the way out: as JPEG if it has 8 bits and 1 or 3 channels, as PNG
always. -/
def Encodes (ct : CompressionType) (t : RawTile) : Prop :=
  (ct = .jpeg ∧ t.bpc = 8 ∧ (t.channels = 1 ∨ t.channels = 3)) ∨ ct = .png

instance (ct : CompressionType) (t : RawTile) : Decidable (Encodes ct t) :=
  inferInstanceAs (Decidable (_ ∨ _))

/-! ## 4. The manager -/

/-- A computation of the manager, over the tile cache. -/
abbrev Manager := EStateM Failure Cache

/-- A step that does not touch the cache. -/
def Manager.ofExcept {α : Type} (x : Except Failure α) : Manager α := fun c =>
  match x with
  | .ok t => .ok t c
  | .error e => .error e c

/-- `tileCache->getTile`. -/
def Manager.cached (i : TileId) : Manager (Option RawTile) := fun c =>
  match c.getTile i.filename i.resolution i.tileNum i.hSequence i.vSequence i.compressionType
      i.quality with
  | .ok (c', t) => .ok t c'
  | .error f => .error (.fault f) c

/-- `tileCache->insert`. -/
def Manager.insert (a : StringAlloc) (t : RawTile) : Manager Unit := fun c =>
  match c.insert a t with
  | .ok c' => .ok () c'
  | .error f => .error (.fault f) c

/-- The identity a request looks up, for a compression type and quality. -/
def Request.tileId (q : Request) (ct : CompressionType) (quality : Int32) : TileId :=
  ⟨q.image.imagePath.chars, q.resolution, q.tile, q.xangle, q.yangle, ct, quality⟩

/-- `ttt = image->getTile( ... )`: the codec's tile, its fields set as every image class sets
them, copied by the assignment. -/
def decode (K : Codec) (q : Request) : Except Failure RawTile :=
  match K.getTile q.image.imagePath.chars q.image.timestamp q.xangle q.yangle q.resolution
      q.layers q.tile with
  | .error m => .error (.thrown m)
  | .ok d => .ok <| RawTile.copy
      { tileNum := q.tile, resolution := q.resolution
        hSequence := q.xangle, vSequence := q.yangle
        compressionType := .uncompressed, quality := 0
        filename := q.image.imagePath, timestamp := q.image.timestamp
        data := d.data, dataLength := d.dataLength
        width := d.width, height := d.height, channels := d.channels, bpc := d.bpc
        sampleType := d.sampleType, padded := d.padded }

/-- The image information the manager reads for this request. -/
def Request.info (K : Codec) (q : Request) : ImageInfo :=
  K.info q.image.imagePath.chars q.image.timestamp

/-- `TileManager::getNewTile`. -/
def getNewTile (K : Codec) (E : Encoder) (a : StringAlloc) (q : Request) : Manager RawTile := do
  let ttt ← .ofExcept (decode K q)
  let ttt ← .ofExcept (cropEdge (q.info K) ttt)
  let ttt ← match q.ctype with
    | .uncompressed => pure ttt
    | .jpeg =>
      -- JPEG compression iff we have an 8 bit per channel image
      if ttt.bpc = 8 ∧ (ttt.channels = 1 ∨ ttt.channels = 3) then
        .ofExcept (compress E .jpeg q.quality ttt)
      else pure ttt
    | .png => .ofExcept (compress E .png q.quality ttt)
    | .deflate => pure ttt
  .insert a ttt
  return ttt

/-- The lookups at the head of `getTile`: the encoded tile, then the raw one. -/
def lookupTile (q : Request) : Manager (Option RawTile) :=
  match q.ctype with
  | .jpeg | .png => do
    match ← .cached (q.tileId q.ctype q.quality) with
    | some t => return some t
    | none => .cached (q.tileId .uncompressed 0)
  | .uncompressed => .cached (q.tileId .uncompressed 0)
  | .deflate => return none

/-- A raw tile from the cache, encoded on the fly and cached in that form too. -/
def convert (K : Codec) (E : Encoder) (a : StringAlloc) (q : Request) (t : RawTile) :
    Manager RawTile := do
  let ttt ← .ofExcept (cropEdge (q.info K) t.copy)
  let ttt ← .ofExcept (compress E q.ctype q.quality ttt)
  .insert a ttt
  return ttt.copy

/-- `TileManager::getTile`. -/
def getTile (K : Codec) (E : Encoder) (a : StringAlloc) (q : Request) : Manager RawTile := do
  match ← lookupTile q with
  | none => getNewTile K E a q
  | some t =>
    if t.timestamp < q.image.timestamp then getNewTile K E a q
    else if t.compressionType = .uncompressed ∧ Encodes q.ctype t then convert K E a q t
    else return t.copy

/-! ## 5. Runs -/

/-- The cache after one request: an exception ends the request, undefined behaviour the run. -/
def serve (K : Codec) (E : Encoder) (a : StringAlloc) (c : Cache) (q : Request) : Option Cache :=
  match getTile K E a q c with
  | .ok _ c' => some c'
  | .error (.thrown _) c' => some c'
  | .error (.fault _) _ => none

/-- The cache after a sequence of requests. -/
def serveAll (K : Codec) (E : Encoder) (a : StringAlloc) (c : Cache) (qs : List Request) :
    Option Cache :=
  qs.foldlM (serve K E a) c

/-- What a client sees of a tile: its bytes and their description. -/
structure Shown where
  data : List UInt8
  width : Nat
  height : Nat
  channels : Nat
  bpc : Nat
  compressionType : CompressionType
  quality : Int32
  deriving DecidableEq

def RawTile.shown (t : RawTile) : Shown :=
  ⟨t.data.take t.dataLength, t.width, t.height, t.channels, t.bpc, t.compressionType, t.quality⟩

/-- What a request gets from this cache. -/
def answer (K : Codec) (E : Encoder) (a : StringAlloc) (c : Cache) (q : Request) :
    Except Failure Shown :=
  match getTile K E a q c with
  | .ok t _ => .ok t.shown
  | .error e _ => .error e

end Iipsrv
