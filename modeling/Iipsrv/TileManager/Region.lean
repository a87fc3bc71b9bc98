/-
# Regions composed from tiles

`TileManager::getRegion`: unless the image class decodes regions itself, the region is put
together from the raw tiles it touches.  The two loops over rows and columns of tiles keep
running positions in the region, and for each tile decide how much of it is used and from
where; then its lines are copied.

The sizes are `unsigned int`s: where the source computes in them the model takes the remainder
modulo `2 ^ 32`.  The number of the last tile is the ceiling of a `float` quotient, which beyond
`2 ^ 24` may be another one than the exact ceiling, in either direction.

The code for the two axes is the same with other names, so it is stated once (`viewTiles`,
`Axis.part`).
-/
import Iipsrv.TileManager.Model
import Iipsrv.Lib.Raster
import Iipsrv.Lib.Single
import Iipsrv.Lib.Word

namespace Iipsrv

open Lib.Buffer Lib.Word
open Lib.Single (quotient)

/-! ## 1. One axis -/

/-- The number of tiles along an axis: `im_width / tw`, and one more for the remainder. -/
def numTiles (size tile : Nat) : Nat := size / tile + if size % tile = 0 then 0 else 1

/-- The first tile, the one behind the last, and the offset in the first: `startx`, `endx` and
`xoffset`, or `starty`, `endy` and `yoffset`. -/
structure Axis where
  start : Nat
  stop : Nat
  offset : Nat

/-- The tiles that the region from `pos` on touches.  `whole` says that the region is the whole
image. -/
def viewTiles (whole : Bool) (size tile pos len : Nat) : Axis :=
  if whole then ⟨0, numTiles size tile, 0⟩
  else ⟨pos / tile, ⌈quotient (u32 (len + pos)) tile⌉₊, pos % tile⟩

/-- The part of tile `j` that is used: its extent (`dst_tile_width`) and where it begins in the
tile (`xf`).  `src` is the extent of this tile, `tile` that of a full one. -/
def Axis.part (v : Axis) (whole : Bool) (tile pos len src j : Nat) : Nat × Nat :=
  if whole then (src, 0)
  else if j = v.start then
    -- if there is only 1 tile, the width is just the view width
    (if j < sub32 v.stop 1 then sub32 src v.offset else len, v.offset)
  else if j = sub32 v.stop 1 then
    let remainder := u32 (len + pos) % tile
    (if remainder ≠ 0 then remainder else src, 0)
  else (src, 0)

/-! ## 2. Composing -/

/-- The tile that `getRegion` returns.  Its cells are `none` until they are written. -/
structure Region where
  resolution : Int32
  hSequence : Int32
  vSequence : Int32
  width : Nat
  height : Nat
  channels : Nat
  bpc : Nat
  sampleType : SampleType
  dataLength : Nat
  data : List (Option UInt8)

/-- What stays the same through the loops. -/
structure Composition where
  tileWidth : Nat
  tileHeight : Nat
  ntlx : Nat
  whole : Bool
  cols : Axis
  rows : Axis
  x : Nat
  y : Nat
  width : Nat
  height : Nat
  channels : Nat
  bpc : Nat

/-- What the loops change: the buffer of the region, `current_width`, `current_height` and
`dst_tile_height`, which the outer loop still reads after the inner one. -/
structure Composed where
  data : List (Option UInt8)
  currentWidth : Nat
  currentHeight : Nat
  dstTileHeight : Nat

/-- The size of a sample in the three depths that are copied; for others nothing is allocated or
copied. -/
def sampleBytes (bpc : Nat) : Option Nat :=
  if bpc = 8 then some 1 else if bpc = 16 then some 2 else if bpc = 32 then some 4 else none

/-- The innermost loop: the lines of one tile. -/
def copyLines (g : Composition) (bytes : Nat) (rawtile : RawTile) (st : Composed)
    (xf yf dstWidth dstHeight : Nat) : Option (List (Option UInt8)) :=
  (List.range' 0 dstHeight).foldlM
    (fun data k =>
      let bufferIndex := u32 (st.currentWidth * g.channels + k * g.width * g.channels +
        st.currentHeight * g.width * g.channels)
      let inx := u32 ((k + yf) * rawtile.width * g.channels + xf * g.channels)
      copy data (bufferIndex * bytes) (rawtile.data.map some) (inx * bytes)
        (u32 (dstWidth * g.channels * bytes)))
    st.data

/-- A raw tile of the level, by its number. -/
def tileRequest (im : Image) (res seq ang layers : Int32) (n : Nat) : Request :=
  ⟨im, res, (UInt32.ofNat n).toInt32, seq, ang, layers, .uncompressed, 0⟩

/-- The body of the inner loop, with the tile at hand: copy the part of it that is used. -/
def composePart (g : Composition) (i j : Nat) (rawtile : RawTile) (st : Composed) :
    Except Failure Composed :=
  let col := g.cols.part g.whole g.tileWidth g.x g.width rawtile.width j
  let row := g.rows.part g.whole g.tileHeight g.y g.height rawtile.height i
  let data := match sampleBytes g.bpc with
    | none => some st.data
    | some bytes => copyLines g bytes rawtile st col.2 row.2 col.1 row.1
  match data with
  | none => .error (.fault .outOfBounds)
  | some data => .ok
      { st with
        data := data
        currentWidth := u32 (st.currentWidth + col.1)
        dstTileHeight := row.1 }

/-- One turn of the inner loop. -/
def composeTile (K : Codec) (E : Encoder) (a : StringAlloc) (im : Image)
    (res seq ang layers : Int32) (g : Composition) (i : Nat) (st : Composed) (j : Nat) :
    Manager Composed := do
  let rawtile ← getTile K E a (tileRequest im res seq ang layers (i * g.ntlx + j))
  .ofExcept (composePart g i j rawtile st)

/-- One turn of the outer loop: a row of tiles. -/
def composeRow (K : Codec) (E : Encoder) (a : StringAlloc) (im : Image)
    (res seq ang layers : Int32) (g : Composition) (st : Composed) (i : Nat) :
    Manager Composed := do
  let st ← (List.range' g.cols.start (g.cols.stop - g.cols.start)).foldlM
    (composeTile K E a im res seq ang layers g i) { st with currentWidth := 0 }
  return { st with currentHeight := u32 (st.currentHeight + st.dstTileHeight) }

/-- 1 bit data has been unpacked to 8 bits per channel. -/
def ImageInfo.regionBpc (im : ImageInfo) : Nat := if im.bpc = 1 then 8 else im.bpc

/-- What `getRegion` works out before its loops, for a level of this size. -/
def ImageInfo.composition (im : ImageInfo) (imWidth imHeight x y width height : Nat) :
    Composition :=
  let whole := decide (x = 0 ∧ y = 0 ∧ width = imWidth ∧ height = imHeight)
  { tileWidth := im.tileWidth, tileHeight := im.tileHeight
    ntlx := numTiles imWidth im.tileWidth, whole := whole
    cols := viewTiles whole imWidth im.tileWidth x width
    rows := viewTiles whole imHeight im.tileHeight y height
    x := x, y := y, width := width, height := height
    channels := im.channels, bpc := im.regionBpc }

/-- The region before the loops: its cells are allocated. -/
def ImageInfo.allocated (im : ImageInfo) (width height : Nat) : Composed :=
  { data := fresh (u32 (width * height * im.channels) * (sampleBytes im.regionBpc).getD 0)
    currentWidth := 0, currentHeight := 0, dstTileHeight := im.tileHeight }

/-- The region behind the loops. -/
def ImageInfo.region (im : ImageInfo) (res seq ang : Int32) (width height : Nat) (st : Composed) :
    Region where
  resolution := res
  hSequence := seq
  vSequence := ang
  width := width
  height := height
  channels := im.channels
  bpc := im.regionBpc
  sampleType := im.sampleType
  dataLength := u32 (width * height * im.channels * (im.regionBpc / 8))
  data := st.data

/-- The size of the level, `image_widths[num_res-res-1]` and `image_heights[num_res-res-1]`.  The
subscript is an `unsigned int`. -/
def ImageInfo.regionLevel (im : ImageInfo) (res : Int32) : Option (Nat × Nat) :=
  let level := sub32 (sub32 im.numResolutions res.toUInt32.toNat) 1
  match im.imageWidths[level]?, im.imageHeights[level]? with
  | some imWidth, some imHeight => some (imWidth, imHeight)
  | _, _ => none

/-- The region that an image class has decoded itself. -/
def Decoded.region (d : Decoded) (res seq ang : Int32) : Region where
  resolution := res
  hSequence := seq
  vSequence := ang
  width := d.width
  height := d.height
  channels := d.channels
  bpc := d.bpc
  sampleType := d.sampleType
  dataLength := d.dataLength
  data := d.data.map some

/-- `TileManager::getRegion`. -/
def getRegion (K : Codec) (E : Encoder) (a : StringAlloc) (im : Image)
    (res seq ang layers : Int32) (x y width height : Nat) : Manager Region := do
  let info := K.info im.imagePath.chars im.timestamp
  if info.regionDecoding then
    match K.getRegion im.imagePath.chars im.timestamp seq ang res layers x y width height with
    | .error m => throw (.thrown m)
    | .ok d => return d.region res seq ang
  else
    match info.regionLevel res with
    | none => throw (.fault .levelSubscript)
    | some (imWidth, imHeight) =>
      if info.tileWidth = 0 ∨ info.tileHeight = 0 then throw (.fault .divisionByZero)
      else
        let g := info.composition imWidth imHeight x y width height
        let st ← (List.range' g.rows.start (g.rows.stop - g.rows.start)).foldlM
          (composeRow K E a im res seq ang layers g) (info.allocated width height)
        return info.region res seq ang width height st

end Iipsrv
