/-
# The tiles of a level

A level of an image is a raster (`TiledLevel`), stored as tiles that are padded to the full tile
size.  `crop` takes the padding off the edge tiles (`crop_spec`), so that a new tile shows exactly
the pixels that the level has in its place (`newTile_isTile`).
-/
import Iipsrv.TileManager.Cached
import Iipsrv.TileManager.Grid

namespace Iipsrv

open Lib.Raster Lib.Buffer Lib.Word

/-! ## 1. Cropping -/

/-- The bytes of a pixel. -/
def pixelBytes (channels bpc : Nat) : Nat := channels * (bpc / 8)

/-- Scanline by scanline from the left edge: the loop of `crop` is a blit. -/
theorem cropLines_eq_blit (data : List UInt8) (w W B h : Nat) :
    (List.range h).foldlM
        (fun out i => copy out (i * (w * B)) data (i * (W * B)) (w * B)) data
      = blit B data w 0 0 data W 0 0 w h := by
  have hplace : ∀ W k, place W B 0 (0 + k) 0 = k * (W * B) := by
    intro W k
    unfold place
    ring
  unfold blit
  rw [List.range_eq_range']
  simp only [hplace]

/-- **`crop` takes off the padding.**  A tile whose buffer holds a full tile of less than 2 GiB
is turned into the raster of its own width, in place. -/
theorem crop_spec {im : ImageInfo} {t : RawTile} {B : Nat} (hB : pixelBytes t.channels t.bpc = B)
    (hlen : t.data.length = im.tileWidth * im.tileHeight * B)
    (hsmall : im.tileWidth * im.tileHeight * B < 2 ^ 31) (hth : 1 ≤ im.tileHeight)
    (hw : t.width ≤ im.tileWidth) (hh : t.height ≤ im.tileHeight) :
    ∃ t', crop im t = .ok t' ∧
      t' = { t with data := t'.data, dataLength := t.width * t.height * B, padded := false } ∧
      t'.data.length = t.data.length ∧
      ∀ x y b, x < t.width → y < t.height → b < B →
        t'.data[place t.width B x y b]? = t.data[place im.tileWidth B x y b]? := by
  have hB' : ∀ n, n * t.channels * (t.bpc / 8) = n * B := by
    intro n
    rw [Nat.mul_assoc, ← hB, pixelBytes]
  -- none of the products wraps
  have hstride : im.tileWidth * B ≤ im.tileWidth * im.tileHeight * B :=
    Nat.mul_le_mul_right B (Nat.le_mul_of_pos_right _ hth)
  have hline : t.width * B ≤ im.tileWidth * B := Nat.mul_le_mul_right B hw
  have hall : t.width * t.height * B ≤ im.tileWidth * im.tileHeight * B :=
    Nat.mul_le_mul_right B (Nat.mul_le_mul hw hh)
  have hmod : ∀ n, n ≤ im.tileWidth * im.tileHeight * B → n % 2 ^ 32 = n :=
    fun n hn => Nat.mod_eq_of_lt (by omega)
  have hdst : t.width * t.height * B ≤ t.data.length := by omega
  have hsrc : im.tileWidth * im.tileHeight * B ≤ t.data.length := by omega
  obtain ⟨data, hblit, hdata, hcells⟩ : ∃ out,
      blit B t.data t.width 0 0 t.data im.tileWidth 0 0 t.width t.height = some out ∧
        Copied B t.data t.width 0 0 t.data im.tileWidth 0 0 t.width t.height out :=
    blit_spec hdst hsrc (by omega) (by omega) (by omega) (by omega)
  refine ⟨{ t with data := data, dataLength := t.width * t.height * B, padded := false }, ?_, rfl,
    hdata, ?_⟩
  · unfold crop
    dsimp only
    rw [hB', hB', hB', hB', hmod _ (Nat.le_refl _), hmod _ (by omega), hmod _ (by omega),
      hmod _ hall, if_neg (by omega), List.take_of_length_le (by omega), cropLines_eq_blit, hblit]
  · intro x y b hx hy hb
    rw [hcells x y b hx hb, if_pos (by omega), Nat.zero_add, Nat.zero_add, Nat.sub_zero,
      Nat.sub_zero]

/-! ## 2. Levels stored as padded tiles -/

/-- An image level that is stored as tiles.  `byte x y b` is byte `b` of the pixel in column `x`
and row `y`.  `tile n` is what the library reads for tile `n`: a full tile, row by row, whose
pixels are those of the level wherever it has pixels. -/
structure TiledLevel where
  width : Nat
  height : Nat
  tileWidth : Nat
  tileHeight : Nat
  channels : Nat
  bpc : Nat
  sampleType : SampleType
  byte : Nat → Nat → Nat → UInt8
  tile : Nat → List UInt8
  width_pos : 1 ≤ width
  height_pos : 1 ≤ height
  width_le : width ≤ 2 ^ 24
  height_le : height ≤ 2 ^ 24
  tileWidth_pos : 1 ≤ tileWidth
  tileHeight_pos : 1 ≤ tileHeight
  depth : bpc = 8 ∨ bpc = 16 ∨ bpc = 32
  length_tile : ∀ n, (tile n).length = tileWidth * tileHeight * pixelBytes channels bpc
  tile_byte : ∀ i j x y b, j < numTiles width tileWidth → x < tileWidth → y < tileHeight →
    b < pixelBytes channels bpc → j * tileWidth + x < width → i * tileHeight + y < height →
    (tile (i * numTiles width tileWidth + j))[place tileWidth (pixelBytes channels bpc) x y b]?
      = some (byte (j * tileWidth + x) (i * tileHeight + y) b)

namespace TiledLevel

/-- The number of tiles in a row of the level. -/
def ntlx (L : TiledLevel) : Nat := numTiles L.width L.tileWidth

/-- The number of rows of tiles. -/
def ntly (L : TiledLevel) : Nat := numTiles L.height L.tileHeight

/-- The bytes of a pixel of the level. -/
def pixel (L : TiledLevel) : Nat := pixelBytes L.channels L.bpc

/-- `TPTImage::getTile`, from the check of the tile number on: the last tile of a row or column
has the size of the remainder, the buffer is a full tile. -/
def getTile (L : TiledLevel) (n : Nat) : Except String Decoded :=
  if L.ntlx * L.ntly ≤ n then .error ("TPTImage :: Asked for non-existent tile: " ++ toString n)
  else .ok
    { width := tileExtent L.width L.tileWidth (n % L.ntlx)
      height := tileExtent L.height L.tileHeight (n / L.ntlx)
      channels := L.channels
      bpc := L.bpc
      sampleType := L.sampleType
      data := L.tile n
      dataLength := (L.tile n).length
      padded := true }

end TiledLevel

/-- The image class serves this level: it tells the level's sizes, does not decode regions
itself, and its tiles are those of the level. -/
structure Serves (K : Codec) (im : Image) (res seq ang layers : Int32) (L : TiledLevel) : Prop where
  tileWidth : (K.info im.imagePath.chars im.timestamp).tileWidth = L.tileWidth
  tileHeight : (K.info im.imagePath.chars im.timestamp).tileHeight = L.tileHeight
  channels : (K.info im.imagePath.chars im.timestamp).channels = L.channels
  bpc : (K.info im.imagePath.chars im.timestamp).bpc = L.bpc
  regionDecoding : (K.info im.imagePath.chars im.timestamp).regionDecoding = false
  width : (K.info im.imagePath.chars im.timestamp).imageWidths[
    sub32 (sub32 (K.info im.imagePath.chars im.timestamp).numResolutions res.toUInt32.toNat) 1]?
      = some L.width
  height : (K.info im.imagePath.chars im.timestamp).imageHeights[
    sub32 (sub32 (K.info im.imagePath.chars im.timestamp).numResolutions res.toUInt32.toNat) 1]?
      = some L.height
  tiles : ∀ tile : Int32, K.getTile im.imagePath.chars im.timestamp seq ang res layers tile
    = L.getTile tile.toUInt32.toNat

/-- `t` is the tile in column `j` and row `i` of the level, without padding. -/
structure IsTile (L : TiledLevel) (i j : Nat) (t : RawTile) : Prop where
  width : t.width = tileExtent L.width L.tileWidth j
  height : t.height = tileExtent L.height L.tileHeight i
  length : t.width * t.height * L.pixel ≤ t.data.length
  byte : ∀ x y b, x < t.width → y < t.height → b < L.pixel →
    t.data[place t.width L.pixel x y b]?
      = some (L.byte (j * L.tileWidth + x) (i * L.tileHeight + y) b)

/-- `t` is that tile as it is stored, padded to the full size. -/
structure IsPadded (L : TiledLevel) (i j : Nat) (t : RawTile) : Prop where
  width : t.width = tileExtent L.width L.tileWidth j
  height : t.height = tileExtent L.height L.tileHeight i
  channels : t.channels = L.channels
  bpc : t.bpc = L.bpc
  data : t.data = L.tile (i * L.ntlx + j)
  dataLength : t.dataLength = t.data.length
  padded : t.padded = true

variable {K : Codec} {E : Encoder} {a : StringAlloc} {im : Image} {res seq ang layers : Int32}
  {L : TiledLevel}

/-- A pixel of a tile's own extent is a pixel of the full tile and of the level. -/
theorem lt_of_lt_tileExtent {size tile j x : Nat} (ht : 1 ≤ tile) (hs : 1 ≤ size)
    (hj : j < numTiles size tile) (hx : x < tileExtent size tile j) :
    x < tile ∧ j * tile + x < size := by
  rw [tileExtent_eq ht hs hj] at hx
  omega

namespace IsPadded

variable {i j : Nat} {t : RawTile}

theorem length (ht : IsPadded L i j t) :
    t.data.length = L.tileWidth * L.tileHeight * L.pixel := by
  rw [ht.data]
  exact L.length_tile _

/-- The bytes of the full tile, as far as they are the level's. -/
theorem byte (ht : IsPadded L i j t) (hj : j < L.ntlx) (hi : i < L.ntly) {x y b : Nat}
    (hx : x < t.width) (hy : y < t.height) (hb : b < L.pixel) :
    t.data[place L.tileWidth L.pixel x y b]?
      = some (L.byte (j * L.tileWidth + x) (i * L.tileHeight + y) b) := by
  rw [ht.width] at hx
  rw [ht.height] at hy
  obtain ⟨hx, hx'⟩ := lt_of_lt_tileExtent L.tileWidth_pos L.width_pos hj hx
  obtain ⟨hy, hy'⟩ := lt_of_lt_tileExtent L.tileHeight_pos L.height_pos hi hy
  rw [ht.data]
  exact L.tile_byte i j x y b hj hx hy hb hx' hy'

/-- A full tile has no padding. -/
theorem isTile (ht : IsPadded L i j t) (hj : j < L.ntlx) (hi : i < L.ntly)
    (hw : t.width = L.tileWidth) (hh : t.height = L.tileHeight) :
    IsTile L i j t ∧ t.dataLength = t.width * t.height * L.pixel := by
  refine ⟨⟨ht.width, ht.height, ?_, ?_⟩, ?_⟩
  · rw [hw, hh, ht.length]
  · intro x y b hx hy hb
    rw [hw]
    exact ht.byte hj hi hx hy hb
  · rw [ht.dataLength, ht.length, hw, hh]

/-- A tile at the right or lower edge is cropped. -/
theorem crop {info : ImageInfo} (ht : IsPadded L i j t) (hj : j < L.ntlx) (hi : i < L.ntly)
    (hwidth : info.tileWidth = L.tileWidth) (hheight : info.tileHeight = L.tileHeight)
    (hsmall : L.tileWidth * L.tileHeight * L.pixel < 2 ^ 31) :
    ∃ t', Iipsrv.crop info t = .ok t' ∧ IsTile L i j t' ∧
      t'.dataLength = t'.width * t'.height * L.pixel := by
  have hpix : pixelBytes t.channels t.bpc = L.pixel := by
    rw [ht.channels, ht.bpc, TiledLevel.pixel]
  have hwle : t.width ≤ L.tileWidth := by
    rw [ht.width, tileExtent_eq L.tileWidth_pos L.width_pos hj]
    omega
  have hhle : t.height ≤ L.tileHeight := by
    rw [ht.height, tileExtent_eq L.tileHeight_pos L.height_pos hi]
    omega
  have hall : t.width * t.height * L.pixel ≤ t.data.length := by
    rw [ht.length]
    exact Nat.mul_le_mul_right _ (Nat.mul_le_mul hwle hhle)
  have hlength := ht.length
  have hpos := L.tileHeight_pos
  rw [← hwidth] at hwle hsmall hlength
  rw [← hheight] at hhle hsmall hlength hpos
  obtain ⟨t', ht', hshape, hlen', hcells⟩ := crop_spec hpix hlength hsmall hpos hwle hhle
  have hw' : t'.width = t.width := by rw [hshape]
  have hh' : t'.height = t.height := by rw [hshape]
  refine ⟨t', ht', ⟨hw'.trans ht.width, hh'.trans ht.height, ?_, ?_⟩, ?_⟩
  · rw [hw', hh', hlen']
    exact hall
  · intro x y b hx hy hb
    rw [hw'] at hx ⊢
    rw [hh'] at hy
    rw [hcells x y b hx hy hb, hwidth]
    exact ht.byte hj hi hx hy hb
  · rw [hw', hh']
    exact congrArg RawTile.dataLength hshape

end IsPadded

/-- What the codec delivers for a tile of the grid, as the tile manager keeps it. -/
theorem decode_tileRequest (hK : Serves K im res seq ang layers L)
    (hcount : L.ntlx * L.ntly ≤ 2 ^ 32) {i j : Nat} (hj : j < L.ntlx) (hi : i < L.ntly) :
    ∃ t, decode K (tileRequest im res seq ang layers (i * L.ntlx + j)) = .ok t ∧
      IsPadded L i j t := by
  have hn := number_lt hj hi
  have hnum : (UInt32.ofNat (i * L.ntlx + j)).toInt32.toUInt32.toNat = i * L.ntlx + j := by
    rw [UInt32.toUInt32_toInt32, UInt32.toNat_ofNat', Nat.mod_eq_of_lt (by omega)]
  have hget : K.getTile im.imagePath.chars im.timestamp seq ang res layers
      (UInt32.ofNat (i * L.ntlx + j)).toInt32 = .ok
        { width := tileExtent L.width L.tileWidth j
          height := tileExtent L.height L.tileHeight i
          channels := L.channels, bpc := L.bpc, sampleType := L.sampleType
          data := L.tile (i * L.ntlx + j), dataLength := (L.tile (i * L.ntlx + j)).length
          padded := true } := by
    rw [hK.tiles, hnum, TiledLevel.getTile, if_neg (by omega), Nat.mul_add_mod_of_lt hj,
      number_div hj]
  unfold decode tileRequest
  dsimp only
  rw [hget]
  refine ⟨_, rfl, rfl, rfl, rfl, rfl, ?_, ?_, rfl⟩
  · exact List.take_length
  · unfold RawTile.copy
    dsimp only
    rw [List.take_length]

/-- **The raw tiles of a level are its tiles**: decoded, and cropped where they stick out. -/
theorem newTile_isTile (hK : Serves K im res seq ang layers L)
    (hsmall : L.tileWidth * L.tileHeight * L.pixel < 2 ^ 31)
    (hcount : L.ntlx * L.ntly ≤ 2 ^ 32) {i j : Nat} (hj : j < L.ntlx) (hi : i < L.ntly) :
    ∃ t, newTile K E (tileRequest im res seq ang layers (i * L.ntlx + j)) = .ok t ∧
      IsTile L i j t ∧ t.dataLength = t.width * t.height * L.pixel := by
  obtain ⟨t, ht, hpadded⟩ := decode_tileRequest hK hcount hj hi
  set q := tileRequest im res seq ang layers (i * L.ntlx + j) with hq
  have hinfo : (q.info K).tileWidth = L.tileWidth ∧ (q.info K).tileHeight = L.tileHeight :=
    ⟨hK.tileWidth, hK.tileHeight⟩
  have hnew : ∀ t', cropEdge (q.info K) t = .ok t' → newTile K E q = .ok t' := by
    intro t' hcrop
    unfold newTile rawTile
    rw [ht]
    change (cropEdge (q.info K) t >>= _) = _
    rw [hcrop]
    rfl
  by_cases hset : Settled (q.info K) t
  · have hsize : t.width = L.tileWidth ∧ t.height = L.tileHeight := by
      by_contra hne
      apply hset
      rw [hinfo.1, hinfo.2]
      exact ⟨by omega, hpadded.padded⟩
    exact ⟨t, hnew t (cropEdge_of_settled hset), hpadded.isTile hj hi hsize.1 hsize.2⟩
  · have hcrop : cropEdge (q.info K) t = crop (q.info K) t := if_pos (not_not.mp hset)
    obtain ⟨t', ht', htile⟩ := hpadded.crop hj hi hinfo.1 hinfo.2 hsmall
    exact ⟨t', hnew t' (hcrop.trans ht'), htile⟩

end Iipsrv
