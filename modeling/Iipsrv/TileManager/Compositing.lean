/-
# Regions are pixel exact

`getRegion` puts the parts of the tiles that lie in the region next to each other.  Each part is a
blit of `Lib.Raster`; what has to be shown is that the running positions of the loops are the ones
of `Grid`.

`getRegion_exact` is the result: in every state the manager can reach with keys that fit, the
region it returns shows the level's pixels, each cell written, with no access outside a buffer
and no tile asked for that the level does not have.
-/
import Iipsrv.TileManager.Level

namespace Iipsrv

open Lib.Raster Lib.Buffer Lib.Loop Lib.Word Lib.Effects

variable {K : Codec} {E : Encoder} {a : StringAlloc} {im : Image} {res seq ang layers : Int32}
  {L : TiledLevel}

/-! ## 1. One tile of the region -/

/-- A region of the level: not empty, inside, and with a number of bytes that an `unsigned int`
can hold. -/
structure RegionIn (L : TiledLevel) (x y width height : Nat) : Prop where
  width_pos : 1 ≤ width
  height_pos : 1 ≤ height
  right : x + width ≤ L.width
  bottom : y + height ≤ L.height
  bytes : width * height * L.pixel < 2 ^ 32

/-- Whether the region is the whole level, as `getRegion` tests it. -/
def TiledLevel.whole (L : TiledLevel) (x y width height : Nat) : Bool :=
  decide (x = 0 ∧ y = 0 ∧ width = L.width ∧ height = L.height)

/-- What `getRegion` computes before its loops. -/
def TiledLevel.composition (L : TiledLevel) (x y width height : Nat) : Composition where
  tileWidth := L.tileWidth
  tileHeight := L.tileHeight
  ntlx := L.ntlx
  whole := L.whole x y width height
  cols := viewTiles (L.whole x y width height) L.width L.tileWidth x width
  rows := viewTiles (L.whole x y width height) L.height L.tileHeight y height
  x := x
  y := y
  width := width
  height := height
  channels := L.channels
  bpc := L.bpc

variable {x y width height : Nat}

theorem RegionIn.cols (h : RegionIn L x y width height) :
    Inside (L.whole x y width height) L.width L.tileWidth x width :=
  ⟨L.tileWidth_pos, h.width_pos, h.right, Nat.lt_of_le_of_lt L.width_le (by decide),
    fun hw => by
      have := of_decide_eq_true hw
      exact ⟨this.1, this.2.2.1⟩,
    fun _ => ceil_eq_numTiles L.tileWidth_pos (Nat.le_add_left_of_le h.width_pos)
      (h.right.trans L.width_le)⟩

theorem RegionIn.rows (h : RegionIn L x y width height) :
    Inside (L.whole x y width height) L.height L.tileHeight y height :=
  ⟨L.tileHeight_pos, h.height_pos, h.bottom, Nat.lt_of_le_of_lt L.height_le (by decide),
    fun hw => by
      have := of_decide_eq_true hw
      exact ⟨this.2.1, this.2.2.2⟩,
    fun _ => ceil_eq_numTiles L.tileHeight_pos (Nat.le_add_left_of_le h.height_pos)
      (h.bottom.trans L.height_le)⟩

/-- The pixels of the region in `S` have been written, and show the level. -/
def Shows (L : TiledLevel) (x y width height : Nat) (S : Nat → Nat → Prop)
    (data : List (Option UInt8)) : Prop :=
  data.length = width * height * L.pixel ∧
    ∀ px py b, px < width → py < height → b < L.pixel → S px py →
      data[place width L.pixel px py b]? = some (some (L.byte (x + px) (y + py) b))

/-- The three depths have the number of bytes that `bpc / 8` says. -/
theorem sampleBytes_level (L : TiledLevel) : sampleBytes L.bpc = some (L.bpc / 8) := by
  unfold sampleBytes
  rcases L.depth with h | h | h <;> rw [h] <;> rfl

/-- An index in samples that does not wrap in bytes does not wrap. -/
theorem u32_mul {n s : Nat} (hs : 1 ≤ s) (h : n * s < 2 ^ 32) : u32 n * s = n * s := by
  have : n ≤ n * s := Nat.le_mul_of_pos_right n hs
  unfold u32
  rw [Nat.mod_eq_of_lt (by omega)]

/-- Without a wrap, the lines of a tile are copied as a rectangle. -/
theorem copyLines_eq_blit {st : Composed} {t : RawTile} {xf yf dw dh : Nat}
    (hregion : width * height * L.pixel < 2 ^ 32) (htile : t.width * t.height * L.pixel < 2 ^ 32)
    (hx : st.currentWidth + dw ≤ width) (hy : st.currentHeight + dh ≤ height)
    (hxf : xf + dw ≤ t.width) (hyf : yf + dh ≤ t.height) :
    copyLines (L.composition x y width height) (L.bpc / 8) t st xf yf dw dh
      = blit L.pixel st.data width st.currentWidth st.currentHeight (t.data.map some) t.width
          xf yf dw dh := by
  have hs : 1 ≤ L.bpc / 8 := by
    rcases L.depth with h | h | h <;> rw [h] <;> decide
  unfold copyLines blit
  refine foldlM_congr dh 0 st.data fun k data _ hk => ?_
  have hd : place width L.pixel st.currentWidth (st.currentHeight + k) 0 + dw * L.pixel
      ≤ width * height * L.pixel := place_line_le hx (by omega)
  have hsrc : place t.width L.pixel xf (yf + k) 0 + dw * L.pixel
      ≤ t.width * t.height * L.pixel := place_line_le hxf (by omega)
  -- the three numbers, in samples and in bytes
  have hbuf : (st.currentWidth * L.channels + k * width * L.channels +
      st.currentHeight * width * L.channels) * (L.bpc / 8)
        = place width L.pixel st.currentWidth (st.currentHeight + k) 0 := by
    unfold place TiledLevel.pixel pixelBytes
    ring
  have hinx : ((k + yf) * t.width * L.channels + xf * L.channels) * (L.bpc / 8)
      = place t.width L.pixel xf (yf + k) 0 := by
    unfold place TiledLevel.pixel pixelBytes
    ring
  have hcount : dw * L.channels * (L.bpc / 8) = dw * L.pixel := by
    unfold TiledLevel.pixel pixelBytes
    ring
  have hu : u32 (dw * L.channels * (L.bpc / 8)) = dw * L.pixel := by
    rw [hcount, u32, Nat.mod_eq_of_lt (by omega)]
  simp only [TiledLevel.composition]
  rw [u32_mul hs (by omega), u32_mul hs (by omega), hbuf, hinx, hu]

/-- **One tile is put in its place.**  If the running positions are those of `done`, the tile's
common part with the region is copied there and the rest stays. -/
theorem copyLines_shows (hR : RegionIn L x y width height)
    (hsmall : L.tileWidth * L.tileHeight * L.pixel < 2 ^ 31) {i j : Nat} {t : RawTile}
    (ht : IsTile L i j t) {st : Composed} {S : Nat → Nat → Prop}
    (hj : (L.composition x y width height).cols.start ≤ j)
    (hj' : j < (L.composition x y width height).cols.stop)
    (hi : (L.composition x y width height).rows.start ≤ i)
    (hi' : i < (L.composition x y width height).rows.stop)
    (hcw : st.currentWidth = done L.tileWidth x width j)
    (hch : st.currentHeight = done L.tileHeight y height i)
    (hS : Shows L x y width height S st.data) :
    ∃ data, copyLines (L.composition x y width height) (L.bpc / 8) t st (skipped L.tileWidth x j)
        (skipped L.tileHeight y i) (used L.tileWidth x width j) (used L.tileHeight y height i)
        = some data ∧
      Shows L x y width height
        (fun px py => S px py ∨
          (st.currentWidth ≤ px ∧ px < done L.tileWidth x width (j + 1)) ∧
            (st.currentHeight ≤ py ∧ py < done L.tileHeight y height (i + 1))) data := by
  obtain ⟨hcs, hcle, hcuse, hcpos⟩ := done_spec hR.cols hj hj'
  obtain ⟨hrs, hrle, hruse, hrpos⟩ := done_spec hR.rows hi hi'
  rw [← ht.width] at hcuse
  rw [← ht.height] at hruse
  rw [← hcw] at hcs hcpos
  rw [← hch] at hrs hrpos
  have htile : t.width * t.height * L.pixel < 2 ^ 32 := by
    have hle : t.width * t.height * L.pixel ≤ L.tileWidth * L.tileHeight * L.pixel := by
      rw [ht.width, ht.height]
      exact Nat.mul_le_mul_right _ (Nat.mul_le_mul (tileExtent_le L.tileWidth_pos)
        (tileExtent_le L.tileHeight_pos))
    omega
  rw [copyLines_eq_blit hR.bytes htile (by omega) (by omega) hcuse hruse]
  obtain ⟨data, hblit, hlen, hcells⟩ : ∃ data,
      blit L.pixel st.data width st.currentWidth st.currentHeight (t.data.map some) t.width
          (skipped L.tileWidth x j) (skipped L.tileHeight y i) (used L.tileWidth x width j)
          (used L.tileHeight y height i) = some data ∧
        Copied L.pixel st.data width st.currentWidth st.currentHeight (t.data.map some) t.width
          (skipped L.tileWidth x j) (skipped L.tileHeight y i) (used L.tileWidth x width j)
          (used L.tileHeight y height i) data := by
    have hdst : width * height * L.pixel ≤ st.data.length := Nat.le_of_eq hS.1.symm
    have hsrc : t.width * t.height * L.pixel ≤ (t.data.map some).length := by
      rw [List.length_map]
      exact ht.length
    exact blit_spec hdst hsrc (by omega) (by omega) hcuse hruse
  refine ⟨data, hblit, hlen.trans hS.1, fun px py b hpx hpy hb hin => ?_⟩
  rw [hcells px py b hpx hb]
  split
  case isTrue hrect =>
    rw [List.getElem?_map, ht.byte _ _ b (by omega) (by omega) hb]
    have hcol : j * L.tileWidth + (skipped L.tileWidth x j + (px - st.currentWidth)) = x + px := by
      omega
    have hrow : i * L.tileHeight + (skipped L.tileHeight y i + (py - st.currentHeight))
        = y + py := by omega
    rw [hcol, hrow]
    rfl
  case isFalse hrect =>
    refine hS.2 px py b hpx hpy hb (hin.resolve_right fun hnew => hrect ?_)
    omega

/-! ## 2. The loops

`I` is what is known of the cache: whatever it is, it lets every tile of the level be fetched
and is kept by that. -/

section
variable {I : Cache → Prop}

/-- From every cache that satisfies `I` the tiles of the level can be had. -/
def Fetches (K : Codec) (E : Encoder) (a : StringAlloc) (im : Image) (res seq ang layers : Int32)
    (L : TiledLevel) (I : Cache → Prop) : Prop :=
  ∀ i j c, i < L.ntly → j < L.ntlx → I c →
    ∃ t c', getTile K E a (tileRequest im res seq ang layers (i * L.ntlx + j)) c = .ok t c' ∧
      IsTile L i j t ∧ I c'

/-- What holds in the inner loop before column `j`: all rows of tiles above are done, and of
this one the columns to the left. -/
structure RowInv (L : TiledLevel) (x y width height i j : Nat) (st : Composed) : Prop where
  currentWidth : st.currentWidth = done L.tileWidth x width j
  currentHeight : st.currentHeight = done L.tileHeight y height i
  dstTileHeight : (L.composition x y width height).cols.start < j →
    st.dstTileHeight = used L.tileHeight y height i
  shows : Shows L x y width height
    (fun px py => py < done L.tileHeight y height i ∨
      (py < done L.tileHeight y height (i + 1) ∧ px < done L.tileWidth x width j)) st.data

/-- **One turn of the inner loop.** -/
theorem composeTile_spec (hfetch : Fetches K E a im res seq ang layers L I)
    (hR : RegionIn L x y width height) (hsmall : L.tileWidth * L.tileHeight * L.pixel < 2 ^ 31)
    {i j : Nat} (hj : (L.composition x y width height).cols.start ≤ j)
    (hj' : j < (L.composition x y width height).cols.stop)
    (hi : (L.composition x y width height).rows.start ≤ i)
    (hi' : i < (L.composition x y width height).rows.stop) {st : Composed} {c : Cache}
    (hst : RowInv L x y width height i j st) (hc : I c) :
    ∃ st' c', composeTile K E a im res seq ang layers (L.composition x y width height) i st j c
        = .ok st' c' ∧ RowInv L x y width height i (j + 1) st' ∧ I c' := by
  have hjn : j < L.ntlx := Nat.lt_of_lt_of_le hj' (viewTiles_spec hR.cols).2.1
  have hin : i < L.ntly := Nat.lt_of_lt_of_le hi' (viewTiles_spec hR.rows).2.1
  obtain ⟨t, c', hget, ht, hc'⟩ := hfetch i j c hin hjn hc
  obtain ⟨data, hcopy, hshows⟩ := copyLines_shows hR hsmall ht hj hj' hi hi' hst.currentWidth
    hst.currentHeight hst.shows
  have hcols' : (L.composition x y width height).cols.part (L.composition x y width height).whole
      (L.composition x y width height).tileWidth (L.composition x y width height).x
      (L.composition x y width height).width t.width j
        = (used L.tileWidth x width j, skipped L.tileWidth x j) := by
    rw [ht.width]
    exact part_spec hR.cols hj hj'
  have hrows' : (L.composition x y width height).rows.part (L.composition x y width height).whole
      (L.composition x y width height).tileHeight (L.composition x y width height).y
      (L.composition x y width height).height t.height i
        = (used L.tileHeight y height i, skipped L.tileHeight y i) := by
    rw [ht.height]
    exact part_spec hR.rows hi hi'
  obtain ⟨hcs, hcle, -, -⟩ := done_spec hR.cols hj hj'
  have hu : u32 (st.currentWidth + used L.tileWidth x width j)
      = done L.tileWidth x width (j + 1) := by
    have hlt := hR.cols.size_lt
    have hright := hR.right
    rw [hst.currentWidth, ← hcs, u32, Nat.mod_eq_of_lt (by omega)]
  refine ⟨{ st with
      data := data
      currentWidth := done L.tileWidth x width (j + 1)
      dstTileHeight := used L.tileHeight y height i }, c', ?_, ?_, hc'⟩
  · have hpart : composePart (L.composition x y width height) i j t st = .ok
        { st with
          data := data
          currentWidth := done L.tileWidth x width (j + 1)
          dstTileHeight := used L.tileHeight y height i } := by
      unfold composePart
      rw [show sampleBytes (L.composition x y width height).bpc = _ from sampleBytes_level L]
      simp only [hcols', hrows', hcopy, hu]
    have hget' : getTile K E a
        (tileRequest im res seq ang layers (i * (L.composition x y width height).ntlx + j)) c
          = .ok t c' := hget
    unfold composeTile
    rw [EState.bind_ok hget', hpart]
    rfl
  · refine ⟨rfl, hst.currentHeight, fun _ => rfl, hshows.1, fun px py b hpx hpy hb hS => ?_⟩
    refine hshows.2 px py b hpx hpy hb ?_
    have := hst.currentWidth
    have := hst.currentHeight
    omega

/-- What holds in the outer loop before row `i`: the rows of tiles above are done. -/
structure RowsInv (L : TiledLevel) (x y width height i : Nat) (st : Composed) : Prop where
  currentHeight : st.currentHeight = done L.tileHeight y height i
  shows : Shows L x y width height (fun _ py => py < done L.tileHeight y height i) st.data

/-- **One turn of the outer loop**: a whole row of tiles. -/
theorem composeRow_spec (hfetch : Fetches K E a im res seq ang layers L I)
    (hR : RegionIn L x y width height) (hsmall : L.tileWidth * L.tileHeight * L.pixel < 2 ^ 31)
    {i : Nat} (hi : (L.composition x y width height).rows.start ≤ i)
    (hi' : i < (L.composition x y width height).rows.stop) {st : Composed} {c : Cache}
    (hst : RowsInv L x y width height i st) (hc : I c) :
    ∃ st' c', composeRow K E a im res seq ang layers (L.composition x y width height) st i c
        = .ok st' c' ∧ RowsInv L x y width height (i + 1) st' ∧ I c' := by
  obtain ⟨hse, -⟩ := viewTiles_spec hR.cols
  have hend : (L.composition x y width height).cols.start +
      ((L.composition x y width height).cols.stop - (L.composition x y width height).cols.start)
        = (L.composition x y width height).cols.stop := Nat.add_sub_cancel' (Nat.le_of_lt hse)
  have hbegin : RowInv L x y width height i (L.composition x y width height).cols.start
      { st with currentWidth := 0 } := by
    have h0 := done_start hR.cols
    refine ⟨h0.symm, hst.currentHeight, fun h => absurd h (Nat.lt_irrefl _), hst.shows.1, ?_⟩
    intro px py b hpx hpy hb hS
    refine hst.shows.2 px py b hpx hpy hb (hS.resolve_right fun h => ?_)
    rw [show done L.tileWidth x width (L.composition x y width height).cols.start = 0 from h0] at h
    omega
  have hturn : ∀ j st c, (L.composition x y width height).cols.start ≤ j →
      j < (L.composition x y width height).cols.start +
        ((L.composition x y width height).cols.stop -
          (L.composition x y width height).cols.start) →
      RowInv L x y width height i j st ∧ I c → ∃ st' c',
        composeTile K E a im res seq ang layers (L.composition x y width height) i st j c
          = .ok st' c' ∧ RowInv L x y width height i (j + 1) st' ∧ I c' := by
    intro j st c hj hj' hinv
    rw [hend] at hj'
    exact composeTile_spec hfetch hR hsmall hj hj' hi hi' hinv.1 hinv.2
  obtain ⟨st', c', hloop, hrow, hc'⟩ := foldlM_ok
    (fun j st c => RowInv L x y width height i j st ∧ I c) _ _ _ c ⟨hbegin, hc⟩ hturn
  rw [hend] at hrow
  have hdone : done L.tileWidth x width (L.composition x y width height).cols.stop = width :=
    done_stop hR.cols
  obtain ⟨hrs, hrle, -, -⟩ := done_spec hR.rows hi hi'
  have hu : u32 (st'.currentHeight + st'.dstTileHeight) = done L.tileHeight y height (i + 1) := by
    have hlt := hR.rows.size_lt
    have hbottom := hR.bottom
    rw [hrow.currentHeight, hrow.dstTileHeight hse, ← hrs, u32, Nat.mod_eq_of_lt (by omega)]
  refine ⟨{ st' with currentHeight := u32 (st'.currentHeight + st'.dstTileHeight) }, c', ?_, ?_,
    hc'⟩
  · unfold composeRow
    rw [EState.bind_ok hloop]
    rfl
  · refine ⟨hu, hrow.shows.1, fun px py b hpx hpy hb hS => ?_⟩
    exact hrow.shows.2 px py b hpx hpy hb (.inr ⟨hS, by rw [hdone]; exact hpx⟩)

/-- The region: every cell written, and every pixel the level's. -/
structure ExactRegion (L : TiledLevel) (x y width height : Nat) (region : Region) : Prop where
  width_eq : region.width = width
  height_eq : region.height = height
  channels_eq : region.channels = L.channels
  bpc_eq : region.bpc = L.bpc
  dataLength_eq : region.dataLength = width * height * L.pixel
  length_eq : region.data.length = width * height * L.pixel
  byte_eq : ∀ i j b, i < width → j < height → b < L.pixel →
    region.data[place width L.pixel i j b]? = some (some (L.byte (x + i) (y + j) b))

/-- A region is what its rows leave. -/
theorem getRegion_of_rows (hK : Serves K im res seq ang layers L) {st : Composed}
    {c c' : Cache}
    (hrows : (List.range' (L.composition x y width height).rows.start
        ((L.composition x y width height).rows.stop -
          (L.composition x y width height).rows.start)).foldlM
      (composeRow K E a im res seq ang layers (L.composition x y width height))
      { data := fresh (u32 (width * height * L.channels) * (sampleBytes L.bpc).getD 0)
        currentWidth := 0, currentHeight := 0, dstTileHeight := L.tileHeight } c = .ok st c') :
    getRegion K E a im res seq ang layers x y width height c = .ok {
      resolution := res, hSequence := seq, vSequence := ang, width := width, height := height
      channels := L.channels, bpc := L.bpc
      sampleType := (K.info im.imagePath.chars im.timestamp).sampleType
      dataLength := u32 (width * height * L.channels * (L.bpc / 8)), data := st.data } c' := by
  have hdepth : (if L.bpc = 1 then 8 else L.bpc) = L.bpc := by
    rcases L.depth with h | h | h <;> rw [h] <;> rfl
  have hne : ¬ (L.tileWidth = 0 ∨ L.tileHeight = 0) := by
    have := L.tileWidth_pos
    have := L.tileHeight_pos
    omega
  unfold getRegion
  simp only [ImageInfo.regionLevel, ImageInfo.composition, ImageInfo.allocated, ImageInfo.region,
    ImageInfo.regionBpc, hK.regionDecoding, hK.width, hK.height, hK.tileWidth, hK.tileHeight,
    hK.channels, hK.bpc, hdepth]
  rw [if_neg (by decide), if_neg hne]
  exact (EState.bind_ok hrows).trans rfl

/-- **Composing is pixel exact**, from every cache from which the tiles can be had. -/
theorem getRegion_of_fetches (hK : Serves K im res seq ang layers L)
    (hfetch : Fetches K E a im res seq ang layers L I) (hR : RegionIn L x y width height)
    (hsmall : L.tileWidth * L.tileHeight * L.pixel < 2 ^ 31) {c : Cache} (hc : I c) :
    ∃ region c', getRegion K E a im res seq ang layers x y width height c = .ok region c' ∧
      ExactRegion L x y width height region ∧ I c' := by
  obtain ⟨hse, -⟩ := viewTiles_spec hR.rows
  have hend : (L.composition x y width height).rows.start +
      ((L.composition x y width height).rows.stop - (L.composition x y width height).rows.start)
        = (L.composition x y width height).rows.stop := Nat.add_sub_cancel' (Nat.le_of_lt hse)
  have hturn : ∀ i st c, (L.composition x y width height).rows.start ≤ i →
      i < (L.composition x y width height).rows.start +
        ((L.composition x y width height).rows.stop -
          (L.composition x y width height).rows.start) →
      RowsInv L x y width height i st ∧ I c → ∃ st' c',
        composeRow K E a im res seq ang layers (L.composition x y width height) st i c
          = .ok st' c' ∧ RowsInv L x y width height (i + 1) st' ∧ I c' := by
    intro i st c hi hi' hinv
    rw [hend] at hi'
    exact composeRow_spec hfetch hR hsmall hi hi' hinv.1 hinv.2
  -- nothing is written yet
  have hs : 1 ≤ L.bpc / 8 := by
    rcases L.depth with h | h | h <;> rw [h] <;> decide
  have hpix : width * height * L.channels * (L.bpc / 8) = width * height * L.pixel :=
    Nat.mul_assoc ..
  have hsize : u32 (width * height * L.channels) * (sampleBytes L.bpc).getD 0
      = width * height * L.pixel := by
    have := hR.bytes
    rw [sampleBytes_level, Option.getD_some, u32_mul hs (by omega), hpix]
  have h0 : done L.tileHeight y height (L.composition x y width height).rows.start = 0 :=
    done_start hR.rows
  have hbegin : RowsInv L x y width height (L.composition x y width height).rows.start
      { data := fresh (u32 (width * height * L.channels) * (sampleBytes L.bpc).getD 0)
        currentWidth := 0, currentHeight := 0, dstTileHeight := L.tileHeight } := by
    refine ⟨h0.symm, (length_fresh _).trans hsize, fun px py b _ _ _ hS => ?_⟩
    rw [h0] at hS
    omega
  obtain ⟨st, c', hloop, hrows, hc'⟩ := foldlM_ok
    (fun i st c => RowsInv L x y width height i st ∧ I c) _ _ _ c ⟨hbegin, hc⟩ hturn
  rw [hend] at hrows
  have hdone : done L.tileHeight y height (L.composition x y width height).rows.stop = height :=
    done_stop hR.rows
  refine ⟨_, c', getRegion_of_rows hK hloop, ⟨rfl, rfl, rfl, rfl, ?_, hrows.shows.1, ?_⟩, hc'⟩
  · have := hR.bytes
    rw [hpix, u32, Nat.mod_eq_of_lt this]
  · intro i j b hi hj hb
    exact hrows.shows.2 i j b hi hj hb (by rw [hdone]; exact hj)

end

/-! ## 3. In every reachable state -/

/-- What is shown of a tile is enough to know it. -/
theorem IsTile.of_shown {i j : Nat} {t r : RawTile} (h : IsTile L i j r)
    (hlen : r.dataLength = r.width * r.height * L.pixel) (hshown : t.shown = r.shown) :
    IsTile L i j t := by
  have hw : t.width = r.width := congrArg Shown.width hshown
  have hh : t.height = r.height := congrArg Shown.height hshown
  have hdata : t.data.take t.dataLength = r.data.take r.dataLength :=
    congrArg Shown.data hshown
  have hused : (t.data.take t.dataLength).length = r.width * r.height * L.pixel := by
    rw [hdata, List.length_take_of_le (by rw [hlen]; exact h.length), hlen]
  refine ⟨hw.trans h.width, hh.trans h.height, ?_, fun x y b hx hy hb => ?_⟩
  · rw [hw, hh, ← hused]
    exact List.length_take_le' ..
  · rw [hw] at hx ⊢
    rw [hh] at hy
    have hplace : place r.width L.pixel x y b < r.width * r.height * L.pixel := place_lt hx hy hb
    have hin : (t.data.take t.dataLength)[place r.width L.pixel x y b]?
        = some (L.byte (j * L.tileWidth + x) (i * L.tileHeight + y) b) := by
      rw [hdata, List.getElem?_take_of_lt (by omega)]
      exact h.byte x y b hx hy hb
    have hlt : place r.width L.pixel x y b < t.dataLength := by
      have := List.length_take_le t.dataLength t.data
      omega
    rwa [List.getElem?_take_of_lt hlt] at hin

/-- Requests for tiles of the region continue an orderly history. -/
theorem Orderly.extend {history extra : List Request}
    (ho : Orderly (history ++ [tileRequest im res seq ang layers 0]))
    (hextra : ∀ s ∈ extra, ∃ n, s = tileRequest im res seq ang layers n) :
    Orderly (history ++ extra) := by
  obtain ⟨hlayers, hstamps⟩ := ho
  rw [List.pairwise_append] at hstamps
  -- every request of the longer list asks for these layers
  have hall : ∀ s ∈ history ++ extra, s.layers = layers := by
    intro s hs
    rcases List.mem_append.mp hs with hs | hs
    · exact hlayers s (by simp [hs]) (tileRequest im res seq ang layers 0) (by simp)
    · obtain ⟨n, rfl⟩ := hextra s hs
      rfl
  refine ⟨fun q hq s hs => (hall q hq).trans (hall s hs).symm, List.pairwise_append.mpr
    ⟨hstamps.1, List.pairwise_iff_forall_sublist.mpr ?_, ?_⟩⟩
  · intro s q hsub _
    obtain ⟨m, rfl⟩ := hextra s (hsub.subset (by simp))
    obtain ⟨n, rfl⟩ := hextra q (hsub.subset (by simp))
    exact Int.le_refl _
  · intro s hs q hq hpath
    obtain ⟨n, rfl⟩ := hextra q hq
    exact hstamps.2.2 s hs (tileRequest im res seq ang layers 0) (by simp) hpath

/-- **Regions are pixel exact.**  After every history of requests whose keys fit, that ask for
one number of layers and see the timestamps of an image grow, `getRegion` of a region inside
the level returns: every cell of its buffer is written, every pixel is the level's, all tiles it
asked for exist and no copy left its buffers.  The keys of the level's tiles have to fit, a
padded tile has to be smaller than 2 GiB, and the tiles have to be numbered by `unsigned
int`s. -/
theorem getRegion_exact (K : Codec) (E : Encoder) (a : StringAlloc) (z : Sizeof) (maxSize : Nat)
    (im : Image) (res seq ang layers : Int32) (L : TiledLevel)
    (hK : Serves K im res seq ang layers L)
    (hsmall : L.tileWidth * L.tileHeight * L.pixel < 2 ^ 31)
    (hcount : L.ntlx * L.ntly ≤ 2 ^ 32)
    (hkeys : ∀ n < L.ntlx * L.ntly, (tileRequest im res seq ang layers n).Fits)
    (history : List Request) (hfit : ∀ s ∈ history, s.Fits)
    (ho : Orderly (history ++ [tileRequest im res seq ang layers 0])) (c : Cache)
    (hrun : serveAll K E a (Cache.new z maxSize) history = some c) (x y width height : Nat)
    (hR : RegionIn L x y width height) :
    ∃ region c', getRegion K E a im res seq ang layers x y width height c = .ok region c' ∧
      ExactRegion L x y width height region := by
  have hsound : Sound a (IsNewTile K E) history c := by
    refine Sound.serveAll hfit ?_ (List.nil_append _) (sound_new a _ z maxSize) hrun
    exact fun H s hpre => admits_isNewTile
      (ho.sublist (hpre.sublist.trans (List.sublist_append_left history _)))
  -- the tiles of the region are asked for on top of the history
  have hfetch : Fetches K E a im res seq ang layers L fun c =>
      ∃ extra, Sound a (IsNewTile K E) (history ++ extra) c ∧
        ∀ s ∈ extra, ∃ n, s = tileRequest im res seq ang layers n := by
    rintro i j c hi hj ⟨extra, hsound, hextra⟩
    obtain ⟨r, hr, htile, hlen⟩ := newTile_isTile (E := E) hK hsmall hcount hj hi
    have hextra' : ∀ s ∈ extra ++ [tileRequest im res seq ang layers (i * L.ntlx + j)],
        ∃ n, s = tileRequest im res seq ang layers n := by
      intro s hs
      rcases List.mem_append.mp hs with hs | hs
      · exact hextra s hs
      · exact ⟨_, List.mem_singleton.mp hs⟩
    have ho' := ho.extend hextra'
    rw [← List.append_assoc] at ho'
    obtain ⟨t, c', hget, hshown, hsound'⟩ :=
      hsound.getTile_ok (hkeys _ (number_lt hj hi)) ho' hr
    rw [List.append_assoc] at hsound'
    exact ⟨t, c', hget, htile.of_shown hlen hshown, _, hsound', hextra'⟩
  have hstart : ∃ extra, Sound a (IsNewTile K E) (history ++ extra) c ∧
      ∀ s ∈ extra, ∃ n, s = tileRequest im res seq ang layers n :=
    ⟨[], by rwa [List.append_nil], by simp⟩
  obtain ⟨region, c', hget, hexact, -⟩ := getRegion_of_fetches hK hfetch hR hsmall hstart
  exact ⟨region, c', hget, hexact⟩

/-! ## 4. ... and under a long path -/

/-- The image class of an image with this one level. -/
def levelCodec (L : TiledLevel) : Codec where
  info _ _ :=
    { tileWidth := L.tileWidth, tileHeight := L.tileHeight, numResolutions := 1
      imageWidths := [L.width], imageHeights := [L.height], channels := L.channels
      bpc := L.bpc, sampleType := L.sampleType, colourspace := .none, regionDecoding := false }
  getTile _ _ _ _ _ _ tile := L.getTile tile.toUInt32.toNat
  getRegion _ _ _ _ _ _ _ _ _ _ := .error "not decoded by region"

theorem serves_levelCodec (L : TiledLevel) (im : Image) (seq ang layers : Int32) :
    Serves (levelCodec L) im 0 seq ang layers L :=
  ⟨rfl, rfl, rfl, rfl, rfl, rfl, rfl, fun _ => rfl⟩

/-- Two pixels next to each other, 0 and 1, each a tile of its own. -/
def twoPixels : TiledLevel where
  width := 2
  height := 1
  tileWidth := 1
  tileHeight := 1
  channels := 1
  bpc := 8
  sampleType := .fixedPoint
  byte x _ _ := UInt8.ofNat x
  tile n := [UInt8.ofNat n]
  width_pos := by decide
  height_pos := by decide
  width_le := by decide
  height_le := by decide
  tileWidth_pos := by decide
  tileHeight_pos := by decide
  depth := .inl rfl
  length_tile _ := rfl
  tile_byte i j x y b hj hx hy hb hxw hyh := by
    obtain rfl : i = 0 := by omega
    obtain rfl : x = 0 := by omega
    obtain rfl : y = 0 := by omega
    obtain rfl : b = 0 := Nat.lt_one_iff.mp hb
    simp [place]

/-- Both pixels of an image with a short path. -/
theorem getRegion_exact_short :
    ∃ region c', getRegion (levelCodec twoPixels) noEncoder Cache.exactAlloc ⟨shortPath, 0⟩ 0 0 90 0
          0 0 2 1 (Cache.new ⟨0, 0, 0, 0⟩ 1000) = .ok region c' ∧
      ExactRegion twoPixels 0 0 2 1 region := by
  refine getRegion_exact _ _ _ _ _ _ _ _ _ _ _ (serves_levelCodec twoPixels _ _ _ _) (by decide)
    (by decide) (by decide) [] (by decide) ⟨by decide, by decide⟩ _ rfl _ _ _ _ ?_
  exact ⟨by decide, by decide, by decide, by decide, by decide⟩

/-- The first pixel of `twoPixels` as the manager keeps it. -/
def firstPixel (path : StdString) : RawTile :=
  { tileNum := 0, resolution := 0, hSequence := 0, vSequence := 90
    compressionType := .uncompressed, quality := 0, filename := path, timestamp := 0
    data := [0], dataLength := 1, width := 1, height := 1, channels := 1, bpc := 8
    sampleType := .fixedPoint, padded := true }

theorem newTile_firstPixel (path : StdString) :
    newTile (levelCodec twoPixels) noEncoder (tileRequest ⟨path, 0⟩ 0 0 90 0 0)
      = .ok (firstPixel path) := by
  have hzero : (UInt32.ofNat 0).toInt32 = 0 := rfl
  have hdecode : decode (levelCodec twoPixels) ⟨⟨path, 0⟩, 0, 0, 0, 90, 0, .uncompressed, 0⟩
      = .ok (firstPixel path) := by
    unfold decode levelCodec
    dsimp only
    rw [show (0 : Int32).toUInt32.toNat = 0 from rfl]
    rfl
  unfold newTile rawTile tileRequest
  rw [hzero, hdecode]
  rfl

/-- **Under a long path the region is wrong.**  Both pixels of an image whose path has 1023
characters, from an empty cache: the region shows the first pixel twice. -/
theorem region_repeats_first_tile :
    Serves (levelCodec twoPixels) ⟨longPath, 0⟩ 0 0 90 0 twoPixels ∧
    RegionIn twoPixels 0 0 2 1 ∧
    ∃ region c', getRegion (levelCodec twoPixels) noEncoder Cache.exactAlloc ⟨longPath, 0⟩ 0 0 90 0
          0 0 2 1 (Cache.new ⟨0, 0, 0, 0⟩ 1000000) = .ok region c' ∧
      region.data = [some 0, some 0] ∧ ¬ ExactRegion twoPixels 0 0 2 1 region := by
  have hindex : ∀ tile : Int32,
      (TileId.mk Cache.longName 0 tile 0 90 .uncompressed 0).index = Cache.longName := fun _ =>
    TileId.index_of_long_name Cache.nul_not_mem_longName Cache.length_longName
  have hcap : (Cache.entryOf Cache.exactAlloc (firstPixel longPath)).key.capacity = 1023 :=
    (congrArg List.length (hindex 0)).trans Cache.length_longName
  have hcost : Cache.cost (Cache.new ⟨0, 0, 0, 0⟩ 1000000).tileSize
      (Cache.entryOf Cache.exactAlloc (firstPixel longPath)) ≤ 1000000 := by
    rw [Cache.cost, hcap]
    decide
  obtain ⟨c, c', hfirst, hsecond⟩ : ∃ c c',
      getTile (levelCodec twoPixels) noEncoder Cache.exactAlloc
          (tileRequest ⟨longPath, 0⟩ 0 0 90 0 (0 * 2 + 0)) (Cache.new ⟨0, 0, 0, 0⟩ 1000000)
        = .ok (firstPixel longPath) c ∧
      getTile (levelCodec twoPixels) noEncoder Cache.exactAlloc
          (tileRequest ⟨longPath, 0⟩ 0 0 90 0 (0 * 2 + 1)) c
        = .ok (firstPixel longPath).copy c' :=
    getTile_collision _ _ rfl rfl (newTile_firstPixel longPath) (Int.lt_irrefl 0) hcost
      ((hindex 0).trans (hindex 1).symm)
  -- one row of two tiles
  have hleft : composeTile (levelCodec twoPixels) noEncoder Cache.exactAlloc ⟨longPath, 0⟩ 0 0 90 0
      (twoPixels.composition 0 0 2 1) 0 ⟨[none, none], 0, 0, 1⟩ 0 (Cache.new ⟨0, 0, 0, 0⟩ 1000000)
        = .ok ⟨[some 0, none], 1, 0, 1⟩ c := by
    unfold composeTile
    rw [show (twoPixels.composition 0 0 2 1).ntlx = 2 from rfl, EState.bind_ok hfirst]
    rfl
  have hright : composeTile (levelCodec twoPixels) noEncoder Cache.exactAlloc ⟨longPath, 0⟩ 0 0 90 0
      (twoPixels.composition 0 0 2 1) 0 ⟨[some 0, none], 1, 0, 1⟩ 1 c
        = .ok ⟨[some 0, some 0], 2, 0, 1⟩ c' := by
    unfold composeTile
    rw [show (twoPixels.composition 0 0 2 1).ntlx = 2 from rfl, EState.bind_ok hsecond]
    rfl
  have hcols : [0, 1].foldlM (composeTile (levelCodec twoPixels) noEncoder Cache.exactAlloc
      ⟨longPath, 0⟩ 0 0 90 0 (twoPixels.composition 0 0 2 1) 0) ⟨[none, none], 0, 0, 1⟩
      (Cache.new ⟨0, 0, 0, 0⟩ 1000000) = .ok ⟨[some 0, some 0], 2, 0, 1⟩ c' := by
    rw [List.foldlM_cons, EState.bind_ok hleft, List.foldlM_cons, EState.bind_ok hright]
    rfl
  have hrow : composeRow (levelCodec twoPixels) noEncoder Cache.exactAlloc ⟨longPath, 0⟩ 0 0 90 0
      (twoPixels.composition 0 0 2 1) ⟨[none, none], 0, 0, 1⟩ 0 (Cache.new ⟨0, 0, 0, 0⟩ 1000000)
        = .ok ⟨[some 0, some 0], 2, 1, 1⟩ c' := (EState.bind_ok hcols).trans rfl
  have hrows : [0].foldlM (composeRow (levelCodec twoPixels) noEncoder Cache.exactAlloc
      ⟨longPath, 0⟩ 0 0 90 0 (twoPixels.composition 0 0 2 1)) ⟨[none, none], 0, 0, 1⟩
      (Cache.new ⟨0, 0, 0, 0⟩ 1000000) = .ok ⟨[some 0, some 0], 2, 1, 1⟩ c' := by
    rw [List.foldlM_cons, EState.bind_ok hrow]
    rfl
  refine ⟨serves_levelCodec twoPixels _ _ _ _,
    ⟨by decide, by decide, by decide, by decide, by decide⟩, _, c',
    getRegion_of_rows (serves_levelCodec twoPixels _ _ _ _) hrows, rfl, fun h => ?_⟩
  -- the second pixel of the level is 1
  have := h.byte_eq 1 0 0 (by decide) (by decide) (by decide)
  simp [place, twoPixels, TiledLevel.pixel, pixelBytes] at this

end Iipsrv
