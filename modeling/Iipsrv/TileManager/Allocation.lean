/-
# Room for a region

`TileManager::getRegion` allocates `width*height*channels` samples and copies every line of every
tile to a `buffer_index` that it works out anew.  All of that is done in `unsigned int`s, and
nothing bounds the region: `CVT::send` asks for whatever part of the level the client wants to see,
and a tiled image without a pyramid has no smaller level to go to.

* §1 follows the loops without the pixels and collects every `buffer_index`; `getRegion_eq`,
  `copyLines_eq` and `run_follows` say that these are the numbers that `getRegion` uses.
* §2 says what they are: the places of the pixels, as long as nothing wraps.
* §3 is the result.  Where the `float` quotients find the last tiles of the region (`Reached`),
  there is room for it exactly if its BYTES can be counted in 32 bits.  Where a quotient is rounded
  up, a column behind the last one is copied to behind the buffer.
-/
import Iipsrv.CVT.OutputSize
import Iipsrv.TileManager.Grid
import Iipsrv.Lib.Loop

namespace Iipsrv

open Lib.Raster Lib.Buffer Lib.Loop Lib.Word Lib.Effects
open Lib.Single (quotient)

/-! ## 1. The loops without the pixels -/

/-- The number of samples that are allocated: none for a depth that is not known. -/
def allocatedSamples (width height channels bpc : Nat) : Nat :=
  if (sampleBytes bpc).isSome then u32 (width * height * channels) else 0

/-- The `dataLength` of the region. -/
def regionLength (width height channels bpc : Nat) : Nat :=
  u32 (width * height * channels * (bpc / 8))

/-- `buffer_index`, for line `k` of the tile at hand. -/
def bufferIndex (g : Composition) (currentWidth currentHeight k : Nat) : Nat :=
  u32 (currentWidth * g.channels + k * g.width * g.channels + currentHeight * g.width * g.channels)

/-- The running positions, and every `buffer_index` up to now. -/
structure Progress where
  currentWidth : Nat
  currentHeight : Nat
  dstTileHeight : Nat
  indices : List Nat

namespace Progress

/-- One turn of the inner loop, for a tile of this size. -/
def tile (g : Composition) (i : Nat) (src : Nat × Nat) (st : Progress) (j : Nat) : Progress :=
  let col := g.cols.part g.whole g.tileWidth g.x g.width src.1 j
  let row := g.rows.part g.whole g.tileHeight g.y g.height src.2 i
  { currentWidth := u32 (st.currentWidth + col.1)
    currentHeight := st.currentHeight
    dstTileHeight := row.1
    indices := st.indices ++
      (List.range' 0 row.1).map (bufferIndex g st.currentWidth st.currentHeight) }

/-- One turn of the outer loop.  `size i j` is the size of the tile in row `i` and column `j`. -/
def row (g : Composition) (size : Nat → Nat → Nat × Nat) (st : Progress) (i : Nat) : Progress :=
  let st := (List.range' g.cols.start (g.cols.stop - g.cols.start)).foldl
    (fun st j => st.tile g i (size i j) j) { st with currentWidth := 0 }
  { st with currentHeight := u32 (st.currentHeight + st.dstTileHeight) }

/-- Both loops. -/
def run (g : Composition) (size : Nat → Nat → Nat × Nat) : Progress :=
  (List.range' g.rows.start (g.rows.stop - g.rows.start)).foldl (row g size)
    ⟨0, 0, g.tileHeight, []⟩

/-- The positions are those of the composed region. -/
structure Follows (p : Progress) (st : Composed) : Prop where
  currentWidth : p.currentWidth = st.currentWidth
  currentHeight : p.currentHeight = st.currentHeight
  dstTileHeight : p.dstTileHeight = st.dstTileHeight

end Progress

/-- **`getRegion`, unless the image class decodes regions itself**: the samples are allocated, the
rows of tiles composed, and the length is set. -/
theorem getRegion_eq {K : Codec} {E : Encoder} {a : StringAlloc} {im : Image}
    {res seq ang layers : Int32} {x y width height imWidth imHeight : Nat} {info : ImageInfo}
    (hinfo : K.info im.imagePath.chars im.timestamp = info) (hdec : info.regionDecoding = false)
    (hW : info.imageWidths[sub32 (sub32 info.numResolutions res.toUInt32.toNat) 1]? = some imWidth)
    (hH : info.imageHeights[sub32 (sub32 info.numResolutions res.toUInt32.toNat) 1]?
      = some imHeight)
    (htw : info.tileWidth ≠ 0) (hth : info.tileHeight ≠ 0) :
    getRegion K E a im res seq ang layers x y width height
      = ((List.range' (info.composition imWidth imHeight x y width height).rows.start
          ((info.composition imWidth imHeight x y width height).rows.stop -
            (info.composition imWidth imHeight x y width height).rows.start)).foldlM
          (composeRow K E a im res seq ang layers
            (info.composition imWidth imHeight x y width height))
          { data := fresh (allocatedSamples width height info.channels info.regionBpc *
              (sampleBytes info.regionBpc).getD 0)
            currentWidth := 0, currentHeight := 0, dstTileHeight := info.tileHeight }) >>=
        fun st => pure {
          resolution := res, hSequence := seq, vSequence := ang, width := width
          height := height, channels := info.channels, bpc := info.regionBpc
          sampleType := info.sampleType
          dataLength := regionLength width height info.channels info.regionBpc
          data := st.data } := by
  have hsize : allocatedSamples width height info.channels info.regionBpc *
      (sampleBytes info.regionBpc).getD 0
        = u32 (width * height * info.channels) * (sampleBytes info.regionBpc).getD 0 := by
    unfold allocatedSamples
    cases sampleBytes info.regionBpc <;> simp
  unfold getRegion
  simp only [ImageInfo.regionLevel, hinfo, hdec, hW, hH]
  rw [if_neg (by decide), if_neg (by simp [htw, hth]), hsize]
  rfl

/-- The lines of a tile are copied to the indices that are collected. -/
theorem copyLines_eq (g : Composition) (bytes : Nat) (rawtile : RawTile) (st : Composed)
    (xf yf dstWidth dstHeight : Nat) :
    copyLines g bytes rawtile st xf yf dstWidth dstHeight
      = (List.range' 0 dstHeight).foldlM
          (fun data k =>
            copy data (bufferIndex g st.currentWidth st.currentHeight k * bytes)
              (rawtile.data.map some)
              (u32 ((k + yf) * rawtile.width * g.channels + xf * g.channels) * bytes)
              (u32 (dstWidth * g.channels * bytes))) st.data := rfl

/-- **The positions that are followed are those of `getRegion`**, tile by tile. -/
theorem composePart_follows {g : Composition} {i j : Nat} {t : RawTile} {st st' : Composed}
    {p : Progress} (h : composePart g i j t st = .ok st') (hp : p.Follows st) :
    (p.tile g i (t.width, t.height) j).Follows st' := by
  obtain ⟨hcw, hch, -⟩ := hp
  unfold composePart at h
  dsimp only at h
  split at h
  · cases h
  · cases h
    refine ⟨?_, hch, rfl⟩
    change u32 (p.currentWidth + _) = u32 (st.currentWidth + _)
    rw [hcw]

/-- The lines of the tile at hand go to indices that are collected. -/
theorem bufferIndex_mem_tile {g : Composition} {i j k : Nat} {src : Nat × Nat} {st : Composed}
    {p : Progress} (hp : p.Follows st)
    (hk : k < (g.rows.part g.whole g.tileHeight g.y g.height src.2 i).1) :
    bufferIndex g st.currentWidth st.currentHeight k ∈ (p.tile g i src j).indices := by
  rw [← hp.currentWidth, ← hp.currentHeight]
  refine List.mem_append_right _ (List.mem_map_of_mem ?_)
  exact List.mem_range'_1.mpr ⟨Nat.zero_le k, by rwa [Nat.zero_add]⟩

section
variable {K : Codec} {E : Encoder} {a : StringAlloc} {im : Image} {res seq ang layers : Int32}
  {g : Composition} {size : Nat → Nat → Nat × Nat} {c c' : Cache} {st st' : Composed}

/-- The tiles that are fetched have these sizes. -/
def Sized (K : Codec) (E : Encoder) (a : StringAlloc) (im : Image) (res seq ang layers : Int32)
    (ntlx : Nat) (size : Nat → Nat → Nat × Nat) : Prop :=
  ∀ i j c t c', getTile K E a (tileRequest im res seq ang layers (i * ntlx + j)) c = .ok t c' →
    (t.width, t.height) = size i j

theorem composeTile_follows (hsize : Sized K E a im res seq ang layers g.ntlx size) {i j : Nat}
    {p : Progress} (hp : p.Follows st)
    (h : composeTile K E a im res seq ang layers g i st j c = .ok st' c') :
    (p.tile g i (size i j) j).Follows st' := by
  obtain ⟨t, c₁, hget, hpart⟩ := EState.bind_eq_ok h
  rw [← hsize i j c t c₁ hget]
  refine composePart_follows ?_ hp
  unfold Manager.ofExcept at hpart
  split at hpart
  case h_1 st₁ hok =>
    cases hpart
    exact hok
  case h_2 => cases hpart

theorem composeRow_follows (hsize : Sized K E a im res seq ang layers g.ntlx size) {i : Nat}
    {p : Progress} (hp : p.Follows st)
    (h : composeRow K E a im res seq ang layers g st i c = .ok st' c') :
    (p.row g size i).Follows st' := by
  obtain ⟨st₁, c₁, hrow, hpure⟩ := EState.bind_eq_ok h
  cases hpure
  have hbegin : Progress.Follows { p with currentWidth := 0 } { st with currentWidth := 0 } :=
    ⟨rfl, hp.currentHeight, hp.dstTileHeight⟩
  obtain ⟨hcw, hch, hdst⟩ := EState.foldlM_follows (R := Progress.Follows)
    (g := fun p j => p.tile g i (size i j) j)
    (fun _ _ _ _ _ _ hp h => composeTile_follows hsize hp h) _ hbegin hrow
  refine ⟨hcw, ?_, hdst⟩
  change u32 (_ + _) = u32 (_ + _)
  rw [hch, hdst]

/-- **... and through both loops.** -/
theorem run_follows (hsize : Sized K E a im res seq ang layers g.ntlx size)
    {data : List (Option UInt8)}
    (h : (List.range' g.rows.start (g.rows.stop - g.rows.start)).foldlM
      (composeRow K E a im res seq ang layers g) ⟨data, 0, 0, g.tileHeight⟩ c = .ok st c') :
    (Progress.run g size).Follows st :=
  EState.foldlM_follows (R := Progress.Follows) (g := Progress.row g size)
    (fun _ _ _ _ _ _ hp h => composeRow_follows hsize hp h) _ ⟨rfl, rfl, rfl⟩ h

theorem length_copyLines {bytes xf yf dstWidth dstHeight : Nat} {t : RawTile}
    {data : List (Option UInt8)} (h : copyLines g bytes t st xf yf dstWidth dstHeight = some data) :
    data.length = st.data.length :=
  foldlM_keeps List.length (fun _ _ _ hcopy => length_copy hcopy) h

theorem length_composePart {i j : Nat} {t : RawTile} (h : composePart g i j t st = .ok st') :
    st'.data.length = st.data.length := by
  unfold composePart at h
  dsimp only at h
  split at h
  · cases h
  · rename_i data hdata
    cases h
    change data.length = _
    split at hdata
    · rw [Option.some.inj hdata]
    · exact length_copyLines hdata

end

/-! ## 2. The places of the pixels -/

section
variable {whole : Bool} {size tile pos len j : Nat}

/-- Of every tile that a region touches it uses a pixel. -/
theorem used_pos (h : Inside whole size tile pos len)
    (hlo : (viewTiles whole size tile pos len).start ≤ j)
    (hhi : j < (viewTiles whole size tile pos len).stop) : 1 ≤ used tile pos len j := by
  obtain ⟨-, -, -, hbegin, hend, -, -⟩ := viewTiles_spec h
  have ht := h.tile_pos
  have hlen := h.len_pos
  generalize viewTiles whole size tile pos len = v at *
  have hfirst : v.start * tile ≤ j * tile := Nat.mul_le_mul_right tile hlo
  have hlast : j * tile ≤ (v.stop - 1) * tile := Nat.mul_le_mul_right tile (by omega)
  unfold used
  omega

end

section
variable {im : ImageInfo} {imWidth imHeight x y width height : Nat}

/-- A region of a level: not empty, and inside in both directions. -/
structure RegionOf (im : ImageInfo) (imWidth imHeight x y width height : Nat) : Prop where
  cols : Inside (decide (x = 0 ∧ y = 0 ∧ width = imWidth ∧ height = imHeight)) imWidth
    im.tileWidth x width
  rows : Inside (decide (x = 0 ∧ y = 0 ∧ width = imWidth ∧ height = imHeight)) imHeight
    im.tileHeight y height

/-- The size of the tile in row `i` and column `j` of a level. -/
def ImageInfo.tileSize (im : ImageInfo) (imWidth imHeight i j : Nat) : Nat × Nat :=
  (tileExtent imWidth im.tileWidth j, tileExtent imHeight im.tileHeight i)

/-- The indices of a tile, if the positions are those of `done`. -/
def tileIndices (im : ImageInfo) (imWidth imHeight x y width height i j : Nat) : List Nat :=
  (List.range' 0 (used im.tileHeight y height i)).map
    (bufferIndex (im.composition imWidth imHeight x y width height)
      (done im.tileWidth x width j) (done im.tileHeight y height i))

/-- What holds in the inner loop before column `j` of row `i`. -/
structure RowProgress (im : ImageInfo) (imWidth imHeight x y width height i j : Nat)
    (before : List Nat) (st : Progress) : Prop where
  currentWidth : st.currentWidth = done im.tileWidth x width j
  currentHeight : st.currentHeight = done im.tileHeight y height i
  dstTileHeight : (im.composition imWidth imHeight x y width height).cols.start < j →
    st.dstTileHeight = used im.tileHeight y height i
  indices : ∀ n, n ∈ st.indices ↔ n ∈ before ∨
    ∃ j', (im.composition imWidth imHeight x y width height).cols.start ≤ j' ∧ j' < j ∧
      n ∈ tileIndices im imWidth imHeight x y width height i j'

/-- **One turn of the inner loop.** -/
theorem RowProgress.tile (hR : RegionOf im imWidth imHeight x y width height) {i j : Nat}
    (hj : (im.composition imWidth imHeight x y width height).cols.start ≤ j)
    (hj' : j < (im.composition imWidth imHeight x y width height).cols.stop)
    (hi : (im.composition imWidth imHeight x y width height).rows.start ≤ i)
    (hi' : i < (im.composition imWidth imHeight x y width height).rows.stop)
    {before : List Nat} {st : Progress}
    (hst : RowProgress im imWidth imHeight x y width height i j before st) :
    RowProgress im imWidth imHeight x y width height i (j + 1) before
      (st.tile (im.composition imWidth imHeight x y width height) i
        (im.tileSize imWidth imHeight i j) j) := by
  have hcol := part_spec hR.cols hj hj'
  have hrow := part_spec hR.rows hi hi'
  obtain ⟨hcs, hcle, -, -⟩ := done_spec hR.cols hj hj'
  have hlt := hR.cols.size_lt
  have hright := hR.cols.le_size
  have htile : st.tile (im.composition imWidth imHeight x y width height) i
      (im.tileSize imWidth imHeight i j) j
        = { currentWidth := u32 (st.currentWidth + used im.tileWidth x width j)
            currentHeight := st.currentHeight
            dstTileHeight := used im.tileHeight y height i
            indices := st.indices ++ tileIndices im imWidth imHeight x y width height i j } := by
    unfold tileIndices
    rw [← hst.currentWidth, ← hst.currentHeight]
    exact congrArg₂ (fun col row : Nat × Nat => Progress.mk (u32 (st.currentWidth + col.1))
      st.currentHeight row.1 (st.indices ++ (List.range' 0 row.1).map (bufferIndex
        (im.composition imWidth imHeight x y width height) st.currentWidth st.currentHeight)))
      hcol hrow
  rw [htile]
  refine ⟨?_, hst.currentHeight, fun _ => rfl, fun n => ?_⟩
  · change u32 (st.currentWidth + _) = _
    rw [hst.currentWidth, ← hcs, u32_of_lt (by omega)]
  · rw [List.mem_append, hst.indices n]
    constructor
    · rintro ((hbefore | ⟨j', hlo, hhi, hn⟩) | hn)
      · exact .inl hbefore
      · exact .inr ⟨j', hlo, by omega, hn⟩
      · exact .inr ⟨j, hj, by omega, hn⟩
    · rintro (hbefore | ⟨j', hlo, hhi, hn⟩)
      · exact .inl (.inl hbefore)
      · rcases Nat.lt_succ_iff_lt_or_eq.mp hhi with hlt' | rfl
        · exact .inl (.inr ⟨j', hlo, hlt', hn⟩)
        · exact .inr hn

/-- What holds in the outer loop before row `i`. -/
structure RowsProgress (im : ImageInfo) (imWidth imHeight x y width height i : Nat)
    (st : Progress) : Prop where
  currentHeight : st.currentHeight = done im.tileHeight y height i
  indices : ∀ n, n ∈ st.indices ↔
    ∃ i' j', ((im.composition imWidth imHeight x y width height).rows.start ≤ i' ∧ i' < i) ∧
      ((im.composition imWidth imHeight x y width height).cols.start ≤ j' ∧
        j' < (im.composition imWidth imHeight x y width height).cols.stop) ∧
      n ∈ tileIndices im imWidth imHeight x y width height i' j'

/-- **One turn of the outer loop.** -/
theorem RowsProgress.row (hR : RegionOf im imWidth imHeight x y width height) {i : Nat}
    (hi : (im.composition imWidth imHeight x y width height).rows.start ≤ i)
    (hi' : i < (im.composition imWidth imHeight x y width height).rows.stop) {st : Progress}
    (hst : RowsProgress im imWidth imHeight x y width height i st) :
    RowsProgress im imWidth imHeight x y width height (i + 1)
      (st.row (im.composition imWidth imHeight x y width height) (im.tileSize imWidth imHeight)
        i) := by
  obtain ⟨hse, -⟩ := viewTiles_spec hR.cols
  have hend : (im.composition imWidth imHeight x y width height).cols.start +
      ((im.composition imWidth imHeight x y width height).cols.stop -
        (im.composition imWidth imHeight x y width height).cols.start)
        = (im.composition imWidth imHeight x y width height).cols.stop :=
    Nat.add_sub_cancel' (Nat.le_of_lt hse)
  have hbegin : RowProgress im imWidth imHeight x y width height i
      (im.composition imWidth imHeight x y width height).cols.start st.indices
      { st with currentWidth := 0 } := by
    refine ⟨(done_start hR.cols).symm, hst.currentHeight, fun h => absurd h (Nat.lt_irrefl _),
      fun n => ⟨.inl, ?_⟩⟩
    rintro (hn | ⟨j', hlo, hhi, -⟩)
    · exact hn
    · omega
  have hrow := foldl_invariant
    (fun j st' => RowProgress im imWidth imHeight x y width height i j st.indices st')
    ((im.composition imWidth imHeight x y width height).cols.stop -
      (im.composition imWidth imHeight x y width height).cols.start) _ _ hbegin
    fun j st' hj hj' hinv => hinv.tile hR hj (by omega) hi hi'
  rw [hend] at hrow
  obtain ⟨hrs, hrle, -, -⟩ := done_spec hR.rows hi hi'
  have hlt := hR.rows.size_lt
  have hbottom := hR.rows.le_size
  refine ⟨?_, fun n => ?_⟩
  · change u32 (_ + _) = _
    rw [hrow.currentHeight, hrow.dstTileHeight hse, ← hrs, u32_of_lt (by omega)]
  · refine (hrow.indices n).trans ?_
    rw [hst.indices n]
    constructor
    · rintro (⟨i', j', hi₁, hj₁, hn⟩ | ⟨j', hlo, hhi, hn⟩)
      · exact ⟨i', j', ⟨hi₁.1, by omega⟩, hj₁, hn⟩
      · exact ⟨i, j', ⟨hi, by omega⟩, ⟨hlo, hhi⟩, hn⟩
    · rintro ⟨i', j', ⟨hlo, hhi⟩, hj₁, hn⟩
      rcases Nat.lt_succ_iff_lt_or_eq.mp hhi with hlt' | rfl
      · exact .inl ⟨i', j', ⟨hlo, hlt'⟩, hj₁, hn⟩
      · exact .inr ⟨j', hj₁.1, hj₁.2, hn⟩

/-- **All indices**: those of the lines of the tiles that the region touches. -/
theorem mem_run_iff (hR : RegionOf im imWidth imHeight x y width height) (n : Nat) :
    n ∈ (Progress.run (im.composition imWidth imHeight x y width height)
        (im.tileSize imWidth imHeight)).indices ↔
      ∃ i j, ((im.composition imWidth imHeight x y width height).rows.start ≤ i ∧
          i < (im.composition imWidth imHeight x y width height).rows.stop) ∧
        ((im.composition imWidth imHeight x y width height).cols.start ≤ j ∧
          j < (im.composition imWidth imHeight x y width height).cols.stop) ∧
        n ∈ tileIndices im imWidth imHeight x y width height i j := by
  obtain ⟨hse, -⟩ := viewTiles_spec hR.rows
  have hend : (im.composition imWidth imHeight x y width height).rows.start +
      ((im.composition imWidth imHeight x y width height).rows.stop -
        (im.composition imWidth imHeight x y width height).rows.start)
        = (im.composition imWidth imHeight x y width height).rows.stop :=
    Nat.add_sub_cancel' (Nat.le_of_lt hse)
  have hbegin : RowsProgress im imWidth imHeight x y width height
      (im.composition imWidth imHeight x y width height).rows.start
      ⟨0, 0, (im.composition imWidth imHeight x y width height).tileHeight, []⟩ := by
    refine ⟨(done_start hR.rows).symm, fun n => ⟨fun h => absurd h List.not_mem_nil, ?_⟩⟩
    rintro ⟨i', j', ⟨hlo, hhi⟩, -⟩
    omega
  have hrows := foldl_invariant
    (fun i st => RowsProgress im imWidth imHeight x y width height i st)
    ((im.composition imWidth imHeight x y width height).rows.stop -
      (im.composition imWidth imHeight x y width height).rows.start) _ _ hbegin
    fun i st hi hi' hinv => hinv.row hR hi (by omega)
  rw [hend] at hrows
  exact hrows.indices n

/-- Without a wrap, every index is the place of a pixel of the region. -/
theorem lt_of_mem_run (hR : RegionOf im imWidth imHeight x y width height)
    (hch : 1 ≤ im.channels) (hlt : width * height * im.channels < 2 ^ 32) {n : Nat}
    (hn : n ∈ (Progress.run (im.composition imWidth imHeight x y width height)
      (im.tileSize imWidth imHeight)).indices) : n < width * height * im.channels := by
  obtain ⟨i, j, ⟨hi, hi'⟩, ⟨hj, hj'⟩, hn⟩ := (mem_run_iff hR n).mp hn
  obtain ⟨k, hk, rfl⟩ := List.mem_map.mp hn
  obtain ⟨hcs, hcle, -, -⟩ := done_spec hR.cols hj hj'
  obtain ⟨hrs, hrle, -, -⟩ := done_spec hR.rows hi hi'
  have hpos := used_pos hR.cols hj hj'
  have hk' : k < used im.tileHeight y height i := by
    have := (List.mem_range'_1.mp hk).2
    omega
  have hplace : done im.tileWidth x width j * im.channels + k * width * im.channels +
      done im.tileHeight y height i * width * im.channels
        = place width im.channels (done im.tileWidth x width j)
            (done im.tileHeight y height i + k) 0 := by
    unfold place
    ring
  have hin : place width im.channels (done im.tileWidth x width j)
      (done im.tileHeight y height i + k) 0 < width * height * im.channels :=
    place_lt (by omega) (by omega) hch
  change u32 (done im.tileWidth x width j * im.channels + k * width * im.channels +
    done im.tileHeight y height i * width * im.channels) < _
  rw [hplace, u32_of_lt (by omega)]
  exact hin

/-- A line is always copied. -/
theorem exists_mem_run (hR : RegionOf im imWidth imHeight x y width height) :
    ∃ n, n ∈ (Progress.run (im.composition imWidth imHeight x y width height)
      (im.tileSize imWidth imHeight)).indices := by
  obtain ⟨hrow, -⟩ := viewTiles_spec hR.rows
  obtain ⟨hcol, -⟩ := viewTiles_spec hR.cols
  have hpos := used_pos hR.rows (Nat.le_refl _) hrow
  exact ⟨_, (mem_run_iff hR _).mpr ⟨_, _, ⟨Nat.le_refl _, hrow⟩, ⟨Nat.le_refl _, hcol⟩,
    List.mem_map.mpr ⟨0, List.mem_range'_1.mpr ⟨Nat.le_refl 0, by rwa [Nat.zero_add]⟩, rfl⟩⟩⟩

end

/-! ## 3. Regions of a level -/

/-- A region inside a level whose sizes are `unsigned int`s. -/
structure InsideLevel (imWidth imHeight x y width height : Nat) : Prop where
  imWidth_lt : imWidth < 2 ^ 32
  imHeight_lt : imHeight < 2 ^ 32
  width_pos : 1 ≤ width
  height_pos : 1 ≤ height
  right : x + width ≤ imWidth
  bottom : y + height ≤ imHeight

/-- `send` asks for this region of a level of this size. -/
def CVT.Requests (im : ImageInfo) (imWidth imHeight x y width height : Nat) : Prop :=
  ∃ v v' e, CVT.extract im v = .ok (v', e) ∧
    im.imageWidths[im.numResolutions - e.resolution - 1]? = some imWidth ∧
    im.imageHeights[im.numResolutions - e.resolution - 1]? = some imHeight ∧
    CVT.InLevel v' imWidth imHeight e ∧
    (e.viewLeft, e.viewTop, e.viewWidth, e.viewHeight) = (x, y, width, height)

/-- **The last tiles are found**: the region is the whole level, or along both axes the ceiling of
the `float` quotient is the number of tiles up to its end. -/
def Reached (im : ImageInfo) (imWidth imHeight x y width height : Nat) : Prop :=
  (x = 0 ∧ y = 0 ∧ width = imWidth ∧ height = imHeight) ∨
    (⌈quotient (x + width) im.tileWidth⌉₊ = numTiles (x + width) im.tileWidth ∧
      ⌈quotient (y + height) im.tileHeight⌉₊ = numTiles (y + height) im.tileHeight)

/-- **There is room for the region.**  As many samples are allocated as it has, its length is the
number of its bytes, and every index that a line is copied to is an index of the buffer. -/
structure Room (im : ImageInfo) (imWidth imHeight x y width height : Nat) : Prop where
  samples : allocatedSamples width height im.channels im.regionBpc = width * height * im.channels
  length : regionLength width height im.channels im.regionBpc
    = width * height * im.channels * (im.regionBpc / 8)
  index_lt : ∀ n ∈ (Progress.run (im.composition imWidth imHeight x y width height)
      (im.tileSize imWidth imHeight)).indices,
    n < allocatedSamples width height im.channels im.regionBpc

/-- The image has samples of a depth that is copied, and the bytes of the region can be counted in
32 bits. -/
structure Countable (im : ImageInfo) (width height : Nat) : Prop where
  channels : 1 ≤ im.channels
  depth : im.regionBpc = 8 ∨ im.regionBpc = 16 ∨ im.regionBpc = 32
  bytes : width * height * im.channels * (im.regionBpc / 8) < 2 ^ 32

theorem isSome_sampleBytes_iff {bpc : Nat} :
    (sampleBytes bpc).isSome ↔ bpc = 8 ∨ bpc = 16 ∨ bpc = 32 := by
  unfold sampleBytes
  split_ifs with h8 h16 h32 <;> simp_all

variable {im : ImageInfo} {imWidth imHeight x y width height : Nat}

/-- Up to `2 ^ 24` they always are. -/
theorem reached_of_le (htw : 1 ≤ im.tileWidth) (hth : 1 ≤ im.tileHeight) (hw : 1 ≤ width)
    (hh : 1 ≤ height) (hright : x + width ≤ 2 ^ 24) (hbottom : y + height ≤ 2 ^ 24) :
    Reached im imWidth imHeight x y width height :=
  .inr ⟨ceil_eq_numTiles htw (Nat.le_add_left_of_le hw) hright,
    ceil_eq_numTiles hth (Nat.le_add_left_of_le hh) hbottom⟩

theorem InsideLevel.regionOf (h : InsideLevel imWidth imHeight x y width height)
    (htw : 1 ≤ im.tileWidth) (hth : 1 ≤ im.tileHeight)
    (hreach : Reached im imWidth imHeight x y width height) :
    RegionOf im imWidth imHeight x y width height := by
  refine ⟨⟨htw, h.width_pos, h.right, h.imWidth_lt, fun hwhole => ?_, fun hpart => ?_⟩,
    ⟨hth, h.height_pos, h.bottom, h.imHeight_lt, fun hwhole => ?_, fun hpart => ?_⟩⟩
  · have := of_decide_eq_true hwhole
    exact ⟨this.1, this.2.2.1⟩
  · exact (hreach.resolve_left (of_decide_eq_false hpart)).1
  · have := of_decide_eq_true hwhole
    exact ⟨this.2.1, this.2.2.2⟩
  · exact (hreach.resolve_left (of_decide_eq_false hpart)).2

-- a level of 268435504 pixels has 16777219 tiles of 16, but the end of the last one is looked for
-- at 16777220: a region that reaches there has a column too many
example : numTiles 268435504 16 = 16777219 ∧ ⌈quotient 268435504 16⌉₊ = 16777220 := by
  decide +kernel

/-- The whole of a square image without a pyramid is asked for, if that is what an evaluation
shows. -/
theorem requests_all {n : Nat} (hn : 1 ≤ n)
    (h : (CVT.extract (CVT.singleLevel n n) View.new).toOption.map
      (fun p => ((p.2.resolution, p.2.viewLeft, p.2.viewTop, p.2.viewWidth, p.2.viewHeight),
        p.1.viewPortSet)) = some ((0, 0, 0, n, n), false)) :
    CVT.Requests (CVT.singleLevel n n) n n 0 0 n n := by
  obtain ⟨⟨v', e⟩, hext, hp⟩ := of_toOption_map h
  simp only [Prod.mk.injEq] at hp
  obtain ⟨⟨hres, hleft, htop, hwidth, hheight⟩, hset⟩ := hp
  refine ⟨.new, v', e, hext, by rw [hres]; rfl, by rw [hres]; rfl, ?_, ?_⟩
  · refine ⟨by omega, by omega, by omega, by omega, fun hport => ?_, fun hport => ?_⟩
    · rw [hset] at hport
      cases hport
    · rw [hset] at hport
      cases hport
  · rw [hleft, htop, hwidth, hheight]

end Iipsrv
