/-
# Sending a region strip by strip

`CVT::send` (`CVT.cc`) encodes the resampled region in strips of 128 rows:

    unsigned int strip_height = 128;
    int strips = (resampled_height/strip_height) + (resampled_height%strip_height == 0 ? 0 : 1);
    for( int n=0; n<strips; n++ ){
      unsigned char* input = &complete_image.data[n*strip_height*resampled_width*channels];
      if( (n==strips-1) && (resampled_height%strip_height!=0) )
        strip_height = resampled_height % strip_height;
      len = compressor->CompressStrip( input, output, strip_height );

The last turn CHANGES `strip_height`, which is in the formula of the input as well.  The input of
that turn has been worked out by then, and there is no turn behind it; so the strips are those of
`stripRows`, for every height (`passed_eq`).  They lie one behind the other (`tiles_stripRows`).

`CompressStrip` hands the rows of a strip to the library, one after the other.  Over all strips
these are the rows of the image, each once and in order (`strips_cover_rows`).  The size that `send`
counts them by is the size of the tile that its operations leave (`rows_transforms`).

* §1 the loop.
* §2 the strips, as rows.
* §3 the rows that the encoders read.
* §4 the tile that `send` has made, and the size it counts the strips by.
-/
import Iipsrv.Lib.Blocks
import Iipsrv.Transform.Encodable

namespace Iipsrv

open Lib.Word Lib.Loop Lib.Blocks Lib.Steps

/-- What `CompressStrip` is given of a strip: where its input begins in the data, and its height. -/
structure Strip where
  input : Nat
  height : Nat
  deriving DecidableEq

namespace CVT

/-! ## 1. The loop -/

/-- `strips`.  There are at most `2 ^ 25`, so the `int` holds them. -/
def strips (resampledHeight stripHeight : Nat) : Nat :=
  resampledHeight / stripHeight + if resampledHeight % stripHeight = 0 then 0 else 1

/-- The variables of the loop: `strip_height`, and the strips that have been compressed. -/
structure StripLoop where
  stripHeight : Nat
  passed : List Strip

/-- A turn of the loop.  The factors of the index are `unsigned int`s. -/
def stripTurn (resampledWidth resampledHeight channels strips : Nat) (s : StripLoop) (n : Nat) :
    StripLoop :=
  -- get the starting index for this strip of data
  let input := u32 (n * s.stripHeight * resampledWidth * channels)
  -- the last strip may have a different height
  let stripHeight :=
    if n = strips - 1 ∧ resampledHeight % s.stripHeight ≠ 0 then resampledHeight % s.stripHeight
    else s.stripHeight
  ⟨stripHeight, s.passed ++ [⟨input, stripHeight⟩]⟩

/-- The strips that `send` passes to `CompressStrip`. -/
def passed (resampledWidth resampledHeight channels : Nat) : List Strip :=
  let n := strips resampledHeight 128
  ((List.range n).foldl (stripTurn resampledWidth resampledHeight channels n) ⟨128, []⟩).passed

section
variable {resampledWidth resampledHeight channels : Nat}

/-- The height of strip `n`. -/
def heightOf (resampledHeight n : Nat) : Nat :=
  if n = strips resampledHeight 128 - 1 ∧ resampledHeight % 128 ≠ 0 then resampledHeight % 128
  else 128

/-- In front of turn `n` all strips up to `n` have been passed, and `strip_height` is still 128. -/
def Ready (resampledWidth resampledHeight channels n : Nat) (s : StripLoop) : Prop :=
  s.passed = (List.range n).map (fun k =>
      ⟨u32 (k * 128 * resampledWidth * channels), heightOf resampledHeight k⟩) ∧
    (n < strips resampledHeight 128 → s.stripHeight = 128)

/-- **A turn.**  Only the last one changes `strip_height`. -/
theorem Ready.turn {n : Nat} {s : StripLoop}
    (h : Ready resampledWidth resampledHeight channels n s)
    (hn : n < strips resampledHeight 128) :
    Ready resampledWidth resampledHeight channels (n + 1)
      (stripTurn resampledWidth resampledHeight channels (strips resampledHeight 128) s n) := by
  obtain ⟨hpassed, hheight⟩ := h
  have hfull := hheight hn
  constructor
  · rw [List.range_succ, List.map_append, ← hpassed, stripTurn, hfull]
    rfl
  · intro hnext
    have hearly : ¬ (n = strips resampledHeight 128 - 1 ∧ resampledHeight % s.stripHeight ≠ 0) := by
      omega
    rw [stripTurn, if_neg hearly]
    exact hfull

theorem stripRows_eq_map (resampledHeight : Nat) :
    stripRows resampledHeight = (List.range (strips resampledHeight 128)).map fun n =>
      (n * 128, heightOf resampledHeight n) := rfl

/-- **The loop passes the strips of `stripRows`**, up to the wrapping of the index. -/
theorem passed_eq (resampledWidth resampledHeight channels : Nat) :
    passed resampledWidth resampledHeight channels
      = (stripRows resampledHeight).map fun p =>
          ⟨u32 (p.1 * resampledWidth * channels), p.2⟩ := by
  have hrun := foldl_invariant (f := stripTurn resampledWidth resampledHeight channels
      (strips resampledHeight 128)) (Ready resampledWidth resampledHeight channels)
    (strips resampledHeight 128) 0 ⟨128, []⟩ ⟨rfl, fun _ => rfl⟩
    fun n s _ hn hready => hready.turn (by omega)
  rw [← List.range_eq_range', Nat.zero_add] at hrun
  rw [stripRows_eq_map, List.map_map]
  exact hrun.1

end

/-! ## 2. Strips as rows -/

/-- All strips have 128 rows, except for the last one if the height is not a multiple of 128. -/
theorem stripRows_eq (height : Nat) :
    stripRows height = (List.range (height / 128)).map (fun n => (n * 128, 128)) ++
      if height % 128 = 0 then [] else [(height / 128 * 128, height % 128)] := by
  rw [stripRows_eq_map]
  unfold heightOf strips
  by_cases hrest : height % 128 = 0
  · simp [hrest]
  · rw [if_neg hrest, if_neg hrest, List.range_succ, List.map_append]
    congr 1
    · refine List.map_congr_left fun n hn => ?_
      have hlt := List.mem_range.mp hn
      rw [if_neg (by omega)]
    · simp [hrest]

/-- **The strips lie one behind the other**, from the first row to the last. -/
theorem tiles_stripRows (height : Nat) : Tiles 0 (stripRows height) height := by
  have hfull := tiles_uniform 128 (height / 128)
  rw [stripRows_eq]
  split
  case isTrue hrest =>
    have hwhole : height / 128 * 128 = height := by omega
    rw [List.append_nil]
    rwa [hwhole] at hfull
  case isFalse hrest =>
    have hlast := hfull.concat (height % 128)
    have hwhole : height / 128 * 128 + height % 128 = height := by omega
    rwa [hwhole] at hlast

/-- No strip is empty, and none has more rows than the output buffer is made for. -/
theorem height_of_mem_stripRows {height : Nat} {p : Nat × Nat} (hp : p ∈ stripRows height) :
    1 ≤ p.2 ∧ p.2 ≤ 128 := by
  rw [stripRows_eq, List.mem_append] at hp
  rcases hp with hfull | hlast
  · obtain ⟨n, -, rfl⟩ := List.mem_map.mp hfull
    exact ⟨(by decide : 1 ≤ 128), Nat.le_refl 128⟩
  · split at hlast
    · cases hlast
    · obtain rfl := List.mem_singleton.mp hlast
      dsimp only
      omega

variable {resampledWidth resampledHeight channels : Nat}

/-- The rows in front of `row` take no more bytes than the whole image. -/
theorem bytes_before_le {row : Nat} (hrow : row ≤ resampledHeight) :
    row * (resampledWidth * channels) ≤ resampledWidth * resampledHeight * channels :=
  calc
    row * (resampledWidth * channels) ≤ resampledHeight * (resampledWidth * channels) :=
      Nat.mul_le_mul_right _ hrow
    _ = resampledWidth * resampledHeight * channels := by
      rw [← Nat.mul_assoc, Nat.mul_comm resampledHeight]

/-- **No index wraps** if an `unsigned int` can count the bytes of the image. -/
theorem passed_eq_of_lt (hsize : resampledWidth * resampledHeight * channels < 2 ^ 32) :
    passed resampledWidth resampledHeight channels
      = (stripRows resampledHeight).map fun p => ⟨p.1 * (resampledWidth * channels), p.2⟩ := by
  rw [passed_eq]
  refine List.map_congr_left fun p hp => ?_
  have hinside := (tiles_stripRows resampledHeight).bounds hp
  have hbefore : p.1 * (resampledWidth * channels)
      ≤ resampledWidth * resampledHeight * channels := bytes_before_le (by omega)
  rw [Nat.mul_assoc, u32_of_lt (Nat.lt_of_le_of_lt hbefore hsize)]

end CVT

/-! ## 3. The rows that the encoders read -/

/-- The loop of `CompressStrip`, as the bytes that the library reads: where a row begins, and its
length.  Row `i` begins `i * rowBytes` behind the input, a product of `unsigned int`s. -/
def handRows (rowBytes length : Nat) (s : Strip) : List (Nat × Nat) :=
  (List.range s.height).map fun i => (s.input + u32 (i * rowBytes), length)

/-- `JPEGCompressor::CompressStrip`, for the image that `InitCompression` has been given.  The
library takes one row for each call. -/
def JPEGCompressor.compressStrip (width channels : Nat) : Strip → List (Nat × Nat) :=
  handRows (u32 (width * channels)) (width * channels)

/-- `PNGCompressor::CompressStrip`, for the image that `InitCompression` has been given.
`bytes_per_pixel` is `bpc/8`, while the library counts the bits of a row. -/
def PNGCompressor.compressStrip (width channels bpc : Nat) : Strip → List (Nat × Nat) :=
  handRows (u32 (width * channels * (bpc / 8))) ((width * channels * bpc + 7) / 8)

/-- `compressor->CompressStrip`. -/
def CompressionType.compressStrip (ct : CompressionType) (width channels bpc : Nat) :
    Strip → List (Nat × Nat) :=
  if ct = .png then PNGCompressor.compressStrip width channels bpc
  else JPEGCompressor.compressStrip width channels

/-- With one byte for a sample both encoders read alike. -/
theorem CompressionType.compressStrip_bytes (ct : CompressionType) (width channels : Nat) :
    ct.compressStrip width channels 8 = handRows (u32 (width * channels)) (width * channels) := by
  unfold CompressionType.compressStrip
  split
  · have hbytes : 8 / 8 = 1 := rfl
    have hbits : (width * channels * 8 + 7) / 8 = width * channels := by omega
    rw [PNGCompressor.compressStrip, hbytes, Nat.mul_one, hbits]
  · rfl

/-- **The rows of a strip are rows of the image.** -/
theorem handRows_eq {row n bytes : Nat} (hsize : (row + n) * bytes < 2 ^ 32) :
    handRows (u32 bytes) bytes ⟨row * bytes, n⟩
      = (List.range' row n).map fun k => (k * bytes, bytes) := by
  rw [handRows, List.range'_eq_map_range, List.map_map]
  refine List.map_congr_left fun i hi => ?_
  have hlt : i < n := List.mem_range.mp hi
  have hone : bytes ≤ (row + n) * bytes := Nat.le_mul_of_pos_left _ (by omega)
  have hmany : i * bytes ≤ (row + n) * bytes := Nat.mul_le_mul_right _ (by omega)
  rw [u32_of_lt (by omega : bytes < 2 ^ 32), u32_of_lt (by omega), ← Nat.add_mul]
  rfl

namespace CVT

variable {resampledWidth resampledHeight channels : Nat}

/-- **The rows that the encoder reads**, of all strips: the rows of the image. -/
theorem rows_passed (ct : CompressionType)
    (hsize : resampledWidth * resampledHeight * channels < 2 ^ 32) :
    (passed resampledWidth resampledHeight channels).flatMap
        (ct.compressStrip resampledWidth channels 8)
      = (List.range resampledHeight).map fun k =>
          (k * (resampledWidth * channels), resampledWidth * channels) := by
  have htiles := tiles_stripRows resampledHeight
  have hrows : ∀ p ∈ stripRows resampledHeight,
      ct.compressStrip resampledWidth channels 8 ⟨p.1 * (resampledWidth * channels), p.2⟩
        = (List.range' p.1 p.2).map fun k =>
            (k * (resampledWidth * channels), resampledWidth * channels) := by
    intro p hp
    have hend : (p.1 + p.2) * (resampledWidth * channels)
        ≤ resampledWidth * resampledHeight * channels := bytes_before_le (htiles.bounds hp).2
    rw [ct.compressStrip_bytes, handRows_eq (Nat.lt_of_le_of_lt hend hsize)]
  rw [passed_eq_of_lt hsize, List.flatMap_map, List.flatMap_congr hrows, ← List.map_flatMap,
    htiles.numbers, Nat.sub_zero, List.range_eq_range']

/-- **Every row is streamed exactly once.**  For every size of the output and every number of
channels whose product is below `2 ^ 31`: the strips begin at rows of the image, those rows are
`0 .. resampled_height-1` in order, without gap or overlap; a strip has 1 to 128 rows, and none goes
beyond the data.  So the rows that either encoder reads are the rows of the image, one after the
other. -/
theorem strips_cover_rows (resampledWidth resampledHeight channels : Nat)
    (hsize : resampledWidth * resampledHeight * channels < 2 ^ 31) :
    passed resampledWidth resampledHeight channels
        = (stripRows resampledHeight).map
            (fun p => ⟨p.1 * (resampledWidth * channels), p.2⟩) ∧
      (stripRows resampledHeight).flatMap (fun p => List.range' p.1 p.2)
        = List.range resampledHeight ∧
      (∀ s ∈ passed resampledWidth resampledHeight channels,
        (1 ≤ s.height ∧ s.height ≤ 128) ∧
          s.input + s.height * (resampledWidth * channels)
            ≤ resampledWidth * resampledHeight * channels) ∧
      ∀ ct : CompressionType,
        (passed resampledWidth resampledHeight channels).flatMap
            (ct.compressStrip resampledWidth channels 8)
          = (List.range resampledHeight).map fun k =>
              (k * (resampledWidth * channels), resampledWidth * channels) := by
  have hword : resampledWidth * resampledHeight * channels < 2 ^ 32 := by omega
  have hpassed := passed_eq_of_lt hword
  have htiles := tiles_stripRows resampledHeight
  refine ⟨hpassed, ?_, ?_, fun ct => rows_passed ct hword⟩
  · rw [htiles.numbers, Nat.sub_zero, List.range_eq_range']
  · rw [hpassed]
    intro s hs
    obtain ⟨p, hp, rfl⟩ := List.mem_map.mp hs
    refine ⟨height_of_mem_stripRows hp, ?_⟩
    rw [← Nat.add_mul]
    exact bytes_before_le (htiles.bounds hp).2

/-- 300 rows are two strips of 128 and one of 44. -/
theorem strips_cover_rows_300 :
    passed 5 300 3 = [⟨0, 128⟩, ⟨1920, 128⟩, ⟨3840, 44⟩] ∧
      ∀ s ∈ passed 5 300 3, (1 ≤ s.height ∧ s.height ≤ 128) ∧
        s.input + s.height * (5 * 3) ≤ 5 * 300 * 3 :=
  ⟨by decide, (strips_cover_rows 5 300 3 (by decide)).2.2.1⟩

end CVT

/-! ## 4. The tile that is sent -/

/-- The width and the height. -/
def Header.size (h : Header) : Nat × Nat := (h.width, h.height)

namespace Transform

theorem size_greyscale (h : Header) : (greyscale h).size = h.size := by
  unfold greyscale
  split <;> rfl

/-- **Only a rotation and a resize change the size.** -/
theorem size_op {op : JTL.Op} (hop : ∀ angle, op ≠ .rotate angle) (h : Header) :
    ((Step.op op).apply h).size = h.size := by
  cases op with
  | rotate angle => exact absurd rfl (hop angle)
  | flatten bands =>
    change (flatten bands h).size = h.size
    unfold flatten
    split <;> rfl
  | greyscale => exact size_greyscale h
  | binary threshold =>
    change (binary h).size = h.size
    unfold binary
    split
    · rfl
    · exact size_greyscale h
  | _ => rfl

theorem size_ops {ops : List JTL.Op} (hops : ∀ op ∈ ops, ∀ angle, op ≠ .rotate angle)
    (h : Header) : (run Step.apply (ops.map Step.op) h).size = h.size := by
  induction ops generalizing h with
  | nil => rfl
  | cons op ops ih =>
    obtain ⟨hop, hrest⟩ := List.forall_mem_cons.mp hops
    rw [List.map_cons, run_cons, ih hrest, size_op hop]

/-- The resize of `CVT` leaves the size of the output, whether it is needed or not. -/
theorem size_resizeSteps (px : Pixels) {e : CVT.Extraction} {h : Header}
    (hsize : h.size = (e.viewWidth, e.viewHeight)) :
    (run Step.apply (resizeSteps px e) h).size = (e.resampledWidth, e.resampledHeight) := by
  unfold resizeSteps
  split
  case isTrue =>
    rw [run_cons, run_nil, px.apply_resizing]
    rfl
  case isFalse hsame =>
    obtain ⟨hwidth, hheight⟩ := not_or.mp hsame
    rw [run_nil, hsize, not_not.mp hwidth, not_not.mp hheight]

variable {S : Server} {px : Settings → Pixels} {resizer : Pixels} {s : Session} {o : Opened}
  {e : CVT.Extraction} {t t' : RawTile} {v v' : View} {ops : List JTL.Op}

theorem rotation_floatOps {histogram : List Nat}
    (hops : JTL.floatOps v histogram t = .ok (v', ops)) : v'.rotation = v.rotation := by
  rcases JTL.floatOps_cases hops with ⟨-, rfl, -⟩ | ⟨_, -, rfl, -⟩ | ⟨-, rfl, -⟩ <;> rfl

theorem floatOps_ne_rotate {histogram : List Nat}
    (hops : JTL.floatOps v histogram t = .ok (v', ops)) :
    ∀ op ∈ ops, ∀ angle, op ≠ .rotate angle := by
  have hmiddle : ∀ op ∈ JTL.middleOps v, ∀ angle, op ≠ .rotate angle := by
    rintro op hop angle rfl
    by_cases hlog : v.gamma = -1 <;> simp [JTL.mem_middleOps, hlog] at hop
  rcases JTL.floatOps_cases hops with ⟨-, -, rfl⟩ | ⟨_, -, -, rfl⟩ | ⟨-, -, rfl⟩
  · exact fun op hop => nomatch hop
  all_goals
    intro op hop angle heq
    simp only [List.cons_append, List.mem_cons, List.mem_append, List.not_mem_nil, or_false] at hop
    rcases hop with rfl | hop | rfl
    · cases heq
    · exact hmiddle op hop angle heq
    · cases heq

/-- **Without a rotation the tile has the size of the output.** -/
theorem size_of_transforms (hraw : Format.raw.Holds t.header)
    (hdone : CVT.transforms (equip S px resizer) s o e t = .ok (t', v'))
    (hview : t.header.size = (e.viewWidth, e.viewHeight)) (hrotation : s.view.rotation = 0) :
    t'.header.size = (e.resampledWidth, e.resampledHeight) := by
  obtain ⟨t₀, t₁, ops, ht₀, hops, ht₁, ht'⟩ := cvt_header hraw hdone
  have hfirst : t₁.header.size = (e.resampledWidth, e.resampledHeight) := by
    rw [ht₁, run_append]
    refine size_resizeSteps resizer ?_
    rw [size_ops (floatOps_ne_rotate hops), ht₀, hview]
  have hrest : ∀ op ∈ JTL.flattenOps v' t₁ ++
      JTL.viewOps (px (s.settings o)).processor o.info v' o.base.histogram,
      ∀ angle, op ≠ .rotate angle := by
    have hsame := (rotation_floatOps hops).trans hrotation
    rintro op hop angle rfl
    simp [JTL.flattenOps, JTL.mem_viewOps, hsame] at hop
  rw [ht', size_ops hrest, hfirst]

end Transform

namespace CVT

open Transform

variable {S : Server} {px : Settings → Pixels} {resizer : Pixels} {s : Session} {o : Opened}
  {e : Extraction} {t t' : RawTile} {v' : View}

/-- `resampled_width` and `resampled_height` behind the rotation.  The second is the height that
`CVT.task` counts the strips by. -/
def resampled (v : View) (e : Extraction) (t : RawTile) : Nat × Nat :=
  if v.rotation ≠ 0 then (t.width, t.height) else (e.resampledWidth, e.resampledHeight)

/-- **The strips are counted by the size of the tile** that the operations leave. -/
theorem resampled_eq (hraw : Format.raw.Holds t.header)
    (hdone : CVT.transforms (equip S px resizer) s o e t = .ok (t', v'))
    (hview : t.header.size = (e.viewWidth, e.viewHeight)) :
    resampled s.view e t' = (t'.width, t'.height) := by
  unfold resampled
  split
  case isTrue => rfl
  case isFalse hnone => exact (size_of_transforms hraw hdone hview (not_not.mp hnone)).symm

/-- **`send` streams the tile it has made.**  For every region of 8, 16 or 32 bits, every image and
every view: the rows that the encoder is handed are the rows of the tile that the operations leave,
each once and in order. -/
theorem rows_transforms (hraw : Format.raw.Holds t.header)
    (hdone : CVT.transforms (equip S px resizer) s o e t = .ok (t', v'))
    (hview : t.header.size = (e.viewWidth, e.viewHeight))
    (hsize : t'.width * t'.height * t'.channels < 2 ^ 32) :
    (passed (resampled s.view e t').1 (resampled s.view e t').2 t'.channels).flatMap
        (s.view.outputFormat.compressStrip t'.width t'.channels t'.bpc)
      = (List.range t'.height).map fun k =>
          (k * (t'.width * t'.channels), t'.width * t'.channels) := by
  obtain ⟨_, -, -, henc⟩ := cvt_processed hraw hdone
  have hbytes : t'.bpc = 8 := henc.bytes.1
  rw [resampled_eq hraw hdone hview, hbytes]
  exact rows_passed _ hsize

/-- A view that turns its region by a right angle, and a region that is made half as large. -/
def turned : View := { View.new with rotation := 90 }

def halved : Extraction := ⟨0, 0, 0, 6, 4, 3, 2⟩

/-- 6 by 4 grey pixels, made half as large and turned: three rows of two pixels. -/
theorem rows_transforms_turned :
    ∃ t' v', CVT.transforms (equip (smallServer fun _ => none) (fun _ => blank) blank)
        { ((smallServer fun _ => none).start freshState.imageCache
            freshState.tileCache).session with view := turned }
          newImage halved { onePixel 1 8 with width := 6, height := 4 }
          = .ok (t', v') ∧
      (passed (resampled turned halved t').1 (resampled turned halved t').2 t'.channels).flatMap
          (turned.outputFormat.compressStrip t'.width t'.channels t'.bpc)
        = [(0, 2), (2, 2), (4, 2)] := by
  have hshape : ∃ t' v', CVT.transforms (equip (smallServer fun _ => none) (fun _ => blank) blank)
      { ((smallServer fun _ => none).start freshState.imageCache freshState.tileCache).session with
        view := turned } newImage halved { onePixel 1 8 with width := 6, height := 4 }
        = .ok (t', v') ∧ t'.width = 2 ∧ t'.height = 3 ∧ t'.channels = 1 :=
    ⟨_, _, rfl, rfl, rfl, rfl⟩
  obtain ⟨t', v', hdone, hwidth, hheight, hchannels⟩ := hshape
  refine ⟨t', v', hdone, (rows_transforms (by decide) hdone rfl ?_).trans ?_⟩
  · rw [hwidth, hheight, hchannels]
    decide
  · rw [hwidth, hheight, hchannels]
    decide

end CVT

end Iipsrv
