/-
# Watermarks

`Watermark::init` loads an image of three channels and eight bits, faded by its opacity.
`Watermark::apply` adds it to a tile, at a place that is drawn at random.

The loop over the samples of a pixel goes through the channels of the TILE.  For a fourth one there
is no sample in the watermark: what is read is the next pixel's, and behind the last pixel it is
memory that is not the watermark's.

The place is drawn in floats, so the room a watermark has is rounded to 24 binary digits before it
is used.  `stays_inside_iff` says that watermarking is right, for all draws, exactly if the tile has
no more than three channels and the room in neither direction is rounded up, or nothing is done.

1. loading, which succeeds exactly for a buffer that 32 bits can address;
2. the call, from its three random numbers;
3. where the watermark is placed;
4. what it has to leave.
-/
import Mathlib.Tactic.Linarith
import Mathlib.Tactic.Positivity
import Iipsrv.Lib.Raster
import Iipsrv.Lib.Single
import Iipsrv.Lib.Word

namespace Iipsrv

open Lib.Word Lib.Buffer Lib.Loop Lib.Raster Lib.Single

/-! ## 1. Loading -/

/-- A pixel as `TIFFReadRGBAImage` delivers it. -/
structure Rgba where
  r : UInt8
  g : UInt8
  b : UInt8
  a : UInt8

namespace Watermark

/-- `r * _opacity * a`, with `a = (float) TIFFGetA(rgba) / 255`. -/
def product (opacity : ℚ) (v a : UInt8) : Nat :=
  ⌊single (single (v.toNat * opacity) * single (a.toNat / 255))⌋₊

/-- The product, made a byte. -/
def faded (opacity : ℚ) (v a : UInt8) : UInt8 := UInt8.ofNat (product opacity v a)

/-- With an opacity between 0 and 1, as the environment gives it, the product fits in a byte, as it
is not brighter than the image. -/
theorem toNat_faded {opacity : ℚ} (hlow : 0 ≤ opacity) (hhigh : opacity ≤ 1) (v a : UInt8) :
    (faded opacity v a).toNat = product opacity v a := by
  have hv : single v.toNat = v.toNat := single_natCast (by have := v.toNat_lt; omega)
  have hone : single 1 = 1 := by exact_mod_cast single_natCast (n := 1) (by norm_num)
  have hcolour : single (v.toNat * opacity) ≤ v.toNat :=
    (single_mono (by positivity) (mul_le_of_le_one_right (by positivity) hhigh)).trans_eq hv
  have halpha : single (a.toNat / 255) ≤ 1 := by
    refine (single_mono (by positivity) ?_).trans_eq hone
    rw [div_le_one (by norm_num)]
    exact_mod_cast Nat.le_of_lt_succ a.toNat_lt
  have hnonneg : 0 ≤ single (v.toNat * opacity) := single_nonneg (by positivity)
  have hproduct : product opacity v a ≤ v.toNat := Nat.floor_le_of_le
    ((single_mono (mul_nonneg hnonneg (single_nonneg (by positivity)))
      ((mul_le_of_le_one_right hnonneg halpha).trans hcolour)).trans_eq hv)
  exact UInt8.toNat_ofNat_of_lt' (hproduct.trans_lt v.toNat_lt)

/-- The three samples of pixel `i`. -/
def loadPixel (opacity : ℚ) (rgba : Rgba) (i : Nat) (watermark : List UInt8) :
    Option (List UInt8) := do
  let watermark ← store watermark (u32 (i * 3)) (faded opacity rgba.r rgba.a)
  let watermark ← store watermark (u32 (i * 3 + 1)) (faded opacity rgba.g rgba.a)
  store watermark (u32 (i * 3 + 2)) (faded opacity rgba.b rgba.a)

/-- `Watermark::init`, once the image has been opened: `image` is what the decoder writes into the
buffer of `_width * _height` words. -/
def init (opacity : ℚ) (width height : Nat) (image : List Rgba) : Option (List UInt8) :=
  if u32 (width * height) < image.length then none
  else
    (List.range (u32 (width * height))).foldlM
      (fun watermark i => image[i]?.bind fun rgba => loadPixel opacity rgba i watermark)
      (List.replicate (u32 (width * height * 3)) 0)

section
variable {opacity : ℚ} {width height : Nat} {image : List Rgba} {bytes : List UInt8}

/-- A pixel that has been loaded was inside the buffer with all its samples. -/
theorem loadPixel_some {rgba : Rgba} {i : Nat} {out : List UInt8}
    (h : loadPixel opacity rgba i bytes = some out) :
    out.length = bytes.length ∧ ∀ c < 3, u32 (i * 3 + c) < bytes.length := by
  have hstore {l l' : List UInt8} {n : Nat} {v : UInt8} (hl : store l n v = some l') :
      l'.length = l.length ∧ n < l.length := by
    unfold store at hl
    split at hl
    case isTrue hn => exact ⟨Option.some.inj hl ▸ List.length_set, hn⟩
    case isFalse => cases hl
  obtain ⟨l₁, h₁, h⟩ := Option.bind_eq_some_iff.mp h
  obtain ⟨l₂, h₂, h₃⟩ := Option.bind_eq_some_iff.mp h
  obtain ⟨hlen₁, hlt₁⟩ := hstore h₁
  obtain ⟨hlen₂, hlt₂⟩ := hstore h₂
  obtain ⟨hlen₃, hlt₃⟩ := hstore h₃
  refine ⟨by omega, fun c hc => ?_⟩
  obtain rfl | rfl | rfl : c = 0 ∨ c = 1 ∨ c = 2 := by omega
  · exact hlt₁
  · exact hlen₁ ▸ hlt₂
  · exact hlen₁ ▸ hlen₂ ▸ hlt₃

/-- **A watermark that could be loaded can be addressed.**  If its bytes were too many for 32 bits,
the buffer would be too small for them. -/
theorem init_some (himage : image.length = width * height)
    (h : init opacity width height image = some bytes) :
    width * height * 3 < 2 ^ 32 ∧ bytes.length = width * height * 3 := by
  unfold init at h
  split at h
  case isTrue => cases h
  case isFalse hfits =>
    have hkeeps : ∀ i ∈ List.range (u32 (width * height)), ∀ l l' : List UInt8,
        l.length = u32 (width * height * 3) →
        (image[i]?.bind fun rgba => loadPixel opacity rgba i l) = some l' →
        l'.length = u32 (width * height * 3) := by
      intro i _ l l' hl hturn
      obtain ⟨rgba, -, hpixel⟩ := Option.bind_eq_some_iff.mp hturn
      exact (loadPixel_some hpixel).1.trans hl
    have hlen := foldlM_preserves _ hkeeps List.length_replicate h
    have hlt : width * height * 3 < 2 ^ 32 := by
      by_contra hge
      -- the buffer ends at a byte that the loop gets to
      have hmem : u32 (width * height * 3) / 3 ∈ List.range (u32 (width * height)) := by
        rw [List.mem_range]
        unfold u32 at hfits ⊢
        omega
      obtain ⟨l, l', hl, hturn⟩ := foldlM_turn hkeeps List.length_replicate h _ hmem
      obtain ⟨rgba, -, hpixel⟩ := Option.bind_eq_some_iff.mp hturn
      have hend := (loadPixel_some hpixel).2 _ (Nat.mod_lt (u32 (width * height * 3)) three_pos)
      rw [Nat.div_add_mod', hl, u32_of_lt (u32_lt _)] at hend
      exact hend.false
    exact ⟨hlt, hlen.trans (u32_of_lt hlt)⟩

/-- What the loop makes of some pixels. -/
def fadedAll (opacity : ℚ) (l : List Rgba) : List UInt8 :=
  l.flatMap fun p => [p.r, p.g, p.b].map (faded opacity · p.a)

/-- One turn, behind the pixels that have been loaded. -/
theorem loadPixel_append {i : Nat} (hi : i < image.length) (hlt : i * 3 + 2 < 2 ^ 32)
    (rest : List UInt8) :
    loadPixel opacity image[i] i (fadedAll opacity (image.take i) ++ 0 :: 0 :: 0 :: rest)
      = some (fadedAll opacity (image.take (i + 1)) ++ rest) := by
  have hlen : (fadedAll opacity (image.take i)).length = i * 3 := by
    simp [fadedAll, List.length_flatMap, hi.le]
  unfold loadPixel
  rw [u32_of_lt (by omega), u32_of_lt (by omega), u32_of_lt hlt, ← hlen,
    List.take_succ_eq_append_getElem hi]
  simp [store, fadedAll, -List.take_append_getElem]

/-- What can be addressed is loaded. -/
theorem init_of_lt (himage : image.length = width * height) (hlt : width * height * 3 < 2 ^ 32) :
    init opacity width height image = some (fadedAll opacity image) := by
  unfold init
  rw [u32_of_lt hlt, u32_of_lt (by omega), ← himage, if_neg (Nat.lt_irrefl _), List.range_eq_range']
  obtain ⟨l, hl, hend⟩ := foldlM_some
    (f := fun l i => image[i]?.bind fun p => loadPixel opacity p i l)
    (fun i l => l = fadedAll opacity (image.take i) ++
      List.replicate ((image.length - i) * 3) 0) image.length 0
    (List.replicate (image.length * 3) 0) (by simp [fadedAll]) fun i l _ hi hl => by
      have hi : i < image.length := by omega
      refine ⟨_, ?_, rfl⟩
      rw [hl, List.getElem?_eq_getElem hi, Option.bind_some,
        show (image.length - i) * 3 = (image.length - (i + 1)) * 3 + 3 by omega]
      exact loadPixel_append hi (by omega) _
  rw [hl, hend]
  simp

/-- **What is loaded**: exactly a watermark whose bytes 32 bits can address, and all of it.  No
product is cut to a byte. -/
theorem init_eq_some_iff (hlow : 0 ≤ opacity) (hhigh : opacity ≤ 1)
    (himage : image.length = width * height) :
    init opacity width height image = some bytes ↔ width * height * 3 < 2 ^ 32 ∧
      bytes.map UInt8.toNat
        = image.flatMap fun p => [p.r, p.g, p.b].map (product opacity · p.a) := by
  have hall : (fadedAll opacity image).map UInt8.toNat
      = image.flatMap fun p => [p.r, p.g, p.b].map (product opacity · p.a) := by
    simp [fadedAll, List.map_flatMap, toNat_faded hlow hhigh]
  rw [← hall, (List.map_injective_iff.mpr fun _ _ => UInt8.toNat_inj.mp).eq_iff]
  constructor
  · intro h
    have hlt := (init_some himage h).1
    exact ⟨hlt, Option.some.inj (h.symm.trans (init_of_lt himage hlt))⟩
  · rintro ⟨hlt, rfl⟩
    exact init_of_lt himage hlt

/-- Two pixels, faded to the half and a quarter and by their own alpha. -/
theorem init_eq_some_iff_two :
    init (1 / 2) 2 1 [⟨10, 20, 250, 128⟩, ⟨255, 100, 7, 200⟩] = some [2, 5, 62, 100, 39, 2] :=
  (init_eq_some_iff (by norm_num) (by norm_num) rfl).mpr ⟨by decide, by decide +kernel⟩

end

end Watermark

/-- A loaded watermark. -/
structure Watermark where
  width : Nat
  height : Nat
  opacity : ℚ
  probability : ℚ
  image : List Rgba
  bytes : List UInt8
  length_image : image.length = width * height
  loaded : Watermark.init opacity width height image = some bytes

/-! ## 2. The call -/

/-- A random number, `(float) rand() / RAND_MAX`. -/
structure Draw where
  value : ℚ
  nonneg : 0 ≤ value
  le_one : value ≤ 1

/-- The buffer of a tile of 8 or 16 bits: as many samples as its size says. -/
structure TileBuffer where
  width : Nat
  height : Nat
  channels : Nat
  bpc : Nat
  samples : List Nat
  bpc_eq : bpc = 8 ∨ bpc = 16
  length_eq : samples.length = width * height * channels
  length_lt : width * height * channels < 2 ^ 32
  lt_of_mem : ∀ d ∈ samples, d < 2 ^ bpc

namespace Watermark

/-- `xoffset` and `yoffset`: where a watermark of size `own` begins in a tile. -/
def offset (random : ℚ) (size own : Nat) : Nat :=
  if own < size then ⌊single (random * single (size - own : Nat))⌋₊ else 0

/-- `xlimit` and `ylimit`: how much of it is used. -/
def limit (own size : Nat) : Nat := if size < own then size else own

/-- The sum of a tile's sample and a watermark's, clipped. -/
def addClipped (bpc d m : Nat) : Nat :=
  if bpc = 16 then
    let t := u32 (d + m * 256)
    if 65535 < t then 65535 else t
  else
    let t := (d + m) % 2 ^ 16
    if 255 < t then 255 else t

/-- One turn of the innermost loop. -/
def stampSample (wm : Watermark) (t : TileBuffer) (xoffset yoffset : Nat) (data : List Nat)
    (j i k : Nat) : Option (List Nat) :=
  let id := u32 ((j + yoffset) * t.width * t.channels + (i + xoffset) * t.channels + k)
  data[id]?.bind fun d =>
    wm.bytes[u32 (j * wm.width * 3 + i * 3 + k)]?.bind fun m =>
      store data id (addClipped t.bpc d m.toNat)

/-- The three loops. -/
def stamp (wm : Watermark) (t : TileBuffer) (xoffset yoffset : Nat) : Option (List Nat) :=
  (List.range (limit wm.height t.height)).foldlM (fun data j =>
    (List.range (limit wm.width t.width)).foldlM (fun data i =>
      (List.range t.channels).foldlM (fun data k => wm.stampSample t xoffset yoffset data j i k)
        data) data) t.samples

/-- `Watermark::apply`.  The second and the third random number are only drawn if the tile is larger
than the watermark in that direction. -/
def apply (wm : Watermark) (chance across down : Draw) (t : TileBuffer) : Option (List Nat) :=
  if wm.probability = 0 ∨ wm.opacity = 0 then some t.samples
  else if chance.value < wm.probability then
    wm.stamp t (offset across.value t.width wm.width) (offset down.value t.height wm.height)
  else some t.samples

/-! ## 3. The place -/

theorem limit_le_own (own size : Nat) : limit own size ≤ own := by
  unfold limit
  split <;> omega

theorem limit_pos {own size : Nat} (hown : 0 < own) (hsize : 0 < size) : 0 < limit own size := by
  unfold limit
  split <;> omega

/-- **The room that a watermark has is not rounded up**, when it is made a float. -/
def RoomKept (size own : Nat) : Prop := single (size - own : Nat) ≤ (size - own : Nat)

instance (size own : Nat) : Decidable (RoomKept size own) :=
  inferInstanceAs (Decidable (_ ≤ _))

/-- Up to `2 ^ 24` pixels it is what it is. -/
theorem roomKept_of_le {size own : Nat} (h : size - own ≤ 2 ^ 24) : RoomKept size own :=
  (single_natCast h).le

/-- Then the watermark is inside, ... -/
theorem offset_add_limit_le {size own : Nat} (h : RoomKept size own) (draw : Draw) :
    offset draw.value size own + limit own size ≤ size := by
  unfold offset limit
  split
  case isTrue hlt =>
    have hsingle : (0 : ℚ) ≤ single (size - own : Nat) := single_nonneg (Nat.cast_nonneg _)
    have hle : single (draw.value * single (size - own : Nat)) ≤ (size - own : Nat) :=
      calc single (draw.value * single (size - own : Nat))
          ≤ single (single (size - own : Nat)) :=
            single_mono (mul_nonneg draw.nonneg hsingle)
              (mul_le_of_le_one_left hsingle draw.le_one)
        _ = single (size - own : Nat) := single_single (Nat.cast_nonneg _)
        _ ≤ (size - own : Nat) := h
    have := Nat.floor_le_of_le hle
    rw [if_neg (by omega)]
    omega
  case isFalse => split <;> omega

/-- ... and otherwise the last draw puts it across the edge. -/
theorem roomKept_of_inside {size own : Nat}
    (h : offset 1 size own + limit own size ≤ size) : RoomKept size own := by
  unfold offset limit at h
  split at h
  case isTrue hlt =>
    obtain ⟨m, hm⟩ := exists_single_natCast (size - own)
    rw [one_mul, single_single (Nat.cast_nonneg _), hm, Nat.floor_natCast, if_neg (by omega)] at h
    unfold RoomKept
    rw [hm]
    exact_mod_cast (by omega : m ≤ size - own)
  case isFalse hge => exact roomKept_of_le (by omega)

/-! ## 4. What is left -/

/-- The watermark's sample of pixel `(i, j)` in channel `k`. -/
def sample (wm : Watermark) (i j k : Nat) : Option Nat :=
  if k < 3 then wm.bytes[place wm.width 3 i j k]?.map UInt8.toNat else none

/-- What a sample of the tile has to become. -/
def saturated (bpc d m : Nat) : Nat := if bpc = 16 then min 65535 (d + 256 * m) else min 255 (d + m)

/-- **The watermark has been added at `(x₀, y₀)`**: inside the tile, sample by sample, and nowhere
else. -/
structure Stamped (wm : Watermark) (t : TileBuffer) (x₀ y₀ : Nat) (out : List Nat) : Prop where
  length_eq : out.length = t.samples.length
  inside : ∀ i < limit wm.width t.width, ∀ j < limit wm.height t.height, ∀ k < t.channels,
    x₀ + i < t.width ∧ y₀ + j < t.height ∧ ∃ d m,
      t.samples[place t.width t.channels (x₀ + i) (y₀ + j) k]? = some d ∧
      wm.sample i j k = some m ∧
      out[place t.width t.channels (x₀ + i) (y₀ + j) k]? = some (saturated t.bpc d m)
  outside : ∀ x < t.width, ∀ y < t.height, ∀ k < t.channels,
    ¬ ((x₀ ≤ x ∧ x < x₀ + limit wm.width t.width) ∧
      (y₀ ≤ y ∧ y < y₀ + limit wm.height t.height)) →
    out[place t.width t.channels x y k]? = t.samples[place t.width t.channels x y k]?

/-- **Watermarking is right for all random numbers.** -/
def StaysInside (wm : Watermark) (t : TileBuffer) : Prop :=
  ∀ chance across down : Draw,
    if wm.probability = 0 ∨ wm.opacity = 0 ∨ wm.probability ≤ chance.value then
      wm.apply chance across down t = some t.samples
    else ∃ out, wm.apply chance across down t = some out ∧
      wm.Stamped t (offset across.value t.width wm.width) (offset down.value t.height wm.height) out

/-- Nothing is ever added. -/
def Idle (wm : Watermark) (t : TileBuffer) : Prop :=
  wm.probability ≤ 0 ∨ wm.opacity = 0 ∨ wm.width = 0 ∨ wm.height = 0 ∨ t.channels = 0

section
variable {wm : Watermark} {t : TileBuffer} {x₀ y₀ : Nat}

/-- The clipped sum is the saturated one: it has been computed in a type that is wide enough. -/
theorem addClipped_eq {bpc d : Nat} (hbpc : bpc = 8 ∨ bpc = 16) (hd : d < 2 ^ bpc) (m : UInt8) :
    addClipped bpc d m.toNat = saturated bpc d m.toNat := by
  have hm := m.toNat_lt
  unfold addClipped saturated u32
  dsimp only
  rcases hbpc with rfl | rfl
  · have hne : ¬ (8 : Nat) = 16 := by decide
    rw [if_neg hne, if_neg hne]
    split <;> omega
  · rw [if_pos rfl, if_pos rfl]
    split <;> omega

/-- In the first three channels every pixel has its sample, where the loop reads it. -/
theorem exists_sample {i j k : Nat} (hi : i < wm.width) (hj : j < wm.height) (hk : k < 3) :
    ∃ m : UInt8, wm.bytes[u32 (j * wm.width * 3 + i * 3 + k)]? = some m ∧
      wm.sample i j k = some m.toNat := by
  obtain ⟨hlt, hlen⟩ := init_some wm.length_image wm.loaded
  have hplace := place_lt hi hj hk
  have hindex : j * wm.width * 3 + i * 3 + k = place wm.width 3 i j k := by
    unfold place
    rw [Nat.add_mul]
  refine ⟨wm.bytes[place wm.width 3 i j k], ?_, ?_⟩
  · rw [hindex, u32_of_lt (by omega)]
    exact List.getElem?_eq_getElem _
  · unfold sample
    rw [if_pos hk, List.getElem?_eq_getElem (by omega), Option.map_some]

/-- **Up to three channels, a watermark inside the tile is added to it.** -/
theorem stamp_inside (hchannels : t.channels ≤ 3) (hx : x₀ + limit wm.width t.width ≤ t.width)
    (hy : y₀ + limit wm.height t.height ≤ t.height) :
    ∃ out, wm.stamp t x₀ y₀ = some out ∧ wm.Stamped t x₀ y₀ out := by
  have hcell {i j k : Nat} (hi : i < limit wm.width t.width) (hj : j < limit wm.height t.height)
      (hk : k < t.channels) : place t.width t.channels (x₀ + i) (y₀ + j) k < t.samples.length := by
    rw [t.length_eq]
    exact place_lt (by omega) (by omega) hk
  have hsample {i j k : Nat} (hi : i < limit wm.width t.width) (hj : j < limit wm.height t.height)
      (hk : k < t.channels) := wm.exists_sample (hi.trans_le (limit_le_own _ _))
        (hj.trans_le (limit_le_own _ _)) (hk.trans_le hchannels)
  obtain ⟨out, hout, hlen, hcells⟩ := foldlM_rectangle (wm.stampSample t x₀ y₀)
    (fun j i k => saturated t.bpc
      (t.samples[place t.width t.channels (x₀ + i) (y₀ + j) k]?.getD 0)
      ((wm.sample i j k).getD 0)) t.samples t.length_eq.ge hx hy
    fun out j hj i hi k hk hlen hold => by
      obtain ⟨m, hread, hm⟩ := hsample hi hj hk
      have hlt := hcell hi hj hk
      have hindex : (j + y₀) * t.width * t.channels + (i + x₀) * t.channels + k
          = place t.width t.channels (x₀ + i) (y₀ + j) k := by
        unfold place
        ring
      have hfits := t.length_eq ▸ t.length_lt
      have hd := t.lt_of_mem _ (List.getElem_mem hlt)
      unfold stampSample
      dsimp only
      rw [hindex, u32_of_lt (hlt.trans hfits), hold, hread, hm, List.getElem?_eq_getElem hlt,
        Option.bind_some, Option.bind_some, Option.getD_some, Option.getD_some,
        addClipped_eq t.bpc_eq hd, store_of_lt _ (hlen ▸ hlt)]
  refine ⟨out, hout, hlen, ?_, ?_⟩
  · intro i hi j hj k hk
    obtain ⟨m, -, hm⟩ := hsample hi hj hk
    refine ⟨by omega, by omega, _, _, List.getElem?_eq_getElem (hcell hi hj hk), hm, ?_⟩
    rw [hcells _ _ _ (by omega) hk, if_pos (by omega), Nat.add_sub_cancel_left,
      Nat.add_sub_cancel_left, hm, List.getElem?_eq_getElem (hcell hi hj hk)]
    rfl
  · intro x hx y _ k hk hout
    rw [hcells x y k hx hk, if_neg hout]

/-- A watermark or a tile without samples. -/
theorem stamp_empty (h : wm.width = 0 ∨ wm.height = 0 ∨ t.channels = 0) :
    wm.stamp t x₀ y₀ = some t.samples ∧ wm.Stamped t x₀ y₀ t.samples := by
  constructor
  · unfold stamp
    rcases h with h | h | h
    · have hlimit : limit wm.width t.width = 0 := Nat.le_zero.mp (h ▸ limit_le_own _ _)
      rw [hlimit]
      exact foldlM_idle (fun _ _ => rfl) _ _
    · have hlimit : limit wm.height t.height = 0 := Nat.le_zero.mp (h ▸ limit_le_own _ _)
      rw [hlimit]
      rfl
    · rw [h]
      exact foldlM_idle (fun _ _ => foldlM_idle (fun _ _ => rfl) _ _) _ _
  · refine ⟨rfl, fun i hi j hj k hk => ?_, fun _ _ _ _ _ _ _ => rfl⟩
    have := hi.trans_le (limit_le_own _ _)
    have := hj.trans_le (limit_le_own _ _)
    omega

/-- A watermark with pixels, added with the last draws. -/
theorem Stamped.of_last {out : List Nat}
    (h : wm.Stamped t (offset 1 t.width wm.width) (offset 1 t.height wm.height) out)
    (hcolumns : 0 < limit wm.width t.width) (hrows : 0 < limit wm.height t.height)
    (hchannels : t.channels ≠ 0) :
    t.channels ≤ 3 ∧ RoomKept t.width wm.width ∧ RoomKept t.height wm.height := by
  refine ⟨?_, roomKept_of_inside ?_, roomKept_of_inside ?_⟩
  · by_contra hmore
    -- a fourth channel has no sample in the watermark
    obtain ⟨-, -, d, m, -, hm, -⟩ := h.inside 0 hcolumns 0 hrows 3 (by omega)
    unfold sample at hm
    rw [if_neg (by omega)] at hm
    cases hm
  · obtain ⟨hlast, -⟩ := h.inside (limit wm.width t.width - 1) (by omega) 0 hrows 0 (by omega)
    omega
  · obtain ⟨-, hlast, -⟩ := h.inside 0 hcolumns (limit wm.height t.height - 1) (by omega) 0
      (by omega)
    omega

/-- The call that does nothing. -/
theorem apply_off {chance across down : Draw}
    (h : wm.probability = 0 ∨ wm.opacity = 0 ∨ wm.probability ≤ chance.value) :
    wm.apply chance across down t = some t.samples := by
  unfold apply
  split
  case isTrue => rfl
  case isFalse hon =>
    rw [if_neg]
    rcases h with hoff | hoff | hoff
    · exact absurd (.inl hoff) hon
    · exact absurd (.inr hoff) hon
    · exact not_lt.mpr hoff

/-- The call that adds the watermark. -/
theorem apply_on {chance across down : Draw} (hp : wm.probability ≠ 0) (hopacity : wm.opacity ≠ 0)
    (hchance : chance.value < wm.probability) :
    wm.apply chance across down t = wm.stamp t (offset across.value t.width wm.width)
      (offset down.value t.height wm.height) := by
  unfold apply
  rw [if_neg (not_or.mpr ⟨hp, hopacity⟩), if_pos hchance]

end

/-- **When watermarking is right.**  Nothing is added, or the tile has no more than three channels
and the room is not rounded up. -/
theorem stays_inside_iff (wm : Watermark) (t : TileBuffer) (hwidth : 1 ≤ t.width)
    (hheight : 1 ≤ t.height) :
    wm.StaysInside t ↔ wm.Idle t ∨
      (t.channels ≤ 3 ∧ RoomKept t.width wm.width ∧ RoomKept t.height wm.height) := by
  constructor
  · intro h
    by_contra hnot
    obtain ⟨hbusy, hwrong⟩ := not_or.mp hnot
    unfold Idle at hbusy
    push Not at hbusy
    obtain ⟨hp, hopacity, hw, hh, hchannels⟩ := hbusy
    -- the watermark is added, and both random numbers are 1
    have hdraw := h ⟨0, le_rfl, zero_le_one⟩ ⟨1, zero_le_one, le_rfl⟩ ⟨1, zero_le_one, le_rfl⟩
    rw [if_neg (not_or.mpr ⟨hp.ne', not_or.mpr ⟨hopacity, not_le.mpr hp⟩⟩)] at hdraw
    obtain ⟨out, -, hstamped⟩ := hdraw
    exact hwrong (hstamped.of_last (limit_pos (Nat.pos_of_ne_zero hw) hwidth)
      (limit_pos (Nat.pos_of_ne_zero hh) hheight) hchannels)
  · intro h chance across down
    split
    case isTrue hoff => exact apply_off hoff
    case isFalse hon =>
      push Not at hon
      obtain ⟨hp, hopacity, hchance⟩ := hon
      rw [apply_on hp hopacity hchance]
      rcases h with (hidle | hidle | hempty) | ⟨hchannels, hx, hy⟩
      · exact absurd (hidle.trans chance.nonneg) (not_le.mpr hchance)
      · contradiction
      · obtain ⟨hout, hstamped⟩ := stamp_empty hempty
        exact ⟨t.samples, hout, hstamped⟩
      · exact stamp_inside hchannels (offset_add_limit_le hx across) (offset_add_limit_le hy down)

/-- A watermark of one pixel, fully opaque. -/
def onePixel : Watermark :=
  ⟨1, 1, 1, 1, [⟨10, 20, 250, 255⟩], [10, 20, 250], rfl, by decide +kernel⟩

/-- A tile of two RGB pixels. -/
def twoRgb : TileBuffer :=
  ⟨2, 1, 3, 8, [0, 100, 200, 255, 255, 255], .inl rfl, rfl, by decide, by decide⟩

theorem stays_inside_rgb : onePixel.StaysInside twoRgb :=
  (stays_inside_iff onePixel twoRgb (by decide) (by decide)).mpr
    (.inr ⟨by decide, roomKept_of_le (by decide), roomKept_of_le (by decide)⟩)

/-- A tile of one RGBA pixel. -/
def rgbaPixel : TileBuffer :=
  ⟨1, 1, 4, 8, [0, 100, 200, 255], .inl rfl, rfl, by decide, by decide⟩

/-- **The fourth channel is read behind the watermark**: its buffer has three bytes, and the loop
reads the one with number 3. -/
theorem fourth_channel_leaves_buffer :
    onePixel.bytes.length = 3 ∧
      onePixel.apply ⟨0, by decide, by decide⟩ ⟨0, by decide, by decide⟩ ⟨0, by decide, by decide⟩
        rgbaPixel = none := by
  decide +kernel

end Watermark

end Iipsrv
