/-
# Samples on their way through the float pipeline

`Transform::normalize`, `shade` and `contrast` with their pixels.  Each of them works out for itself
how many samples there are: the first two take `dataLength * 8 / bpc`, where the product by 8 is one
of `unsigned int`s, and the last takes `width * height * channels`.

* **Counting** (§4).  The two counts agree below `2 ^ 29` bytes and NOWHERE ELSE (`counted_iff`).
  A tile of half a gigabyte has no samples at all for `normalize`, which allocates nothing, and
  `contrast` then reads from it (`half_gigabyte`).
* **Shading** (§5).  `shade` takes one turn for each SAMPLE and reads three samples in every turn,
  so it leaves the buffer after a third of them.  `shades_iff` says when it does not: if there are
  no pixels, and for exactly `2 ^ 26` pixels of three channels, where the count wraps to the number
  of pixels.

A `float` is an exact rational number, an infinity or not a number: nothing here depends on how
results are rounded.
-/
import Iipsrv.Transform.Canvas
import Iipsrv.Lib.Fill
import Iipsrv.Lib.Loop

namespace Iipsrv.Transform

open Lib.Word Lib.Buffer Lib.Fill Lib.Loop

/-! ## 1. Floats -/

/-- A `float`, without rounding. -/
inductive Sample
  | number (v : ℚ)
  | infinity (negative : Bool)
  | nan
  deriving DecidableEq

namespace Sample

def add : Sample → Sample → Sample
  | .number a, .number b => .number (a + b)
  | .infinity s, .infinity t => if s = t then .infinity s else .nan
  | .infinity s, .number _ | .number _, .infinity s => .infinity s
  | .nan, _ | _, .nan => .nan

/-- The product with a number. -/
def scale (c : ℚ) : Sample → Sample
  | .number v => .number (v * c)
  | .infinity s => if c = 0 then .nan else .infinity (s != decide (c < 0))
  | .nan => .nan

/-- `fabs(diffc) > 1e-30? 1./diffc : 1e30`. -/
def inverse (diff : ℚ) : ℚ := if 1 / 10 ^ 30 < |diff| then 1 / diff else 10 ^ 30

/-- What `normalize` makes of a sample.  Integers are always finite. -/
def normalized (minc maxc : ℚ) : Sample → Sample
  | .number v => .number ((v - minc) * inverse (maxc - minc))
  | .infinity _ | .nan => .number 0

/-- `if( dot_product < 0.0 ) dot_product = 0.0; if( dot_product > 1.0 ) dot_product = 1.0`. -/
def clamp : Sample → Sample
  | .number v => .number (if v < 0 then 0 else if 1 < v then 1 else v)
  | .infinity s => .number (if s then 0 else 1)
  | .nan => .nan

/-- `(unsigned char)( (v<max) ? (v<0.0? 0.0 : v) : max )`. -/
def clip : Sample → UInt8
  | .number v => if v < 255 then if v < 0 then 0 else ⌊v⌋.toNat.toUInt8 else 255
  | .infinity s => if s then 0 else 255
  | .nan => 255

end Sample

/-- The direction of the light, which `shade` works out from the two angles. -/
structure Light where
  x : ℚ
  y : ℚ
  z : ℚ

/-- What `shade` makes of three samples. -/
def Light.value (s : Light) (x y z : Sample) : Sample :=
  let o (v : Sample) : Sample :=
    if x = .number 0 ∧ y = .number 0 ∧ z = .number 0 then .number 0
    else .scale (-2) (.add v (.number (-1 / 2)))
  .clamp (.scale (1 / 2) (.add (.add (.scale s.x (o x)) (.scale s.y (o y))) (.scale s.z (o z))))

/-! ## 2. The loops -/

/-- A tile before normalization: its samples, and a range for each channel. -/
structure RawSamples where
  header : Header
  sampleType : SampleType
  samples : List Sample
  min : List ℚ
  max : List ℚ
  bpc_eq : header.bpc = 8 ∨ header.bpc = 16 ∨ header.bpc = 32
  consistent : Consistent header
  length_lt : header.dataLength < 2 ^ 32
  length_eq : samples.length = header.width * header.height * header.channels
  min_length : header.channels ≤ min.length
  max_length : header.channels ≤ max.length

/-- A tile in the float pipeline.  A cell that has not been written is `none`. -/
structure FloatTile where
  header : Header
  cells : List (Option Sample)

namespace RawSamples

variable (t : RawSamples)

/-- Floats are normalized in place. -/
def InPlace : Prop := t.header.bpc = 32 ∧ t.sampleType = .floatingPoint

instance : Decidable t.InPlace := inferInstanceAs (Decidable (_ ∧ _))

/-- The buffer that `normalize` writes to. -/
def normdata : List (Option Sample) :=
  if t.InPlace then t.samples.map some else fresh (sampleCount t.header)

/-- `fptr[n]`, `uiptr[n]`, `usptr[n]` or `ucptr[n]`. -/
def load (buffer : List (Option Sample)) (n : Nat) : Option Sample :=
  if t.InPlace then buffer[n]?.join else t.samples[n]?

/-- Normalize one sample. -/
def normalizeSample (minc maxc : ℚ) (buffer : List (Option Sample)) (n : Nat) :
    Option (List (Option Sample)) :=
  (t.load buffer n).bind fun v => store buffer n (some (v.normalized minc maxc))

/-- Normalize one channel. -/
def normalizeChannel (buffer : List (Option Sample)) (c : Nat) : Option (List (Option Sample)) :=
  t.min[c]?.bind fun minc => t.max[c]?.bind fun maxc =>
    (strided c (sampleCount t.header) t.header.channels).foldlM (t.normalizeSample minc maxc) buffer

/-- `Transform::normalize`. -/
def normalize : Option FloatTile :=
  ((List.range' 0 t.header.channels).foldlM t.normalizeChannel t.normdata).map fun cells =>
    ⟨Transform.normalize t.header, cells⟩

/-- What sample `n` is to become. -/
def target (n : Nat) : Option Sample :=
  t.min[n % t.header.channels]?.bind fun minc => t.max[n % t.header.channels]?.bind fun maxc =>
    t.samples[n]?.map (Sample.normalized minc maxc)

end RawSamples

namespace FloatTile

/-- `Transform::shade`. -/
def shade (s : Light) (f : FloatTile) : Option FloatTile :=
  (tabulate (sampleCount f.header) fun k =>
    let n := u32 (k * 3)
    f.cells[n]?.join.bind fun x => f.cells[u32 (n + 1)]?.join.bind fun y =>
      f.cells[u32 (n + 2)]?.join.map fun z => s.value x y z).map fun cells =>
    ⟨Transform.shade f.header, cells⟩

/-- `Transform::contrast`. -/
def contrast (c : ℚ) (f : FloatTile) : Option Canvas :=
  (tabulate (u32 (f.header.width * f.header.height * f.header.channels)) fun n =>
    f.cells[n]?.join.map fun v => ((v.scale 255).scale c).clip).map fun cells =>
    ⟨Transform.contrast f.header, cells⟩

/-- `contrast` needs a written cell for each of its samples. -/
theorem contrast_isSome_iff {c : ℚ} {f : FloatTile} :
    (f.contrast c).isSome ↔
      ∀ n < u32 (f.header.width * f.header.height * f.header.channels),
        f.cells[n]?.join.isSome := by
  unfold contrast
  rw [Option.isSome_map, tabulate_isSome_iff]
  simp only [Option.isSome_map]

end FloatTile

/-! ## 3. What is normalized -/

namespace RawSamples

variable (t : RawSamples)

/-- **The count wraps.** -/
theorem sampleCount_eq_mod :
    sampleCount t.header = t.samples.length % (2 ^ 32 / t.header.bpc) := by
  have hlength : t.header.dataLength = t.samples.length * (t.header.bpc / 8) :=
    t.consistent.trans (by rw [t.length_eq]; rfl)
  unfold sampleCount u32
  rw [hlength]
  rcases t.bpc_eq with hbpc | hbpc | hbpc <;> rw [hbpc] <;> omega

theorem sampleCount_le : sampleCount t.header ≤ t.samples.length := by
  rw [t.sampleCount_eq_mod]
  exact Nat.mod_le _ _

/-- The count is right for fewer than `2 ^ 29` bytes. -/
theorem sampleCount_eq_iff :
    sampleCount t.header = t.samples.length ↔ t.header.dataLength < 2 ^ 29 := by
  have hlength : t.header.dataLength = t.samples.length * (t.header.bpc / 8) :=
    t.consistent.trans (by rw [t.length_eq]; rfl)
  rw [t.sampleCount_eq_mod, hlength]
  rcases t.bpc_eq with hbpc | hbpc | hbpc <;> rw [hbpc] <;> omega

/-- There is room for every sample that is counted. -/
theorem sampleCount_le_normdata : sampleCount t.header ≤ t.normdata.length := by
  unfold normdata
  split
  · rw [List.length_map]
    exact t.sampleCount_le
  · rw [length_fresh]

theorem target_eq {n : Nat} {minc maxc : ℚ} {v : Sample}
    (hmin : t.min[n % t.header.channels]? = some minc)
    (hmax : t.max[n % t.header.channels]? = some maxc) (hv : t.samples[n]? = some v) :
    t.target n = some (v.normalized minc maxc) := by
  unfold target
  rw [hmin, hmax, hv]
  rfl

theorem channels_pos {n : Nat} (hn : n < t.samples.length) : 0 < t.header.channels := by
  rw [t.length_eq] at hn
  exact Nat.pos_of_ne_zero fun h0 => by simp [h0] at hn

theorem exists_range {c : Nat} (hc : c < t.header.channels) :
    ∃ minc maxc, t.min[c]? = some minc ∧ t.max[c]? = some maxc :=
  ⟨_, _, List.getElem?_eq_getElem (Nat.lt_of_lt_of_le hc t.min_length),
    List.getElem?_eq_getElem (Nat.lt_of_lt_of_le hc t.max_length)⟩

/-- Every sample has a target. -/
theorem target_isSome {n : Nat} (hn : n < t.samples.length) : (t.target n).isSome := by
  obtain ⟨minc, maxc, hmin, hmax⟩ := t.exists_range (Nat.mod_lt n (t.channels_pos hn))
  rw [t.target_eq hmin hmax (List.getElem?_eq_getElem hn)]
  rfl

/-- A sample is found where it was, in place or not. -/
theorem load_eq {buffer : List (Option Sample)} {n : Nat} (h : buffer[n]? = t.normdata[n]?) :
    t.load buffer n = t.samples[n]? := by
  unfold load
  split
  case isTrue hplace =>
    rw [h, normdata, if_pos hplace, List.getElem?_map]
    cases t.samples[n]? <;> rfl
  case isFalse => rfl

/-- **One channel.**  Its samples are normalized, and the others are left alone. -/
theorem normalizeChannel_spec {c : Nat} (hc : c < t.header.channels)
    {buffer : List (Option Sample)} (hlen : buffer.length = t.normdata.length)
    (hcells : ∀ n, n % t.header.channels = c → buffer[n]? = t.normdata[n]?) :
    ∃ out, t.normalizeChannel buffer c = some out ∧ out.length = buffer.length ∧
      ∀ n, out[n]? = if n < sampleCount t.header ∧ n % t.header.channels = c
        then some (t.target n) else buffer[n]? := by
  obtain ⟨minc, maxc, hmin, hmax⟩ := t.exists_range hc
  obtain ⟨out, hout, hlen', hcell⟩ := foldlM_pointwise (t.normalizeSample minc maxc) t.target buffer
    (nodup_strided c (sampleCount t.header) (Nat.lt_of_le_of_lt (Nat.zero_le c) hc))
    fun b n hn hb hbn => by
      obtain ⟨hcount, hmod⟩ := (mem_strided hc).mp hn
      have hlt : n < t.samples.length := Nat.lt_of_lt_of_le hcount t.sampleCount_le
      have hroom : n < buffer.length :=
        Nat.lt_of_lt_of_le hcount (hlen ▸ t.sampleCount_le_normdata)
      refine ⟨hroom, ?_⟩
      unfold normalizeSample
      rw [t.load_eq (hbn.trans (hcells n hmod)), List.getElem?_eq_getElem hlt, Option.bind_some,
        store_of_lt _ (hb ▸ hroom),
        t.target_eq (hmod ▸ hmin) (hmod ▸ hmax) (List.getElem?_eq_getElem hlt)]
  refine ⟨out, ?_, hlen', fun n => ?_⟩
  · unfold normalizeChannel
    rw [hmin, hmax]
    exact hout
  · rw [hcell n]
    simp only [mem_strided hc]

/-- **What `normalize` does.**  The samples that are counted are normalized; behind them the buffer
is as it was. -/
theorem normalize_spec :
    ∃ cells, t.normalize = some ⟨Transform.normalize t.header, cells⟩ ∧
      cells.length = t.normdata.length ∧
      ∀ n, cells[n]? = if n < sampleCount t.header then some (t.target n) else t.normdata[n]? := by
  -- the channels below `c` have been done
  let Done (c : Nat) (b : List (Option Sample)) : Prop :=
    b.length = t.normdata.length ∧
      ∀ n, b[n]? = if n < sampleCount t.header ∧ n % t.header.channels < c then some (t.target n)
        else t.normdata[n]?
  have hzero : Done 0 t.normdata := ⟨rfl, fun n => by rw [if_neg (by omega)]⟩
  have hstep : ∀ c b, 0 ≤ c → c < 0 + t.header.channels → Done c b →
      ∃ out, t.normalizeChannel b c = some out ∧ Done (c + 1) out := by
    rintro c b - hc ⟨hlen, hcell⟩
    rw [Nat.zero_add] at hc
    obtain ⟨out, hout, hlen', hcell'⟩ := t.normalizeChannel_spec hc hlen fun n hmod => by
      rw [hcell n, if_neg (by omega)]
    refine ⟨out, hout, hlen'.trans hlen, fun n => ?_⟩
    rw [hcell' n, hcell n]
    by_cases hthis : n < sampleCount t.header ∧ n % t.header.channels = c
    · rw [if_pos hthis, if_pos (by omega)]
    · rw [if_neg hthis]
      by_cases hold : n < sampleCount t.header ∧ n % t.header.channels < c
      · rw [if_pos hold, if_pos (by omega)]
      · rw [if_neg hold, if_neg (by omega)]
  obtain ⟨cells, hcells, hlen, hcell⟩ := foldlM_some Done t.header.channels 0 t.normdata hzero hstep
  refine ⟨cells, ?_, hlen, fun n => ?_⟩
  · unfold normalize
    rw [hcells]
    rfl
  · rw [hcell n, Nat.zero_add]
    by_cases hn : n < sampleCount t.header
    · have hpos := t.channels_pos (Nat.lt_of_lt_of_le hn t.sampleCount_le)
      rw [if_pos hn, if_pos ⟨hn, Nat.mod_lt n hpos⟩]
    · rw [if_neg hn, if_neg fun h => hn h.1]

/-- Every cell of the buffer that `normalize` leaves has been written. -/
theorem isSome_of_normalize {f : FloatTile} (h : t.normalize = some f) {n : Nat} :
    f.cells[n]?.join.isSome ↔ n < t.normdata.length := by
  obtain ⟨cells, hcells, hlen, hcell⟩ := t.normalize_spec
  obtain rfl := Option.some.inj (hcells.symm.trans h)
  constructor
  · intro hsome
    by_contra hge
    rw [List.getElem?_eq_none (by omega : cells.length ≤ n)] at hsome
    cases hsome
  · intro hn
    rw [hcell n]
    by_cases hcount : n < sampleCount t.header
    · rw [if_pos hcount]
      exact t.target_isSome (Nat.lt_of_lt_of_le hcount t.sampleCount_le)
    · rw [if_neg hcount]
      unfold normdata at hn ⊢
      split at hn
      case isTrue hplace =>
        rw [List.length_map] at hn
        rw [if_pos hplace, List.getElem?_map, List.getElem?_eq_getElem hn]
        rfl
      case isFalse =>
        rw [length_fresh] at hn
        exact absurd hn hcount

end RawSamples

/-! ## 4. Counting samples -/

/-- **The samples are counted right.**  `normalize`, `shade`, `cmap` and `inv` count all samples of
the tile, every sample is normalized, and `contrast` finds all of them. -/
structure RawSamples.Counted (t : RawSamples) : Prop where
  count : sampleCount t.header = t.header.width * t.header.height * t.header.channels
  normalized : ∃ f, t.normalize = some f ∧
    (∀ n < t.header.width * t.header.height * t.header.channels,
      ∃ v, t.target n = some v ∧ f.cells[n]? = some (some v)) ∧
    ∀ c, (f.contrast c).isSome

namespace RawSamples

/-- **When samples are counted right.**  For every tile of 8, 16 or 32 bits whose `dataLength` is
the number of its bytes: exactly if that is below `2 ^ 29`. -/
theorem counted_iff (t : RawSamples) : t.Counted ↔ t.header.dataLength < 2 ^ 29 := by
  have hcount := t.sampleCount_eq_iff
  rw [t.length_eq] at hcount
  constructor
  · rintro ⟨hright, -⟩
    exact hcount.mp hright
  · intro hsmall
    have hright := hcount.mpr hsmall
    obtain ⟨cells, hcells, hlen, hcell⟩ := t.normalize_spec
    refine ⟨hright, _, hcells, fun n hn => ?_, fun c => ?_⟩
    · obtain ⟨v, hv⟩ := Option.isSome_iff_exists.mp (t.target_isSome (t.length_eq ▸ hn))
      refine ⟨v, hv, ?_⟩
      change cells[n]? = _
      rw [hcell n, if_pos (hright ▸ hn), hv]
    · refine FloatTile.contrast_isSome_iff.mpr fun n hn => ?_
      refine (t.isSome_of_normalize hcells).mpr (Nat.lt_of_lt_of_le ?_ t.sampleCount_le_normdata)
      rw [hright]
      exact Nat.lt_of_lt_of_le hn (Nat.mod_le _ _)

/-- A grey tile of 32768 x 16384 pixels. -/
def halfGigabyte : RawSamples where
  header := ⟨32768, 16384, 1, 8, 536870912⟩
  sampleType := .fixedPoint
  samples := List.replicate 536870912 (.number 0)
  min := [0]
  max := [255]
  bpc_eq := .inl rfl
  consistent := by decide
  length_lt := by decide
  length_eq := List.length_replicate
  min_length := Nat.le_of_eq List.length_singleton.symm
  max_length := Nat.le_of_eq List.length_singleton.symm

/-- **No samples in half a gigabyte.**  `2 ^ 29 * 8` wraps to 0: nothing is allocated or normalized,
and `contrast` reads behind the end. -/
theorem half_gigabyte :
    ¬ halfGigabyte.Counted ∧ sampleCount halfGigabyte.header = 0 ∧
      ∃ f, halfGigabyte.normalize = some f ∧ f.cells = [] ∧ f.contrast 1 = none := by
  have hcount : sampleCount halfGigabyte.header = 0 := by decide
  obtain ⟨cells, hcells, hlen, -⟩ := halfGigabyte.normalize_spec
  have hnil : cells = [] := by
    rw [← List.length_eq_zero_iff, hlen, normdata, if_neg (by decide), length_fresh, hcount]
  refine ⟨fun h => absurd (hcount.symm.trans h.count) (by decide), hcount, _, hcells, hnil, ?_⟩
  rw [← Option.not_isSome_iff_eq_none, FloatTile.contrast_isSome_iff]
  intro hall
  have hfirst := hall 0 (show 0 < u32 (32768 * 16384 * 1) by decide)
  dsimp only at hfirst
  rw [hnil] at hfirst
  cases hfirst

end RawSamples

/-! ## 5. Shading -/

namespace FloatTile

/-- The samples of pixel `k`. -/
def pixel (f : FloatTile) (k : Nat) : List (Option Sample) :=
  (List.range f.header.channels).map fun b => f.cells[k * f.header.channels + b]?.join

/-- **Pixels are shaded.**  All reads are inside the buffer, there is one value for each pixel, and
the value of a pixel is that of its three samples. -/
structure Shades (f : FloatTile) : Prop where
  inside : ∀ k < sampleCount f.header, ∀ b < 3, u32 (u32 (k * 3) + b) < f.cells.length
  count : sampleCount f.header = f.header.width * f.header.height
  value : ∀ s : Light, ∃ g, f.shade s = some g ∧
    g.cells.length = f.header.width * f.header.height ∧
    ∀ k < f.header.width * f.header.height, ∃ x y z,
      f.pixel k = [some x, some y, some z] ∧ g.cells[k]? = some (some (s.value x y z))

/-- The three samples that are read for pixel `k`. -/
theorem shade_eq {f : FloatTile} (s : Light) (hcount : sampleCount f.header < 2 ^ 27)
    {x y z : Nat → Sample} (hcells : ∀ k < sampleCount f.header,
      f.cells[k * 3]?.join = some (x k) ∧ f.cells[k * 3 + 1]?.join = some (y k) ∧
        f.cells[k * 3 + 2]?.join = some (z k)) :
    f.shade s = some ⟨Transform.shade f.header, (List.range (sampleCount f.header)).map fun k =>
      some (s.value (x k) (y k) (z k))⟩ := by
  have hread : ∀ k < sampleCount f.header,
      (f.cells[u32 (k * 3)]?.join.bind fun x => f.cells[u32 (u32 (k * 3) + 1)]?.join.bind fun y =>
        f.cells[u32 (u32 (k * 3) + 2)]?.join.map fun z => s.value x y z)
        = some (s.value (x k) (y k) (z k)) := by
    intro k hk
    obtain ⟨hx, hy, hz⟩ := hcells k hk
    rw [u32_of_lt (by omega : k * 3 < 2 ^ 32), u32_of_lt (by omega : k * 3 + 1 < 2 ^ 32),
      u32_of_lt (by omega : k * 3 + 2 < 2 ^ 32), hx, hy, hz]
    rfl
  unfold shade
  dsimp only
  rw [tabulate_eq fun k hk => by rw [hread k hk]; rfl, Option.map_some]
  congr 2
  exact List.map_congr_left fun k hk => hread k (List.mem_range.mp hk)

/-- If every pixel has three samples, which have all been written, and as many are counted as there
are pixels, then the pixels are shaded. -/
theorem shades_of_written {f : FloatTile} (hsmall : f.header.width * f.header.height < 2 ^ 27)
    (hcount : sampleCount f.header = f.header.width * f.header.height)
    (hwritten : ∀ n < f.header.width * f.header.height * 3, f.cells[n]?.join.isSome)
    (hchannels : 0 < f.header.width * f.header.height → f.header.channels = 3) : f.Shades := by
  obtain ⟨v, hv⟩ : ∃ v : Nat → Sample, ∀ n < f.header.width * f.header.height * 3,
      f.cells[n]?.join = some (v n) := by
    refine ⟨fun n => f.cells[n]?.join.getD .nan, fun n hn => ?_⟩
    obtain ⟨v, hv⟩ := Option.isSome_iff_exists.mp (hwritten n hn)
    simp only [hv, Option.getD_some]
  refine ⟨fun k hk b hb => ?_, hcount, fun s => ?_⟩
  · rw [u32_of_lt (by omega : k * 3 < 2 ^ 32), u32_of_lt (by omega : k * 3 + b < 2 ^ 32)]
    by_contra hge
    have hin := hv (k * 3 + b) (by omega)
    rw [List.getElem?_eq_none (by omega)] at hin
    cases hin
  · have hshade := shade_eq s (by omega) fun k hk =>
      ⟨hv (k * 3) (by omega), hv (k * 3 + 1) (by omega), hv (k * 3 + 2) (by omega)⟩
    refine ⟨_, hshade, ?_, fun k hk => ⟨v (k * 3), v (k * 3 + 1), v (k * 3 + 2), ?_, ?_⟩⟩
    · rw [List.length_map, List.length_range, hcount]
    · unfold pixel
      rw [hchannels (by omega)]
      change [f.cells[k * 3]?.join, f.cells[k * 3 + 1]?.join, f.cells[k * 3 + 2]?.join] = _
      rw [hv (k * 3) (by omega), hv (k * 3 + 1) (by omega), hv (k * 3 + 2) (by omega)]
    · change ((List.range (sampleCount f.header)).map _)[k]? = _
      rw [List.getElem?_map, List.getElem?_range (by omega)]
      rfl

end FloatTile

/-- The samples that `shade` counts after `normalize`. -/
theorem sampleCount_normalize (h : Header) :
    sampleCount (normalize h) = sampleCount h % 2 ^ 27 := by
  change u32 (u32 (sampleCount h * (32 / 8)) * 8) / 32 = _
  unfold u32
  omega

namespace RawSamples

/-- There are no pixels; or there are `2 ^ 26`, of three channels, whose count wraps to the number
of pixels, and the buffer holds all samples: integers of 32 bits are only counted modulo `2 ^ 27`
there, too. -/
def Shadable (t : RawSamples) : Prop :=
  t.header.width * t.header.height = 0 ∨
    (t.header.width * t.header.height = 2 ^ 26 ∧ t.header.channels = 3 ∧
      (t.header.bpc = 32 → t.sampleType = .floatingPoint))

/-- How many samples the buffer of the pipeline holds. -/
theorem length_normdata_eq_iff (t : RawSamples) :
    t.normdata.length = t.samples.length ↔
      t.InPlace ∨ t.samples.length < 2 ^ 32 / t.header.bpc := by
  have hpos : 0 < 2 ^ 32 / t.header.bpc := by
    rcases t.bpc_eq with hbpc | hbpc | hbpc <;> rw [hbpc] <;> decide
  unfold normdata
  split
  case isTrue hplace => exact iff_of_true (List.length_map some) (.inl hplace)
  case isFalse hplace =>
    rw [length_fresh, t.sampleCount_eq_mod, Nat.mod_eq_iff_lt hpos.ne']
    exact ⟨.inr, fun h => h.resolve_left hplace⟩

/-- The buffer of a shadable tile holds all samples. -/
theorem length_normdata_of_wrapped {t : RawSamples} (hsamples : t.samples.length = 2 ^ 26 * 3)
    (hfloat : t.header.bpc = 32 → t.sampleType = .floatingPoint) :
    t.normdata.length = 2 ^ 26 * 3 := by
  rw [← hsamples]
  refine t.length_normdata_eq_iff.mpr ?_
  rcases t.bpc_eq with hbpc | hbpc | hbpc
  · exact .inr (by rw [hsamples, hbpc]; decide)
  · exact .inr (by rw [hsamples, hbpc]; decide)
  · exact .inl ⟨hbpc, hfloat hbpc⟩

/-- The samples that `shade` counts after `normalize`, of those that the tile has. -/
theorem sampleCount_normalized (t : RawSamples) :
    sampleCount (Transform.normalize t.header) = t.samples.length % 2 ^ 27 := by
  rw [sampleCount_normalize, t.sampleCount_eq_mod]
  rcases t.bpc_eq with hbpc | hbpc | hbpc <;> rw [hbpc] <;> omega

theorem shadable_of_shades {t : RawSamples} {f : FloatTile} (hf : t.normalize = some f)
    (hshades : f.Shades) : t.Shadable := by
  obtain ⟨cells, hcells, hlen, -⟩ := t.normalize_spec
  have hcount := t.sampleCount_normalized
  obtain rfl := Option.some.inj (hcells.symm.trans hf)
  by_cases hzero : t.header.width * t.header.height = 0
  · exact .inl hzero
  -- the first pixel has three samples
  have hchannels : t.header.channels = 3 := by
    obtain ⟨g, -, -, hvalue⟩ := hshades.value ⟨0, 0, 0⟩
    obtain ⟨x, y, z, hpixel, -⟩ := hvalue 0 (Nat.pos_of_ne_zero hzero)
    have hthree := congrArg List.length hpixel
    rw [FloatTile.pixel, List.length_map, List.length_range] at hthree
    exact hthree
  have hsamples : t.samples.length = t.header.width * t.header.height * 3 := by
    rw [t.length_eq, hchannels]
  have hpixels : sampleCount (Transform.normalize t.header)
      = t.header.width * t.header.height := hshades.count
  have hwrap : t.header.width * t.header.height = 2 ^ 26 := by omega
  refine .inr ⟨hwrap, hchannels, fun hbpc => ?_⟩
  -- the last read is inside the buffer
  by_contra hfixed
  have hturn : t.header.width * t.header.height - 1
      < sampleCount (Transform.normalize t.header) := by omega
  have hlast := hshades.inside _ hturn 2 (by decide)
  change _ < cells.length at hlast
  rw [hlen, normdata, if_neg fun hplace => hfixed hplace.2, length_fresh, t.sampleCount_eq_mod,
    hbpc, hsamples, hwrap] at hlast
  exact absurd hlast (by decide)

theorem shades_of_shadable {t : RawSamples} {f : FloatTile} (hf : t.normalize = some f)
    (hshadable : t.Shadable) : f.Shades := by
  obtain ⟨cells, hcells, hlen, -⟩ := t.normalize_spec
  obtain rfl := Option.some.inj (hcells.symm.trans hf)
  refine FloatTile.shades_of_written ?_ ?_ (fun n hn => ?_) fun hpos => ?_
  · change t.header.width * t.header.height < 2 ^ 27
    rcases hshadable with hzero | ⟨hwrap, -, -⟩ <;> omega
  · change sampleCount (Transform.normalize t.header) = t.header.width * t.header.height
    rw [t.sampleCount_normalized, t.length_eq]
    rcases hshadable with hzero | ⟨hwrap, hchannels, -⟩
    · rw [hzero, Nat.zero_mul]
      rfl
    · rw [hwrap, hchannels]
      rfl
  · change n < t.header.width * t.header.height * 3 at hn
    refine (t.isSome_of_normalize hcells).mpr ?_
    rcases hshadable with hzero | ⟨hwrap, hchannels, hfloat⟩
    · omega
    · rw [length_normdata_of_wrapped (by rw [t.length_eq, hwrap, hchannels]) hfloat]
      omega
  · rcases hshadable with hzero | ⟨-, hchannels, -⟩
    · exact absurd hpos (by change ¬ 0 < t.header.width * t.header.height; omega)
    · exact hchannels

/-- **When hill shading stays with its pixels.**  For every tile, with any number of channels, that
has been normalized: if and only if it is shadable. -/
theorem shades_iff (t : RawSamples) :
    (∃ f, t.normalize = some f ∧ f.Shades) ↔ t.Shadable := by
  constructor
  · rintro ⟨f, hf, hshades⟩
    exact shadable_of_shades hf hshades
  · intro hshadable
    obtain ⟨cells, hcells, -⟩ := t.normalize_spec
    exact ⟨_, hcells, shades_of_shadable hcells hshadable⟩

/-- One pixel of three channels. -/
def rgbPixel : RawSamples where
  header := ⟨1, 1, 3, 8, 3⟩
  sampleType := .fixedPoint
  samples := [.number 1, .number 2, .number 3]
  min := [0, 0, 0]
  max := [255, 255, 255]
  bpc_eq := .inl rfl
  consistent := by decide
  length_lt := by decide
  length_eq := rfl
  min_length := Nat.le_refl 3
  max_length := Nat.le_refl 3

/-- **One pixel, three turns.**  `shade` takes three turns over the three samples of one pixel, and
already the second leaves the buffer. -/
theorem three_turns :
    (¬ ∃ f, rgbPixel.normalize = some f ∧ f.Shades) ∧
      ∃ f, rgbPixel.normalize = some f ∧ sampleCount f.header = 3 ∧ f.cells.length = 3 ∧
        f.shade ⟨0, 0, 1⟩ = none := by
  have hcount : sampleCount (Transform.normalize rgbPixel.header) = 3 := by decide
  obtain ⟨cells, hcells, hlen, -⟩ := rgbPixel.normalize_spec
  have hthree : cells.length = 3 := hlen.trans (by decide)
  refine ⟨?_, _, hcells, hcount, hthree, ?_⟩
  · rintro ⟨f, hf, hshades⟩
    obtain rfl := Option.some.inj (hcells.symm.trans hf)
    have hone : sampleCount (Transform.normalize rgbPixel.header) = 1 := hshades.count
    omega
  · rw [← Option.not_isSome_iff_eq_none, FloatTile.shade, Option.isSome_map, tabulate_isSome_iff]
    intro hall
    have hsecond := hall 1 (by change 1 < sampleCount (Transform.normalize rgbPixel.header); decide)
    have hnone : cells[u32 (1 * 3)]? = none := List.getElem?_eq_none (by rw [hthree]; decide)
    dsimp only at hsecond
    rw [hnone] at hsecond
    cases hsecond

end RawSamples

end Iipsrv.Transform
