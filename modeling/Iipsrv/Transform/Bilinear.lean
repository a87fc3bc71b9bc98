/-
# Resizing between pixels

`Transform::interpolate_bilinear` mixes four pixels of the input: the one that a pixel of the result
falls on, the ones to the right of it and below it, and the one below to the right.  At the edges
there are none, and the nearest are to be taken again.

The source does not limit the column and the row, but the PLACE in the buffer.  To the right of the
last column it finds the first pixel of the next row, and below the last row, in every column, the
very last pixel.  That matters if this neighbour carries weight, which is when the image is made
larger in that direction.  `bilinear_iff` says exactly when the result is a mixture of the four
pixels it should be; `right_edge` enlarges a tile of two by two pixels and takes over the other
side.

The arithmetic is that of exact rationals.
-/
import Iipsrv.Transform.Nearest
import Iipsrv.Lib.Mixture

namespace Iipsrv.Transform

open Lib Lib.Word Lib.Buffer Lib.Fill Lib.Raster Lib.Loop

/-! ## 1. The loops -/

/-- `(int) floor( x )`, for an `int` that one is added to. -/
def toInt (x : ℚ) : Option Nat := if ⌊x⌋₊ + 1 < 2 ^ 31 then some ⌊x⌋₊ else none

/-- `(unsigned char)`. -/
def truncate (v : ℚ) : UInt8 := ⌊v⌋₊.toUInt8

/-- The indices of the 4 surrounding pixels, and the weights. -/
structure Corner where
  p11 : Nat
  p12 : Nat
  p21 : Nat
  p22 : Nat
  a : ℚ
  b : ℚ
  c : ℚ
  d : ℚ

/-- Make sure we don't stray outside our input buffer boundary. -/
def corner (width height channels : Nat) (iscale jscale : ℚ) (ii jj : Nat) : Corner :=
  let max := u32 (sub32 (u32 (width * height)) 1 * channels)
  let limit (p : Nat) : Nat := if p ≤ max then p else max
  let jjw := u32 (jj * width)
  { p11 := channels * (ii + jjw)
    p12 := limit (channels * (ii + (jjw + width)))
    p21 := limit (channels * (ii + 1 + jjw))
    p22 := limit (channels * (ii + 1 + (jjw + width)))
    a := (ii + 1 : Nat) - iscale
    b := iscale - ii
    c := (jj + 1 : Nat) - jscale
    d := jscale - jj }

/-- `c*tx + d*ty` for channel `k`. -/
def Corner.value (q : Corner) (input : List (Option UInt8)) (k : Nat) : Option ℚ :=
  input[q.p11 + k]?.join.bind fun s11 => input[q.p21 + k]?.join.bind fun s21 =>
    input[q.p12 + k]?.join.bind fun s12 => input[q.p22 + k]?.join.map fun s22 =>
      let tx := s11.toNat * q.a + s21.toNat * q.b
      let ty := s12.toNat * q.a + s22.toNat * q.b
      q.c * tx + q.d * ty

/-- The three loops. -/
def bilinearLoops (width height channels resampledWidth resampledHeight : Nat)
    (input output : List (Option UInt8)) : Option (List (Option UInt8)) :=
  (List.range resampledHeight).foldlM (fun output (j : Nat) =>
    let jscale := (j : ℚ) * ((height : ℚ) / resampledHeight)
    (toInt jscale).bind fun jj =>
      (List.range resampledWidth).foldlM (fun output (i : Nat) =>
        let iscale := (i : ℚ) * ((width : ℚ) / resampledWidth)
        (toInt iscale).bind fun ii =>
          let q := corner width height channels iscale jscale ii jj
          let resampledIndex := u32 ((j * resampledWidth + i) * channels)
          (List.range channels).foldlM (fun output k =>
            (q.value input k).bind fun v => store output (resampledIndex + k) (some (truncate v)))
            output) output) output

namespace Canvas

/-- `Transform::interpolate_bilinear`. -/
def interpolateBilinear (resampledWidth resampledHeight : Nat) (t : Canvas) : Option Canvas :=
  (bilinearLoops t.header.width t.header.height t.header.channels resampledWidth resampledHeight
    t.cells (fresh (resampledWidth * resampledHeight * t.header.channels))).map fun cells =>
      ⟨Transform.interpolateBilinear resampledWidth resampledHeight t.header, cells⟩

/-- The value for channel `k` of pixel `(i, j)`, before it is truncated. -/
def bilinearValue (t : Canvas) (resampledWidth resampledHeight i j k : Nat) : Option ℚ :=
  let jscale := (j : ℚ) * ((t.header.height : ℚ) / resampledHeight)
  let iscale := (i : ℚ) * ((t.header.width : ℚ) / resampledWidth)
  (toInt jscale).bind fun jj => (toInt iscale).bind fun ii =>
    (corner t.header.width t.header.height t.header.channels iscale jscale ii jj).value t.cells k

end Canvas

/-! ## 2. Columns and rows -/

section
variable {n resampled i : Nat}

theorem toInt_eq (n resampled i : Nat) :
    toInt ((i : ℚ) * ((n : ℚ) / resampled))
      = if i * n / resampled + 1 < 2 ^ 31 then some (i * n / resampled) else none := by
  unfold toInt
  rw [floor_scale]

/-- If the last column or row is an `int`, they all are. -/
theorem toInt_of_lt (hint : (resampled - 1) * n / resampled + 1 < 2 ^ 31) (hi : i < resampled) :
    toInt ((i : ℚ) * ((n : ℚ) / resampled)) = some (i * n / resampled) := by
  have hle : i * n / resampled ≤ (resampled - 1) * n / resampled :=
    Nat.div_le_div_right (Nat.mul_le_mul_right n (by omega))
  rw [toInt_eq, if_pos (by omega)]

/-- How far behind its column or row a pixel falls. -/
theorem fraction_eq (hr : 0 < resampled) :
    (i : ℚ) * ((n : ℚ) / resampled) - (i * n / resampled : Nat)
      = ((i * n % resampled : Nat) : ℚ) / resampled := by
  have hr' : (resampled : ℚ) ≠ 0 := Nat.cast_ne_zero.mpr hr.ne'
  have hnum : ((i * n : Nat) : ℚ)
      = resampled * (i * n / resampled : Nat) + (i * n % resampled : Nat) := by
    exact_mod_cast (Nat.div_add_mod (i * n) resampled).symm
  rw [Nat.cast_mul] at hnum
  rw [eq_div_iff hr', sub_mul, ← mul_div_assoc, div_mul_cancel₀ _ hr', hnum]
  ring

theorem fraction_nonneg (hr : 0 < resampled) :
    0 ≤ (i : ℚ) * ((n : ℚ) / resampled) - (i * n / resampled : Nat) := by
  rw [fraction_eq hr]
  positivity

theorem fraction_lt_one (hr : 0 < resampled) :
    (i : ℚ) * ((n : ℚ) / resampled) - (i * n / resampled : Nat) < 1 := by
  rw [fraction_eq hr, div_lt_one (by exact_mod_cast hr)]
  exact_mod_cast Nat.mod_lt (i * n) hr

theorem fraction_pos_iff (hr : 0 < resampled) :
    0 < (i : ℚ) * ((n : ℚ) / resampled) - (i * n / resampled : Nat) ↔ ¬ resampled ∣ i * n := by
  have hr' : (0 : ℚ) < resampled := by exact_mod_cast hr
  rw [fraction_eq hr, div_pos_iff_of_pos_right hr', Nat.cast_pos, Nat.dvd_iff_mod_eq_zero,
    Nat.pos_iff_ne_zero]

end

/-! ## 3. The four pixels -/

/-- The number of the pixel that is read, to the right and below as `x` says. -/
def readPixel (w h ii jj : Nat) (x : Bool × Bool) : Nat :=
  min (jj * w + ii + (if x.1 then 1 else 0) + (if x.2 then w else 0)) (w * h - 1)

/-- The number of the pixel that should be read: in columns `ii` and `min(ii+1, w-1)`, and rows `jj`
and `min(jj+1, h-1)`. -/
def meantPixel (w h ii jj : Nat) (x : Bool × Bool) : Nat :=
  (if x.2 then min (jj + 1) (h - 1) else jj) * w + (if x.1 then min (ii + 1) (w - 1) else ii)

/-- Its weight. -/
def weight (b d : ℚ) (x : Bool × Bool) : ℚ :=
  (if x.1 then b else 1 - b) * (if x.2 then d else 1 - d)

/-- A sum over the four. -/
theorem sum_corners (f : Bool × Bool → ℚ) :
    ∑ x, f x = f (true, true) + f (true, false) + (f (false, true) + f (false, false)) := by
  rw [Fintype.sum_prod_type, Fintype.sum_bool, Fintype.sum_bool, Fintype.sum_bool]

theorem weights_weight {b d : ℚ} (hb : 0 ≤ b) (hb' : b < 1) (hd : 0 ≤ d) (hd' : d < 1) :
    Weights (weight b d) := by
  refine ⟨fun x => mul_nonneg ?_ ?_, ?_⟩
  · split <;> linarith
  · split <;> linarith
  · rw [sum_corners]
    simp only [weight, if_true, Bool.false_eq_true, if_false]
    ring

/-- What carries weight is no further than there is a rest. -/
theorem pos_of_weight_pos {b d : ℚ} {x : Bool × Bool} (hb : 0 ≤ b) (hd : 0 ≤ d)
    (hx : 0 < weight b d x) : (x.1 → 0 < b) ∧ (x.2 → 0 < d) := by
  unfold weight at hx
  constructor
  · intro hright
    refine lt_of_le_of_ne hb fun h0 => ?_
    rw [if_pos hright, ← h0, zero_mul] at hx
    exact lt_irrefl 0 hx
  · intro hbelow
    refine lt_of_le_of_ne hd fun h0 => ?_
    rw [if_pos hbelow, ← h0, mul_zero] at hx
    exact lt_irrefl 0 hx

namespace Picture

/-- Channel `k` of pixel number `q`. -/
def byte (p : Picture) (k q : Nat) : UInt8 := p.bytes[q * p.header.channels + k]?.getD 0

section
variable {p : Picture} {ii jj k : Nat}

theorem getElem?_byte {q : Nat} (hq : q < p.header.width * p.header.height)
    (hk : k < p.header.channels) :
    p.canvas.cells[p.header.channels * q + k]?.join = some (p.byte k q) := by
  have hlt : q * p.header.channels + k < p.bytes.length := by
    have hle := Nat.mul_le_mul_right p.header.channels hq
    rw [Nat.succ_mul] at hle
    rw [p.length_samples]
    omega
  change (p.bytes.map some)[_]?.join = _
  unfold byte
  rw [Nat.mul_comm, List.getElem?_map, List.getElem?_eq_getElem hlt]
  rfl

/-- The limit in the buffer is one on the number of the pixel. -/
theorem limit_eq {c q n : Nat} : (if c * q ≤ n * c then c * q else n * c) = c * min q n := by
  rw [Nat.mul_comm n c]
  rcases Nat.eq_zero_or_pos c with rfl | hc
  · simp only [Nat.zero_mul, ite_self]
  · simp only [Nat.mul_le_mul_left_iff hc]
    rcases Nat.le_total q n with h | h
    · rw [if_pos h, min_eq_left h]
    · rw [min_eq_right h]
      split
      case isTrue h' => rw [Nat.le_antisymm h' h]
      case isFalse => rfl

theorem readPixel_lt {w h : Nat} (hpos : 0 < w * h) (ii jj : Nat) (x : Bool × Bool) :
    readPixel w h ii jj x < w * h := by
  unfold readPixel
  omega

/-- The four indices, by the numbers of the pixels. -/
theorem corner_eq (hii : ii < p.header.width) (hjj : jj < p.header.height)
    (hc : 0 < p.header.channels) (iscale jscale : ℚ) :
    corner p.header.width p.header.height p.header.channels iscale jscale ii jj =
      { p11 := p.header.channels * readPixel p.header.width p.header.height ii jj (false, false)
        p12 := p.header.channels * readPixel p.header.width p.header.height ii jj (false, true)
        p21 := p.header.channels * readPixel p.header.width p.header.height ii jj (true, false)
        p22 := p.header.channels * readPixel p.header.width p.header.height ii jj (true, true)
        a := 1 - (iscale - ii), b := iscale - ii, c := 1 - (jscale - jj), d := jscale - jj } := by
  have hfirst := number_lt hii hjj
  have hlt := p.extent_lt
  rw [p.extent_eq] at hlt
  have hpixels : p.header.width * p.header.height ≤ _ := Nat.le_mul_of_pos_right _ hc
  have hlast : (p.header.width * p.header.height - 1) * p.header.channels
      ≤ p.header.width * p.header.height * p.header.channels :=
    Nat.mul_le_mul_right _ (Nat.sub_le _ _)
  unfold corner
  dsimp only
  rw [u32_of_lt (by omega : p.header.width * p.header.height < 2 ^ 32), sub32_of_le (by omega),
    u32_of_lt (by omega : (p.header.width * p.header.height - 1) * p.header.channels < 2 ^ 32),
    u32_of_lt (by omega : jj * p.header.width < 2 ^ 32)]
  simp only [limit_eq, Corner.mk.injEq]
  refine ⟨?_, ?_, ?_, ?_, ?_, trivial, ?_, trivial⟩
  · unfold readPixel
    simp only [Bool.false_eq_true, if_false]
    rw [min_eq_left (by omega), Nat.add_comm ii]
    rfl
  · unfold readPixel
    simp only [Bool.false_eq_true, if_false, if_true]
    congr 2
    omega
  · unfold readPixel
    simp only [Bool.false_eq_true, if_false, if_true]
    congr 2
    omega
  · unfold readPixel
    simp only [if_true]
    congr 2
    omega
  · push_cast
    ring
  · push_cast
    ring

/-- **What is computed**: a sum over the four pixels that are read. -/
theorem value_corner (hii : ii < p.header.width) (hjj : jj < p.header.height)
    (hk : k < p.header.channels) (iscale jscale : ℚ) :
    (corner p.header.width p.header.height p.header.channels iscale jscale ii jj).value
        p.canvas.cells k
      = some (∑ x, weight (iscale - ii) (jscale - jj) x
          * (p.byte k (readPixel p.header.width p.header.height ii jj x)).toNat) := by
  have hpos : 0 < p.header.width * p.header.height := Nat.mul_pos (by omega) (by omega)
  have hread := fun x : Bool × Bool => getElem?_byte (readPixel_lt hpos ii jj x) hk
  rw [corner_eq hii hjj (by omega)]
  unfold Corner.value
  dsimp only
  rw [hread, hread, hread, hread, sum_corners]
  simp only [Option.bind_some, Option.map_some, Option.some.injEq, weight, if_true,
    Bool.false_eq_true, if_false]
  ring

end

end Picture

/-! ## 4. The loops as one -/

section
variable {t : Canvas} {rw rh : Nat}

/-- A value is computed in the loops as it is by itself. -/
theorem bilinearValue_eq {i j : Nat}
    (hcols : (rw - 1) * t.header.width / rw + 1 < 2 ^ 31)
    (hrows : (rh - 1) * t.header.height / rh + 1 < 2 ^ 31) (hi : i < rw) (hj : j < rh) (k : Nat) :
    t.bilinearValue rw rh i j k =
      (corner t.header.width t.header.height t.header.channels
        ((i : ℚ) * ((t.header.width : ℚ) / rw)) ((j : ℚ) * ((t.header.height : ℚ) / rh))
        (i * t.header.width / rw) (j * t.header.height / rh)).value t.cells k := by
  unfold Canvas.bilinearValue
  dsimp only
  rw [toInt_of_lt hcols hi, toInt_of_lt hrows hj, Option.bind_some, Option.bind_some]

/-- **The loops as one**, over the cells of the result. -/
theorem bilinearLoops_eq (hcols : (rw - 1) * t.header.width / rw + 1 < 2 ^ 31)
    (hrows : (rh - 1) * t.header.height / rh + 1 < 2 ^ 31) (output : List (Option UInt8)) :
    bilinearLoops t.header.width t.header.height t.header.channels rw rh t.cells output
      = (List.range (rw * rh * t.header.channels)).foldlM (fun output m =>
          (t.bilinearValue rw rh (m / t.header.channels % rw) (m / t.header.channels / rw)
            (m % t.header.channels)).bind fun v =>
              store output (u32 (m / t.header.channels * t.header.channels)
                + m % t.header.channels) (some (truncate v))) output := by
  have hnested : bilinearLoops t.header.width t.header.height t.header.channels rw rh t.cells output
      = (List.range rh).foldlM (fun output j => (List.range rw).foldlM (fun output i =>
          (List.range t.header.channels).foldlM (fun output k =>
            (t.bilinearValue rw rh i j k).bind fun v =>
              store output (u32 ((j * rw + i) * t.header.channels) + k) (some (truncate v)))
            output) output) output := by
    refine foldlM_range_congr output fun j hj output => ?_
    dsimp only
    rw [toInt_of_lt hrows hj, Option.bind_some]
    refine foldlM_range_congr output fun i hi output => ?_
    rw [toInt_of_lt hcols hi, Option.bind_some]
    refine foldlM_range_congr output fun k _ output => ?_
    rw [bilinearValue_eq hcols hrows hi hj]
  rw [hnested,
    foldlM_range_mul (fun output j i => (List.range _).foldlM (fun output k => _) output),
    foldlM_range_mul (fun output p k => _), Nat.mul_comm rh rw]
  refine foldlM_range_congr output fun m hm output => ?_
  rw [Nat.div_add_mod']

/-- If the last row is not an `int`, nothing is returned. -/
theorem bilinearLoops_rows (hrh : 0 < rh)
    (hrows : ¬ (rh - 1) * t.header.height / rh + 1 < 2 ^ 31) (output : List (Option UInt8)) :
    bilinearLoops t.header.width t.header.height t.header.channels rw rh t.cells output = none := by
  refine foldlM_eq_none _ (List.mem_range.mpr (by omega : rh - 1 < rh)) (fun output => ?_) output
  dsimp only
  rw [toInt_eq, if_neg hrows]
  rfl

/-- Nor if the last column is not. -/
theorem bilinearLoops_columns (hrw : 0 < rw) (hrh : 0 < rh)
    (hcols : ¬ (rw - 1) * t.header.width / rw + 1 < 2 ^ 31) (output : List (Option UInt8)) :
    bilinearLoops t.header.width t.header.height t.header.channels rw rh t.cells output = none := by
  refine foldlM_eq_none _ (List.mem_range.mpr hrh) (fun output => ?_) output
  dsimp only
  cases toInt _ with
  | none => rfl
  | some jj =>
    rw [Option.bind_some]
    refine foldlM_eq_none _ (List.mem_range.mpr (by omega : rw - 1 < rw)) (fun output => ?_) output
    rw [toInt_eq, if_neg hcols]
    rfl

/-- **The index of the result wraps.**  If the last pixel does not begin below `2 ^ 32`, its last
sample is never written. -/
theorem bilinearLoops_last {w h c : Nat} {input out : List (Option UInt8)} (hc : 0 < c)
    (hwrap : ¬ (rw * rh - 1) * c < 2 ^ 32)
    (hout : bilinearLoops w h c rw rh input (fresh (rw * rh * c)) = some out) :
    out[(rw * rh - 1) * c + (c - 1)]? = some none := by
  have hwhole : (rw * rh - 1) * c + (c - 1) < rw * rh * c := by
    have hpos : 0 < rw * rh := Nat.pos_of_ne_zero fun h0 => by simp [h0] at hwrap
    have := Nat.sub_add_cancel hpos
    calc (rw * rh - 1) * c + (c - 1) < (rw * rh - 1) * c + c := by omega
      _ = (rw * rh - 1 + 1) * c := (Nat.succ_mul _ _).symm
      _ = rw * rh * c := by rw [this]
  let Blank (b : List (Option UInt8)) : Prop := b[(rw * rh - 1) * c + (c - 1)]? = some none
  refine foldlM_preserves (P := Blank) _ (fun j _ b b' hb hb' => ?_)
    (List.getElem?_replicate_of_lt hwhole) hout
  obtain ⟨jj, -, hrow⟩ := Option.bind_eq_some_iff.mp hb'
  refine foldlM_preserves (P := Blank) _ (fun i _ b b' hb hb' => ?_) hb hrow
  obtain ⟨ii, -, hpixel⟩ := Option.bind_eq_some_iff.mp hb'
  refine foldlM_preserves (P := Blank) _ (fun k hk b b' hb hb' => ?_) hb hpixel
  obtain ⟨v, -, hstore⟩ := Option.bind_eq_some_iff.mp hb'
  have hk' := List.mem_range.mp hk
  have hindex : u32 ((j * rw + i) * c) < 2 ^ 32 := Nat.mod_lt _ (by decide)
  unfold store at hstore
  split at hstore
  · obtain rfl := Option.some.inj hstore
    change (b.set _ _)[(rw * rh - 1) * c + (c - 1)]? = some none
    rw [List.getElem?_set_ne (by omega)]
    exact hb
  · cases hstore

end

/-! ## 5. Pixels that carry weight -/

section
variable {w h ii jj : Nat}

/-- The pixels that carry weight are among those that should be read: the one to the right, if `R`,
the one below, if `B`, and the one below to the right, if both. -/
structure Covered (w h ii jj : Nat) (R B : Prop) : Prop where
  right : R → ∃ y, readPixel w h ii jj (true, false) = meantPixel w h ii jj y
  below : B → ∃ y, readPixel w h ii jj (false, true) = meantPixel w h ii jj y
  both : R → B → ∃ y, readPixel w h ii jj (true, true) = meantPixel w h ii jj y

/-- One further, if that is inside. -/
theorem min_succ_eq {n i : Nat} (hi : i < n) (b : Bool) :
    (if b then min (i + 1) (n - 1) else i) = i + (if b ∧ i + 1 < n then 1 else 0) := by
  cases b with
  | false => rfl
  | true =>
    rw [if_pos rfl]
    by_cases hin : i + 1 < n
    · rw [if_pos ⟨rfl, hin⟩]
      omega
    · rw [if_neg fun h => hin h.2]
      omega

/-- The pixels that should be read, by their distance. -/
theorem meantPixel_eq (hii : ii < w) (hjj : jj < h) (x : Bool × Bool) :
    meantPixel w h ii jj x = jj * w + ii + (if x.1 ∧ ii + 1 < w then 1 else 0)
      + (if x.2 ∧ jj + 1 < h then w else 0) := by
  unfold meantPixel
  rw [min_succ_eq hii, min_succ_eq hjj, Nat.add_mul, ite_mul, Nat.one_mul, Nat.zero_mul]
  omega

/-- How many pixels there are from the beginning of row `jj` on. -/
theorem rows_behind (w : Nat) (hjj : jj < h) :
    (jj + 1 = h → jj * w + w = w * h) ∧ (jj + 1 < h → jj * w + w + w ≤ w * h) := by
  constructor
  · rintro rfl
    ring
  · intro hlt
    calc jj * w + w + w = (jj + 2) * w := by ring
      _ ≤ h * w := Nat.mul_le_mul_right w hlt
      _ = w * h := Nat.mul_comm h w

theorem readPixel_right : readPixel w h ii jj (true, false) = min (jj * w + ii + 1) (w * h - 1) :=
  rfl

theorem readPixel_below : readPixel w h ii jj (false, true) = min (jj * w + ii + w) (w * h - 1) :=
  rfl

theorem readPixel_both :
    readPixel w h ii jj (true, true) = min (jj * w + ii + 1 + w) (w * h - 1) := rfl

/-- The very last pixel is meant in the last row of at most two columns. -/
theorem exists_meant_last {q : Nat} (hii : ii < w) (hj : jj + 1 = h) (hw : w ≤ 2)
    (hq : w * h - 1 ≤ q) : ∃ y, min q (w * h - 1) = meantPixel w h ii jj y := by
  have hmeant := meantPixel_eq hii (by omega : jj < h)
  have hend := (rows_behind w (by omega : jj < h)).1 hj
  by_cases hi : ii + 1 < w
  · refine ⟨(true, false), ?_⟩
    rw [hmeant, if_pos ⟨rfl, hi⟩, if_neg (by simp)]
    omega
  · refine ⟨(false, false), ?_⟩
    rw [hmeant, if_neg (by simp), if_neg (by simp)]
    omega

/-- The pixel to the right does no harm in the last column of a single row or a single column. -/
theorem exists_meant_right (hii : ii < w) (hjj : jj < h) (hright : ii + 1 < w ∨ h = 1 ∨ w = 1) :
    ∃ y, readPixel w h ii jj (true, false) = meantPixel w h ii jj y := by
  obtain ⟨hlast, hinner⟩ := rows_behind w hjj
  have hmeant := meantPixel_eq hii hjj
  rw [readPixel_right]
  by_cases hi : ii + 1 < w
  · refine ⟨(true, false), ?_⟩
    rw [hmeant, if_pos ⟨rfl, hi⟩, if_neg (by simp)]
    omega
  · by_cases hj : jj + 1 < h
    · -- the first pixel of the next row, in a single column
      refine ⟨(false, true), ?_⟩
      rw [hmeant, if_neg (by simp), if_pos ⟨rfl, hj⟩]
      have hroom := hinner hj
      omega
    · refine ⟨(false, false), ?_⟩
      rw [hmeant, if_neg (by simp), if_neg (by simp)]
      have hend := hlast (by omega)
      omega

/-- Nor does the one below, in the last row of at most two columns. -/
theorem exists_meant_below (hii : ii < w) (hjj : jj < h) (hbelow : jj + 1 < h ∨ w ≤ 2) :
    ∃ y, readPixel w h ii jj (false, true) = meantPixel w h ii jj y := by
  obtain ⟨hlast, hinner⟩ := rows_behind w hjj
  rw [readPixel_below]
  by_cases hj : jj + 1 < h
  · refine ⟨(false, true), ?_⟩
    rw [meantPixel_eq hii hjj, if_neg (by simp), if_pos ⟨rfl, hj⟩]
    have hroom := hinner hj
    omega
  · have hend := hlast (by omega)
    exact exists_meant_last hii (by omega) (hbelow.resolve_left hj) (by omega)

/-- Nor the one below to the right, in the last column of a single row or the last row but one. -/
theorem exists_meant_both (hii : ii < w) (hjj : jj < h) (hbelow : jj + 1 < h ∨ w ≤ 2)
    (hboth : ii + 1 < w ∨ h = 1 ∨ h ≤ jj + 2) :
    ∃ y, readPixel w h ii jj (true, true) = meantPixel w h ii jj y := by
  obtain ⟨hlast, hinner⟩ := rows_behind w hjj
  have hmeant := meantPixel_eq hii hjj
  rw [readPixel_both]
  by_cases hj : jj + 1 < h
  · have hroom := hinner hj
    by_cases hi : ii + 1 < w
    · refine ⟨(true, true), ?_⟩
      rw [hmeant, if_pos ⟨rfl, hi⟩, if_pos ⟨rfl, hj⟩]
      omega
    · -- the last pixel of all, from the last column of the last row but one
      refine ⟨(false, true), ?_⟩
      rw [hmeant, if_neg (by simp), if_pos ⟨rfl, hj⟩]
      have hend := (rows_behind w (by omega : jj + 1 < h)).1 (by omega)
      rw [Nat.succ_mul] at hend
      omega
  · have hend := hlast (by omega)
    exact exists_meant_last hii (by omega) (hbelow.resolve_left hj) (by omega)

/-- The last column or row of a result that is larger: it falls on the last one, with a rest. -/
theorem last_of_lt {n r : Nat} (hn : 0 < n) (hlt : n < r) :
    (r - 1) * n / r = n - 1 ∧ ¬ r ∣ (r - 1) * n := by
  have hsplit : (r - 1) * n = r * (n - 1) + (r - n) := by
    obtain ⟨m, rfl⟩ := Nat.exists_eq_add_of_lt hn
    obtain ⟨e, rfl⟩ := Nat.exists_eq_add_of_lt hlt
    simp only [Nat.zero_add, Nat.add_sub_cancel]
    have hrest : m + 1 + e + 1 - (m + 1) = e + 1 := by omega
    rw [hrest]
    ring
  rw [hsplit, Nat.mul_add_div (by omega), Nat.div_eq_of_lt (by omega), Nat.add_zero]
  refine ⟨rfl, fun hdvd => ?_⟩
  have := Nat.le_of_dvd (by omega) ((Nat.dvd_add_right (Nat.dvd_mul_right r (n - 1))).mp hdvd)
  omega

/-- In a result that is not larger, whatever has a rest is inside. -/
theorem inner_of_le {n r i : Nat} (hle : r ≤ n) (hi : i < r) (hdvd : ¬ r ∣ i * n) :
    i * n / r + 1 < n := by
  have hnum := Nat.div_add_mod (i * n) r
  have hrest : 0 < i * n % r := Nat.pos_of_ne_zero fun h0 => hdvd (Nat.dvd_of_mod_eq_zero h0)
  have hend : (i + 1) * n ≤ r * n := Nat.mul_le_mul_right n hi
  refine Nat.lt_of_mul_lt_mul_left (a := r) ?_
  rw [Nat.succ_mul] at hend
  rw [Nat.mul_succ]
  omega

/-- **The edges do no harm.**  The image is not made wider, or it has a single row; or it has a
single column, and rows are only mixed if there are no two rows behind.  And it is not made higher,
or has at most two columns. -/
def Replicates (w h rw rh : Nat) : Prop :=
  (rw ≤ w ∨ h = 1 ∨ (w = 1 ∧ ∀ j < rh, j * h / rh + 3 ≤ h → rh ∣ j * h)) ∧ (rh ≤ h ∨ w ≤ 2)

theorem replicates_iff {rw rh : Nat} (hw : 0 < w) (hh : 0 < h) (hrw : 0 < rw) (hrh : 0 < rh) :
    (∀ i < rw, ∀ j < rh,
      Covered w h (i * w / rw) (j * h / rh) (¬ rw ∣ i * w) (¬ rh ∣ j * h)) ↔
      Replicates w h rw rh := by
  constructor
  · intro hall
    constructor
    · by_contra hnot
      obtain ⟨hwider, hnot⟩ := not_or.mp hnot
      obtain ⟨hrows, hnot⟩ := not_or.mp hnot
      obtain ⟨hii, hrest⟩ := last_of_lt hw (Nat.lt_of_not_le hwider)
      by_cases hone : w = 1
      · -- two rows further down in a single column
        obtain ⟨j, hj, hdeep, hdvd⟩ : ∃ j < rh, j * h / rh + 3 ≤ h ∧ ¬ rh ∣ j * h := by
          by_contra hnone
          push Not at hnone
          exact hnot ⟨hone, hnone⟩
        obtain ⟨y, hy⟩ := (hall (rw - 1) (by omega) j hj).both hrest hdvd
        rw [readPixel_both, hii, meantPixel_eq (by omega) (by omega)] at hy
        subst hone
        split at hy <;> split at hy <;> omega
      · -- the first pixel of the second row
        obtain ⟨y, hy⟩ := (hall (rw - 1) (by omega) 0 hrh).right hrest
        have hroom := (rows_behind w hh).2 (by omega)
        rw [Nat.zero_mul, Nat.zero_div, readPixel_right, hii, meantPixel_eq (by omega) hh,
          Nat.zero_mul] at hy
        rw [Nat.zero_mul] at hroom
        split at hy <;> split at hy <;> omega
    · by_contra hnot
      obtain ⟨hhigher, hcols⟩ := not_or.mp hnot
      obtain ⟨hjj, hrest⟩ := last_of_lt hh (Nat.lt_of_not_le hhigher)
      -- the very last pixel, seen from the first column
      obtain ⟨y, hy⟩ := (hall 0 hrw (rh - 1) (by omega)).below hrest
      have hend := (rows_behind w (by omega : h - 1 < h)).1 (by omega)
      rw [Nat.zero_mul, Nat.zero_div, readPixel_below, hjj, meantPixel_eq hw (by omega)] at hy
      split at hy <;> split at hy <;> omega
  · rintro ⟨hcols, hrows⟩ i hi j hj
    have hii := scaled_lt hw hi
    have hjj := scaled_lt hh hj
    have hright : ¬ rw ∣ i * w → i * w / rw + 1 < w ∨ h = 1 ∨ w = 1 := by
      intro hR
      rcases hcols with hle | hone | ⟨hone, -⟩
      · exact .inl (inner_of_le hle hi hR)
      · exact .inr (.inl hone)
      · exact .inr (.inr hone)
    have hbelow : ¬ rh ∣ j * h → j * h / rh + 1 < h ∨ w ≤ 2 := by
      intro hB
      exact hrows.imp_left fun hle => inner_of_le hle hj hB
    refine ⟨fun hR => exists_meant_right hii hjj (hright hR),
      fun hB => exists_meant_below hii hjj (hbelow hB),
      fun hR hB => exists_meant_both hii hjj (hbelow hB) ?_⟩
    rcases hcols with hle | hone | ⟨-, hdeep⟩
    · exact .inl (inner_of_le hle hi hR)
    · exact .inr (.inl hone)
    · right
      right
      by_contra hlow
      exact hB (hdeep j hj (by omega))

end

/-! ## 6. When the result is a mixture -/

/-- A truncated mixture of bytes is between the smallest and the largest of them. -/
theorem between_of_mixture {f : Bool × Bool → UInt8} {v : ℚ}
    (hmix : Mixture (fun y => ((f y).toNat : ℚ)) v) :
    (∃ y, (f y).toNat ≤ (truncate v).toNat) ∧ ∃ y, (truncate v).toNat ≤ (f y).toNat := by
  obtain ⟨y, hy⟩ := hmix.exists_le
  obtain ⟨z, hz⟩ := hmix.exists_ge
  have hlow : (f y).toNat ≤ ⌊v⌋₊ := Nat.le_floor hy
  have hhigh : ⌊v⌋₊ ≤ (f z).toNat := Nat.floor_le_of_le hz
  have hbyte : (truncate v).toNat = ⌊v⌋₊ := by
    have := (f z).toNat_lt
    exact UInt8.toNat_ofNat_of_lt' (by change _ < 256; omega)
  rw [hbyte]
  exact ⟨⟨y, hlow⟩, ⟨z, hhigh⟩⟩

namespace Picture

/-- The samples that should be mixed for channel `k` of pixel `(i, j)`. -/
def neighbours (p : Picture) (rw rh i j k : Nat) (y : Bool × Bool) : UInt8 :=
  p.byte k (meantPixel p.header.width p.header.height (i * p.header.width / rw)
    (j * p.header.height / rh) y)

/-- **The tile is interpolated.**  Every sample of the result is computed as a mixture of the four
samples of its channel in columns `ii` and `min(ii+1, w-1)` and rows `jj` and `min(jj+1, h-1)`, and
is between the smallest and the largest of them. -/
structure Interpolated (p : Picture) (rw rh : Nat) (t : Canvas) : Prop where
  header : t.header = resample rw rh p.header
  sample : ∀ i < rw, ∀ j < rh, ∀ k < p.header.channels, ∃ v,
    p.canvas.bilinearValue rw rh i j k = some v ∧
    Mixture (fun y => ((p.neighbours rw rh i j k y).toNat : ℚ)) v ∧
    t.cells[place rw p.header.channels i j k]? = some (some (truncate v)) ∧
    (∃ y, (p.neighbours rw rh i j k y).toNat ≤ (truncate v).toNat) ∧
    ∃ y, (truncate v).toNat ≤ (p.neighbours rw rh i j k y).toNat

section
variable {p : Picture} {rw rh : Nat}

/-- The value for channel `k` of pixel `(i, j)`. -/
def mixed (p : Picture) (rw rh i j k : Nat) : ℚ :=
  ∑ x, weight ((i : ℚ) * ((p.header.width : ℚ) / rw) - (i * p.header.width / rw : Nat))
      ((j : ℚ) * ((p.header.height : ℚ) / rh) - (j * p.header.height / rh : Nat)) x
    * (p.byte k (readPixel p.header.width p.header.height (i * p.header.width / rw)
        (j * p.header.height / rh) x)).toNat

theorem bilinearValue_eq_mixed (hw : 0 < p.header.width) (hh : 0 < p.header.height)
    (hcols : (rw - 1) * p.header.width / rw + 1 < 2 ^ 31)
    (hrows : (rh - 1) * p.header.height / rh + 1 < 2 ^ 31) {i j k : Nat} (hi : i < rw)
    (hj : j < rh) (hk : k < p.header.channels) :
    p.canvas.bilinearValue rw rh i j k = some (p.mixed rw rh i j k) := by
  rw [bilinearValue_eq (t := p.canvas) hcols hrows hi hj]
  exact value_corner (scaled_lt hw hi) (scaled_lt hh hj) hk _ _

/-- The same, by the place in the result. -/
theorem bilinearValue_place (hw : 0 < p.header.width) (hh : 0 < p.header.height)
    (hcols : (rw - 1) * p.header.width / rw + 1 < 2 ^ 31)
    (hrows : (rh - 1) * p.header.height / rh + 1 < 2 ^ 31) {i j k : Nat} (hi : i < rw)
    (hj : j < rh) (hk : k < p.header.channels) :
    p.canvas.bilinearValue rw rh
        (place rw p.header.channels i j k / p.header.channels % rw)
        (place rw p.header.channels i j k / p.header.channels / rw)
        (place rw p.header.channels i j k % p.header.channels)
      = some (p.mixed rw rh i j k) := by
  unfold place
  rw [number_div hk, Nat.mul_add_mod_of_lt hk, Nat.mul_add_mod_of_lt hi, number_div hi]
  exact bilinearValue_eq_mixed hw hh hcols hrows hi hj hk

/-- **What the loops return**, if all counters are `int`s and no index wraps. -/
theorem interpolateBilinear_eq (hw : 0 < p.header.width) (hh : 0 < p.header.height)
    (hcols : (rw - 1) * p.header.width / rw + 1 < 2 ^ 31)
    (hrows : (rh - 1) * p.header.height / rh + 1 < 2 ^ 31)
    (hindex : (rw * rh - 1) * p.header.channels < 2 ^ 32) :
    ∃ cells, p.canvas.interpolateBilinear rw rh = some ⟨resample rw rh p.header, cells⟩ ∧
      ∀ i < rw, ∀ j < rh, ∀ k < p.header.channels, cells[place rw p.header.channels i j k]?
        = some (some (truncate (p.mixed rw rh i j k))) := by
  let g (m : Nat) : Option UInt8 :=
    (p.canvas.bilinearValue rw rh (m / p.header.channels % rw) (m / p.header.channels / rw)
      (m % p.header.channels)).map truncate
  have hg : ∀ i < rw, ∀ j < rh, ∀ k < p.header.channels,
      g (place rw p.header.channels i j k) = some (truncate (p.mixed rw rh i j k)) := by
    intro i hi j hj k hk
    exact congrArg (Option.map truncate) (bilinearValue_place hw hh hcols hrows hi hj hk)
  have hall : ∀ m < rw * rh * p.header.channels, (g m).isSome := by
    intro m hm
    obtain ⟨i, j, k, hi, hj, hk, rfl⟩ := exists_place hm
    rw [hg i hi j hj k hk]
    rfl
  have hloops : bilinearLoops p.header.width p.header.height p.header.channels rw rh p.canvas.cells
      (fresh (rw * rh * p.header.channels))
      = some ((List.range (rw * rh * p.header.channels)).map g) := by
    rw [← tabulate_eq hall]
    refine (bilinearLoops_eq (t := p.canvas) hcols hrows _).trans ?_
    refine foldlM_range_congr _ fun m hm output => ?_
    have hpixel : m / p.header.channels ≤ rw * rh - 1 := by
      have := Nat.div_lt_of_lt_mul (Nat.mul_comm (rw * rh) p.header.channels ▸ hm)
      omega
    have hlt := Nat.lt_of_le_of_lt (Nat.mul_le_mul_right p.header.channels hpixel) hindex
    have hplace : u32 (m / p.header.channels * p.header.channels) + m % p.header.channels = m := by
      rw [u32_of_lt hlt, Nat.div_add_mod']
    change (p.canvas.bilinearValue _ _ (m / p.header.channels % rw) (m / p.header.channels / rw)
      (m % p.header.channels)).bind (fun v => store output
        (u32 (m / p.header.channels * p.header.channels) + m % p.header.channels) _) = _
    rw [hplace, Option.bind_map]
    rfl
  refine ⟨(List.range (rw * rh * p.header.channels)).map g, ?_, fun i hi j hj k hk => ?_⟩
  · unfold Canvas.interpolateBilinear
    exact congrArg (Option.map _) hloops
  · rw [List.getElem?_map, List.getElem?_range (place_lt hi hj hk), Option.map_some,
      hg i hi j hj k hk]

/-- The values of a tile are mixtures of the samples they should be. -/
def Mixes (p : Picture) (rw rh : Nat) : Prop :=
  ∀ i < rw, ∀ j < rh, ∀ k < p.header.channels,
    Mixture (fun y => ((p.neighbours rw rh i j k y).toNat : ℚ)) (p.mixed rw rh i j k)

/-- **A tile is interpolated if its values are mixtures.** -/
theorem interpolated_iff (p : Picture) (rw rh : Nat) (hw : 0 < p.header.width)
    (hh : 0 < p.header.height) (hcols : (rw - 1) * p.header.width / rw + 1 < 2 ^ 31)
    (hrows : (rh - 1) * p.header.height / rh + 1 < 2 ^ 31)
    (hindex : (rw * rh - 1) * p.header.channels < 2 ^ 32) :
    (∃ t, p.canvas.interpolateBilinear rw rh = some t ∧ p.Interpolated rw rh t) ↔
      p.Mixes rw rh := by
  obtain ⟨cells, hcells, hcell⟩ := interpolateBilinear_eq hw hh hcols hrows hindex
  have hvalue := fun i hi j hj k hk =>
    bilinearValue_eq_mixed (p := p) (i := i) (j := j) (k := k) hw hh hcols hrows hi hj hk
  constructor
  · rintro ⟨t, -, hright⟩ i hi j hj k hk
    obtain ⟨v, hv, hmix, -⟩ := hright.sample i hi j hj k hk
    rw [hvalue i hi j hj k hk] at hv
    rwa [Option.some.inj hv]
  · intro hall
    refine ⟨_, hcells, rfl, fun i hi j hj k hk => ?_⟩
    have hmix := hall i hi j hj k hk
    exact ⟨_, hvalue i hi j hj k hk, hmix, hcell i hi j hj k hk, between_of_mixture hmix⟩

end

/-- A pixel that carries weight is one of those to be mixed.  If it were none of them, it could be
white alone. -/
theorem exists_meant_of_mixture {w h c ii jj : Nat} {b d : ℚ} (hlt : w * h * c < 2 ^ 32)
    (hc : 0 < c) (hpos : 0 < w * h) (hweights : Weights (weight b d))
    (hall : ∀ p : Picture, p.header = sized w h c → ∀ k < c,
      Mixture (fun y => ((p.byte k (meantPixel w h ii jj y)).toNat : ℚ))
        (∑ x, weight b d x * (p.byte k (readPixel w h ii jj x)).toNat))
    {x : Bool × Bool} (hx : 0 < weight b d x) :
    ∃ y, readPixel w h ii jj x = meantPixel w h ii jj y := by
  by_contra hnone
  push Not at hnone
  have hin : readPixel w h ii jj x * c + 0 < w * h * c :=
    (Nat.mul_lt_mul_right hc).mpr (readPixel_lt hpos ii jj x)
  have hbyte : ∀ q, (marked hlt (readPixel w h ii jj x * c + 0)).byte 0 q
      = if q = readPixel w h ii jj x then 255 else 0 := by
    intro q
    refine (getD_marked hlt hin).trans ?_
    change (if q * c + 0 = readPixel w h ii jj x * c + 0 then (255 : UInt8) else 0) = _
    simp only [Nat.add_zero, Nat.mul_left_inj hc.ne']
  have hmix := hall (marked hlt (readPixel w h ii jj x * c + 0)) rfl 0 hc
  have hle := hmix.le 0 fun y => by
    rw [hbyte, if_neg fun h => hnone y h.symm]
    exact le_refl _
  have hge : weight b d x * 255 ≤ ∑ x', weight b d x' * (((marked hlt
      (readPixel w h ii jj x * c + 0)).byte 0 (readPixel w h ii jj x')).toNat : ℚ) := by
    refine le_trans (le_of_eq ?_) (Finset.single_le_sum (f := fun x' => weight b d x' * _)
      (fun x' _ => mul_nonneg (hweights.nonneg x') (Nat.cast_nonneg _)) (Finset.mem_univ x))
    rw [hbyte, if_pos rfl]
    rfl
  linarith

/-- Which pixels are mixed right in all tiles of a size. -/
theorem mixture_all_iff {w h c ii jj : Nat} {b d : ℚ} (hlt : w * h * c < 2 ^ 32) (hc : 0 < c)
    (hii : ii < w) (hjj : jj < h) (hb : 0 ≤ b) (hb' : b < 1) (hd : 0 ≤ d) (hd' : d < 1) :
    (∀ p : Picture, p.header = sized w h c → ∀ k < c,
      Mixture (fun y => ((p.byte k (meantPixel w h ii jj y)).toNat : ℚ))
        (∑ x, weight b d x * (p.byte k (readPixel w h ii jj x)).toNat)) ↔
      Covered w h ii jj (0 < b) (0 < d) := by
  have hweights := weights_weight hb hb' hd hd'
  constructor
  · intro hall
    have hpos : 0 < w * h := Nat.mul_pos (by omega) (by omega)
    have hcovered := fun x => exists_meant_of_mixture (x := x) hlt hc hpos hweights hall
    refine ⟨fun hR => hcovered _ ?_, fun hB => hcovered _ ?_, fun hR hB => hcovered _ ?_⟩
    · exact mul_pos hR (sub_pos.mpr hd')
    · exact mul_pos (sub_pos.mpr hb') hB
    · exact mul_pos hR hB
  · rintro hcovered p - k -
    refine mixture_of_mem hweights fun x hx => ?_
    obtain ⟨y, hy⟩ : ∃ y, readPixel w h ii jj x = meantPixel w h ii jj y := by
      obtain ⟨hright, hbelow⟩ := pos_of_weight_pos hb hd hx
      match x with
      | (false, false) =>
        have hfirst := number_lt hii hjj
        exact ⟨(false, false), Nat.min_eq_left (by omega : jj * w + ii ≤ w * h - 1)⟩
      | (true, false) => exact hcovered.right (hright rfl)
      | (false, true) => exact hcovered.below (hbelow rfl)
      | (true, true) => exact hcovered.both (hright rfl) (hbelow rfl)
    exact ⟨y, by rw [hy]⟩

/-- **Which sizes are mixed right.** -/
theorem mixes_all_iff {w h c rw rh : Nat} (hw : 0 < w) (hh : 0 < h) (hlt : w * h * c < 2 ^ 32)
    (hc : 0 < c) (hrw : 0 < rw) (hrh : 0 < rh) :
    (∀ p : Picture, p.header = sized w h c → p.Mixes rw rh) ↔ Replicates w h rw rh := by
  have hmixes : ∀ p : Picture, p.header = sized w h c → (p.Mixes rw rh ↔
      ∀ i < rw, ∀ j < rh, ∀ k < c,
        Mixture (fun y => ((p.byte k (meantPixel w h (i * w / rw) (j * h / rh) y)).toNat : ℚ))
          (∑ x, weight ((i : ℚ) * ((w : ℚ) / rw) - (i * w / rw : Nat))
              ((j : ℚ) * ((h : ℚ) / rh) - (j * h / rh : Nat)) x
            * (p.byte k (readPixel w h (i * w / rw) (j * h / rh) x)).toNat)) := by
    intro p hp
    unfold Mixes neighbours mixed
    rw [show p.header.width = w by rw [hp]; rfl, show p.header.height = h by rw [hp]; rfl,
      show p.header.channels = c by rw [hp]; rfl]
  have hpixel := fun i (hi : i < rw) j (hj : j < rh) =>
    mixture_all_iff hlt hc (scaled_lt hw hi) (scaled_lt hh hj)
      (fraction_nonneg (n := w) (i := i) hrw) (fraction_lt_one hrw)
      (fraction_nonneg (n := h) (i := j) hrh) (fraction_lt_one hrh)
  simp only [fraction_pos_iff hrw, fraction_pos_iff hrh] at hpixel
  rw [← replicates_iff hw hh hrw hrh]
  constructor
  · intro hall i hi j hj
    refine (hpixel i hi j hj).mp fun p hp k hk => ?_
    exact (hmixes p hp).mp (hall p hp) i hi j hj k hk
  · intro hall p hp
    refine (hmixes p hp).mpr fun i hi j hj k hk => ?_
    exact (hpixel i hi j hj).mpr (hall i hi j hj) p hp k hk

/-- All counters are `int`s, no index of the result wraps, and the edges do no harm.  The last two
only matter if there are samples. -/
structure Interpolable (w h c rw rh : Nat) : Prop where
  columns : (rw - 1) * w / rw + 1 < 2 ^ 31
  rows : (rh - 1) * h / rh + 1 < 2 ^ 31
  index : 0 < c → (rw * rh - 1) * c < 2 ^ 32
  edges : 0 < c → Replicates w h rw rh

/-- Of a tile that is interpolated the last sample has been written: its index has not wrapped. -/
theorem index_lt_of_interpolated {p : Picture} {rw rh : Nat} {t : Canvas} (hrw : 0 < rw)
    (hrh : 0 < rh) (hc : 0 < p.header.channels)
    (ht : p.canvas.interpolateBilinear rw rh = some t) (hright : p.Interpolated rw rh t) :
    (rw * rh - 1) * p.header.channels < 2 ^ 32 := by
  by_contra hwrap
  obtain ⟨cells, hcells, rfl⟩ := Option.map_eq_some_iff.mp ht
  have hlast := bilinearLoops_last hc hwrap hcells
  obtain ⟨v, -, -, hcell, -⟩ := hright.sample (rw - 1) (by omega) (rh - 1) (by omega)
    (p.header.channels - 1) (by omega)
  have hpixel : (rh - 1) * rw + (rw - 1) = rw * rh - 1 := by
    have hrow := Nat.succ_mul (rh - 1) rw
    rw [Nat.succ_eq_add_one, Nat.sub_add_cancel hrh, Nat.mul_comm] at hrow
    omega
  have hplace : place rw p.header.channels (rw - 1) (rh - 1) (p.header.channels - 1)
      = (rw * rh - 1) * p.header.channels + (p.header.channels - 1) := by
    unfold place
    rw [hpixel]
  rw [hplace] at hcell
  cases hlast.symm.trans hcell

/-- **When bilinear resizing is right.**  For tiles of 8 bits of any size and number of channels,
and every target size: the result is right for ALL tiles of this size if and only if it is
interpolable. -/
theorem bilinear_iff {w h c rw rh : Nat} (hw : 1 ≤ w) (hh : 1 ≤ h) (hlt : w * h * c < 2 ^ 32)
    (hrw : 1 ≤ rw) (hrh : 1 ≤ rh) :
    (∀ p : Picture, p.header = sized w h c →
      ∃ t, p.canvas.interpolateBilinear rw rh = some t ∧ p.Interpolated rw rh t) ↔
      Interpolable w h c rw rh := by
  have hmixes : (rw - 1) * w / rw + 1 < 2 ^ 31 → (rh - 1) * h / rh + 1 < 2 ^ 31 →
      (rw * rh - 1) * c < 2 ^ 32 → ∀ p : Picture, p.header = sized w h c →
      ((∃ t, p.canvas.interpolateBilinear rw rh = some t ∧ p.Interpolated rw rh t) ↔
        p.Mixes rw rh) := by
    intro hcols hrows hindex p hp
    have hiff := interpolated_iff p rw rh
    rw [hp] at hiff
    exact hiff hw hh hcols hrows hindex
  constructor
  · intro hall
    obtain ⟨t, ht, hright⟩ := hall (marked hlt 0) rfl
    obtain ⟨cells, hcells, -⟩ := Option.map_eq_some_iff.mp ht
    have hcols : (rw - 1) * w / rw + 1 < 2 ^ 31 := by
      by_contra hnot
      rw [bilinearLoops_columns (t := (marked hlt 0).canvas) hrw hrh hnot] at hcells
      cases hcells
    have hrows : (rh - 1) * h / rh + 1 < 2 ^ 31 := by
      by_contra hnot
      rw [bilinearLoops_rows (t := (marked hlt 0).canvas) hrh hnot] at hcells
      cases hcells
    have hindex : 0 < c → (rw * rh - 1) * c < 2 ^ 32 := fun hc =>
      index_lt_of_interpolated (p := marked hlt 0) hrw hrh hc ht hright
    refine ⟨hcols, hrows, hindex, fun hc => (mixes_all_iff hw hh hlt hc hrw hrh).mp ?_⟩
    intro p hp
    exact (hmixes hcols hrows (hindex hc) p hp).mp (hall p hp)
  · rintro ⟨hcols, hrows, hindex, hedges⟩ p hp
    rcases Nat.eq_zero_or_pos c with rfl | hc
    · refine (hmixes hcols hrows (by rw [Nat.mul_zero]; decide) p hp).mpr ?_
      intro i _ j _ k hk
      rw [hp] at hk
      exact absurd hk (Nat.not_lt_zero k)
    · refine (hmixes hcols hrows (hindex hc) p hp).mpr ?_
      exact (mixes_all_iff hw hh hlt hc hrw hrh).mpr (hedges hc) p hp

theorem bilinear_iff_halved :
    Interpolable 4 4 3 2 2 ∧ ∀ p : Picture, p.header = sized 4 4 3 →
      ∃ t, p.canvas.interpolateBilinear 2 2 = some t ∧ p.Interpolated 2 2 t := by
  have hinterpolable : Interpolable 4 4 3 2 2 :=
    ⟨by decide, by decide, fun _ => by decide, fun _ => ⟨.inl (by decide), .inl (by decide)⟩⟩
  exact ⟨hinterpolable, (bilinear_iff (by decide) (by decide) (by decide) (by decide)
    (by decide)).mpr hinterpolable⟩

/-- Two by two pixels, of which only the first of the second row is white. -/
def whiteBelow : Picture := ofBytes (w := 2) (h := 2) (c := 1) [0, 0, 255, 0] rfl (by decide)

/-- **The right edge.**  Made wider by one column, the last pixel of the first row falls between the
last column and the edge, where all is black.  It takes a third of its value from the white pixel on
the OTHER side of the row below. -/
theorem right_edge :
    whiteBelow.canvas.bilinearValue 3 2 2 0 0 = some 85 ∧
      (∀ y, whiteBelow.neighbours 3 2 2 0 0 y = 0) ∧
      ¬ ∃ t, whiteBelow.canvas.interpolateBilinear 3 2 = some t ∧
        whiteBelow.Interpolated 3 2 t := by
  have hvalue : whiteBelow.canvas.bilinearValue 3 2 2 0 0 = some 85 := by
    rw [bilinearValue_eq_mixed (by decide) (by decide) (by decide) (by decide) (by decide)
      (by decide) (by decide)]
    decide +kernel
  have hblack : ∀ y, whiteBelow.neighbours 3 2 2 0 0 y = 0 := by decide
  refine ⟨hvalue, hblack, ?_⟩
  rintro ⟨t, -, hright⟩
  obtain ⟨v, hv, hmix, -⟩ := hright.sample 2 (by decide) 0 (by decide) 0 (by decide)
  obtain rfl := Option.some.inj (hvalue.symm.trans hv)
  have hle := hmix.le 0 fun y => by
    rw [hblack y]
    exact le_refl 0
  exact absurd hle (by decide +kernel)

end Picture

end Iipsrv.Transform
