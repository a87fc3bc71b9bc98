/-
# Recombining channels

`Transform::twist` computes the channels of a pixel from its old ones by a matrix, in a scratch
pixel that is allocated once and not initialized.  The loop that fills it goes over the ROWS of the
matrix, the loop that writes it back over the CHANNELS of the tile.

A matrix is what the client says it is: any number of rows, of any lengths.  `twist_determined_iff`
says that what is written depends on the tile and the matrix only exactly if there is a row for
every channel (or no pixel).  A channel without a row is written from memory that has never been
set.

Samples are exact rational numbers; `normalize` leaves no others.
-/
import Iipsrv.Transform.Headers
import Iipsrv.Lib.Fill
import Iipsrv.Lib.Raster

namespace Iipsrv.Transform

open Lib.Word Lib.Buffer Lib.Fill Lib.Loop

/-! ## 1. The loops -/

section
variable (matrix : List (List ℚ)) (channels : Nat)

/-- The number of columns: limit to our number of channels if necessary. -/
def ncols : Nat := if channels < matrix.length then channels else matrix.length

/-- The size of a row, limited in the same way. -/
def nrows (row : List ℚ) : Nat := if channels < row.length then channels else row.length

/-- The sum over one row, for the pixel at `n`.  Zeros are passed over, and ones not multiplied. -/
def twistRow (data : List ℚ) (n : Nat) (row : List ℚ) : Option ℚ :=
  (List.range (nrows channels row)).foldlM (fun sum j =>
    row[j]?.bind fun m =>
      if m = 0 then some sum
      else data[n + j]?.map fun x => sum + if m = 1 then x else x * m) 0

/-- Calculate value for each channel. -/
def twistPixel (data : List ℚ) (n : Nat) (pixel : List ℚ) : Option (List ℚ) :=
  (List.range (ncols matrix channels)).foldlM (fun pixel k =>
    matrix[k]?.bind fun row => (twistRow channels data n row).bind fun v => store pixel k v) pixel

/-- Only write our values at the end, as we reuse channel values several times. -/
def writePixel (pixel data : List ℚ) (n : Nat) : Option (List ℚ) :=
  (List.range channels).foldlM (fun data k => pixel[k]?.bind fun v => store data (n + k) v) data

end

/-- `Transform::twist`.  `scratch` is what the memory of the scratch pixel holds at first. -/
def twist (scratch : List ℚ) (matrix : List (List ℚ)) (h : Header) (data : List ℚ) :
    Option (List ℚ) :=
  ((List.range' 0 (u32 (h.width * h.height))).foldlM (fun (data, pixel) i =>
      (twistPixel matrix h.channels data (i * h.channels) pixel).bind fun pixel =>
        (writePixel h.channels pixel data (i * h.channels)).map (·, pixel)) (data, scratch)).map
    Prod.fst

/-! ## 2. One pixel -/

section
variable {matrix : List (List ℚ)} {c : Nat} {data pixel : List ℚ} {n : Nat}

/-- The value of a channel that has a row: the sum of the products. -/
def product (c : Nat) (data : List ℚ) (n : Nat) (row : List ℚ) : ℚ :=
  ∑ j ∈ Finset.range (min row.length c), row.getD j 0 * data.getD (n + j) 0

theorem ncols_eq (matrix : List (List ℚ)) (c : Nat) : ncols matrix c = min matrix.length c := by
  unfold ncols
  split <;> omega

theorem nrows_eq (row : List ℚ) : nrows c row = min row.length c := by
  unfold nrows
  split <;> omega

theorem twistRow_eq (row : List ℚ) (hn : n + c ≤ data.length) :
    twistRow c data n row = some (product c data n row) := by
  have hrun : ∀ count ≤ min row.length c, (List.range count).foldlM (fun sum j =>
      row[j]?.bind fun m =>
        if m = 0 then some sum
        else data[n + j]?.map fun x => sum + if m = 1 then x else x * m) 0
      = some (∑ j ∈ Finset.range count, row.getD j 0 * data.getD (n + j) 0) := by
    intro count hcount
    induction count with
    | zero => rfl
    | succ count ih =>
      have hrow : count < row.length := by omega
      have hdata : n + count < data.length := by omega
      rw [foldlM_range_succ, ih (by omega), Option.bind_some, Finset.sum_range_succ]
      simp only [List.getElem?_eq_getElem hrow, List.getElem?_eq_getElem hdata, Option.bind_some,
        Option.map_some, List.getD_eq_getElem?_getD, Option.getD_some]
      split
      case isTrue hzero => rw [hzero, zero_mul, add_zero]
      case isFalse =>
        congr 2
        split
        case isTrue hone => rw [hone, one_mul]
        case isFalse => rw [mul_comm]
  unfold twistRow product
  rw [nrows_eq]
  exact hrun _ (Nat.le_refl _)

variable (matrix) in
/-- **The channels that have a row are filled in**, the others are left. -/
theorem twistPixel_eq (hn : n + c ≤ data.length) (hpixel : pixel.length = c) :
    ∃ out, twistPixel matrix c data n pixel = some out ∧ out.length = c ∧
      ∀ k, out[k]? = if k < min matrix.length c then some (product c data n (matrix.getD k []))
        else pixel[k]? := by
  obtain ⟨out, hout, hlen, hcell⟩ := foldlM_pointwise
    (fun pixel k => matrix[k]?.bind fun row =>
      (twistRow c data n row).bind fun v => store pixel k v)
    (fun k => product c data n (matrix.getD k [])) pixel
    (List.nodup_range (n := min matrix.length c)) fun b k hk hb _ => by
      have hk' := List.mem_range.mp hk
      have hrow : k < matrix.length := by omega
      refine ⟨by omega, ?_⟩
      rw [List.getElem?_eq_getElem hrow, Option.bind_some, twistRow_eq _ hn, Option.bind_some,
        store_of_lt _ (by omega)]
      simp [hrow]
  refine ⟨out, ?_, hlen.trans hpixel, fun k => ?_⟩
  · rw [twistPixel, ncols_eq]
    exact hout
  · rw [hcell k]
    simp only [List.mem_range]

/-- The scratch pixel is written over the old one. -/
theorem writePixel_eq (hn : n + c ≤ data.length) (hpixel : pixel.length = c) :
    ∃ out, writePixel c pixel data n = some out ∧ out.length = data.length ∧
      ∀ m, out[m]? = if n ≤ m ∧ m < n + c then pixel[m - n]? else data[m]? := by
  obtain ⟨out, hout, hlen, hcell⟩ := foldlM_pointwise
    (fun data m => pixel[m - n]?.bind fun v => store data m v)
    (fun m => pixel.getD (m - n) 0) data (l := List.range' n c)
    List.nodup_range' fun b m hm hb _ => by
      have hm' := List.mem_range'_1.mp hm
      refine ⟨by omega, ?_⟩
      have hk : m - n < pixel.length := by omega
      rw [List.getElem?_eq_getElem hk, Option.bind_some, store_of_lt _ (by omega)]
      simp [hk]
  refine ⟨out, ?_, hlen, fun m => ?_⟩
  · rw [← hout, List.range'_eq_map_range, List.foldlM_map]
    refine foldlM_range_congr data fun k _ b => ?_
    rw [Nat.add_sub_cancel_left]
  · rw [hcell m]
    simp only [List.mem_range'_1]
    split
    case isTrue hm =>
      have hk : m - n < pixel.length := by omega
      simp [hk]
    case isFalse => rfl

end

/-! ## 3. The tile -/

/-- A tile of floats: as many as its header says. -/
structure Numbers where
  header : Header
  values : List ℚ
  bpc_eq : header.bpc = 32
  consistent : Consistent header
  length_lt : header.dataLength < 2 ^ 32
  length_eq : values.length = header.width * header.height * header.channels

namespace Numbers

variable {T : Numbers} {matrix : List (List ℚ)}

theorem pixels_lt (hc : 1 ≤ T.header.channels) : T.header.width * T.header.height < 2 ^ 32 := by
  have hlt := T.length_lt
  have hextent : T.header.dataLength
      = T.header.width * T.header.height * T.header.channels * (T.header.bpc / 8) := T.consistent
  rw [T.bpc_eq] at hextent
  have := Nat.le_mul_of_pos_right (T.header.width * T.header.height) hc
  omega

/-- What sample `m` becomes. -/
def twisted (T : Numbers) (matrix : List (List ℚ)) (scratch : List ℚ) (m : Nat) : Option ℚ :=
  if m % T.header.channels < matrix.length then
    some (product T.header.channels T.values (m / T.header.channels * T.header.channels)
      (matrix.getD (m % T.header.channels) []))
  else scratch[m % T.header.channels]?

/-- What the loop has done before pixel `i`: the pixels before it are written, and the channels of
the scratch pixel that have no row are as they were. -/
structure Progress (T : Numbers) (matrix : List (List ℚ)) (scratch : List ℚ) (i : Nat)
    (st : List ℚ × List ℚ) : Prop where
  length_data : st.1.length = T.values.length
  length_pixel : st.2.length = T.header.channels
  pixel : ∀ k, matrix.length ≤ k → st.2[k]? = scratch[k]?
  data : ∀ m, st.1[m]? = if m < i * T.header.channels then T.twisted matrix scratch m
    else T.values[m]?

/-- **One pixel.** -/
theorem Progress.next {scratch : List ℚ} {i : Nat} {st : List ℚ × List ℚ}
    (h : Progress T matrix scratch i st) (hi : i < T.header.width * T.header.height) :
    ∃ st', ((twistPixel matrix T.header.channels st.1 (i * T.header.channels) st.2).bind
        fun pixel => (writePixel T.header.channels pixel st.1 (i * T.header.channels)).map
          (·, pixel)) = some st' ∧
      Progress T matrix scratch (i + 1) st' := by
  have hroom : i * T.header.channels + T.header.channels ≤ st.1.length := by
    rw [h.length_data, T.length_eq, ← Nat.succ_mul]
    exact Nat.mul_le_mul_right _ hi
  obtain ⟨pixel, hpixel, hlen, hk⟩ := twistPixel_eq matrix hroom h.length_pixel
  obtain ⟨data, hdata, hlen', hm⟩ := writePixel_eq hroom hlen
  have hproduct (row : List ℚ) : product T.header.channels st.1 (i * T.header.channels) row
      = product T.header.channels T.values (i * T.header.channels) row := by
    refine Finset.sum_congr rfl fun j _ => ?_
    simp only [List.getD_eq_getElem?_getD]
    rw [h.data, if_neg (by omega)]
  refine ⟨(data, pixel), by rw [hpixel, Option.bind_some, hdata]; rfl,
    hlen'.trans h.length_data, hlen, fun k hmk => ?_, fun m => ?_⟩
  · rw [hk, if_neg (by omega)]
    exact h.pixel k hmk
  · rw [hm m, Nat.succ_mul]
    by_cases hin : i * T.header.channels ≤ m ∧ m < i * T.header.channels + T.header.channels
    · -- a sample of this pixel
      obtain ⟨k, rfl⟩ := Nat.exists_eq_add_of_le hin.1
      have hkc : k < T.header.channels := by omega
      rw [if_pos hin, if_pos hin.2, Nat.add_sub_cancel_left, hk, twisted,
        Nat.mul_add_mod_of_lt hkc, Lib.Raster.number_div hkc]
      by_cases hrow : k < matrix.length
      · rw [if_pos (by omega), if_pos hrow, hproduct]
      · rw [if_neg (by omega), if_neg hrow, h.pixel k (by omega)]
    · rw [if_neg hin, h.data]
      by_cases hbefore : m < i * T.header.channels
      · rw [if_pos hbefore, if_pos (by omega)]
      · rw [if_neg hbefore, if_neg (by omega)]

variable (matrix) in
/-- **What the call writes.** -/
theorem twist_eq (hc : 1 ≤ T.header.channels) {scratch : List ℚ}
    (hscratch : scratch.length = T.header.channels) :
    ∃ out, twist scratch matrix T.header T.values = some out ∧ out.length = T.values.length ∧
      ∀ m < T.values.length, out[m]? = T.twisted matrix scratch m := by
  have hstart : Progress T matrix scratch 0 (T.values, scratch) :=
    ⟨rfl, hscratch, fun _ _ => rfl, fun m => by rw [Nat.zero_mul, if_neg (Nat.not_lt_zero m)]⟩
  obtain ⟨st, hrun, hend⟩ := foldlM_some (Progress T matrix scratch)
    (T.header.width * T.header.height) 0 _ hstart fun i st _ hi h =>
      h.next (by rwa [Nat.zero_add] at hi)
  rw [Nat.zero_add] at hend
  refine ⟨st.1, ?_, hend.length_data, fun m hm => ?_⟩
  · unfold twist
    rw [u32_of_lt (pixels_lt hc)]
    exact congrArg (Option.map Prod.fst) hrun
  · rw [hend.data, ← T.length_eq, if_pos hm]

/-- **The output is determined by the tile and the matrix.**  It does not depend on what the scratch
pixel holds at first, and a channel that has a row is the sum of the products. -/
structure Determined (T : Numbers) (matrix : List (List ℚ)) : Prop where
  independent : ∀ scratch scratch' : List ℚ, scratch.length = T.header.channels →
    scratch'.length = T.header.channels →
    twist scratch matrix T.header T.values = twist scratch' matrix T.header T.values
  sums : ∀ scratch : List ℚ, scratch.length = T.header.channels →
    ∃ out, twist scratch matrix T.header T.values = some out ∧
      out.length = T.values.length ∧
      ∀ i < T.header.width * T.header.height, ∀ k < T.header.channels, ∀ row,
        matrix[k]? = some row →
        out[i * T.header.channels + k]?
          = some (∑ j ∈ Finset.range (min row.length T.header.channels),
            row.getD j 0 * T.values.getD (i * T.header.channels + j) 0)

/-- A channel without a row shows what the scratch pixel has held. -/
theorem twist_shows (T : Numbers) {matrix : List (List ℚ)}
    (hrows : matrix.length < T.header.channels) (hnp : T.header.width * T.header.height ≠ 0)
    (x : ℚ) :
    ∃ out, twist (List.replicate T.header.channels x) matrix T.header T.values = some out ∧
      out[matrix.length]? = some x := by
  obtain ⟨out, hout, -, hcell⟩ := twist_eq (T := T) matrix (by omega)
    (List.length_replicate (n := T.header.channels) (a := x))
  have hm : matrix.length < T.values.length := by
    rw [T.length_eq]
    exact Nat.lt_of_lt_of_le hrows (Nat.le_mul_of_pos_left _ (Nat.pos_of_ne_zero hnp))
  refine ⟨out, hout, ?_⟩
  rw [hcell _ hm]
  simp [twisted, Nat.mod_eq_of_lt hrows, hrows]

/-- If every sample belongs to a channel with a row, nothing else is written. -/
theorem Determined.of_rows {T : Numbers} {matrix : List (List ℚ)} (hc : 1 ≤ T.header.channels)
    (hrow : ∀ m < T.values.length, m % T.header.channels < matrix.length) :
    Determined T matrix := by
  constructor
  · intro scratch scratch' hs hs'
    obtain ⟨out, hout, hl, hcell⟩ := twist_eq matrix hc hs
    obtain ⟨out', hout', hl', hcell'⟩ := twist_eq matrix hc hs'
    rw [hout, hout']
    refine congrArg some (List.ext_getElem? fun m => ?_)
    by_cases hm : m < T.values.length
    · rw [hcell m hm, hcell' m hm, twisted, twisted, if_pos (hrow m hm), if_pos (hrow m hm)]
    · rw [List.getElem?_eq_none (by omega), List.getElem?_eq_none (by omega)]
  · intro scratch hs
    obtain ⟨out, hout, hl, hcell⟩ := twist_eq matrix hc hs
    refine ⟨out, hout, hl, fun i hi k hk row hmatrix => ?_⟩
    have hm : i * T.header.channels + k < T.values.length := by
      rw [T.length_eq, Nat.mul_comm (T.header.width * T.header.height)]
      exact Lib.Raster.number_lt hk hi
    rw [hcell _ hm, twisted, if_pos (hrow _ hm), Nat.mul_add_mod_of_lt hk, Lib.Raster.number_div hk,
      List.getD_eq_getElem?_getD, hmatrix]
    rfl

/-- **When the output is determined.**  For every tile with a channel and every matrix, of any
number of rows of any lengths: exactly if there is a row for every channel, or no pixel. -/
theorem twist_determined_iff (T : Numbers) (matrix : List (List ℚ)) (hc : 1 ≤ T.header.channels) :
    Determined T matrix ↔
      T.header.channels ≤ matrix.length ∨ T.header.width * T.header.height = 0 := by
  constructor
  · rintro ⟨hind, -⟩
    by_contra hnot
    obtain ⟨hrows, hnp⟩ : matrix.length < T.header.channels ∧
      T.header.width * T.header.height ≠ 0 := by omega
    obtain ⟨out, hout, hzero⟩ := T.twist_shows hrows hnp 0
    obtain ⟨out', hout', hone⟩ := T.twist_shows hrows hnp 1
    have hsame := hind _ _ (List.length_replicate (n := T.header.channels) (a := (0 : ℚ)))
      (List.length_replicate (n := T.header.channels) (a := (1 : ℚ)))
    rw [hout, hout', Option.some.injEq] at hsame
    rw [hsame, hone] at hzero
    exact absurd (Option.some.inj hzero) one_ne_zero
  · intro hcond
    refine .of_rows hc fun m hm => ?_
    rcases hcond with hrows | hnp
    · exact Nat.lt_of_lt_of_le (Nat.mod_lt m hc) hrows
    · rw [T.length_eq, hnp, Nat.zero_mul] at hm
      exact absurd hm (Nat.not_lt_zero m)

/-- One pixel of three channels. -/
def onePixelRgb : Numbers where
  header := ⟨1, 1, 3, 32, 12⟩
  values := [1, 2, 3]
  bpc_eq := rfl
  consistent := rfl
  length_lt := by decide
  length_eq := rfl

/-- A row of each length for the three channels. -/
theorem twist_determined_three_rows : Determined onePixelRgb [[1], [1, 2], [1, 0, 0, 5]] :=
  (twist_determined_iff onePixelRgb [[1], [1, 2], [1, 0, 0, 5]] (by decide)).mpr
    (.inl (by decide))

/-- **One row for three channels.**  The others are what the memory happened to hold. -/
theorem memory_shows :
    twist [7, 8, 9] [[1, 1, 1]] onePixelRgb.header onePixelRgb.values = some [6, 8, 9] ∧
      twist [0, 0, 0] [[1, 1, 1]] onePixelRgb.header onePixelRgb.values = some [6, 0, 0] ∧
      ¬ Determined onePixelRgb [[1, 1, 1]] := by
  have hone : twist [7, 8, 9] [[1, 1, 1]] onePixelRgb.header onePixelRgb.values
      = some [6, 8, 9] := by decide +kernel
  have htwo : twist [0, 0, 0] [[1, 1, 1]] onePixelRgb.header onePixelRgb.values
      = some [6, 0, 0] := by decide +kernel
  refine ⟨hone, htwo, fun hdet => ?_⟩
  have hsame := hdet.independent [7, 8, 9] [0, 0, 0] rfl rfl
  rw [hone, htwo] at hsame
  exact absurd hsame (by decide +kernel)

end Numbers

end Iipsrv.Transform
