/-
# The pixels of virtual levels

A level that is smaller than any in the file is taken from the smallest one that is there: the
decoder is asked for a region `factor` times as wide and as high, and every `factor`-th pixel of
every `factor`-th row is kept.

Both loops step through the enlarged region by `factor`.  `KakaduImage::process` computes where it
reads from the two counters.  `OpenJPEGImage::process` reads at a counter of its own, `n`, which
goes up by ONE for every pixel that is written: it keeps the first pixels of the region, whatever
the factor is.  `on_grid_iff` says that this is right for all decoded data exactly if nothing was
enlarged, or there is nothing but one pixel to be read.
-/
import Iipsrv.Lib.Plane
import Iipsrv.Lib.Word

namespace Iipsrv

open Lib Lib.Word Lib.Buffer Lib.Fill Lib.Loop Lib.Raster

/-! ## 1. The loops -/

/-- The low bits of what the decoder returns.  Bi-level images are scaled up to 8 bits. -/
def outputSample (bpc : Nat) (v : Int) : Nat :=
  if bpc ≤ 16 ∧ 8 < bpc then (v % 2 ^ 16).toNat
  else if bpc = 1 then (v % 2 ^ 4).toNat * 255 % 2 ^ 8
  else (v % 2 ^ 8).toNat

namespace OpenJPEGImage

/-- The samples of one pixel: `d[nk++] = _image->comps[k].data[n]`. -/
def copySamples (bpc channels : Nat) (comps : List (List Int)) (n : Nat)
    (st : List (Option Nat) × Nat) : Option (List (Option Nat) × Nat) :=
  (List.range channels).foldlM
    (fun st k => push ((comps[k]?.bind (·[n]?)).map fun v => some (outputSample bpc v)) st) st

/-- The copy loop of `OpenJPEGImage::process`.  `tw` and `th` have been multiplied by the factor. -/
def copyLoop (bpc channels tw th factor : Nat) (comps : List (List Int))
    (d : List (Option Nat)) : Option (List (Option Nat)) :=
  ((strided 0 th factor).foldlM (fun st _ =>
    (strided 0 tw factor).foldlM (fun st _ =>
      (copySamples bpc channels comps st.2 st.1).map (·, st.2 + 1)) st) ((d, 0), 0)).map (·.1.1)

end OpenJPEGImage

/-- The resize loop of `KakaduImage::process`, over its buffer of interleaved samples. -/
def KakaduImage.resizeLoop (channels tw th factor : Nat) (buffer : List Nat)
    (d : List (Option Nat)) : Option (List (Option Nat)) :=
  ((strided 0 th factor).foldlM (fun st j =>
    (strided 0 tw factor).foldlM (fun st i =>
      (List.range channels).foldlM (fun st k =>
        push (buffer[u32 (j * tw * channels + i * channels + k)]?.map some) st) st) st)
    (d, 0)).map (·.1)

/-! ## 2. Decoded data -/

/-- A tile or region of `tw` by `th` pixels, that is read from one `factor` times as large.  More
than 16 bits are refused before anything is decoded. -/
structure Enlarged where
  tw : Nat
  th : Nat
  factor : Nat
  channels : Nat
  bpc : Nat
  tw_pos : 0 < tw
  th_pos : 0 < th
  factor_pos : 0 < factor
  bpc_le : bpc ≤ 16
  width_lt : tw * factor < 2 ^ 32
  height_lt : th * factor < 2 ^ 32
  size_lt : tw * th * channels < 2 ^ 32

/-- What the decoder returns for it: one row-major block for every component. -/
structure Components (R : Enlarged) where
  comps : List (List Int)
  length_comps : comps.length = R.channels
  length_data : ∀ data ∈ comps, data.length = R.tw * R.factor * (R.th * R.factor)

namespace Components

variable {R : Enlarged}

/-- Sample number `n` of component `k`. -/
def value (D : Components R) (k n : Nat) : Int := (D.comps[k]?.bind (·[n]?)).getD 0

/-- The pixel in column `x` and row `y` of the enlarged region. -/
def pixel (D : Components R) (x y k : Nat) : Nat :=
  outputSample R.bpc (D.value k (y * (R.tw * R.factor) + x))

/-- The decoded samples at the depth of the output, interleaved. -/
def interleaved (D : Components R) : List Nat :=
  (⟨R.tw * R.factor, R.th * R.factor, R.channels, D.pixel⟩ : Plane Nat).cells

/-- What OpenJPEG's loop leaves. -/
def openJPEG (D : Components R) : Option (List (Option Nat)) :=
  OpenJPEGImage.copyLoop R.bpc R.channels (R.tw * R.factor) (R.th * R.factor) R.factor D.comps
    (fresh (R.tw * R.th * R.channels))

/-- What Kakadu's loop leaves. -/
def kakadu (D : Components R) : Option (List (Option Nat)) :=
  KakaduImage.resizeLoop R.channels (R.tw * R.factor) (R.th * R.factor) R.factor D.interleaved
    (fresh (R.tw * R.th * R.channels))

/-- **The pixels are on the sampling grid**: all samples have been written, each is that of the
pixel `factor` times as far in both directions, and Kakadu's loop leaves the same. -/
structure OnGrid (D : Components R) (out : List Nat) : Prop where
  written : D.openJPEG = some (out.map some)
  length_eq : out.length = R.tw * R.th * R.channels
  sampled : ∀ i < R.tw, ∀ j < R.th, ∀ k < R.channels,
    out[place R.tw R.channels i j k]? = some (D.pixel (i * R.factor) (j * R.factor) k)
  same : D.kakadu = some (out.map some)

/-! ## 3. What the loops write -/

section
variable (D : Components R)

theorem getElem?_comps {k n : Nat} (hk : k < R.channels)
    (hn : n < R.tw * R.factor * (R.th * R.factor)) :
    D.comps[k]?.bind (·[n]?) = some (D.value k n) := by
  have hlt : k < D.comps.length := D.length_comps ▸ hk
  have hdata : n < D.comps[k].length := by rwa [D.length_data _ (List.getElem_mem hlt)]
  unfold value
  rw [List.getElem?_eq_getElem hlt, Option.bind_some, List.getElem?_eq_getElem hdata]
  rfl

/-- There are at least as many decoded pixels as are written. -/
theorem number_lt_decoded {i j : Nat} (hi : i < R.tw) (hj : j < R.th) :
    j * R.tw + i < R.tw * R.factor * (R.th * R.factor) :=
  (number_lt hi hj).trans_le (Nat.mul_le_mul (Nat.le_mul_of_pos_right _ R.factor_pos)
    (Nat.le_mul_of_pos_right _ R.factor_pos))

/-- The pixels that OpenJPEG's counter goes through. -/
def counted : Plane Nat where
  width := R.tw
  height := R.th
  depth := R.channels
  cell x y k := outputSample R.bpc (D.value k (y * R.tw + x))

/-- The pixels on the grid. -/
def grid : Plane Nat where
  width := R.tw
  height := R.th
  depth := R.channels
  cell x y k := D.pixel (x * R.factor) (y * R.factor) k

/-- The counter `n` is the number of the pixel that is written. -/
theorem copyLoop_eq (d : List (Option Nat)) :
    OpenJPEGImage.copyLoop R.bpc R.channels (R.tw * R.factor) (R.th * R.factor) R.factor D.comps d
      = ((List.range R.th).foldlM (fun st j => (List.range R.tw).foldlM (fun st i =>
          OpenJPEGImage.copySamples R.bpc R.channels D.comps (j * R.tw + i) st) st) (d, 0)).map
        Prod.fst := by
  have hrow (j : Nat) (st : List (Option Nat) × Nat) :
      (List.range R.tw).foldlM (fun (st : (List (Option Nat) × Nat) × Nat) _ =>
          (OpenJPEGImage.copySamples R.bpc R.channels D.comps st.2 st.1).map (·, st.2 + 1))
        (st, j * R.tw)
      = ((List.range R.tw).foldlM (fun st i =>
          OpenJPEGImage.copySamples R.bpc R.channels D.comps (j * R.tw + i) st) st).map
        (·, (j + 1) * R.tw) := by
    rw [Nat.succ_mul]
    exact foldlM_running _ _ (fun i => j * R.tw + i) (fun _ _ _ => rfl) st
  have hloop := foldlM_running
    (fun (st : (List (Option Nat) × Nat) × Nat) _ => (List.range R.tw).foldlM (fun st _ =>
      (OpenJPEGImage.copySamples R.bpc R.channels D.comps st.2 st.1).map (·, st.2 + 1)) st)
    (fun st j => (List.range R.tw).foldlM (fun st i =>
      OpenJPEGImage.copySamples R.bpc R.channels D.comps (j * R.tw + i) st) st)
    (fun j => j * R.tw) (n := R.th) (fun j _ st => hrow j st) (d, 0)
  rw [Nat.zero_mul] at hloop
  unfold OpenJPEGImage.copyLoop
  rw [strided_mul _ R.factor_pos, strided_mul _ R.factor_pos, List.foldlM_map]
  simp only [List.foldlM_map]
  rw [hloop, Option.map_map]
  rfl

/-- **OpenJPEG's loop writes the first pixels of the region.** -/
theorem openJPEG_eq : D.openJPEG = some (D.counted.cells.map some) := by
  rw [Plane.map_cells]
  have hwrites := (D.counted.map some).writes_cells
    (fun y x k => push ((D.comps[k]?.bind (·[y * R.tw + x]?)).map fun v =>
      some (outputSample R.bpc v)))
    fun x y k hx hy hk => by
      rw [D.getElem?_comps hk (number_lt_decoded hx hy)]
      exact writes_push _
  refine (D.copyLoop_eq _).trans (hwrites.fills ?_)
  rw [Plane.length_cells, length_fresh]
  rfl

/-- **Kakadu's loop writes the pixels on the grid**, if it can address them. -/
theorem kakadu_eq (hfits : ∀ i < R.tw, ∀ j < R.th, ∀ k < R.channels,
    place (R.tw * R.factor) R.channels (i * R.factor) (j * R.factor) k < 2 ^ 32) :
    D.kakadu = some (D.grid.cells.map some) := by
  have hread {x y k : Nat} (hx : x < R.tw) (hy : y < R.th) (hk : k < R.channels) :
      D.interleaved[u32 (y * R.factor * (R.tw * R.factor) * R.channels
        + x * R.factor * R.channels + k)]? = some (D.grid.cell x y k) := by
    have hindex : y * R.factor * (R.tw * R.factor) * R.channels + x * R.factor * R.channels + k
        = place (R.tw * R.factor) R.channels (x * R.factor) (y * R.factor) k := by
      unfold place
      rw [Nat.add_mul]
    rw [hindex, u32_of_lt (hfits x hx y hy k hk)]
    exact Plane.getElem?_cells _ (Nat.mul_lt_mul_of_pos_right hx R.factor_pos)
      (Nat.mul_lt_mul_of_pos_right hy R.factor_pos) hk
  rw [Plane.map_cells]
  have hwrites := (D.grid.map some).writes_cells
    (fun y x k => push (D.interleaved[u32 (y * R.factor * (R.tw * R.factor) * R.channels
      + x * R.factor * R.channels + k)]?.map some))
    fun x y k hx hy hk => by
      rw [hread hx hy hk]
      exact writes_push _
  unfold kakadu KakaduImage.resizeLoop
  rw [strided_mul _ R.factor_pos, strided_mul _ R.factor_pos, List.foldlM_map]
  simp only [List.foldlM_map]
  refine hwrites.fills ?_
  rw [Plane.length_cells, length_fresh]
  rfl

end

/-! ## 4. When the pixels are the right ones -/

section
variable {D : Components R}

/-- What is left is on the grid if the counter is. -/
theorem onGrid_of_agree (h : Plane.Agree D.counted D.grid)
    (hfits : ∀ i < R.tw, ∀ j < R.th, ∀ k < R.channels,
      place (R.tw * R.factor) R.channels (i * R.factor) (j * R.factor) k < 2 ^ 32) :
    ∃ out, D.OnGrid out := by
  refine ⟨D.grid.cells, h.cells ▸ D.openJPEG_eq, D.grid.length_cells, ?_, D.kakadu_eq hfits⟩
  intro i hi j hj k hk
  exact D.grid.getElem?_cells hi hj hk

/-- The pixel that is written is the one that should have been. -/
theorem OnGrid.cell_eq {out : List Nat} (h : D.OnGrid out) {i j k : Nat} (hi : i < R.tw)
    (hj : j < R.th) (hk : k < R.channels) : D.counted.cell i j k = D.grid.cell i j k := by
  have hout : out = D.counted.cells := by
    have := h.written.symm.trans D.openJPEG_eq
    exact List.map_injective_iff.mpr (Option.some_injective _) (Option.some.inj this)
  have hread := h.sampled i hi j hj k hk
  rw [hout] at hread
  exact Option.some.inj ((D.counted.getElem?_cells hi hj hk).symm.trans hread)

end

/-- Components that are zero but for their second sample. -/
def marked (R : Enlarged) : Components R where
  comps := List.replicate R.channels
    ((List.replicate (R.tw * R.factor * (R.th * R.factor)) 0).set 1 1)
  length_comps := List.length_replicate
  length_data data hdata := by
    rw [List.eq_of_mem_replicate hdata, List.length_set, List.length_replicate]

theorem value_marked {k n : Nat} (hk : k < R.channels)
    (hn : n < R.tw * R.factor * (R.th * R.factor)) :
    (marked R).value k n = if n = 1 then 1 else 0 := by
  unfold value marked
  simp [hk, hn, List.getElem_set, eq_comm]

/-- The mark can be seen in the output. -/
theorem outputSample_one_ne (bpc : Nat) : outputSample bpc 1 ≠ outputSample bpc 0 := by
  unfold outputSample
  split
  · decide
  · split <;> decide

/-- The second pixel that is written is the decoder's second one, and should have been another. -/
theorem not_onGrid_marked (hchannels : R.channels ≠ 0) (hfactor : R.factor ≠ 1)
    (hmore : R.tw = 1 → R.th ≠ 1) {out : List Nat} : ¬ (marked R).OnGrid out := by
  intro hout
  have htw := R.tw_pos
  have hth := R.th_pos
  have hpos := R.factor_pos
  have hk : 0 < R.channels := Nat.pos_of_ne_zero hchannels
  obtain ⟨i, j, hi, hj, hsecond, hother⟩ : ∃ i j, i < R.tw ∧ j < R.th ∧ j * R.tw + i = 1 ∧
      j * R.factor * (R.tw * R.factor) + i * R.factor ≠ 1 := by
    by_cases hwide : 1 < R.tw
    · exact ⟨1, 0, hwide, hth, by omega, by omega⟩
    · obtain h1 : R.tw = 1 := by omega
      refine ⟨0, 1, htw, by omega, by omega, ?_⟩
      rw [h1, Nat.one_mul, Nat.zero_mul, Nat.add_zero]
      intro hsquare
      exact hfactor (Nat.eq_one_of_mul_eq_one_left hsquare)
  have hcell := hout.cell_eq hi hj hk
  have hplace : j * R.factor * (R.tw * R.factor) + i * R.factor
      < R.tw * R.factor * (R.th * R.factor) :=
    number_lt (Nat.mul_lt_mul_of_pos_right hi hpos) (Nat.mul_lt_mul_of_pos_right hj hpos)
  change outputSample R.bpc ((marked R).value 0 (j * R.tw + i)) = outputSample R.bpc
    ((marked R).value 0 (j * R.factor * (R.tw * R.factor) + i * R.factor)) at hcell
  rw [value_marked hk (number_lt_decoded hi hj), value_marked hk hplace, if_pos hsecond,
    if_neg hother] at hcell
  exact outputSample_one_ne R.bpc hcell

/-- **When the pixels of a virtual level are right**, for all that the decoder can return: there are
no samples, the region has not been enlarged, or only one pixel is read. -/
theorem on_grid_iff (R : Enlarged) :
    (∀ D : Components R, ∃ out, D.OnGrid out) ↔
      R.channels = 0 ∨ R.factor = 1 ∨ (R.tw = 1 ∧ R.th = 1) := by
  constructor
  · intro h
    by_contra hnot
    push Not at hnot
    obtain ⟨hchannels, hfactor, hmore⟩ := hnot
    obtain ⟨out, hout⟩ := h (marked R)
    exact not_onGrid_marked hchannels hfactor hmore hout
  · intro hcond D
    -- no pixel is moved by the factor
    have hstill : ∀ i < R.tw, ∀ j < R.th, ∀ k < R.channels,
        i * R.factor = i ∧ j * R.factor = j ∧ j * (R.tw * R.factor) = j * R.tw := by
      intro i hi j hj k hk
      rcases hcond with hc | hf | ⟨h1, h2⟩
      · omega
      · rw [hf]
        simp
      · obtain rfl : i = 0 := by omega
        obtain rfl : j = 0 := by omega
        simp
    refine onGrid_of_agree ⟨rfl, rfl, rfl, fun i j k hi hj hk => ?_⟩ fun i hi j hj k hk => ?_
    · obtain ⟨h₁, h₂, h₃⟩ := hstill i hi j hj k hk
      change outputSample R.bpc (D.value k (j * R.tw + i)) = outputSample R.bpc
        (D.value k (j * R.factor * (R.tw * R.factor) + i * R.factor))
      rw [h₁, h₂, h₃]
    · obtain ⟨h₁, h₂, h₃⟩ := hstill i hi j hj k hk
      have hplace := (place_lt hi hj hk).trans R.size_lt
      unfold place at hplace ⊢
      rwa [h₁, h₂, h₃]

/-- Three pixels that are read from a region of six by two. -/
def halfSize : Enlarged :=
  ⟨3, 1, 2, 1, 8, by decide, by decide, by decide, by decide, by decide, by decide, by decide⟩

/-- Its samples, each with its number. -/
def numbered : Components halfSize :=
  ⟨[[0, 1, 2, 3, 4, 5, 6, 7, 8, 9, 10, 11]], rfl, by decide⟩

/-- **The second pixel is the decoder's second one**, where Kakadu's loop takes the third. -/
theorem second_pixel_beside_first :
    numbered.openJPEG = some [some 0, some 1, some 2] ∧
      numbered.kakadu = some [some 0, some 2, some 4] ∧
      numbered.pixel (1 * halfSize.factor) (0 * halfSize.factor) 0 = 2 := by
  decide

end Components

end Iipsrv
