/-
# Stripping away bands

`Transform::flatten` keeps the first bands of every pixel, within the buffer of the tile: one place
runs through the input, another through the output, and never overtakes it.

The loop copies BYTES.  For tiles of 8 bits a byte is a sample, and the result is right.  From
`JTL_Ext::getTile` it is also called for tiles of 16 bits, of which it takes the first `bands` bytes
for every pixel, and half of what the header then promises.  `flatten_keeps_iff` says that the
result is right for all tiles of a size exactly if they have 8 bits, or no second pixel.
-/
import Iipsrv.Transform.Nearest

namespace Iipsrv.Transform

open Lib Lib.Word Lib.Buffer Lib.Loop Lib.InPlace Lib.Raster

/-! ## 1. The loop -/

/-- `((unsigned char*)in.data)[ni++] = ((unsigned char*)in.data)[no++]`. -/
def copyByte (st : List (Option UInt8) × Nat × Nat) : Option (List (Option UInt8) × Nat × Nat) :=
  st.1[st.2.2]?.bind fun a => (store st.1 st.2.1 a).map fun cells => (cells, st.2.1 + 1, st.2.2 + 1)

/-- `Transform::flatten`.  The running places `ni` and `no` begin at 0. -/
def Canvas.flatten (bands : Nat) (t : Canvas) : Option Canvas :=
  -- we cannot increase the number of channels
  if t.header.channels ≤ bands then some t
  else
    let gap := t.header.channels - bands
    ((List.range (u32 (t.header.width * t.header.height))).foldlM (fun st _ =>
        ((List.range bands).foldlM (fun st _ => copyByte st) st).map fun st =>
          (st.1, st.2.1, st.2.2 + gap)) (t.cells, 0, 0)).map fun st =>
      ⟨{ t.header with
          channels := bands
          dataLength := u32 (st.2.1 * (t.header.bpc / 8)) }, st.1⟩

/-- Where byte `m` of the result comes from. -/
def kept (channels bands m : Nat) : Nat := m / bands * channels + m % bands

/-- **The loop is a copy within the buffer.** -/
theorem flatten_eq {t : Canvas} {bands : Nat} (hb : bands < t.header.channels)
    (hfit : t.header.width * t.header.height < 2 ^ 32) :
    t.flatten bands
      = (gather (kept t.header.channels bands) t.cells
          (t.header.width * t.header.height * bands)).map fun cells =>
        ⟨{ t.header with
            channels := bands
            dataLength := u32 (t.header.width * t.header.height * bands * (t.header.bpc / 8)) },
          cells⟩ := by
  have hrow (i : Nat) (cells : List (Option UInt8)) :
      (List.range bands).foldlM (fun st _ => copyByte st)
          (cells, i * bands, i * t.header.channels)
        = ((List.range bands).foldlM (fun b k => b[i * t.header.channels + k]?.bind fun a =>
            store b (i * bands + k) a) cells).map
              (·, (i + 1) * bands, i * t.header.channels + bands) := by
    have := foldlM_running (fun st _ => copyByte st)
      (fun b k => b[i * t.header.channels + k]?.bind fun a => store b (i * bands + k) a)
      (fun k => (i * bands + k, i * t.header.channels + k)) (n := bands) (fun k _ b => by
        unfold copyByte
        rw [Option.map_bind]
        rfl) cells
    rw [Nat.succ_mul]
    exact this
  have hloop := foldlM_running
    (fun (st : List (Option UInt8) × Nat × Nat) _ =>
      ((List.range bands).foldlM (fun st _ => copyByte st) st).map fun st =>
        (st.1, st.2.1, st.2.2 + (t.header.channels - bands)))
    (fun cells i => (List.range bands).foldlM (fun b k =>
      b[i * t.header.channels + k]?.bind fun a => store b (i * bands + k) a) cells)
    (fun i => (i * bands, i * t.header.channels)) (n := t.header.width * t.header.height)
    (fun i _ cells => by
      rw [hrow, Option.map_map]
      congr 1
      funext cells'
      have : i * t.header.channels + bands + (t.header.channels - bands)
          = (i + 1) * t.header.channels := by
        rw [Nat.succ_mul]
        omega
      simp only [Function.comp_apply, this]) t.cells
  simp only [Nat.zero_mul] at hloop
  unfold Canvas.flatten
  rw [if_neg (by omega)]
  dsimp only
  rw [u32_of_lt hfit, hloop, foldlM_range_mul (fun b i k =>
    b[i * t.header.channels + k]?.bind fun a => store b (i * bands + k) a), Option.map_map]
  unfold gather
  simp only [Nat.div_add_mod']
  rfl

/-- The input is read ahead of the output. -/
theorem le_kept {channels bands : Nat} (h : bands ≤ channels) (m : Nat) :
    m ≤ kept channels bands m := by
  have hle := Nat.mul_le_mul_left (m / bands) h
  have hnum := Nat.div_add_mod' m bands
  unfold kept
  omega

/-- It is read inside the buffer. -/
theorem kept_lt {channels bands np m : Nat} (h : bands ≤ channels) (hm : m < np * bands) :
    kept channels bands m < np * channels := by
  have hb : 0 < bands := Nat.pos_of_ne_zero fun h0 => by simp [h0] at hm
  have hrow : m / bands + 1 ≤ np := Nat.div_lt_of_lt_mul (by rwa [Nat.mul_comm])
  have hle := Nat.mul_le_mul_right channels hrow
  have hk := Nat.mod_lt m hb
  rw [Nat.succ_mul] at hle
  unfold kept
  omega

/-! ## 2. Tiles of 8 and 16 bits -/

/-- A tile of 8 or 16 bits by its bytes, as many as its header says. -/
structure ByteTile where
  header : Header
  bytes : List UInt8
  bpc_eq : header.bpc = 8 ∨ header.bpc = 16
  consistent : Consistent header
  length_eq : bytes.length = header.dataLength
  length_lt : header.dataLength < 2 ^ 32

/-- The header of a tile of a size. -/
def sizedAt (bpc width height channels : Nat) : Header :=
  ⟨width, height, channels, bpc, width * height * channels * (bpc / 8)⟩

namespace ByteTile

def canvas (T : ByteTile) : Canvas := ⟨T.header, T.bytes.map some⟩

theorem length_bytes (T : ByteTile) :
    T.bytes.length = T.header.width * T.header.height * T.header.channels * (T.header.bpc / 8) :=
  T.length_eq.trans T.consistent

/-- Byte `r` of sample `k` of pixel `i`, for samples of `size` bytes. -/
def sampleByte (channels size i k r : Nat) : Nat := (i * channels + k) * size + r

/-- **The first bands are kept**: in the header, and in every byte of their samples. -/
structure Flattened (T : ByteTile) (bands : Nat) (t : Canvas) : Prop where
  channels : t.header.channels = bands
  dataLength : t.header.dataLength
    = T.header.width * T.header.height * bands * (T.header.bpc / 8)
  samples : ∀ i < T.header.width * T.header.height, ∀ k < bands, ∀ r < T.header.bpc / 8,
    t.cells[sampleByte bands (T.header.bpc / 8) i k r]?
      = T.canvas.cells[sampleByte T.header.channels (T.header.bpc / 8) i k r]?

section
variable {T : ByteTile} {bands : Nat}

/-- **What the call leaves**: the kept bytes in front, the others as they were. -/
theorem flatten_canvas (hb : bands < T.header.channels) :
    ∃ cells, T.canvas.flatten bands = some ⟨{ T.header with
        channels := bands
        dataLength := T.header.width * T.header.height * bands * (T.header.bpc / 8) }, cells⟩ ∧
      ∀ m, cells[m]? = if m < T.header.width * T.header.height * bands
        then T.canvas.cells[kept T.header.channels bands m]? else T.canvas.cells[m]? := by
  have hlen := T.length_bytes
  have hlt := T.length_lt
  rw [← T.length_eq, hlen] at hlt
  have hsize : 1 ≤ T.header.bpc / 8 := by
    have := T.bpc_eq
    omega
  have hsamples : T.header.width * T.header.height * T.header.channels ≤ T.bytes.length := by
    rw [hlen]
    exact Nat.le_mul_of_pos_right _ hsize
  have hpixels : T.header.width * T.header.height
      ≤ T.header.width * T.header.height * T.header.channels :=
    Nat.le_mul_of_pos_right _ (by omega)
  have hkept : T.header.width * T.header.height * bands
      ≤ T.header.width * T.header.height * T.header.channels :=
    Nat.mul_le_mul_left _ (Nat.le_of_lt hb)
  have hkept' : T.header.width * T.header.height * bands * (T.header.bpc / 8) < 2 ^ 32 :=
    Nat.lt_of_le_of_lt (Nat.mul_le_mul_right _ hkept) hlt
  have hcells : T.canvas.cells.length = T.bytes.length := List.length_map _
  have hroom : T.header.width * T.header.height * bands ≤ T.canvas.cells.length := by omega
  obtain ⟨cells, hrun, -, hcell⟩ := gather_eq (q := kept T.header.channels bands) hroom
    fun m hm => by
      have := kept_lt (Nat.le_of_lt hb) hm
      omega
  refine ⟨cells, ?_, fun m => ?_⟩
  · rw [flatten_eq hb (by change T.header.width * T.header.height < 2 ^ 32; omega)]
    change (gather (kept T.header.channels bands) T.canvas.cells
      (T.header.width * T.header.height * bands)).map _ = _
    rw [hrun]
    exact congrArg (fun n => some (Canvas.mk { T.header with channels := bands, dataLength := n }
      cells)) (u32_of_lt hkept')
  · rw [hcell m, origin_of_le (le_kept (Nat.le_of_lt hb) m)]

/-- **A tile is flattened** if each byte comes from where it should. -/
theorem flattened_iff (hb : bands < T.header.channels) :
    (∃ t, T.canvas.flatten bands = some t ∧ Flattened T bands t) ↔
      ∀ i < T.header.width * T.header.height, ∀ k < bands, ∀ r < T.header.bpc / 8,
        (if sampleByte bands (T.header.bpc / 8) i k r < T.header.width * T.header.height * bands
          then T.canvas.cells[kept T.header.channels bands
            (sampleByte bands (T.header.bpc / 8) i k r)]?
          else T.canvas.cells[sampleByte bands (T.header.bpc / 8) i k r]?)
        = T.canvas.cells[sampleByte T.header.channels (T.header.bpc / 8) i k r]? := by
  obtain ⟨cells, hrun, hcell⟩ := flatten_canvas hb
  constructor
  · rintro ⟨t, ht, hflat⟩ i hi k hk r hr
    obtain rfl := Option.some.inj (hrun.symm.trans ht)
    rw [← hcell]
    exact hflat.samples i hi k hk r hr
  · intro hall
    refine ⟨_, hrun, rfl, rfl, fun i hi k hk r hr => ?_⟩
    exact (hcell _).trans (hall i hi k hk r hr)

end

/-- A tile that is 255 in byte `n`, and 0 elsewhere. -/
def marked {bpc w h c : Nat} (hbpc : bpc = 8 ∨ bpc = 16) (hlt : w * h * c * (bpc / 8) < 2 ^ 32)
    (n : Nat) : ByteTile :=
  ⟨sizedAt bpc w h c, (List.replicate (w * h * c * (bpc / 8)) 0).set n 255, hbpc, rfl,
    by rw [List.length_set, List.length_replicate]; rfl, hlt⟩

theorem getElem?_marked {bpc w h c n m : Nat} (hbpc : bpc = 8 ∨ bpc = 16)
    (hlt : w * h * c * (bpc / 8) < 2 ^ 32) (hm : m < w * h * c * (bpc / 8)) :
    (marked hbpc hlt n).canvas.cells[m]? = some (some (if m = n then 255 else 0)) := by
  change (((List.replicate (w * h * c * (bpc / 8)) 0).set n 255).map some)[m]? = _
  by_cases hmn : m = n
  · subst hmn
    simp [hm]
  · rw [List.getElem?_map, List.getElem?_set_ne (Ne.symm hmn), if_neg hmn]
    simp [hm]

section
variable {bpc w h c bands : Nat}

/-- The same for a tile of a size. -/
theorem flattened_sized_iff {T : ByteTile} (hT : T.header = sizedAt bpc w h c) (hb : bands < c) :
    (∃ t, T.canvas.flatten bands = some t ∧ Flattened T bands t) ↔
      ∀ i < w * h, ∀ k < bands, ∀ r < bpc / 8,
        (if sampleByte bands (bpc / 8) i k r < w * h * bands
          then T.canvas.cells[kept c bands (sampleByte bands (bpc / 8) i k r)]?
          else T.canvas.cells[sampleByte bands (bpc / 8) i k r]?)
        = T.canvas.cells[sampleByte c (bpc / 8) i k r]? := by
  have hflat := @flattened_iff T bands
  rw [hT] at hflat
  exact hflat hb

/-- Of two pixels of 16 bits, the second is copied over the first: byte `bands` belongs to the first
one, and is the first byte of the second afterwards. -/
theorem not_flattened_marked (hlt : w * h * c * (16 / 8) < 2 ^ 32) (hb : bands < c)
    (hbands : 0 < bands) (hnp : 2 ≤ w * h) :
    ¬ ∃ t, (marked (.inr rfl) hlt c).canvas.flatten bands = some t ∧
      Flattened (marked (.inr rfl) hlt c) bands t := by
  rw [flattened_sized_iff rfl hb]
  intro hall
  have hbyte (d : Nat) : sampleByte d (16 / 8) 0 (bands / 2) (bands % 2) = bands := by
    unfold sampleByte
    omega
  have hfrom : kept c bands bands = c := by
    simp [kept, Nat.div_self hbands]
  have htwo := Nat.mul_le_mul_right bands hnp
  have hroom := Nat.mul_le_mul_right c hnp
  have hsame := hall 0 (by omega) (bands / 2) (by omega) (bands % 2) (by omega)
  rw [hbyte, hbyte, if_pos (by omega), hfrom, getElem?_marked _ hlt (by omega),
    getElem?_marked _ hlt (by omega), if_pos rfl, if_neg (by omega)] at hsame
  exact absurd hsame (by decide)

/-- With 8 bits a sample is a byte. -/
theorem flattened_bytes {T : ByteTile} (hT : T.header = sizedAt 8 w h c) (hb : bands < c) :
    ∃ t, T.canvas.flatten bands = some t ∧ Flattened T bands t := by
  refine (flattened_sized_iff hT hb).mpr fun i hi k hk r hr => ?_
  obtain rfl : r = 0 := by omega
  have hone (d : Nat) : sampleByte d (8 / 8) i k 0 = i * d + k := by
    unfold sampleByte
    omega
  have hin : i * bands + k < w * h * bands := by
    rw [Nat.mul_comm (w * h)]
    exact number_lt hk hi
  rw [hone, hone, if_pos hin, kept, number_div hk, Nat.mul_add_mod_of_lt hk]

/-- The only pixel stays where it is. -/
theorem flattened_onePixel {T : ByteTile} (hT : T.header = sizedAt bpc w h c) (hb : bands < c)
    (hnp : w * h ≤ 1) : ∃ t, T.canvas.flatten bands = some t ∧ Flattened T bands t := by
  refine (flattened_sized_iff hT hb).mpr fun i hi k hk r hr => ?_
  obtain rfl : i = 0 := by omega
  have hfirst : sampleByte c (bpc / 8) 0 k r = sampleByte bands (bpc / 8) 0 k r := by
    simp [sampleByte]
  rw [hfirst]
  split
  case isTrue hin =>
    have hlt : sampleByte bands (bpc / 8) 0 k r < bands :=
      Nat.lt_of_lt_of_le hin (by simpa using Nat.mul_le_mul_right bands hnp)
    rw [kept, Nat.div_eq_of_lt hlt, Nat.mod_eq_of_lt hlt, Nat.zero_mul, Nat.zero_add]
  case isFalse => rfl

end

/-- **When flattening keeps the first bands.**  For tiles of 8 and 16 bits of any size and number of
channels, and every smaller number of bands: the result is right for ALL tiles of this size if and
only if they have 8 bits, or at most one pixel, or nothing is kept. -/
theorem flatten_keeps_iff {bpc w h c bands : Nat} (hbpc : bpc = 8 ∨ bpc = 16)
    (hlt : w * h * c * (bpc / 8) < 2 ^ 32) (hb : bands < c) :
    (∀ T : ByteTile, T.header = sizedAt bpc w h c →
      ∃ t, T.canvas.flatten bands = some t ∧ Flattened T bands t) ↔
      bpc = 8 ∨ w * h ≤ 1 ∨ bands = 0 := by
  constructor
  · intro hall
    by_contra hnot
    obtain ⟨hbpc8, hnp, hbands⟩ : bpc ≠ 8 ∧ ¬ w * h ≤ 1 ∧ bands ≠ 0 := by tauto
    obtain rfl : bpc = 16 := hbpc.resolve_left hbpc8
    exact not_flattened_marked hlt hb (Nat.pos_of_ne_zero hbands) (by omega) (hall _ rfl)
  · rintro (rfl | hnp | rfl) T hT
    · exact flattened_bytes hT hb
    · exact flattened_onePixel hT hb hnp
    · exact (flattened_sized_iff hT hb).mpr fun i hi k hk => absurd hk (Nat.not_lt_zero k)

/-- Two pixels of 8 bits, of four bands. -/
def fourBands : ByteTile :=
  ⟨sizedAt 8 2 1 4, [1, 2, 3, 4, 5, 6, 7, 8], .inl rfl, rfl, rfl, by decide⟩

theorem flatten_keeps_fourBands :
    ∃ t, fourBands.canvas.flatten 3 = some t ∧ Flattened fourBands 3 t :=
  (flatten_keeps_iff (.inl rfl) (by decide) (by decide)).mpr (.inl rfl) fourBands rfl

/-- Two pixels of 16 bits, of two bands. -/
def twoWords : ByteTile :=
  ⟨sizedAt 16 2 1 2, [1, 2, 3, 4, 5, 6, 7, 8], .inr rfl, rfl, rfl, by decide⟩

/-- **Two bytes for two words.**  The first samples are `1, 2` and `5, 6`.  The header promises two
samples, which are `1, 3` and `3, 4`. -/
theorem half_of_each_word :
    twoWords.canvas.flatten 1
        = some ⟨sizedAt 16 2 1 1, [1, 3, 3, 4, 5, 6, 7, 8].map some⟩ ∧
      ¬ ∃ t, twoWords.canvas.flatten 1 = some t ∧ Flattened twoWords 1 t := by
  have hresult : twoWords.canvas.flatten 1
      = some ⟨sizedAt 16 2 1 1, [1, 3, 3, 4, 5, 6, 7, 8].map some⟩ := by decide
  refine ⟨hresult, ?_⟩
  rintro ⟨t, ht, hflat⟩
  obtain rfl := Option.some.inj (hresult.symm.trans ht)
  exact absurd (hflat.samples 0 (by decide) 0 (by decide) 1 (by decide)) (by decide)

end ByteTile

end Iipsrv.Transform
