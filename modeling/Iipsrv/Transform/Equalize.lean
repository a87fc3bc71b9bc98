/-
# Histogram equalization

`Transform::equalize` maps the levels of a tile through the cumulative histogram.  The histogram is
that of the THUMBNAIL: it says how many items lie at or below a level, and the scale is such that
all of them give 255.  The offset is meant to move the first occupied level to 0, but it is divided
by the number of pixels of the TILE.

`equalize_in_range_iff` says when the table stays between 0 and 255.  It never exceeds 255 and is
always monotone; but below the first occupied level the offset is all there is, and it is rounded to
less than 0 if the tile is small (or the first level heavy).  What the conversion of a negative
number to `unsigned char` gives is not defined.

A `float` is an exact rational number.
-/
import Iipsrv.Transform.Threshold

namespace Iipsrv.Transform

open Lib Lib.Word Lib.Buffer Lib.Fill Lib.Loop Lib.Rounding Lib.Split

/-! ## 1. The table -/

/-- `cdf[i] = cdf[i-1] + histogram[i]`, from `acc` on. -/
def cumulate (acc : Nat) : List Nat → List Nat
  | [] => []
  | bin :: bins => (acc + bin) :: cumulate (acc + bin) bins

/-- `while( histogram[n0] == 0 ) ++n0;`, which is past the end if all bins are empty. -/
def firstBin (histogram : List Nat) : Nat := histogram.findIdx (· ≠ 0)

/-- The scaled cumulative histogram, for a tile of `np` pixels.  `none` is a read past the end. -/
def equalized (histogram : List Nat) (np : Nat) : Option (List Int) :=
  let bits := histogram.length
  let cdf := cumulate 0 histogram
  cdf[bits - 1]?.bind fun (last : Nat) =>
    cdf[firstBin histogram]?.map fun (first : Nat) =>
      let scale : ℚ := ((bits - 1 : Nat) : ℚ) / last
      let cdfmin : ℚ := first / np
      cdf.map fun (c : Nat) => roundAway (scale * (c - cdfmin))

/-- `(unsigned char) x`, which is defined for the numbers that a byte can hold. -/
def toByte (x : Int) : Option UInt8 := if 0 ≤ x ∧ x ≤ 255 then some (UInt8.ofNat x.toNat) else none

/-- What a cell becomes. -/
def equalizedCell (table : List Int) (cell : Option UInt8) : Option (Option UInt8) :=
  cell.bind fun value => table[value.toNat]?.bind fun x => (toByte x).map some

/-- `Transform::equalize`. -/
def Canvas.equalize (histogram : List Nat) (t : Canvas) : Option Canvas :=
  let np := u32 (t.header.width * t.header.height)
  (equalized histogram np).bind fun table =>
    ((List.range np).foldlM (fun cells i =>
      (List.range t.header.channels).foldlM (fun cells j =>
        let index := u32 (i * t.header.channels + j)
        cells[index]?.bind fun cell => (equalizedCell table cell).bind fun cell =>
          store cells index cell) cells) t.cells).map fun cells => ⟨t.header, cells⟩

/-! ## 2. Its entries -/

section
variable {h : List Nat}

theorem cumulate_eq (acc : Nat) (h : List Nat) :
    cumulate acc h = (List.range h.length).map fun i => acc + mass (tally h) 0 (i + 1) := by
  induction h generalizing acc with
  | nil => rfl
  | cons bin h ih =>
    have hmass (i : Nat) : mass (tally (bin :: h)) 0 (i + 1) = bin + mass (tally h) 0 i := by
      unfold mass
      rw [← Finset.range_eq_Ico, ← Finset.range_eq_Ico, Finset.sum_range_succ', Nat.add_comm]
      rfl
    rw [cumulate, ih, List.length_cons, List.range_succ_eq_map, List.map_cons, List.map_map]
    simp only [hmass, mass_self, Nat.add_zero, Function.comp_def, Nat.add_assoc]

/-- An occupied level. -/
theorem firstBin_lt (hsome : ∃ b ∈ h, b ≠ 0) : firstBin h < h.length := by
  obtain ⟨b, hb, hb0⟩ := hsome
  exact List.findIdx_lt_length_of_exists ⟨b, hb, by simpa using hb0⟩

/-- Nothing lies below it. -/
theorem mass_below {n : Nat} (hn : n ≤ firstBin h) : mass (tally h) 0 n = 0 := by
  refine Finset.sum_eq_zero fun i hi => ?_
  have hi' : i < firstBin h := Nat.lt_of_lt_of_le (Finset.mem_Ico.mp hi).2 hn
  have hlt : i < h.length := Nat.lt_of_lt_of_le hi' List.findIdx_le_length
  have hzero : h[i] = 0 := by simpa using List.not_of_lt_findIdx hi'
  simpa [tally, hlt] using hzero

/-- Level `v` in the table. -/
def entry (h : List Nat) (np v : Nat) : Int :=
  roundAway (((h.length - 1 : Nat) : ℚ) / h.sum
    * (mass (tally h) 0 (v + 1) - tally h (firstBin h) / np))

theorem equalized_eq (hsome : ∃ b ∈ h, b ≠ 0) (np : Nat) :
    equalized h np = some ((List.range h.length).map (entry h np)) := by
  have hlt := firstBin_lt hsome
  have hfirst : mass (tally h) 0 (firstBin h + 1) = tally h (firstBin h) := by
    rw [mass_succ (Nat.zero_le _), mass_below (Nat.le_refl _), Nat.zero_add]
  have hlast : h.length - 1 + 1 = h.length := by omega
  unfold equalized
  simp only [cumulate_eq, Nat.zero_add]
  rw [List.getElem?_map, List.getElem?_range (by omega), Option.map_some, Option.bind_some,
    List.getElem?_map, List.getElem?_range hlt, Option.map_some, Option.map_some, List.map_map,
    hlast, hfirst, ← sum_eq_mass]
  rfl

/-- **The table is monotone.** -/
theorem entry_mono {np v v' : Nat} (hv : v ≤ v') : entry h np v ≤ entry h np v' := by
  have hmass : mass (tally h) 0 (v + 1) ≤ mass (tally h) 0 (v' + 1) :=
    mass_mono (Nat.le_refl 0) (Nat.succ_le_succ hv)
  refine roundAway_mono ?_
  gcongr

/-- From the first occupied level on it is not negative. -/
theorem entry_nonneg {np v : Nat} (hnp : 1 ≤ np) (hv : firstBin h ≤ v) : 0 ≤ entry h np v := by
  have hmass : tally h (firstBin h) ≤ mass (tally h) 0 (v + 1) := by
    have hmono : mass (tally h) 0 (firstBin h + 1) ≤ mass (tally h) 0 (v + 1) :=
      mass_mono (Nat.le_refl 0) (Nat.succ_le_succ hv)
    rwa [mass_succ (Nat.zero_le _), mass_below (Nat.le_refl _), Nat.zero_add] at hmono
  have hnp' : (1 : ℚ) ≤ np := by exact_mod_cast hnp
  have hoffset : (tally h (firstBin h) : ℚ) / np ≤ mass (tally h) 0 (v + 1) :=
    (div_le_self (Nat.cast_nonneg _) hnp').trans (by exact_mod_cast hmass)
  have hscale : (0 : ℚ) ≤ ((h.length - 1 : Nat) : ℚ) / h.sum := by positivity
  refine roundAway_nonneg_iff.mpr ?_
  have := mul_nonneg hscale (sub_nonneg.mpr hoffset)
  linarith

section
variable {np : Nat} (hsome : ∃ b ∈ h, b ≠ 0)

include hsome

theorem sum_pos : 0 < h.sum := by
  obtain ⟨b, hb, hb0⟩ := hsome
  have := List.single_le_sum (fun _ _ => Nat.zero_le _) b hb
  omega

/-- **It does not exceed the highest level.** -/
theorem entry_le (v : Nat) (hv : v < h.length) : entry h np v ≤ (h.length - 1 : Nat) := by
  have hpos : (0 : ℚ) < h.sum := by exact_mod_cast sum_pos hsome
  have hmass : (mass (tally h) 0 (v + 1) : ℚ) ≤ h.sum := by
    rw [sum_eq_mass]
    exact_mod_cast mass_mono (Nat.le_refl 0) hv
  have hoffset : (0 : ℚ) ≤ tally h (firstBin h) / np := by positivity
  refine roundAway_le ?_
  calc ((h.length - 1 : Nat) : ℚ) / h.sum * (mass (tally h) 0 (v + 1) - tally h (firstBin h) / np)
      ≤ ((h.length - 1 : Nat) : ℚ) / h.sum * h.sum := by
        gcongr
        linarith
    _ = (h.length - 1 : Nat) := div_mul_cancel₀ _ hpos.ne'

/-- **Below it there is only the offset**, which is rounded to 0 or to less. -/
theorem entry_nonneg_iff (hnp : 1 ≤ np) {v : Nat} (hv : v < firstBin h) :
    0 ≤ entry h np v ↔ 2 * (h.length - 1) * tally h (firstBin h) < h.sum * np := by
  have hpos : (0 : ℚ) < h.sum := by exact_mod_cast sum_pos hsome
  have hnp' : (0 : ℚ) < np := by exact_mod_cast hnp
  have hoffset : ((h.length - 1 : Nat) : ℚ) / h.sum * (0 - tally h (firstBin h) / np)
      = -(((h.length - 1 : Nat) * tally h (firstBin h)) / (h.sum * np)) := by
    field_simp
    ring
  rw [entry, roundAway_nonneg_iff, mass_below hv, Nat.cast_zero, hoffset, neg_lt_neg_iff,
    div_lt_iff₀ (by positivity), ← Nat.cast_lt (α := ℚ), Nat.cast_mul, Nat.cast_mul, Nat.cast_mul]
  constructor
  · intro hlt
    push_cast at hlt ⊢
    linarith
  · intro hlt
    push_cast at hlt ⊢
    linarith

end

end

/-! ## 3. Tiles -/

/-- The levels are mapped into those of a byte, and in their order. -/
structure InRange (table : List Int) : Prop where
  length : table.length = 256
  range : ∀ x ∈ table, 0 ≤ x ∧ x ≤ 255
  monotone : table.Pairwise (· ≤ ·)

/-- **The offset is not rounded below zero**: less than half a level, or no level below the first
occupied one. -/
def SmallOffset (h : List Nat) (np : Nat) : Prop :=
  510 * tally h (firstBin h) < h.sum * np

section
variable {h : List Nat} {np : Nat}

/-- The levels that stay in range. -/
theorem entry_range_iff (hbins : h.length = 256) (hsome : ∃ b ∈ h, b ≠ 0) (hnp : 1 ≤ np) {v : Nat}
    (hv : v < 256) :
    (0 ≤ entry h np v ∧ entry h np v ≤ 255) ↔ firstBin h ≤ v ∨ SmallOffset h np := by
  have hle : entry h np v ≤ _ := entry_le hsome v (by omega)
  rw [hbins] at hle
  rcases Nat.lt_or_ge v (firstBin h) with hlt | hge
  · have hiff := entry_nonneg_iff hsome hnp hlt
    rw [hbins] at hiff
    rw [hiff, SmallOffset]
    constructor
    · rintro ⟨hsmall, -⟩
      exact .inr hsmall
    · rintro (hge | hsmall)
      · omega
      · exact ⟨hsmall, hle⟩
  · exact iff_of_true ⟨entry_nonneg hnp hge, hle⟩ (.inl hge)

theorem inRange_iff (hbins : h.length = 256) (hsome : ∃ b ∈ h, b ≠ 0) (hnp : 1 ≤ np) :
    (∃ table, equalized h np = some table ∧ InRange table) ↔
      firstBin h = 0 ∨ SmallOffset h np := by
  have htable := equalized_eq hsome np
  rw [hbins] at htable
  constructor
  · rintro ⟨table, ht, hrange⟩
    obtain rfl := Option.some.inj (htable.symm.trans ht)
    have hzero := hrange.range (entry h np 0) (List.mem_map.mpr ⟨0, by simp, rfl⟩)
    have := (entry_range_iff hbins hsome hnp (by decide)).mp hzero
    rwa [Nat.le_zero] at this
  · intro hcond
    refine ⟨_, htable, by simp, ?_, ?_⟩
    · intro x hx
      obtain ⟨v, hv, rfl⟩ := List.mem_map.mp hx
      refine (entry_range_iff hbins hsome hnp (List.mem_range.mp hv)).mpr ?_
      exact hcond.imp (fun h0 => by omega) id
    · rw [List.pairwise_map]
      exact List.pairwise_lt_range.imp fun hv => entry_mono (Nat.le_of_lt hv)

end

namespace Picture

variable {p : Picture} {h : List Nat}

/-- What a level becomes. -/
def equalizedLevel (h : List Nat) (np : Nat) (b : UInt8) : UInt8 :=
  UInt8.ofNat (entry h np b.toNat).toNat

/-- The two loops are one, over all cells. -/
theorem equalize_canvas (hbins : h.length = 256) (hsome : ∃ b ∈ h, b ≠ 0)
    (hc : 1 ≤ p.header.channels) :
    p.canvas.equalize h = ((List.range (p.bytes.map some).length).foldlM
      (fun cells k => cells[k]?.bind fun cell =>
        (equalizedCell ((List.range 256).map
          (entry h (p.header.width * p.header.height))) cell).bind fun cell =>
            store cells k cell) (p.bytes.map some)).map fun cells => ⟨p.header, cells⟩ := by
  have hle := pixels_le_length hc
  have hlt := p.length_bytes_lt
  have hlen : p.header.width * p.header.height * p.header.channels = (p.bytes.map some).length := by
    rw [List.length_map, p.length_samples]
  have htable := equalized_eq hsome (p.header.width * p.header.height)
  rw [hbins] at htable
  unfold Canvas.equalize
  dsimp only [canvas]
  rw [u32_of_lt (by omega), htable, Option.bind_some,
    foldlM_range_mul (fun cells i j => cells[u32 (i * p.header.channels + j)]?.bind fun cell =>
      (equalizedCell ((List.range 256).map (entry h (p.header.width * p.header.height))) cell).bind
        fun cell => store cells (u32 (i * p.header.channels + j)) cell), hlen]
  congr 1
  refine foldlM_range_congr _ fun k hk cells => ?_
  rw [List.length_map] at hk
  rw [Nat.div_add_mod', u32_of_lt (by omega)]

/-- **The loops replace the bytes one by one.** -/
theorem equalize_canvas_iff (hbins : h.length = 256) (hsome : ∃ b ∈ h, b ≠ 0)
    (hc : 1 ≤ p.header.channels) {t : Canvas} :
    p.canvas.equalize h = some t ↔
      (∀ b ∈ p.bytes, 0 ≤ entry h (p.header.width * p.header.height) b.toNat ∧
        entry h (p.header.width * p.header.height) b.toNat ≤ 255) ∧
      t = ⟨p.header,
        (p.bytes.map (equalizedLevel h (p.header.width * p.header.height))).map some⟩ := by
  have hcell (np : Nat) (b : UInt8) : equalizedCell ((List.range 256).map (entry h np)) (some b)
      = if 0 ≤ entry h np b.toNat ∧ entry h np b.toNat ≤ 255 then
          some (some (equalizedLevel h np b))
        else none := by
    have hb : b.toNat < 256 := b.toNat_lt
    simp only [equalizedCell, toByte, equalizedLevel]
    split <;> simp_all
  rw [equalize_canvas hbins hsome hc, Option.map_eq_some_iff]
  simp only [foldlM_replace_all_iff some fun b _ => hcell _ b]
  constructor
  · rintro ⟨cells, ⟨hall, rfl⟩, rfl⟩
    exact ⟨hall, rfl⟩
  · rintro ⟨hall, rfl⟩
    exact ⟨_, ⟨hall, rfl⟩, rfl⟩

/-- **When equalization stays in range.**  For every histogram of 256 bins that are not all empty,
and every tile of 8 bits with a pixel: the table maps ALL levels monotonically into 0..255 exactly
if the first level is occupied or the offset is small; and the conversion to bytes is defined for
those of the tile exactly if none of them is below the first occupied one or the offset is small. -/
theorem equalize_in_range_iff (h : List Nat) (hbins : h.length = 256) (hsome : ∃ b ∈ h, b ≠ 0)
    (p : Picture) (hw : 1 ≤ p.header.width) (hh : 1 ≤ p.header.height)
    (hc : 1 ≤ p.header.channels) :
    ((∃ table, equalized h (p.header.width * p.header.height) = some table ∧ InRange table) ↔
        firstBin h = 0 ∨ SmallOffset h (p.header.width * p.header.height)) ∧
      ((∃ t, p.canvas.equalize h = some t) ↔
        (∀ b ∈ p.bytes, firstBin h ≤ b.toNat) ∨
          SmallOffset h (p.header.width * p.header.height)) := by
  have hnp : 1 ≤ p.header.width * p.header.height := Nat.mul_pos hw hh
  refine ⟨inRange_iff hbins hsome hnp, ?_⟩
  simp only [equalize_canvas_iff hbins hsome hc]
  constructor
  · rintro ⟨t, hall, -⟩
    by_cases hsmall : SmallOffset h (p.header.width * p.header.height)
    · exact .inr hsmall
    · refine .inl fun b hb => ?_
      exact ((entry_range_iff hbins hsome hnp b.toNat_lt).mp (hall b hb)).resolve_right hsmall
  · intro hcond
    refine ⟨_, fun b hb => ?_, rfl⟩
    exact (entry_range_iff hbins hsome hnp b.toNat_lt).mpr (hcond.imp (· b hb) id)

/-- A black pixel. -/
def oneBlack : Picture := ofBytes (w := 1) (h := 1) (c := 1) [0] rfl (by decide)

/-- A histogram with items on every level. -/
theorem equalize_in_range_all_levels :
    ∃ t, oneBlack.canvas.equalize (5 :: List.replicate 255 1) = some t :=
  (equalize_in_range_iff (5 :: List.replicate 255 1)
    (by rw [List.length_cons, List.length_replicate]) ⟨5, List.mem_cons_self, by decide⟩
    oneBlack (by decide) (by decide) (by decide)).2.mpr (.inl fun b _ => Nat.zero_le b.toNat)

/-- **A black pixel, where the thumbnail has none.**  The offset is all items that there are, and
black would become -255. -/
theorem black_below_first_bin :
    equalized (0 :: 1 :: List.replicate 254 0) 1
        = some (-255 :: List.replicate 255 0) ∧
      oneBlack.canvas.equalize (0 :: 1 :: List.replicate 254 0) = none ∧
      ¬ ∃ table, equalized (0 :: 1 :: List.replicate 254 0) 1 = some table ∧ InRange table := by
  have htable : equalized (0 :: 1 :: List.replicate 254 0) 1
      = some (-255 :: List.replicate 255 0) := by decide +kernel
  refine ⟨htable, by decide +kernel, ?_⟩
  rintro ⟨table, ht, hrange⟩
  obtain rfl := Option.some.inj (htable.symm.trans ht)
  exact absurd (hrange.range (-255) List.mem_cons_self).1 (by decide)

end Picture

end Iipsrv.Transform
