/-
# Thresholds

`Transform::histogram`, `threshold` and `binary`: the grey levels of an image are counted, Otsu's
method finds the level at which to split them, and every pixel becomes black or white.

* **The method is right** (§2).  `threshold` returns the first level `n` at which the split of the
  levels up to `n` from those above is best, for EVERY histogram (`threshold_first_maximizer`).
* **Its result is not used as it is meant** (§4).  `binary` blackens the levels BELOW the
  threshold, so the level itself changes sides.  The split is then one level too low, and as the
  threshold is the FIRST best level, that is never a best one (`binary_not_best`).
* **A binary image need not be binary** (§5).  Only three channels are made one; with two or four
  the loop still goes over as many bytes as there are pixels (`binary_everywhere_iff`).

A `float` is an exact rational number.
-/
import Iipsrv.Transform.Nearest
import Iipsrv.Lib.Rounding
import Iipsrv.Lib.Split

namespace Iipsrv.Transform

open Lib Lib.Word Lib.Buffer Lib.Fill Lib.Loop Lib.Rounding Lib.Split

/-! ## 1. Otsu's method -/

/-- A division; there is none by zero. -/
def divide (x y : ℚ) : Option ℚ := if y = 0 then none else some (x / y)

/-- The variables of the loop. -/
structure Scan where
  wb : ℚ
  sumb : ℚ
  max : ℚ
  otsu : UInt8

/-- The loop of `threshold`, from level `n` on. -/
def thresholdLoop (np sum : ℚ) : List Nat → Nat → Scan → Option UInt8
  | [], _, s => some s.otsu
  | bin :: bins, n, s =>
    let wb := s.wb + bin
    -- continue
    if wb = 0 then thresholdLoop np sum bins (n + 1) { s with wb := wb }
    else
      let wf := np - wb
      -- break
      if wf = 0 then some s.otsu
      else
        let sumb := s.sumb + n * bin
        (divide sumb wb).bind fun mb =>
          (divide (sum - sumb) wf).bind fun mf =>
            let diff := wb * wf * (mb - mf) * (mb - mf)
            thresholdLoop np sum bins (n + 1)
              (if s.max < diff then ⟨wb, sumb, diff, UInt8.ofNat n⟩
              else { s with wb := wb, sumb := sumb })

/-- `Transform::threshold`.  `count` is what the counter `np` makes of a number: it is an
`unsigned int` in the source (`u32`), and counts exactly where the arithmetic is exact (`id`). -/
def threshold (count : Nat → Nat) (histogram : List Nat) : Option UInt8 :=
  let np := count histogram.sum
  let sum := ((List.range histogram.length).map fun n => n * histogram.getD n 0).sum
  thresholdLoop np sum histogram 0 ⟨0, 0, 0, 0⟩

/-- **No division by zero**, whatever has been counted. -/
theorem thresholdLoop_isSome (np sum : ℚ) (bins : List Nat) (n : Nat) (s : Scan) :
    (thresholdLoop np sum bins n s).isSome := by
  induction bins generalizing n s with
  | nil => rfl
  | cons bin bins ih =>
    unfold thresholdLoop
    dsimp only
    split
    · exact ih _ _
    case isFalse hwb =>
      split
      · rfl
      case isFalse hwf =>
        rw [divide, if_neg hwb, divide, if_neg hwf]
        exact ih _ _

/-! ## 2. The first best level -/

section
variable {h : List Nat} {n : Nat}

/-- How many items are on a level. -/
def tally (h : List Nat) (i : Nat) : Nat := h.getD i 0

/-- A level that splits the histogram: there are items up to it, and above it. -/
def Splits (h : List Nat) (n : Nat) : Prop :=
  0 < mass (tally h) 0 (n + 1) ∧ 0 < mass (tally h) (n + 1) h.length

/-- `wb * wf * (mb - mf)^2`, of the levels `0..n` and of those above. -/
def score (h : List Nat) (n : Nat) : ℚ := between (tally h) h.length (n + 1)

/-- **The level that Otsu's method is to return**: the smallest of those at which the score is
largest, if this is positive, and 0 otherwise. -/
def Otsu (h : List Nat) (v : Nat) : Prop :=
  (Splits h v ∧ 0 < score h v ∧ (∀ n, Splits h n → score h n ≤ score h v) ∧
      ∀ n < v, Splits h n → score h n < score h v) ∨
    v = 0 ∧ ∀ n, Splits h n → score h n ≤ 0

theorem sum_eq_mass (h : List Nat) : h.sum = mass (tally h) 0 h.length := by
  induction h with
  | nil => rfl
  | cons bin h ih =>
    unfold mass tally at ih ⊢
    rw [← Finset.range_eq_Ico] at ih ⊢
    rw [List.length_cons, Finset.sum_range_succ', List.sum_cons, ih]
    simp [Nat.add_comm]

theorem sum_eq_moment (h : List Nat) :
    ((List.range h.length).map fun n => n * h.getD n 0).sum
      = moment (tally h) 0 h.length := by
  unfold moment tally
  rw [← Finset.range_eq_Ico]
  rfl

/-- A level that splits is one of the histogram. -/
theorem Splits.lt (hn : Splits h n) : n < h.length := by
  by_contra hge
  have : mass (tally h) (n + 1) h.length = 0 := by
    unfold mass
    rw [Finset.Ico_eq_empty (by omega), Finset.sum_empty]
  have := hn.2
  omega

/-- What the loop computes for a level is its score. -/
theorem diff_eq_score (h : List Nat) (n : Nat) :
    (mass (tally h) 0 (n + 1) : ℚ) * mass (tally h) (n + 1) h.length
        * (moment (tally h) 0 (n + 1) / mass (tally h) 0 (n + 1)
          - moment (tally h) (n + 1) h.length / mass (tally h) (n + 1) h.length)
        * (moment (tally h) 0 (n + 1) / mass (tally h) 0 (n + 1)
          - moment (tally h) (n + 1) h.length / mass (tally h) (n + 1) h.length)
      = score h n := by
  unfold score between mean
  ring

/-- **What the loop holds before level `n`**: the sums of the levels before it, and the best one of
them. -/
structure Scanned (h : List Nat) (n : Nat) (s : Scan) : Prop where
  wb : s.wb = mass (tally h) 0 n
  sumb : s.sumb = moment (tally h) 0 n
  leading : Leading (Splits h) (score h) 0 0 n s.otsu.toNat s.max

namespace Scanned

variable {s : Scan}

/-- A level up to which there is nothing. -/
theorem empty (hs : Scanned h n s) (hnone : mass (tally h) 0 (n + 1) = 0) :
    Scanned h (n + 1) { s with wb := (mass (tally h) 0 (n + 1) : Nat) } := by
  have hbefore : mass (tally h) 0 n = 0 :=
    Nat.eq_zero_of_le_zero ((mass_mono (Nat.le_refl 0) (Nat.le_succ n)).trans_eq hnone)
  refine ⟨rfl, ?_, hs.leading.skip (Nat.le_succ n) ?_⟩
  · rw [hs.sumb, moment_eq_zero hnone, moment_eq_zero hbefore]
  · rintro i hi hi' ⟨hpos, -⟩
    obtain rfl : i = n := by omega
    omega

/-- A level above which there is nothing.  Neither is there above the next ones. -/
theorem last (hs : Scanned h n s) (hn : n < h.length)
    (hnone : mass (tally h) (n + 1) h.length = 0) :
    Leading (Splits h) (score h) 0 0 h.length s.otsu.toNat s.max := by
  refine hs.leading.skip (Nat.le_of_lt hn) ?_
  rintro i hi - ⟨-, hpos⟩
  have hmono : mass (tally h) (i + 1) h.length ≤ mass (tally h) (n + 1) h.length :=
    mass_mono (Nat.succ_le_succ hi) (Nat.le_refl h.length)
  omega

/-- A level that splits the histogram. -/
theorem next (hs : Scanned h n s) (hn : n < 256) (hsplits : Splits h n) :
    Scanned h (n + 1) (if s.max < score h n then
        ⟨(mass (tally h) 0 (n + 1) : Nat), (moment (tally h) 0 (n + 1) : Nat), score h n,
          UInt8.ofNat n⟩
      else { s with
        wb := (mass (tally h) 0 (n + 1) : Nat), sumb := (moment (tally h) 0 (n + 1) : Nat) }) := by
  have hlevel : (UInt8.ofNat n).toNat = n := by
    rw [UInt8.toNat_ofNat', Nat.mod_eq_of_lt (by omega)]
  have hturn := hs.leading.turn hsplits
  split
  case isTrue hbetter =>
    rw [if_pos hbetter, if_pos hbetter] at hturn
    exact ⟨rfl, rfl, by rwa [hlevel]⟩
  case isFalse hworse =>
    rw [if_neg hworse, if_neg hworse] at hturn
    exact ⟨rfl, rfl, hturn⟩

end Scanned

/-- **The loop finds the first best level.**  By induction on the bins that are left. -/
theorem thresholdLoop_leading (hbins : h.length ≤ 256) (bins : List Nat) (s : Scan)
    (hle : n ≤ h.length) (hdrop : h.drop n = bins) (hs : Scanned h n s) :
    ∃ v x, thresholdLoop (mass (tally h) 0 h.length : Nat) (moment (tally h) 0 h.length : Nat)
        bins n s = some v ∧ Leading (Splits h) (score h) 0 0 h.length v.toNat x := by
  induction bins generalizing n s with
  | nil =>
    obtain rfl : n = h.length := Nat.le_antisymm hle (List.drop_eq_nil_iff.mp hdrop)
    exact ⟨s.otsu, s.max, rfl, hs.leading⟩
  | cons bin bins ih =>
    have hn : n < h.length := by
      by_contra hge
      rw [List.drop_eq_nil_of_le (by omega)] at hdrop
      cases hdrop
    obtain ⟨hbin, hrest⟩ := List.cons_eq_cons.mp
      ((List.drop_eq_getElem_cons hn).symm.trans hdrop)
    have htally : tally h n = bin := by simp [tally, hn, hbin]
    -- the two classes of level n
    have hwb : s.wb + bin = (mass (tally h) 0 (n + 1) : Nat) := by
      rw [hs.wb, mass_succ (Nat.zero_le n), htally, Nat.cast_add]
    have hsumb : s.sumb + n * bin = (moment (tally h) 0 (n + 1) : Nat) := by
      rw [hs.sumb, moment_succ (Nat.zero_le n), htally, Nat.cast_add, Nat.cast_mul]
    have hwf : ((mass (tally h) 0 h.length : Nat) : ℚ) - (mass (tally h) 0 (n + 1) : Nat)
        = (mass (tally h) (n + 1) h.length : Nat) := by
      rw [← mass_add (Nat.zero_le (n + 1)) hn, Nat.cast_add, add_sub_cancel_left]
    have hsumf : ((moment (tally h) 0 h.length : Nat) : ℚ) - (moment (tally h) 0 (n + 1) : Nat)
        = (moment (tally h) (n + 1) h.length : Nat) := by
      rw [← moment_add (Nat.zero_le (n + 1)) hn, Nat.cast_add, add_sub_cancel_left]
    unfold thresholdLoop
    dsimp only
    rw [hwb, hsumb, hwf, hsumf]
    split
    case isTrue hnone => exact ih _ hn hrest (hs.empty (by exact_mod_cast hnone))
    case isFalse hsome =>
      split
      case isTrue hnone => exact ⟨s.otsu, s.max, rfl, hs.last hn (by exact_mod_cast hnone)⟩
      case isFalse habove =>
        have hsplits : Splits h n :=
          ⟨Nat.pos_of_ne_zero (by exact_mod_cast hsome),
            Nat.pos_of_ne_zero (by exact_mod_cast habove)⟩
        rw [divide, if_neg hsome, divide, if_neg habove, Option.bind_some, Option.bind_some,
          diff_eq_score]
        exact ih _ hn hrest (hs.next (by omega) hsplits)

/-- What a whole run finds is what Otsu's method is to return. -/
theorem otsu_of_leading {v : Nat} {x : ℚ}
    (hlead : Leading (Splits h) (score h) 0 0 h.length v x) : Otsu h v := by
  cases hlead with
  | start hall => exact .inr ⟨rfl, fun n hn => hall n hn.lt hn⟩
  | found hv hsplits hpos hmax hfirst =>
    exact .inl ⟨hsplits, hpos, fun n hn => hmax n hn.lt hn, hfirst⟩

/-- The whole loop, if all items have been counted. -/
theorem threshold_leading (hbins : h.length ≤ 256) (count : Nat → Nat)
    (hcount : count h.sum = h.sum) :
    ∃ v x, threshold count h = some v ∧
      Leading (Splits h) (score h) 0 0 h.length v.toNat x := by
  unfold threshold
  dsimp only
  rw [hcount, sum_eq_moment, sum_eq_mass]
  exact thresholdLoop_leading hbins h _ (Nat.zero_le _) rfl
    ⟨by simp [mass_self], by simp [moment_self], .init⟩

end

/-- **Otsu's threshold is the first maximizer.**  For every histogram of at most 256 bins, with
exact arithmetic: the smallest level at which the score is largest, if this is positive, and 0
otherwise.  The counter of the source, an `unsigned int`, makes no difference for less than 2^32
items; and there is no division by zero in any case. -/
theorem threshold_first_maximizer (h : List Nat) (hbins : h.length ≤ 256) :
    (∃ v, threshold id h = some v ∧ Otsu h v.toNat) ∧
      (h.sum < 2 ^ 32 → ∃ v, threshold u32 h = some v ∧ Otsu h v.toNat) ∧
      (threshold u32 h).isSome := by
  refine ⟨?_, fun hlt => ?_, thresholdLoop_isSome _ _ _ _ _⟩
  · obtain ⟨v, x, hv, hlead⟩ := threshold_leading hbins id rfl
    exact ⟨v, hv, otsu_of_leading hlead⟩
  · obtain ⟨v, x, hv, hlead⟩ := threshold_leading hbins u32 (u32_of_lt hlt)
    exact ⟨v, hv, otsu_of_leading hlead⟩

/-- Four levels, of which the best split takes the first two together. -/
theorem threshold_first_maximizer_four :
    threshold id [1, 1, 0, 1] = some 1 ∧ Otsu [1, 1, 0, 1] 1 := by
  have hv : threshold id [1, 1, 0, 1] = some 1 := by decide +kernel
  obtain ⟨v, hv', hotsu⟩ := (threshold_first_maximizer [1, 1, 0, 1] (by decide)).1
  obtain rfl := Option.some.inj (hv.symm.trans hv')
  exact ⟨hv, hotsu⟩

/-! ## 3. Histograms -/

namespace Canvas

/-- The average of the channels of pixel `n`. -/
def average (t : Canvas) (n : Nat) : Option ℚ :=
  ((List.range t.header.channels).foldlM (fun (value : ℚ) k =>
      t.cells[u32 (n * t.header.channels + k)]?.join.map fun b => value + b.toNat) 0).map
    fun value => value / t.header.channels

/-- `Transform::histogram` of a tile of at most 8 bits. -/
def histogram (t : Canvas) : Option (List Nat) :=
  (List.range' 0 (u32 (t.header.width * t.header.height))).foldlM (fun histogram n =>
      (t.average n).bind fun value =>
        histogram[nearest value]?.bind fun count =>
          store histogram (nearest value) (u32 (count + 1)))
    (List.replicate (2 ^ t.header.bpc) 0)

end Canvas

namespace Picture

variable {p : Picture}

/-- The grey levels of a tile of one channel. -/
def levels (p : Picture) : List Nat := p.bytes.map UInt8.toNat

theorem lt_of_mem_levels {x : Nat} (hx : x ∈ p.levels) : x < 256 := by
  obtain ⟨b, -, rfl⟩ := List.mem_map.mp hx
  exact b.toNat_lt

/-- One more item adds one to the counter of its level. -/
theorem count_take_succ {L : List Nat} {n m : Nat} (hn : n < L.length) (hv : L[n] < m) :
    ((List.range m).map ((L.take n).count ·)).set L[n] ((L.take n).count L[n] + 1)
      = (List.range m).map ((L.take (n + 1)).count ·) := by
  have hcount (i : Nat) :
      (L.take (n + 1)).count i = (L.take n).count i + if L[n] = i then 1 else 0 := by
    rw [List.take_succ_eq_append_getElem hn, List.count_append, List.count_singleton]
    simp
  refine List.ext_getElem? fun i => ?_
  rw [List.getElem?_set]
  by_cases hi : L[n] = i
  · subst hi
    simp [hv, hcount]
  · by_cases him : i < m
    · simp [hi, him, hcount]
    · simp [hi, him]

section
variable (hp : p.header.channels = 1)

include hp

theorem length_levels : p.levels.length = p.header.width * p.header.height := by
  rw [levels, List.length_map, p.length_samples, hp, Nat.mul_one]

theorem pixels_lt : p.header.width * p.header.height < 2 ^ 32 := by
  have := p.extent_lt
  rwa [p.extent_eq, hp, Nat.mul_one] at this

theorem average_canvas {n : Nat} (hn : n < p.levels.length) :
    p.canvas.average n = some (p.levels[n] : ℚ) := by
  have hlt := pixels_lt hp
  have hn' := hn
  rw [length_levels hp] at hn
  unfold Canvas.average
  simp only [canvas, hp, List.range_one, List.foldlM_cons, List.foldlM_nil, Nat.mul_one,
    Nat.add_zero, u32_of_lt (hn.trans hlt), List.getElem?_map]
  simp [levels] at hn' ⊢
  simp [hn']

/-- **The histogram counts the pixels of each level.** -/
theorem histogram_canvas :
    p.canvas.histogram = some ((List.range 256).map (p.levels.count ·)) := by
  have hlt := pixels_lt hp
  have hinit : List.replicate (2 ^ p.canvas.header.bpc) 0
      = (List.range 256).map ((p.levels.take 0).count ·) := by
    change List.replicate (2 ^ p.header.bpc) 0 = _
    simp [p.bpc_eq]
  obtain ⟨out, hout, hcounts⟩ := foldlM_some
    (fun n histogram => histogram = (List.range 256).map ((p.levels.take n).count ·))
    (f := fun histogram n => (p.canvas.average n).bind fun value =>
        histogram[nearest value]?.bind fun count =>
          store histogram (nearest value) (u32 (count + 1)))
    (p.header.width * p.header.height) 0 _ hinit (by
      rintro n histogram - hn rfl
      rw [Nat.zero_add] at hn
      have hn' : n < p.levels.length := by rwa [length_levels hp]
      have hv : p.levels[n] < 256 := lt_of_mem_levels (List.getElem_mem hn')
      have hcount : (p.levels.take n).count p.levels[n] ≤ n :=
        List.count_le_length.trans (List.length_take_le n _)
      refine ⟨_, ?_, count_take_succ hn' hv⟩
      rw [average_canvas hp hn', Option.bind_some, nearest_natCast, List.getElem?_map,
        List.getElem?_range hv, Option.map_some, Option.bind_some, u32_of_lt (by omega)]
      exact store_of_lt _ (by simpa using hv))
  unfold Canvas.histogram
  change (List.range' 0 (u32 (p.header.width * p.header.height))).foldlM _ _ = _
  rw [u32_of_lt hlt, hout, hcounts, Nat.zero_add, ← length_levels hp, List.take_length]

end

end Picture

/-! ## 4. Black and white -/

/-- `( 1254097*R + 2462056*G + 478151*B ) >> 22`. -/
def luminance (r g b : UInt8) : UInt8 :=
  UInt8.ofNat ((1254097 * r.toNat + 2462056 * g.toNat + 478151 * b.toNat) >>> 22)

/-- What a pixel becomes. -/
def blackOrWhite (threshold b : UInt8) : UInt8 := if b < threshold then 0 else 255

namespace Canvas

/-- `Transform::greyscale`, which only applies to 8 bit colour. -/
def greyscale (t : Canvas) : Option Canvas :=
  if t.header.bpc ≠ 8 ∨ t.header.channels ≠ 3 then some t
  else
    (tabulate (u32 (t.header.width * t.header.height)) fun i =>
      let n := u32 (i * t.header.channels)
      t.cells[n]?.join.bind fun r =>
        t.cells[u32 (n + 1)]?.join.bind fun g =>
          t.cells[u32 (n + 2)]?.join.map fun b => luminance r g b).map
      fun cells => ⟨Transform.greyscale t.header, cells⟩

/-- The loop over the pixels. -/
def binarize (threshold : UInt8) (np : Nat) (cells : List (Option UInt8)) :
    Option (List (Option UInt8)) :=
  (List.range np).foldlM (fun cells i =>
    cells[i]?.join.bind fun b => store cells i (some (blackOrWhite threshold b))) cells

/-- `Transform::binary`: first make sure our image is greyscale. -/
def binary (threshold : UInt8) (t : Canvas) : Option Canvas :=
  if t.header.bpc ≠ 8 then some t
  else
    t.greyscale.bind fun t =>
      (binarize threshold (u32 (t.header.width * t.header.height)) t.cells).map fun cells =>
        ⟨t.header, cells⟩

end Canvas

/-- **The loop blackens or whitens the first `np` bytes**, and leaves the others as they are. -/
theorem binarize_eq (v : UInt8) {np : Nat} {bytes : List UInt8} (hnp : np ≤ bytes.length) :
    Canvas.binarize v np (bytes.map some)
      = some (((bytes.take np).map (blackOrWhite v) ++ bytes.drop np).map some) := by
  -- a cell that holds nothing cannot be replaced
  have hbody (cells : List (Option UInt8)) (i : Nat) :
      (cells[i]?.join.bind fun b => store cells i (some (blackOrWhite v b)))
        = cells[i]?.bind fun a => (a.map fun b => some (blackOrWhite v b)).bind fun a =>
          store cells i a := by
    rcases cells[i]? with _ | _ | b <;> rfl
  refine (foldlM_range_congr _ fun i _ cells => hbody cells i).trans
    ((foldlM_replace_iff _ _ (by rwa [List.length_map])).mpr
      ⟨((bytes.take np).map (blackOrWhite v)).map some, ?_, ?_⟩)
  · rw [← List.map_take]
    simp only [List.map_map]
    rfl
  · rw [List.map_append, List.map_drop]

namespace Picture

variable {p : Picture}

/-- There are no more pixels than bytes. -/
theorem pixels_le_length (hc : 1 ≤ p.header.channels) :
    p.header.width * p.header.height ≤ p.bytes.length := by
  rw [p.length_samples]
  exact Nat.le_mul_of_pos_right _ hc

theorem length_bytes_lt (p : Picture) : p.bytes.length < 2 ^ 32 := by
  rw [p.length_bytes]
  exact p.extent_lt

/-- Any other number of channels than three is left. -/
theorem binary_canvas (v : UInt8) (hc : 1 ≤ p.header.channels) (hc3 : p.header.channels ≠ 3) :
    p.canvas.binary v
      = some ⟨p.header, ((p.bytes.take (p.header.width * p.header.height)).map (blackOrWhite v)
          ++ p.bytes.drop (p.header.width * p.header.height)).map some⟩ := by
  have hle := pixels_le_length hc
  have hlt := p.length_bytes_lt
  have hgrey : p.canvas.greyscale = some p.canvas := if_pos (.inr hc3)
  have hbpc : ¬ p.canvas.header.bpc ≠ 8 := not_not.mpr p.bpc_eq
  unfold Canvas.binary
  rw [if_neg hbpc, hgrey, Option.bind_some]
  change (Canvas.binarize v (u32 (p.header.width * p.header.height)) (p.bytes.map some)).map _ = _
  rw [u32_of_lt (by omega), binarize_eq v hle]
  rfl

section
variable {v : UInt8}

/-- The grey levels of the pixels that have been set to a value. -/
def setTo (p : Picture) (t : Canvas) (b : UInt8) : List Nat :=
  ((p.levels.zip t.cells).filter fun x => x.2 = some b).map Prod.fst

/-- **The classes are those of the best split**: neither is empty, and the variance between them
is the largest among all splits of the levels into a lower and an upper part. -/
structure BestSplit (p : Picture) (t : Canvas) : Prop where
  black : p.setTo t 0 ≠ []
  white : p.setTo t 255 ≠ []
  largest : ∀ s, variance (p.levels.filter (· < s)) (p.levels.filter (s ≤ ·))
    ≤ variance (p.setTo t 0) (p.setTo t 255)

theorem setTo_eq {t : Canvas} {f : UInt8 → UInt8} (ht : t.cells = (p.bytes.map f).map some)
    (b : UInt8) : p.setTo t b = (p.bytes.filter (f · = b)).map UInt8.toNat := by
  have hzip : p.levels.zip t.cells = p.bytes.map fun x => (x.toNat, some (f x)) := by
    rw [ht, levels, List.map_map, List.zip_map']
    rfl
  rw [setTo, hzip, List.filter_map, List.map_map]
  simp [Function.comp_def]

/-- The levels below the threshold are black. -/
theorem setTo_black {t : Canvas} (ht : t.cells = (p.bytes.map (blackOrWhite v)).map some) :
    p.setTo t 0 = p.levels.filter (· < v.toNat) := by
  rw [setTo_eq ht, levels, List.filter_map]
  congr 1
  refine List.filter_congr fun b _ => ?_
  simp [blackOrWhite, UInt8.lt_iff_toNat_lt]

theorem setTo_white {t : Canvas} (ht : t.cells = (p.bytes.map (blackOrWhite v)).map some) :
    p.setTo t 255 = p.levels.filter (v.toNat ≤ ·) := by
  rw [setTo_eq ht, levels, List.filter_map]
  congr 1
  refine List.filter_congr fun b _ => ?_
  simp [blackOrWhite, UInt8.lt_iff_toNat_lt]

/-- The counters of the levels. -/
theorem tally_counts (p : Picture) :
    tally ((List.range 256).map (p.levels.count ·)) = (p.levels.count ·) := by
  funext i
  by_cases hi : i < 256
  · simp [tally, hi]
  · have hnone : i ∉ p.levels := fun hmem => hi (lt_of_mem_levels hmem)
    simp [tally, hi, List.count_eq_zero.mpr hnone]

theorem sum_counts (p : Picture) :
    ((List.range 256).map (p.levels.count ·)).sum ≤ p.levels.length := by
  rw [sum_eq_mass, tally_counts, mass_count]
  exact List.length_filter_le _ _

/-- **A split below the first best level is not best.** -/
theorem not_bestSplit {t : Canvas} {x : ℚ}
    (ht : t.cells = (p.bytes.map (blackOrWhite v)).map some)
    (hlead : Leading (Splits ((List.range 256).map (p.levels.count ·)))
      (score ((List.range 256).map (p.levels.count ·))) 0 0 256 v.toNat x) :
    ¬ BestSplit p t := by
  rintro ⟨hblack, -, hlargest⟩
  have hlower : 0 < mass (p.levels.count ·) 0 v.toNat := by
    have := List.length_pos_iff.mpr hblack
    rw [setTo_black ht] at this
    rw [mass_count]
    simpa using this
  cases hv : v.toNat with
  | zero => simp [hv, mass_self] at hlower
  | succ n =>
    rw [hv] at hlead hlower
    have hbest := hlargest (n + 2)
    rw [setTo_black ht, setTo_white ht, hv, variance_eq fun y hy => lt_of_mem_levels hy,
      variance_eq fun y hy => lt_of_mem_levels hy] at hbest
    cases hlead with
    | found hn hsplits hpos hmax hfirst =>
      have hbelow := hfirst n (Nat.lt_succ_self n)
      unfold Splits at hsplits
      unfold Splits score at hbelow
      rw [tally_counts, List.length_map, List.length_range] at hsplits hbelow
      have hupper := Nat.lt_of_lt_of_le hsplits.2
        (mass_mono (Nat.le_succ (n + 1)) (Nat.le_refl 256))
      have hitems : (0 : ℚ) < p.levels.length ^ 2 := by
        rw [mass_count] at hlower
        have : 0 < p.levels.length := Nat.lt_of_lt_of_le hlower (List.length_filter_le _ _)
        positivity
      exact absurd hbest (not_le.mpr (div_lt_div_of_pos_right (hbelow ⟨hlower, hupper⟩) hitems))

end

/-- **The threshold is never applied as it was found.**  For every tile of one channel: histogram,
threshold and binarization return, and the two classes are not those of a best split.  They are
split one level below the first best one. -/
theorem binary_not_best (p : Picture) (hp : p.header.channels = 1) :
    ∃ h v t, p.canvas.histogram = some h ∧ threshold u32 h = some v ∧
      p.canvas.binary v = some t ∧ ¬ BestSplit p t := by
  have hlength := length_levels hp
  have hlt := pixels_lt hp
  have hsum := p.sum_counts
  obtain ⟨v, x, hv, hlead⟩ := threshold_leading
    (h := (List.range 256).map (p.levels.count ·)) (by simp) u32 (u32_of_lt (by omega))
  rw [List.length_map, List.length_range] at hlead
  refine ⟨_, v, _, histogram_canvas hp, hv, binary_canvas v (by omega) (by omega),
    not_bestSplit ?_ hlead⟩
  have hall : p.header.width * p.header.height = p.bytes.length := by
    rw [← hlength, levels, List.length_map]
  simp [hall]

/-- Two pixels of neighbouring levels. -/
def twoLevels : Picture := ofBytes (w := 2) (h := 1) (c := 1) [0, 1] rfl (by decide)

theorem binary_not_best_twoLevels :
    ∃ h v t, twoLevels.canvas.histogram = some h ∧ threshold u32 h = some v ∧
      twoLevels.canvas.binary v = some t ∧ ¬ BestSplit twoLevels t :=
  binary_not_best twoLevels rfl

/-- **Black and white become white.**  The first best level is 0, and no level is below it. -/
theorem both_pixels_white :
    twoLevels.canvas.histogram = some (1 :: 1 :: List.replicate 254 0) ∧
      threshold u32 (1 :: 1 :: List.replicate 254 0) = some 0 ∧
      twoLevels.canvas.binary 0 = some ⟨sized 2 1 1, [some 255, some 255]⟩ ∧
      ¬ BestSplit twoLevels ⟨sized 2 1 1, [some 255, some 255]⟩ := by
  refine ⟨?_, ?_, rfl, ?_⟩
  · rw [histogram_canvas rfl]
    decide +kernel
  · decide +kernel
  · exact fun hbest => hbest.black rfl

/-! ## 5. Several channels -/

/-- Every sample of the tile is black or white. -/
def BinaryEverywhere (t : Canvas) : Prop :=
  ∀ m < t.header.width * t.header.height * t.header.channels,
    t.cells[m]? = some (some 0) ∨ t.cells[m]? = some (some 255)

theorem binaryEverywhere_iff {t : Canvas} {bytes : List UInt8} (ht : t.cells = bytes.map some)
    (hlen : bytes.length = t.header.width * t.header.height * t.header.channels) :
    BinaryEverywhere t ↔ ∀ b ∈ bytes, b = 0 ∨ b = 255 := by
  unfold BinaryEverywhere
  rw [ht, ← hlen]
  constructor
  · intro h b hb
    obtain ⟨m, hm, rfl⟩ := List.mem_iff_getElem.mp hb
    simpa [hm] using h m hm
  · intro h m hm
    simpa [hm] using h _ (List.getElem_mem hm)

theorem blackOrWhite_cases (v b : UInt8) : blackOrWhite v b = 0 ∨ blackOrWhite v b = 255 := by
  unfold blackOrWhite
  split <;> simp

/-- Colour becomes a tile of one channel. -/
theorem greyscale_canvas (hc : p.header.channels = 3) :
    ∃ grey : List UInt8, grey.length = p.header.width * p.header.height ∧
      p.canvas.greyscale = some ⟨Transform.greyscale p.header, grey.map some⟩ := by
  have hle := pixels_le_length (p := p) (by omega)
  have hlt := p.length_bytes_lt
  have hlen : p.bytes.length = p.header.width * p.header.height * 3 := by
    rw [p.length_samples, hc]
  have hcond : ¬ (p.canvas.header.bpc ≠ 8 ∨ p.canvas.header.channels ≠ 3) := by
    rintro (hbpc | hch)
    · exact hbpc p.bpc_eq
    · exact hch hc
  unfold Canvas.greyscale
  rw [if_neg hcond]
  change ∃ grey : List UInt8, _ ∧ (tabulate (u32 (p.header.width * p.header.height)) fun i => _).map
    _ = _
  have hread {n : Nat} (hn : n < p.bytes.length) :
      p.canvas.cells[u32 n]?.join = some (p.bytes[n]) := by
    rw [u32_of_lt (by omega)]
    simp [canvas, hn]
  have hsome : ∀ i < p.header.width * p.header.height,
      (p.canvas.cells[u32 (i * p.canvas.header.channels)]?.join.bind fun r =>
        p.canvas.cells[u32 (u32 (i * p.canvas.header.channels) + 1)]?.join.bind fun g =>
          p.canvas.cells[u32 (u32 (i * p.canvas.header.channels) + 2)]?.join.map fun b =>
            luminance r g b).isSome := by
    intro i hi
    have hch : p.canvas.header.channels = 3 := hc
    have hin : i * 3 + 2 < p.bytes.length := by omega
    rw [hch, u32_of_lt (by omega : i * 3 < 2 ^ 32), ← u32_of_lt (by omega : i * 3 < 2 ^ 32),
      hread (by omega), u32_of_lt (by omega : i * 3 < 2 ^ 32), hread (by omega), hread hin]
    rfl
  obtain ⟨grey, hgrey, htab⟩ := exists_tabulate hsome
  refine ⟨grey, hgrey, ?_⟩
  rw [u32_of_lt (by omega)]
  exact congrArg (Option.map _) htab

/-- Of a tile in colour, one channel is left. -/
theorem header_greyscale (hc : p.header.channels = 3) : Transform.greyscale p.header
    = { p.header with channels := 1, dataLength := u32 (p.header.width * p.header.height) } :=
  if_neg (by simp [p.bpc_eq, hc])

/-- The loop goes over all of it. -/
theorem binary_colour (v : UInt8) (hc : p.header.channels = 3) :
    ∃ grey : List UInt8, grey.length = p.header.width * p.header.height ∧
      p.canvas.binary v
        = some ⟨Transform.greyscale p.header, (grey.map (blackOrWhite v)).map some⟩ := by
  obtain ⟨grey, hgrey, hcanvas⟩ := greyscale_canvas hc
  have hbpc : ¬ p.canvas.header.bpc ≠ 8 := not_not.mpr p.bpc_eq
  have hlt := p.length_bytes_lt
  have hle := pixels_le_length (p := p) (by omega)
  refine ⟨grey, hgrey, ?_⟩
  unfold Canvas.binary
  rw [if_neg hbpc, hcanvas, Option.bind_some, header_greyscale hc]
  change (Canvas.binarize v (u32 (p.header.width * p.header.height)) (grey.map some)).map _ = _
  rw [u32_of_lt (by omega), binarize_eq v (Nat.le_of_eq hgrey.symm), ← hgrey, List.take_length,
    List.drop_length, List.append_nil]
  rfl

/-- **When a binary image is binary everywhere.**  For every tile of 8 bits with a channel, and
every threshold: if it has one channel or three, or if everything behind as many bytes as it has
pixels is black or white already. -/
theorem binary_everywhere_iff (p : Picture) (v : UInt8) (hc : 1 ≤ p.header.channels) :
    (∃ t, p.canvas.binary v = some t ∧ BinaryEverywhere t) ↔
      p.header.channels = 1 ∨ p.header.channels = 3 ∨
        ∀ b ∈ p.bytes.drop (p.header.width * p.header.height), b = 0 ∨ b = 255 := by
  by_cases hc3 : p.header.channels = 3
  · refine iff_of_true ?_ (.inr (.inl hc3))
    obtain ⟨grey, hgrey, hbinary⟩ := binary_colour v hc3
    refine ⟨_, hbinary, (binaryEverywhere_iff rfl ?_).mpr fun b hb => ?_⟩
    · rw [header_greyscale hc3, List.length_map, hgrey, Nat.mul_one]
    · obtain ⟨a, -, rfl⟩ := List.mem_map.mp hb
      exact blackOrWhite_cases v a
  · -- the loop covers one channel out of several
    rw [binary_canvas v hc hc3]
    have hsame := @binaryEverywhere_iff ⟨p.header, _⟩
      ((p.bytes.take (p.header.width * p.header.height)).map (blackOrWhite v)
        ++ p.bytes.drop (p.header.width * p.header.height)) rfl (by
          rw [List.length_append, List.length_map, ← List.length_append, List.take_append_drop]
          exact p.length_samples)
    constructor
    · rintro ⟨t, ht, hb⟩
      obtain rfl := Option.some.inj ht
      exact .inr (.inr fun b hmem => hsame.mp hb b (List.mem_append_right _ hmem))
    · intro hcond
      refine ⟨_, rfl, hsame.mpr fun b hb => ?_⟩
      rcases List.mem_append.mp hb with hb | hb
      · obtain ⟨a, -, rfl⟩ := List.mem_map.mp hb
        exact blackOrWhite_cases v a
      · rcases hcond with hc1 | hc3' | hall
        · rw [List.drop_eq_nil_of_le (by rw [p.length_samples, hc1, Nat.mul_one])] at hb
          cases hb
        · exact absurd hc3' hc3
        · exact hall b hb

/-- One pixel of a colour. -/
def onePink : Picture := ofBytes (w := 1) (h := 1) (c := 3) [255, 192, 203] rfl (by decide)

theorem binary_everywhere_onePink :
    ∃ t, onePink.canvas.binary 128 = some t ∧ BinaryEverywhere t :=
  (binary_everywhere_iff onePink 128 (by decide)).mpr (.inr (.inl rfl))

/-- One pixel that is nearly transparent. -/
def onePale : Picture := ofBytes (w := 1) (h := 1) (c := 2) [200, 7] rfl (by decide)

/-- **A grey pixel with transparency.**  It becomes white, and the second sample stays 7. -/
theorem transparency_kept :
    onePale.canvas.binary 128 = some ⟨sized 1 1 2, [some 255, some 7]⟩ ∧
      ¬ ∃ t, onePale.canvas.binary 128 = some t ∧ BinaryEverywhere t := by
  have hresult : onePale.canvas.binary 128 = some ⟨sized 1 1 2, [some 255, some 7]⟩ := rfl
  refine ⟨hresult, ?_⟩
  rintro ⟨t, ht, hb⟩
  obtain rfl := Option.some.inj (hresult.symm.trans ht)
  exact absurd (hb 1 (by decide)) (by decide)

end Picture

end Iipsrv.Transform
