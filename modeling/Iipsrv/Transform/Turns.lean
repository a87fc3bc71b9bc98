/-
# Turning and flipping tiles

`Transform::rotate` and `Transform::flip`: five nested loops that copy the samples of a tile into a
new buffer, some counting down in `int`s, some with a running counter.  All but one go row by row
and are one definition here (`fillRows`).  The remaining one has its indices from a product of
`int`s, which may not overflow (`Lib.Signed`); the others are computed in unsigned words.

Over them stands the plane of `Lib.Plane`: each loop fills the buffer with the plane turned or
mirrored, so the laws of the plane are laws of the tiles (`symmetries`).

The buffer of a rotation is filled under three conditions on the angle, but allocated and handed out
under a fourth, and width and height are exchanged under a fifth.  They use the remainder of C,
which is NEGATIVE for a negative angle.  `turns_right_iff` says when the five agree;
`quarter_turn_back` is a turn by -90 degrees that hands out a buffer nobody has written to.
-/
import Iipsrv.Transform.Canvas
import Iipsrv.Lib.Fill
import Iipsrv.Lib.Signed

namespace Iipsrv.Transform

open Lib Lib.Word Lib.Buffer Lib.Fill Lib.Raster Lib.Loop Lib.Signed

/-! ## 1. The loops -/

/-- `for( int i=n-1; i>=0; i-- )` for an `unsigned int` `n`: the loop is not entered if `n-1` is
not an `int`. -/
def countdown (n : Nat) : List Nat := if sub32 n 1 < 2 ^ 31 then (List.range n).reverse else []

/-- The innermost loop: the samples of one pixel, found at `index 0`, `index 1` and so on. -/
def copyPixel (data : List (Option UInt8)) (channels : Nat) (index : Nat → Nat)
    (st : List (Option UInt8) × Nat) : Option (List (Option UInt8) × Nat) :=
  (List.range channels).foldlM (fun st k => push data[index k]? st) st

/-- The three loops.  The counter is set to `start` at the beginning of each row. -/
def fillRows (data : List (Option UInt8)) (channels : Nat) (rows cols : List Nat)
    (start : Nat → Nat) (index : Nat → Nat → Nat → Nat) (buffer : List (Option UInt8)) :
    Option (List (Option UInt8)) :=
  rows.foldlM (fun buffer r =>
    (cols.foldlM (fun st q => copyPixel data channels (index r q) st) (buffer, start r)).map
      Prod.fst) buffer

/-- Rotate 90. -/
def rotate90 (data : List (Option UInt8)) (width height channels : Nat) :
    List (Option UInt8) → Option (List (Option UInt8)) :=
  fillRows data channels (List.range width) (countdown height)
    (fun i => u32 (i * height * channels))
    (fun i j k => u32 (u32 ((width * j + i) * channels) + k))

/-- Rotate 270. -/
def rotate270 (data : List (Option UInt8)) (width height channels : Nat) :
    List (Option UInt8) → Option (List (Option UInt8)) :=
  fillRows data channels (countdown width) (List.range height)
    (fun i => u32 (sub32 (sub32 width 1) i * height * channels))
    (fun i j k => u32 (u32 ((width * j + i) * channels) + k))

/-- Rotate 180: one counter runs through.  `i * in.channels` is a product of two `int`s, and must
not overflow. -/
def rotate180 (data : List (Option UInt8)) (width height channels : Nat)
    (buffer : List (Option UInt8)) : Option (List (Option UInt8)) :=
  ((countdown (u32 (width * height))).foldlM
    (fun st i => (checked (i * channels : Nat)).bind fun index =>
      copyPixel data channels (fun k => u32 (index.toNat + k)) st)
    (buffer, 0)).map Prod.fst

/-- Vertical flip. -/
def flipVertical (data : List (Option UInt8)) (width height channels : Nat) :
    List (Option UInt8) → Option (List (Option UInt8)) :=
  fillRows data channels (countdown height) (List.range width)
    (fun j => u32 (sub32 (sub32 height 1) j * width * channels))
    (fun j i k => u32 ((width * j + i) * channels) + k)

/-- Horizontal flip. -/
def flipHorizontal (data : List (Option UInt8)) (width height channels : Nat) :
    List (Option UInt8) → Option (List (Option UInt8)) :=
  fillRows data channels (List.range height) (countdown width)
    (fun j => u32 (j * width * channels))
    (fun j i k => u32 ((width * j + i) * channels) + k)

namespace Canvas

/-- The buffer that is allocated for the result. -/
def buffer (t : Canvas) : List (Option UInt8) :=
  fresh (u32 (t.header.width * t.header.height * t.header.channels))

/-- The buffer filled for an angle: by one of the three loops, or not at all. -/
def fill (a : Int) (t : Canvas) : Option (List (Option UInt8)) :=
  let h := t.header
  if Int.tmod a 360 = 90 then rotate90 t.cells h.width h.height h.channels t.buffer
  else if Int.tmod a 360 = 270 then rotate270 t.cells h.width h.height h.channels t.buffer
  else if Int.tmod a 360 = 180 then rotate180 t.cells h.width h.height h.channels t.buffer
  else some t.buffer

/-- `Transform::rotate`: only for rectangular rotations. -/
def rotate (angle : ℚ) (t : Canvas) : Option Canvas :=
  if Int.tmod (degrees angle) 90 = 0 ∧ Int.tmod (degrees angle) 360 ≠ 0 then
    (t.fill (degrees angle)).map fun cells => ⟨Transform.rotate angle t.header, cells⟩
  else some t

/-- `Transform::flip`: 2 is vertical, everything else horizontal. -/
def flip (orientation : Nat) (t : Canvas) : Option Canvas :=
  let h := t.header
  let cells :=
    if orientation = 2 then flipVertical t.cells h.width h.height h.channels t.buffer
    else flipHorizontal t.cells h.width h.height h.channels t.buffer
  cells.map fun cells => ⟨h, cells⟩

end Canvas

/-! ## 2. The loops fill the buffer with a plane -/

/-- A counter that fits runs through all numbers. -/
theorem countdown_eq {n : Nat} (h : n ≤ 2 ^ 31) :
    countdown n = (List.range n).map fun x => n - 1 - x := by
  unfold countdown
  by_cases h0 : n = 0
  · subst h0
    rfl
  · rw [sub32_of_le (by omega), if_pos (by omega), List.range_eq_range', List.reverse_range',
      List.range_eq_range', Nat.zero_add]

/-- One that does not fit is not counted at all. -/
theorem countdown_eq_nil {n : Nat} (h : 2 ^ 31 < n) : countdown n = [] := by
  unfold countdown
  rw [sub32_of_le (by omega), if_neg (by omega)]

/-- How far a counter has come down. -/
theorem sub32_countdown {n y : Nat} (hy : y < n) : sub32 (sub32 n 1) (n - 1 - y) = y := by
  have hone : sub32 n 1 = n - 1 := sub32_of_le (by omega)
  rw [hone, sub32_of_le (Nat.sub_le _ _)]
  omega

section
variable {data buffer : List (Option UInt8)} {channels : Nat} {rows cols : List Nat}
  {start : Nat → Nat} {index : Nat → Nat → Nat → Nat}

/-- The samples of a pixel that can be read are written. -/
theorem writes_copyPixel {place : Nat → Nat} {cell : Nat → Option UInt8}
    (h : ∀ k < channels, data[place k]? = some (cell k)) :
    Writes (copyPixel data channels place) ((List.range channels).map cell) := by
  rw [List.map_eq_flatMap]
  refine writes_foldlM fun k hk => ?_
  rw [h k (List.mem_range.mp hk)]
  exact writes_push (cell k)

/-- A pixel without samples is nothing. -/
theorem copyPixel_zero (place : Nat → Nat) (st : List (Option UInt8) × Nat) :
    copyPixel data 0 place st = some st := rfl

/-- Without samples, rows or columns the buffer stays as it is. -/
theorem fillRows_idle (h : channels = 0 ∨ rows = [] ∨ cols = []) :
    fillRows data channels rows cols start index buffer = some buffer := by
  rcases h with rfl | rfl | rfl
  · refine foldlM_idle (fun buffer r => ?_) rows buffer
    rw [foldlM_idle fun st q => copyPixel_zero (index r q) st]
    rfl
  · rfl
  · exact foldlM_idle (fun buffer r => rfl) rows buffer

/-- **The rows of a plane.**  If the loops go through its rows and columns, each row begins in its
place, and the samples that are read are those of the plane, then the buffer is filled with it. -/
theorem fillRows_eq (Q : Plane (Option UInt8)) (rowAt colAt : Nat → Nat)
    (hdepth : Q.depth = channels) (hrows : rows = (List.range Q.height).map rowAt)
    (hcols : cols = (List.range Q.width).map colAt)
    (hstart : ∀ y < Q.height, start (rowAt y) = y * (Q.width * channels))
    (hcell : ∀ x y k, x < Q.width → y < Q.height → k < Q.depth →
      data[index (rowAt y) (colAt x) k]? = some (Q.cell x y k))
    (hbuffer : buffer.length = Q.width * Q.height * Q.depth) :
    fillRows data channels rows cols start index buffer = some Q.cells := by
  subst hdepth hrows hcols
  have hrow : ∀ y ∈ List.range Q.height, Writes
      (fun st => ((List.range Q.width).map colAt).foldlM
        (fun st q => copyPixel data Q.depth (index (rowAt y) q) st) st)
      ((List.range Q.width).flatMap fun x => (List.range Q.depth).map (Q.cell x y)) := by
    intro y hy
    have hy' := List.mem_range.mp hy
    simp only [List.foldlM_map]
    refine writes_foldlM fun x hx => writes_copyPixel fun k hk => ?_
    exact hcell x y k (List.mem_range.mp hx) hy' hk
  have hall := foldlM_rows (fun y => start (rowAt y)) buffer (k := Q.width * Q.depth) (m := 0) []
    hrow (fun y _ => Q.length_row y)
    (fun i y hi => by
      have hlt := (List.getElem?_eq_some_iff.mp hi).1
      rw [List.length_range] at hlt
      rw [List.getElem?_range hlt] at hi
      obtain rfl := Option.some.inj hi
      rw [Nat.zero_add]
      exact hstart i hlt)
    (by rw [List.length_nil, Nat.zero_mul])
    (by
      rw [List.length_range, Nat.zero_add, hbuffer]
      exact Nat.le_of_eq (by ring))
  rw [splice_nil, List.nil_append, splice_all (by rw [hbuffer]; exact Q.length_cells)] at hall
  unfold fillRows
  rw [List.foldlM_map]
  exact hall

end

section
variable {P : Plane (Option UInt8)}

/-- The loops work out the place of a sample with the factors the other way round. -/
theorem index_eq_place (P : Plane (Option UInt8)) (i j k : Nat) :
    (P.width * j + i) * P.depth + k = place P.width P.depth i j k := by
  unfold place
  ring

/-- Where a loop finds the samples of a pixel. -/
theorem getElem?_index (hlt : P.width * P.height * P.depth < 2 ^ 32) {i j k : Nat}
    (hi : i < P.width) (hj : j < P.height) (hk : k < P.depth) :
    P.cells[u32 ((P.width * j + i) * P.depth) + k]? = some (P.cell i j k) := by
  have hplace := index_eq_place P i j k
  have hin := place_lt (H := P.height) hi hj hk
  rw [u32_of_lt (by omega), hplace]
  exact P.getElem?_cells hi hj hk

theorem getElem?_index_u32 (hlt : P.width * P.height * P.depth < 2 ^ 32) {i j k : Nat}
    (hi : i < P.width) (hj : j < P.height) (hk : k < P.depth) :
    P.cells[u32 (u32 ((P.width * j + i) * P.depth) + k)]? = some (P.cell i j k) := by
  have hfound := getElem?_index hlt hi hj hk
  have hin := (List.getElem?_eq_some_iff.mp hfound).1
  rw [P.length_cells] at hin
  rw [u32_of_lt (Nat.lt_trans hin hlt), hfound]

/-- Where a row begins, in a buffer that can be counted. -/
theorem u32_row {m n c y : Nat} (hlt : m * n * c < 2 ^ 32) (hy : y < m) :
    u32 (y * n * c) = y * (n * c) := by
  have hle : y * n * c ≤ m * n * c :=
    Nat.mul_le_mul_right c (Nat.mul_le_mul_right n (Nat.le_of_lt hy))
  rw [u32_of_lt (by omega), Nat.mul_assoc]

/-- **Rotate 90 is a quarter turn**, if the height can be counted down. -/
theorem rotate90_eq (hlt : P.width * P.height * P.depth < 2 ^ 32) (hfit : P.height ≤ 2 ^ 31)
    {buffer : List (Option UInt8)} (hbuffer : buffer.length = P.width * P.height * P.depth) :
    rotate90 P.cells P.width P.height P.depth buffer = some P.turn.cells := by
  refine fillRows_eq P.turn id (fun x => P.height - 1 - x) rfl
    (List.map_id _).symm (countdown_eq hfit) ?_ ?_ ?_
  · intro y hy
    exact u32_row hlt hy
  · intro x y k hx hy hk
    change x < P.height at hx
    exact getElem?_index_u32 hlt hy (by omega) hk
  · rw [hbuffer, Nat.mul_comm P.width]
    rfl

/-- **Rotate 270 is three quarter turns**, if the width can be counted down. -/
theorem rotate270_eq (hlt : P.width * P.height * P.depth < 2 ^ 32) (hfit : P.width ≤ 2 ^ 31)
    {buffer : List (Option UInt8)} (hbuffer : buffer.length = P.width * P.height * P.depth) :
    rotate270 P.cells P.width P.height P.depth buffer = some (Plane.turn^[3] P).cells := by
  refine fillRows_eq (Plane.turn^[3] P) (fun y => P.width - 1 - y) id rfl
    (countdown_eq hfit) (List.map_id _).symm ?_ ?_ ?_
  · intro y hy
    change y < P.width at hy
    rw [sub32_countdown hy]
    exact u32_row hlt hy
  · intro x y k hx hy hk
    change x < P.height at hx
    change y < P.width at hy
    refine (getElem?_index_u32 hlt (by omega) hx hk).trans ?_
    change _ = some (P.cell (P.width - 1 - y) (P.height - 1 - (P.height - 1 - x)) k)
    rw [Nat.sub_sub_self (by omega)]
  · rw [hbuffer, Nat.mul_comm P.width]
    rfl

/-- The vertical flip turns the plane upside down. -/
theorem flipVertical_eq (hlt : P.width * P.height * P.depth < 2 ^ 32) (hfit : P.height ≤ 2 ^ 31)
    {buffer : List (Option UInt8)} (hbuffer : buffer.length = P.width * P.height * P.depth) :
    flipVertical P.cells P.width P.height P.depth buffer = some P.upend.cells := by
  have hlt' : P.height * P.width * P.depth < 2 ^ 32 := by rwa [Nat.mul_comm P.height]
  refine fillRows_eq P.upend (fun y => P.height - 1 - y) id rfl
    (countdown_eq hfit) (List.map_id _).symm ?_ ?_ hbuffer
  · intro y hy
    change y < P.height at hy
    rw [sub32_countdown hy]
    exact u32_row hlt' hy
  · intro x y k hx hy hk
    change y < P.height at hy
    exact getElem?_index hlt hx (by omega) hk

/-- The horizontal flip mirrors it. -/
theorem flipHorizontal_eq (hlt : P.width * P.height * P.depth < 2 ^ 32) (hfit : P.width ≤ 2 ^ 31)
    {buffer : List (Option UInt8)} (hbuffer : buffer.length = P.width * P.height * P.depth) :
    flipHorizontal P.cells P.width P.height P.depth buffer = some P.mirror.cells := by
  have hlt' : P.height * P.width * P.depth < 2 ^ 32 := by rwa [Nat.mul_comm P.height]
  refine fillRows_eq P.mirror id (fun x => P.width - 1 - x) rfl
    (List.map_id _).symm (countdown_eq hfit) ?_ ?_ hbuffer
  · intro y hy
    exact u32_row hlt' hy
  · intro x y k hx hy hk
    change x < P.width at hx
    exact getElem?_index hlt (by omega) hy hk

/-- One turn of Rotate 180, for a pixel whose number an `int` holds. -/
theorem turn180_eq {data : List (Option UInt8)} {channels i : Nat} (h : i * channels < 2 ^ 31)
    (st : List (Option UInt8) × Nat) :
    ((checked (i * channels : Nat)).bind fun index =>
      copyPixel data channels (fun k => u32 (index.toNat + k)) st)
      = copyPixel data channels (fun k => u32 (u32 (i * channels) + k)) st := by
  rw [checked_of_bounds (Int.natCast_nonneg _) (by exact_mod_cast h), Option.bind_some,
    Int.toNat_natCast, u32_of_lt (by omega : i * channels < 2 ^ 32)]

/-- Rotate 180 writes the pixels of the result by their number. -/
theorem writes_rotate180 (hlt : P.width * P.height * P.depth < 2 ^ 32)
    (hcount : P.width * P.height ≤ 2 ^ 31) (hfit : (P.width * P.height - 1) * P.depth < 2 ^ 31) :
    Writes (fun st => (countdown (P.width * P.height)).foldlM
      (fun st i => (checked (i * P.depth : Nat)).bind fun index =>
        copyPixel P.cells P.depth (fun k => u32 (index.toNat + k)) st) st)
      ((List.range (P.width * P.height)).flatMap fun m => (List.range P.depth).map
        (P.cell (P.width - 1 - m % P.width) (P.height - 1 - m / P.width))) := by
  rw [countdown_eq hcount]
  simp only [List.foldlM_map]
  refine writes_foldlM fun m hm => ?_
  have hm' := List.mem_range.mp hm
  have hindex : (P.width * P.height - 1 - m) * P.depth < 2 ^ 31 :=
    (Nat.mul_le_mul_right _ (Nat.sub_le _ m)).trans_lt hfit
  simp only [turn180_eq hindex]
  refine writes_copyPixel fun k hk => ?_
  have hw : 0 < P.width := Nat.pos_of_ne_zero fun h0 => by simp [h0] at hm'
  have hcol : P.width - 1 - m % P.width < P.width := by omega
  have hrow : P.height - 1 - m / P.width < P.height := by
    have := Nat.div_lt_of_lt_mul hm'
    generalize m / P.width = q at this ⊢
    omega
  obtain ⟨hmod, hdiv⟩ := (opposite_iff hm').mpr rfl
  have hnum := Nat.div_add_mod (P.width * P.height - 1 - m) P.width
  rw [hmod, hdiv] at hnum
  rw [← hnum]
  exact getElem?_index_u32 hlt hcol hrow hk

/-- **Rotate 180 is two quarter turns**, if the pixels can be counted down and the index of the
last one is an `int`. -/
theorem rotate180_eq (hlt : P.width * P.height * P.depth < 2 ^ 32)
    (hcount : P.width * P.height ≤ 2 ^ 31) (hfit : (P.width * P.height - 1) * P.depth < 2 ^ 31)
    {buffer : List (Option UInt8)}
    (hbuffer : buffer.length = P.width * P.height * P.depth) :
    rotate180 P.cells P.width P.height P.depth buffer = some (Plane.turn^[2] P).cells := by
  have hlen : ∀ m < P.width * P.height, ((List.range P.depth).map
      (P.cell (P.width - 1 - m % P.width) (P.height - 1 - m / P.width))).length = P.depth := by
    intro m _
    rw [List.length_map, List.length_range]
  have hsize := Plane.length_flatMap_range hlen
  have hcells := Plane.eq_cells (P := Plane.turn^[2] P) hsize fun x y b hx hy hb => by
    change x < P.width at hx
    change y < P.height at hy
    change b < P.depth at hb
    change ((List.range (P.width * P.height)).flatMap _)[(y * P.width + x) * P.depth + b]? = _
    rw [Plane.getElem?_flatMap_range hlen (number_lt hx hy) hb, List.getElem?_map,
      List.getElem?_range hb, Nat.mul_add_mod_of_lt hx, number_div hx]
    rfl
  have hrun := writes_rotate180 hlt hcount hfit buffer 0 (by rw [hsize, hbuffer]; omega)
  dsimp only at hrun
  unfold rotate180
  rw [u32_of_lt (by omega), hrun, Option.map_some, splice_all (by rw [hsize, hbuffer]), hcells]

end

/-! ## 3. Loops that copy nothing -/

section
variable {data buffer : List (Option UInt8)} {width height channels : Nat}

theorem length_countdown_le (n : Nat) : (countdown n).length ≤ n := by
  unfold countdown
  split
  · rw [List.length_reverse, List.length_range]
  · exact Nat.zero_le n

/-- Loops over a tile without samples. -/
theorem fillRows_empty {rows cols : List Nat} {start : Nat → Nat} {index : Nat → Nat → Nat → Nat}
    {m k : Nat} (hrows : rows.length ≤ m) (hcols : cols.length ≤ k) (h : m * k * channels = 0) :
    fillRows data channels rows cols start index buffer = some buffer := by
  simp only [Nat.mul_eq_zero] at h
  rcases h with (rfl | rfl) | rfl
  · exact fillRows_idle (.inr (.inl (List.length_eq_zero_iff.mp (Nat.le_zero.mp hrows))))
  · exact fillRows_idle (.inr (.inr (List.length_eq_zero_iff.mp (Nat.le_zero.mp hcols))))
  · exact fillRows_idle (.inl rfl)

theorem rotate90_idle (h : width * height * channels = 0 ∨ 2 ^ 31 < height) :
    rotate90 data width height channels buffer = some buffer := by
  rcases h with h | h
  · exact fillRows_empty (Nat.le_of_eq List.length_range) (length_countdown_le height) h
  · exact fillRows_idle (.inr (.inr (countdown_eq_nil h)))

theorem rotate270_idle (h : width * height * channels = 0 ∨ 2 ^ 31 < width) :
    rotate270 data width height channels buffer = some buffer := by
  rcases h with h | h
  · exact fillRows_empty (length_countdown_le width) (Nat.le_of_eq List.length_range) h
  · exact fillRows_idle (.inr (.inl (countdown_eq_nil h)))

theorem flipVertical_idle (h : width * height * channels = 0) :
    flipVertical data width height channels buffer = some buffer := by
  rw [Nat.mul_comm width] at h
  exact fillRows_empty (length_countdown_le height) (Nat.le_of_eq List.length_range) h

theorem flipHorizontal_idle (h : width * height * channels = 0) :
    flipHorizontal data width height channels buffer = some buffer := by
  rw [Nat.mul_comm width] at h
  exact fillRows_empty (Nat.le_of_eq List.length_range) (length_countdown_le width) h

theorem rotate180_idle (h : width * height * channels = 0 ∨ 2 ^ 31 < u32 (width * height)) :
    rotate180 data width height channels buffer = some buffer := by
  unfold rotate180
  rcases h with h | h
  · rcases Nat.mul_eq_zero.mp h with hzero | rfl
    · rw [hzero]
      rfl
    · rw [foldlM_idle fun st i => (turn180_eq (Nat.two_pow_pos 31) st).trans (copyPixel_zero _ st)]
      rfl
  · rw [countdown_eq_nil h]
    rfl

/-- **The index overflows** at the first pixel that is copied, which is the last one. -/
theorem rotate180_overflow (hcount : width * height ≤ 2 ^ 31)
    (h : 2 ^ 31 ≤ (width * height - 1) * channels) :
    rotate180 data width height channels buffer = none := by
  obtain ⟨n, hn⟩ : ∃ n, width * height = n + 1 :=
    Nat.exists_eq_add_one_of_ne_zero fun hzero => by simp [hzero] at h
  rw [hn] at hcount h
  unfold rotate180
  rw [hn, u32_of_lt (by omega), countdown_eq hcount, List.range_succ_eq_map, List.map_cons,
    List.foldlM_cons, checked_eq_none (by exact_mod_cast h)]
  rfl

end

/-! ## 4. Rotations -/

/-- The remainder of C, for the two signs. -/
theorem tmod_of_nonneg {a : Int} (b : Int) (h : 0 ≤ a) : a.tmod b = a % b :=
  Int.tmod_eq_emod_of_nonneg h

theorem tmod_of_neg {a : Int} (b : Int) (h : a < 0) : a.tmod b = -(-a % b) := by
  rw [← Int.tmod_eq_emod_of_nonneg (by omega : 0 ≤ -a), Int.neg_tmod, Int.neg_neg]

theorem degrees_intCast (n : Int) : degrees (n : ℚ) = n := by
  unfold degrees
  rw [Int.floor_intCast, Int.ceil_intCast, ite_self]

/-- An angle that is turned by: a multiple of 90 degrees, but not a whole turn. -/
theorem quarter_iff (n : Int) :
    (Int.tmod n 90 = 0 ∧ Int.tmod n 360 ≠ 0) ↔ n % 90 = 0 ∧ n % 360 ≠ 0 := by
  rcases lt_or_ge n 0 with h | h
  · rw [tmod_of_neg 90 h, tmod_of_neg 360 h]
    omega
  · rw [tmod_of_nonneg 90 h, tmod_of_nonneg 360 h]

namespace Canvas

variable {h : Header} {P : Plane (Option UInt8)} {n : Int} {t : Canvas}

theorem length_buffer (hc : h.channels = P.depth) (hlt : P.width * P.height * P.depth < 2 ^ 32) :
    (ofPlane h P).buffer.length = P.width * P.height * P.depth := by
  change (fresh (u32 (P.width * P.height * h.channels))).length = _
  rw [length_fresh, hc, u32_of_lt hlt]

theorem rotate_of_quarter (hn : n % 90 = 0 ∧ n % 360 ≠ 0) :
    rotate n t = (t.fill n).map fun cells => ⟨Transform.rotate n t.header, cells⟩ := by
  unfold rotate
  rw [degrees_intCast, if_pos ((quarter_iff n).mpr hn)]

theorem rotate_of_not_quarter (hn : ¬ (n % 90 = 0 ∧ n % 360 ≠ 0)) : rotate n t = some t := by
  unfold rotate
  rw [degrees_intCast, if_neg (mt (quarter_iff n).mp hn)]

/-- For a negative angle no loop is chosen, and the size stays as it is. -/
theorem rotate_of_neg (hn : n % 90 = 0 ∧ n % 360 ≠ 0) (hneg : n < 0) :
    rotate n t = some ⟨t.header, t.buffer⟩ := by
  have hfill : t.fill n = some t.buffer := by
    unfold fill
    rw [tmod_of_neg 360 hneg, if_neg (by omega), if_neg (by omega), if_neg (by omega)]
  have hheader : Transform.rotate n t.header = t.header := by
    unfold Transform.rotate
    rw [degrees_intCast, if_pos ((quarter_iff n).mpr hn), tmod_of_neg 180 hneg,
      if_neg (by omega)]
  rw [rotate_of_quarter hn, hfill, hheader]
  rfl

/-- The extent that the loop for the angle counts down from is an `int`, and so are its indices. -/
def Counts (width height channels : Nat) (n : Int) : Prop :=
  (n % 360 = 90 → height ≤ 2 ^ 31) ∧ (n % 360 = 270 → width ≤ 2 ^ 31) ∧
    (n % 360 = 180 → width * height ≤ 2 ^ 31 ∧ (width * height - 1) * channels < 2 ^ 31)

instance (width height channels : Nat) (n : Int) : Decidable (Counts width height channels n) :=
  inferInstanceAs (Decidable (_ ∧ _))

/-- The number of quarter turns. -/
def quarters (n : Int) : Nat := (n % 360 / 90).toNat

theorem quarters_mul (hn : n % 90 = 0) : (quarters n : Int) * 90 = n % 360 := by
  unfold quarters
  omega

/-- The header of a tile that has been turned. -/
theorem header_turns (hn : n % 90 = 0) :
    (ofPlane h (Plane.turn^[quarters n] P)).header
      = if n % 180 = 90 then { h with width := P.height, height := P.width }
        else { h with width := P.width, height := P.height } := by
  have hsize := Plane.size_turns (quarters n) P
  have hodd : quarters n % 2 = 1 ↔ n % 180 = 90 := by
    unfold quarters
    omega
  unfold ofPlane
  by_cases h90 : n % 180 = 90
  · rw [if_pos (hodd.mpr h90)] at hsize
    obtain ⟨hwidth, hheight⟩ := Prod.mk.inj hsize
    rw [if_pos h90, hwidth, hheight]
  · rw [if_neg (mt hodd.mp h90)] at hsize
    obtain ⟨hwidth, hheight⟩ := Prod.mk.inj hsize
    rw [if_neg h90, hwidth, hheight]

theorem header_rotate (hn : n % 90 = 0 ∧ n % 360 ≠ 0) (hpos : 0 ≤ n) :
    Transform.rotate n (ofPlane h P).header
      = (ofPlane h (Plane.turn^[quarters n] P)).header := by
  unfold Transform.rotate
  rw [degrees_intCast, if_pos ((quarter_iff n).mpr hn), tmod_of_nonneg 180 hpos,
    header_turns hn.1]
  rfl

/-- **The buffer is filled with the turned plane**, for an angle that is not negative and an extent
that can be counted. -/
theorem fill_eq (hc : h.channels = P.depth) (hlt : P.width * P.height * P.depth < 2 ^ 32)
    (hn : n % 90 = 0 ∧ n % 360 ≠ 0) (hpos : 0 ≤ n) (hfit : Counts P.width P.height P.depth n) :
    (ofPlane h P).fill n = some (Plane.turn^[quarters n] P).cells := by
  have hbuffer := length_buffer hc hlt
  obtain ⟨h90, h270, h180⟩ := hfit
  unfold fill
  rw [tmod_of_nonneg 360 hpos]
  change (if n % 360 = 90 then rotate90 P.cells P.width P.height h.channels _
    else if n % 360 = 270 then rotate270 P.cells P.width P.height h.channels _
    else if n % 360 = 180 then rotate180 P.cells P.width P.height h.channels _ else _) = _
  rw [hc]
  by_cases hone : n % 360 = 90
  · have hquarters : quarters n = 1 := by
      unfold quarters
      omega
    rw [if_pos hone, hquarters]
    exact rotate90_eq hlt (h90 hone) hbuffer
  · rw [if_neg hone]
    by_cases hthree : n % 360 = 270
    · have hquarters : quarters n = 3 := by
        unfold quarters
        omega
      rw [if_pos hthree, hquarters]
      exact rotate270_eq hlt (h270 hthree) hbuffer
    · have htwo : n % 360 = 180 := by omega
      have hquarters : quarters n = 2 := by
        unfold quarters
        omega
      rw [if_neg hthree, if_pos htwo, hquarters]
      exact rotate180_eq hlt (h180 htwo).1 (h180 htwo).2 hbuffer

/-- **The buffer stays as it is** if there is nothing to copy. -/
theorem fill_idle (hidle : t.header.width * t.header.height * t.header.channels = 0) :
    t.fill n = some t.buffer := by
  unfold fill
  dsimp only
  rw [rotate90_idle (.inl hidle), rotate270_idle (.inl hidle), rotate180_idle (.inl hidle)]
  simp only [ite_self]

/-- **An extent that cannot be counted**: the buffer stays as it is, or an index overflows. -/
theorem fill_of_not_counts (hpos : 0 ≤ n) (hlt : t.header.width * t.header.height < 2 ^ 32)
    (hnot : ¬ Counts t.header.width t.header.height t.header.channels n) :
    t.fill n = some t.buffer ∨ t.fill n = none := by
  unfold fill
  rw [tmod_of_nonneg 360 hpos]
  dsimp only
  unfold Counts at hnot
  split
  case isTrue h90 => exact .inl (rotate90_idle (.inr (by omega)))
  case isFalse h90 =>
    split
    case isTrue h270 => exact .inl (rotate270_idle (.inr (by omega)))
    case isFalse h270 =>
      split
      case isTrue h180 =>
        by_cases hcount : t.header.width * t.header.height ≤ 2 ^ 31
        · exact .inr (rotate180_overflow hcount (by omega))
        · exact .inl (rotate180_idle (.inr (by rw [u32_of_lt hlt]; omega)))
      case isFalse h180 => exact .inl rfl

/-- An empty tile. -/
theorem buffer_ofPlane_eq_nil (hc : h.channels = P.depth)
    (hzero : P.width * P.height * P.depth = 0) : (ofPlane h P).buffer = [] := by
  rw [← List.length_eq_zero_iff, length_buffer hc (by omega)]
  exact hzero

/-- **A rotation is a number of quarter turns**, if there is nothing to copy, or the extent can be
counted. -/
theorem rotate_ofPlane (hc : h.channels = P.depth) (hlt : P.width * P.height * P.depth < 2 ^ 32)
    (hn : n % 90 = 0) (hpos : 0 ≤ n)
    (hfit : P.width * P.height * P.depth = 0 ∨ Counts P.width P.height P.depth n) :
    rotate n (ofPlane h P) = some (ofPlane h (Plane.turn^[quarters n] P)) := by
  by_cases hwhole : n % 360 = 0
  · have hquarters : quarters n = 0 := by
      unfold quarters
      omega
    rw [rotate_of_not_quarter fun hq => hq.2 hwhole, hquarters]
    rfl
  · have hfill : (ofPlane h P).fill n = some (Plane.turn^[quarters n] P).cells := by
      rcases hfit with hzero | hfit
      · have hnil := Plane.cells_eq_nil ((Plane.volume_turns (quarters n) P).trans hzero)
        rw [fill_idle (by change P.width * P.height * h.channels = 0; rwa [hc]),
          buffer_ofPlane_eq_nil hc hzero, hnil]
      · exact fill_eq hc hlt ⟨hn, hwhole⟩ hpos hfit
    rw [rotate_of_quarter ⟨hn, hwhole⟩, hfill, Option.map_some, header_rotate ⟨hn, hwhole⟩ hpos]
    rfl

end Canvas

/-! ## 5. When a rotation is right -/

namespace Picture

variable (p : Picture)

/-- The tile as it should be: rotated by the angle modulo 360, if that is 90, 180 or 270. -/
def turned (n : Int) : Canvas :=
  if n % 90 = 0 then .ofPlane p.header (Plane.turn^[Canvas.quarters n] p.plane) else p.canvas

/-- **The rotation is right.**  The result is the tile as it should be, every cell of it a byte of
the input, and width and height are exchanged for odd multiples of 90. -/
structure TurnsRight (n : Int) (t : Canvas) : Prop where
  rotated : t = p.turned n
  initialized : ∀ cell ∈ t.cells, ∃ byte ∈ p.bytes, cell = some byte
  header : t.header = if n % 180 = 90 then
      { p.header with width := p.header.height, height := p.header.width }
    else p.header

/-- The tile as it should be shows bytes of the input, in the right size. -/
theorem turnsRight_turned (n : Int) : p.TurnsRight n (p.turned n) := by
  have hbytes : ∀ cell ∈ p.plane.cells, ∃ byte ∈ p.bytes, cell = some byte := by
    intro cell hcell
    rw [p.cells_plane] at hcell
    obtain ⟨byte, hbyte, rfl⟩ := List.mem_map.mp hcell
    exact ⟨byte, hbyte, rfl⟩
  refine ⟨rfl, ?_, ?_⟩
  · unfold turned
    split
    · intro cell hcell
      exact hbytes cell (Plane.mem_cells_of_turns hcell)
    · rw [← p.ofPlane_plane]
      exact hbytes
  · unfold turned
    split
    case isTrue h90 => exact Canvas.header_turns h90
    case isFalse h90 =>
      rw [if_neg (by omega)]
      rfl

/-- The angle is not negative, or it is not one to turn by; and what is counted down from is an
`int`.  A tile without bytes may be turned back, if that does not exchange its sides. -/
structure Turnable (h : Header) (n : Int) : Prop where
  forward : n % 90 = 0 → n % 360 ≠ 0 → n < 0 →
    extent h = 0 ∧ (n % 180 = 90 → h.width = h.height)
  counts : 0 < extent h → 0 ≤ n → Canvas.Counts h.width h.height h.channels n

/-- A buffer that nobody has written to. -/
theorem not_turnsRight_buffer (hpos : 0 < extent p.header) {h : Header} {n : Int} :
    ¬ p.TurnsRight n ⟨h, p.canvas.buffer⟩ := by
  intro hright
  have hlen : 0 < u32 (p.header.width * p.header.height * p.header.channels) := by
    rw [← p.extent_eq, u32_of_lt p.extent_lt]
    exact hpos
  obtain ⟨byte, -, hbyte⟩ := hright.initialized none
    (List.mem_replicate.mpr ⟨Nat.ne_of_gt hlen, rfl⟩)
  cases hbyte

/-- An angle that is no quarter turn leaves the tile as it is, and so it should. -/
theorem turned_of_not_quarter {n : Int} (hq : ¬ (n % 90 = 0 ∧ n % 360 ≠ 0)) :
    p.turned n = p.canvas := by
  unfold turned
  split
  case isTrue h90 =>
    have hquarters : Canvas.quarters n = 0 := by
      unfold Canvas.quarters
      omega
    rw [hquarters]
    exact p.ofPlane_plane
  case isFalse => rfl

/-- Exchanging two equal sides. -/
theorem square_header : ∀ {h : Header}, h.width = h.height →
    h = { h with width := h.height, height := h.width }
  | ⟨_, _, _, _, _⟩, rfl => rfl

/-- **A turn back hands out a buffer that is not filled**, which is right for a tile without bytes
whose sides need not be exchanged. -/
theorem turnsRight_back_iff {n : Int} (hn : n % 90 = 0) :
    p.TurnsRight n ⟨p.header, p.canvas.buffer⟩ ↔
      extent p.header = 0 ∧ (n % 180 = 90 → p.header.width = p.header.height) := by
  constructor
  · intro hright
    refine ⟨?_, fun hodd => ?_⟩
    · by_contra hne
      exact p.not_turnsRight_buffer (Nat.pos_of_ne_zero hne) hright
    · have hheader := hright.header
      rw [if_pos hodd] at hheader
      exact congrArg Header.width hheader
  · rintro ⟨hzero, hodd⟩
    have hright := p.turnsRight_turned n
    have hturned : p.turned n = .ofPlane p.header (Plane.turn^[Canvas.quarters n] p.plane) :=
      if_pos hn
    have hvolume : p.plane.width * p.plane.height * p.plane.depth = 0 :=
      p.volume_plane.trans hzero
    have hcells : p.canvas.buffer = (p.turned n).cells := by
      rw [hturned, ← p.ofPlane_plane, Canvas.buffer_ofPlane_eq_nil rfl hvolume]
      exact (Plane.cells_eq_nil ((Plane.volume_turns _ p.plane).trans hvolume)).symm
    have hheader : p.header = (p.turned n).header := by
      rw [hright.header]
      split
      case isTrue h180 => exact square_header (hodd h180)
      case isFalse => rfl
    have hcanvas : (⟨p.header, p.canvas.buffer⟩ : Canvas) = p.turned n := by
      rw [hcells]
      exact congrArg (Canvas.mk · (p.turned n).cells) hheader
    rw [hcanvas]
    exact hright

/-- **When a rotation is right.**  For every tile of 8 bits, of any width, height and number of
channels, and every integer angle: `rotate` returns the tile rotated by the angle modulo 360, or
the tile as it is, and every byte of it is one of the input, if and only if the tile is turnable. -/
theorem turns_right_iff (p : Picture) (n : Int) :
    (∃ t, Canvas.rotate n p.canvas = some t ∧ p.TurnsRight n t) ↔ Turnable p.header n := by
  by_cases hq : n % 90 = 0 ∧ n % 360 ≠ 0
  swap
  · -- no turn at all
    have hright := p.turnsRight_turned n
    rw [p.turned_of_not_quarter hq] at hright
    refine iff_of_true ⟨_, Canvas.rotate_of_not_quarter hq, hright⟩
      ⟨fun h90 h360 => absurd ⟨h90, h360⟩ hq, fun _ _ => ?_⟩
    unfold Canvas.Counts
    omega
  rcases lt_or_ge n 0 with hneg | hpos
  · -- a turn back
    have hback := p.turnsRight_back_iff hq.1
    rw [Canvas.rotate_of_neg hq hneg]
    constructor
    · rintro ⟨t, ht, hright⟩
      obtain rfl := Option.some.inj ht
      exact ⟨fun _ _ _ => hback.mp hright, fun _ h0 => absurd hneg (not_lt.mpr h0)⟩
    · rintro ⟨hforward, -⟩
      exact ⟨_, rfl, hback.mpr (hforward hq.1 hq.2 hneg)⟩
  · -- a turn forward
    by_cases hfit : extent p.header = 0 ∨
        Canvas.Counts p.header.width p.header.height p.header.channels n
    · have hlt : p.plane.width * p.plane.height * p.plane.depth < 2 ^ 32 :=
        p.volume_plane ▸ p.extent_lt
      have hrotate := Canvas.rotate_ofPlane (h := p.header) rfl hlt hq.1 hpos
        (hfit.imp_left p.volume_plane.trans)
      rw [p.ofPlane_plane] at hrotate
      have hright := p.turnsRight_turned n
      rw [show p.turned n = _ from if_pos hq.1] at hright
      refine iff_of_true ⟨_, hrotate, hright⟩ ⟨fun _ _ h0 => absurd h0 (not_lt.mpr hpos), ?_⟩
      intro hext _
      exact hfit.resolve_left (Nat.ne_of_gt hext)
    · obtain ⟨hne, hnot⟩ := not_or.mp hfit
      have hext := Nat.pos_of_ne_zero hne
      have hle : p.header.width * p.header.height ≤ extent p.header := by
        rw [p.extent_eq] at hext ⊢
        exact Nat.le_mul_of_pos_right _ (Nat.pos_of_mul_pos_left hext)
      have hlt := Nat.lt_of_le_of_lt hle p.extent_lt
      refine iff_of_false ?_ fun hturnable => hnot (hturnable.counts hext hpos)
      rintro ⟨t, ht, hright⟩
      rw [Canvas.rotate_of_quarter hq] at ht
      rcases Canvas.fill_of_not_counts (t := p.canvas) hpos hlt hnot with hfill | hfill
      · rw [hfill] at ht
        obtain rfl := Option.some.inj ht
        exact p.not_turnsRight_buffer hext hright
      · rw [hfill] at ht
        cases ht

/-- A tile of two pixels, side by side. -/
def twoPixels : Picture := ⟨⟨2, 1, 1, 8, 2⟩, [1, 2], rfl, rfl, rfl, by decide⟩

theorem quarter_turn_forward :
    Turnable twoPixels.header 90 ∧
      ∃ t, Canvas.rotate (90 : Int) twoPixels.canvas = some t ∧ twoPixels.TurnsRight 90 t := by
  have hturnable : Turnable twoPixels.header 90 :=
    ⟨fun _ _ h => absurd h (by decide), fun _ _ => by decide⟩
  exact ⟨hturnable, (turns_right_iff twoPixels 90).mpr hturnable⟩

/-- **A quarter turn back.**  By -90 degrees the tile keeps its width and height, and its buffer is
the one that the allocator returned. -/
theorem quarter_turn_back :
    Canvas.rotate (-90 : Int) twoPixels.canvas = some ⟨twoPixels.header, [none, none]⟩ ∧
      ¬ ∃ t, Canvas.rotate (-90 : Int) twoPixels.canvas = some t ∧
        twoPixels.TurnsRight (-90) t := by
  have hrotate : Canvas.rotate (-90 : Int) twoPixels.canvas
      = some ⟨twoPixels.header, twoPixels.canvas.buffer⟩ :=
    Canvas.rotate_of_neg (by decide) (by decide)
  refine ⟨hrotate, ?_⟩
  rintro ⟨t, ht, hright⟩
  obtain rfl := Option.some.inj (hrotate.symm.trans ht)
  exact twoPixels.not_turnsRight_buffer (by decide) hright

end Picture

/-! ## 6. The symmetries of the rectangle -/

namespace Canvas

variable {h : Header} {P : Plane (Option UInt8)}

/-- Below `2 ^ 31` samples everything can be counted. -/
theorem counts_of_lt (hsmall : P.width * P.height * P.depth < 2 ^ 31) :
    P.width * P.height * P.depth = 0 ∨
      (P.width * P.height ≤ 2 ^ 31 ∧ (P.width * P.height - 1) * P.depth < 2 ^ 31 ∧
        P.width ≤ 2 ^ 31 ∧ P.height ≤ 2 ^ 31) := by
  by_cases hzero : P.width * P.height * P.depth = 0
  · exact .inl hzero
  · have hpos := Nat.pos_of_ne_zero hzero
    have hpixels := Nat.pos_of_mul_pos_right hpos
    have hle := Nat.le_mul_of_pos_right (P.width * P.height) (Nat.pos_of_mul_pos_left hpos)
    have hwidth := Nat.le_mul_of_pos_right P.width (Nat.pos_of_mul_pos_left hpixels)
    have hheight := Nat.le_mul_of_pos_left P.height (Nat.pos_of_mul_pos_right hpixels)
    have hindex := Nat.mul_le_mul_right P.depth (Nat.sub_le (P.width * P.height) 1)
    exact .inr ⟨by omega, by omega, by omega, by omega⟩

/-- A small tile of a plane: what it takes for all five loops to be right. -/
structure Small (h : Header) (P : Plane (Option UInt8)) : Prop where
  channels : h.channels = P.depth
  volume : P.width * P.height * P.depth < 2 ^ 31

theorem Small.turns (hs : Small h P) (k : Nat) : Small h (Plane.turn^[k] P) :=
  ⟨hs.channels.trans (Plane.depth_turns k P).symm, (Plane.volume_turns k P).symm ▸ hs.volume⟩

theorem Small.mirror (hs : Small h P) : Small h P.mirror := ⟨hs.channels, hs.volume⟩

theorem Small.upend (hs : Small h P) : Small h P.upend := ⟨hs.channels, hs.volume⟩

theorem Small.rotate_eq (hs : Small h P) {n : Int} (hn : n % 90 = 0) (hpos : 0 ≤ n) :
    rotate n (ofPlane h P) = some (ofPlane h (Plane.turn^[quarters n] P)) := by
  have hlt : P.width * P.height * P.depth < 2 ^ 32 := Nat.lt_trans hs.volume (by decide)
  refine rotate_ofPlane hs.channels hlt hn hpos ((counts_of_lt hs.volume).imp_right ?_)
  rintro ⟨hpixels, hindex, hwidth, hheight⟩
  exact ⟨fun _ => hheight, fun _ => hwidth, fun _ => ⟨hpixels, hindex⟩⟩

theorem Small.flip_one (hs : Small h P) :
    flip 1 (ofPlane h P) = some (ofPlane h P.mirror) := by
  have hlt : P.width * P.height * P.depth < 2 ^ 32 := Nat.lt_trans hs.volume (by decide)
  have hfill : flipHorizontal P.cells P.width P.height P.depth (ofPlane h P).buffer
      = some P.mirror.cells := by
    rcases counts_of_lt hs.volume with hzero | ⟨-, -, hwidth, -⟩
    · rw [flipHorizontal_idle hzero, buffer_ofPlane_eq_nil hs.channels hzero,
        Plane.cells_eq_nil (P := P.mirror) hzero]
    · exact flipHorizontal_eq hlt hwidth (length_buffer hs.channels hlt)
  unfold flip
  change (flipHorizontal P.cells P.width P.height h.channels _).map _ = _
  rw [hs.channels, hfill]
  rfl

theorem Small.flip_two (hs : Small h P) : flip 2 (ofPlane h P) = some (ofPlane h P.upend) := by
  have hlt : P.width * P.height * P.depth < 2 ^ 32 := Nat.lt_trans hs.volume (by decide)
  have hfill : flipVertical P.cells P.width P.height P.depth (ofPlane h P).buffer
      = some P.upend.cells := by
    rcases counts_of_lt hs.volume with hzero | ⟨-, -, -, hheight⟩
    · rw [flipVertical_idle hzero, buffer_ofPlane_eq_nil hs.channels hzero,
        Plane.cells_eq_nil (P := P.upend) hzero]
    · exact flipVertical_eq hlt hheight (length_buffer hs.channels hlt)
  unfold flip
  change (flipVertical P.cells P.width P.height h.channels _).map _ = _
  rw [hs.channels, hfill]
  rfl

/-- Two computations return, and the same tile. -/
def Same (x y : Option Canvas) : Prop := ∃ t, x = some t ∧ y = some t

/-- The angles of a rectangle. -/
def angles : List Int := [0, 90, 180, 270]

theorem mem_angles {n : Int} : n ∈ angles ↔ n % 90 = 0 ∧ 0 ≤ n ∧ n < 360 := by
  simp only [angles, List.mem_cons, List.not_mem_nil, or_false]
  omega

theorem Small.rotate_rotate (hs : Small h P) {a b : Int} (ha : a ∈ angles) (hb : b ∈ angles) :
    Same (rotate a (ofPlane h P) >>= rotate b)
      (rotate ((a + b) % 360 : Int) (ofPlane h P)) := by
  rw [mem_angles] at ha hb
  have hsum : quarters ((a + b) % 360) = (quarters b + quarters a) % 4 := by
    have hqa := quarters_mul ha.1
    have hqb := quarters_mul hb.1
    have hq := quarters_mul (n := (a + b) % 360) (by omega)
    rw [Int.emod_emod] at hq
    omega
  have hagree := (Plane.turn_mod_four (quarters b + quarters a) P)
  rw [Function.iterate_add_apply, ← hsum] at hagree
  refine ⟨_, ?_, hs.rotate_eq (by omega) (by omega)⟩
  rw [hs.rotate_eq ha.1 ha.2.1, Option.bind_eq_bind, Option.bind_some,
    (hs.turns _).rotate_eq hb.1 hb.2.1, ofPlane_agree hagree]

theorem Small.flip_flip_one (hs : Small h P) :
    flip 1 (ofPlane h P) >>= flip 1 = some (ofPlane h P) := by
  rw [hs.flip_one, Option.bind_eq_bind, Option.bind_some, hs.mirror.flip_one,
    ofPlane_agree P.mirror_mirror]

theorem Small.flip_flip_two (hs : Small h P) :
    flip 2 (ofPlane h P) >>= flip 2 = some (ofPlane h P) := by
  rw [hs.flip_two, Option.bind_eq_bind, Option.bind_some, hs.upend.flip_two,
    ofPlane_agree P.upend_upend]

theorem Small.flip_one_flip_two (hs : Small h P) :
    Same (flip 1 (ofPlane h P) >>= flip 2) (rotate (180 : Int) (ofPlane h P)) := by
  refine ⟨_, ?_, hs.rotate_eq (by decide) (by decide)⟩
  rw [hs.flip_one, Option.bind_eq_bind, Option.bind_some, hs.mirror.flip_two,
    ofPlane_agree P.upend_mirror]
  rfl

theorem Small.flip_one_rotate (hs : Small h P) :
    Same (flip 1 (ofPlane h P) >>= rotate (90 : Int))
      (rotate (270 : Int) (ofPlane h P) >>= flip 1) := by
  refine ⟨ofPlane h (Plane.turn^[3] P).mirror, ?_, ?_⟩
  · rw [hs.flip_one, Option.bind_eq_bind, Option.bind_some,
      hs.mirror.rotate_eq (by decide) (by decide)]
    exact congrArg some (ofPlane_agree P.turn_mirror)
  · rw [hs.rotate_eq (by decide) (by decide), Option.bind_eq_bind, Option.bind_some]
    exact (hs.turns 3).flip_one

end Canvas

namespace Picture

/-- **The symmetries of the rectangle.**  For every tile of 8 bits with fewer than `2 ^ 31`
samples. -/
theorem symmetries (p : Picture) (hsmall : extent p.header < 2 ^ 31) :
    (∀ a ∈ Canvas.angles, ∀ b ∈ Canvas.angles,
      Canvas.Same (p.canvas.rotate a >>= Canvas.rotate b)
        (p.canvas.rotate ((a + b) % 360 : Int))) ∧
    (p.canvas.flip 1 >>= Canvas.flip 1) = some p.canvas ∧
    (p.canvas.flip 2 >>= Canvas.flip 2) = some p.canvas ∧
    Canvas.Same (p.canvas.flip 1 >>= Canvas.flip 2) (p.canvas.rotate (180 : Int)) ∧
    Canvas.Same (p.canvas.flip 1 >>= Canvas.rotate (90 : Int))
      (p.canvas.rotate (270 : Int) >>= Canvas.flip 1) := by
  have hs : Canvas.Small p.header p.plane := ⟨rfl, p.volume_plane ▸ hsmall⟩
  rw [← p.ofPlane_plane]
  exact ⟨fun _ ha _ hb => hs.rotate_rotate ha hb, hs.flip_flip_one, hs.flip_flip_two,
    hs.flip_one_flip_two, hs.flip_one_rotate⟩

theorem symmetries_twoPixels :
    Canvas.Same (twoPixels.canvas.rotate (90 : Int) >>= Canvas.rotate (270 : Int))
        (twoPixels.canvas.rotate (0 : Int)) ∧
      (twoPixels.canvas.flip 1 >>= Canvas.flip 1) = some twoPixels.canvas ∧
      (twoPixels.canvas.flip 2 >>= Canvas.flip 2) = some twoPixels.canvas ∧
      Canvas.Same (twoPixels.canvas.flip 1 >>= Canvas.flip 2)
        (twoPixels.canvas.rotate (180 : Int)) ∧
      Canvas.Same (twoPixels.canvas.flip 1 >>= Canvas.rotate (90 : Int))
        (twoPixels.canvas.rotate (270 : Int) >>= Canvas.flip 1) := by
  obtain ⟨hturns, hlaws⟩ := symmetries twoPixels (by decide)
  exact ⟨hturns 90 (by decide) 270 (by decide), hlaws⟩

end Picture

end Iipsrv.Transform
