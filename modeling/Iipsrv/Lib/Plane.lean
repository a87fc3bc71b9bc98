/-
# Planes, and how they can be turned and mirrored

A plane is a picture in the abstract: `depth` cells for every column and row.  Only the cells inside
it matter, so two planes are compared by `Agree`.

A quarter turn (`turn`) and the two mirrorings generate the symmetries of a rectangle, whose laws
are stated here once.  `cells` is the raster of a plane, as it stands in a block of memory; planes
that agree have the same one, and every block of the right length is the raster of a plane.

The library names nothing of the server.
-/
import Mathlib.Logic.Function.Iterate
import Iipsrv.Lib.Raster

namespace Lib

open Lib.Raster Lib.Fill

/-- A picture: its size, the number of cells of a pixel, and the cells. -/
structure Plane (α : Type*) where
  width : Nat
  height : Nat
  depth : Nat
  cell : Nat → Nat → Nat → α

namespace Plane

variable {α : Type*} {P Q R : Plane α}

/-! ## 1. Agreement -/

/-- The planes have the same size, and the same cells inside it. -/
structure Agree (P Q : Plane α) : Prop where
  width : P.width = Q.width
  height : P.height = Q.height
  depth : P.depth = Q.depth
  cell : ∀ x y b, x < P.width → y < P.height → b < P.depth → P.cell x y b = Q.cell x y b

theorem Agree.refl (P : Plane α) : Agree P P := ⟨rfl, rfl, rfl, fun _ _ _ _ _ _ => rfl⟩

theorem Agree.trans (h : Agree P Q) (h' : Agree Q R) : Agree P R := by
  refine ⟨h.width.trans h'.width, h.height.trans h'.height, h.depth.trans h'.depth, ?_⟩
  intro x y b hx hy hb
  rw [h.cell x y b hx hy hb]
  exact h'.cell x y b (h.width ▸ hx) (h.height ▸ hy) (h.depth ▸ hb)

/-! ## 2. Symmetries -/

/-- A quarter turn clockwise. -/
def turn (P : Plane α) : Plane α where
  width := P.height
  height := P.width
  depth := P.depth
  cell x y b := P.cell y (P.height - 1 - x) b

/-- Left and right exchanged. -/
def mirror (P : Plane α) : Plane α where
  width := P.width
  height := P.height
  depth := P.depth
  cell x y b := P.cell (P.width - 1 - x) y b

/-- Top and bottom exchanged. -/
def upend (P : Plane α) : Plane α where
  width := P.width
  height := P.height
  depth := P.depth
  cell x y b := P.cell x (P.height - 1 - y) b

theorem Agree.turn (h : Agree P Q) : Agree P.turn Q.turn := by
  refine ⟨h.height, h.width, h.depth, fun x y b hx hy hb => ?_⟩
  change x < P.height at hx
  change P.cell y (P.height - 1 - x) b = Q.cell y (Q.height - 1 - x) b
  rw [← h.height]
  exact h.cell y _ b hy (by omega) hb

theorem Agree.turns (h : Agree P Q) (k : Nat) : Agree (Plane.turn^[k] P) (Plane.turn^[k] Q) := by
  induction k with
  | zero => exact h
  | succ k ih =>
    rw [Function.iterate_succ_apply', Function.iterate_succ_apply']
    exact ih.turn

/-- **Four quarter turns.** -/
theorem turn_four (P : Plane α) : Agree (turn^[4] P) P := by
  refine ⟨rfl, rfl, rfl, fun x y b hx hy _ => ?_⟩
  change x < P.width at hx
  change y < P.height at hy
  change P.cell (P.width - 1 - (P.width - 1 - x)) (P.height - 1 - (P.height - 1 - y)) b = _
  rw [Nat.sub_sub_self (by omega), Nat.sub_sub_self (by omega)]

/-- Turns are counted modulo four. -/
theorem turn_mod_four (k : Nat) (P : Plane α) : Agree (turn^[k] P) (turn^[k % 4] P) := by
  induction k using Nat.strongRecOn generalizing P with
  | ind k ih =>
    by_cases hk : k < 4
    · rw [Nat.mod_eq_of_lt hk]
      exact .refl _
    · have hsub : k = k - 4 + 4 := by omega
      have hmod : k % 4 = (k - 4) % 4 := by omega
      rw [hmod]
      refine Agree.trans ?_ (ih (k - 4) (by omega) P)
      conv => rw [hsub, Function.iterate_add_apply]
      exact (turn_four P).turns (k - 4)

theorem mirror_mirror (P : Plane α) : Agree P.mirror.mirror P := by
  refine ⟨rfl, rfl, rfl, fun x y b hx _ _ => ?_⟩
  change x < P.width at hx
  change P.cell (P.width - 1 - (P.width - 1 - x)) y b = _
  rw [Nat.sub_sub_self (by omega)]

theorem upend_upend (P : Plane α) : Agree P.upend.upend P := by
  refine ⟨rfl, rfl, rfl, fun x y b _ hy _ => ?_⟩
  change y < P.height at hy
  change P.cell x (P.height - 1 - (P.height - 1 - y)) b = _
  rw [Nat.sub_sub_self (by omega)]

/-- Both mirrorings are a half turn. -/
theorem upend_mirror (P : Plane α) : Agree P.mirror.upend (turn^[2] P) := .refl _

/-- A mirrored plane turns the other way. -/
theorem turn_mirror (P : Plane α) : Agree P.mirror.turn (turn^[3] P).mirror := by
  refine ⟨rfl, rfl, rfl, fun x y b hx hy _ => ?_⟩
  change x < P.height at hx
  change P.cell (P.width - 1 - y) (P.height - 1 - x) b
    = P.cell (P.width - 1 - y) (P.height - 1 - (P.height - 1 - (P.height - 1 - x))) b
  rw [Nat.sub_sub_self (by omega)]

/-- An odd number of quarter turns exchanges width and height. -/
theorem size_turns (k : Nat) (P : Plane α) :
    ((turn^[k] P).width, (turn^[k] P).height)
      = if k % 2 = 1 then (P.height, P.width) else (P.width, P.height) := by
  induction k with
  | zero => rfl
  | succ k ih =>
    rw [Function.iterate_succ_apply']
    change ((turn^[k] P).height, (turn^[k] P).width) = _
    have hswap := congrArg Prod.swap ih
    change ((turn^[k] P).height, (turn^[k] P).width) = _ at hswap
    rw [hswap]
    by_cases hk : k % 2 = 1
    · rw [if_pos hk, if_neg (by omega)]
      rfl
    · rw [if_neg hk, if_pos (by omega)]
      rfl

theorem depth_turns (k : Nat) (P : Plane α) : (turn^[k] P).depth = P.depth := by
  induction k with
  | zero => rfl
  | succ k ih =>
    rw [Function.iterate_succ_apply']
    exact ih

/-- Turning keeps the number of cells. -/
theorem volume_turns (k : Nat) (P : Plane α) :
    (turn^[k] P).width * (turn^[k] P).height * (turn^[k] P).depth
      = P.width * P.height * P.depth := by
  induction k with
  | zero => rfl
  | succ k ih =>
    rw [Function.iterate_succ_apply', ← ih]
    change (turn^[k] P).height * (turn^[k] P).width * (turn^[k] P).depth = _
    rw [Nat.mul_comm (turn^[k] P).height]

/-! ## 3. Rasters -/

/-- Row by row, pixel by pixel, cell by cell. -/
def cells (P : Plane α) : List α :=
  (List.range P.height).flatMap fun y =>
    (List.range P.width).flatMap fun x => (List.range P.depth).map (P.cell x y)

/-- `n` lists of one length. -/
theorem length_flatMap_range {f : Nat → List α} {n k : Nat} (hlen : ∀ i < n, (f i).length = k) :
    ((List.range n).flatMap f).length = n * k := by
  induction n with
  | zero => simp
  | succ n ih =>
    rw [List.range_succ, List.flatMap_append, List.length_append, List.flatMap_singleton,
      ih fun i hi => hlen i (by omega), hlen n (by omega), Nat.succ_mul]

/-- Cell `r` of list `i`. -/
theorem getElem?_flatMap_range {f : Nat → List α} {n k i r : Nat}
    (hlen : ∀ i < n, (f i).length = k) (hi : i < n) (hr : r < k) :
    ((List.range n).flatMap f)[i * k + r]? = (f i)[r]? := by
  induction n with
  | zero => omega
  | succ n ih =>
    have hbefore := length_flatMap_range (f := f) (n := n) fun i hi => hlen i (by omega)
    rw [List.range_succ, List.flatMap_append, List.flatMap_singleton]
    rcases Nat.lt_succ_iff_lt_or_eq.mp hi with hlt | rfl
    · have hin : (i + 1) * k ≤ n * k := Nat.mul_le_mul_right k hlt
      rw [Nat.succ_mul] at hin
      rw [List.getElem?_append_left (by omega)]
      exact ih (fun i hi => hlen i (by omega)) hlt
    · rw [List.getElem?_append_right (by omega), hbefore, Nat.add_sub_cancel_left]

theorem length_row (P : Plane α) (y : Nat) :
    ((List.range P.width).flatMap fun x => (List.range P.depth).map (P.cell x y)).length
      = P.width * P.depth :=
  length_flatMap_range fun x _ => by rw [List.length_map, List.length_range]

theorem length_cells (P : Plane α) : P.cells.length = P.width * P.height * P.depth := by
  unfold cells
  rw [length_flatMap_range fun y _ => P.length_row y]
  ring

theorem cells_eq_nil (h : P.width * P.height * P.depth = 0) : P.cells = [] := by
  rw [← List.length_eq_zero_iff, P.length_cells]
  exact h

/-- **Where a cell stands.** -/
theorem getElem?_cells (P : Plane α) {x y b : Nat} (hx : x < P.width) (hy : y < P.height)
    (hb : b < P.depth) : P.cells[place P.width P.depth x y b]? = some (P.cell x y b) := by
  have hplace : place P.width P.depth x y b = y * (P.width * P.depth) + (x * P.depth + b) := by
    unfold place
    ring
  have hrow : x * P.depth + b < P.width * P.depth := by
    have : (x + 1) * P.depth ≤ P.width * P.depth := Nat.mul_le_mul_right _ hx
    rw [Nat.succ_mul] at this
    omega
  unfold cells
  rw [hplace, getElem?_flatMap_range (fun y _ => P.length_row y) hy hrow,
    getElem?_flatMap_range (fun x _ => by rw [List.length_map, List.length_range]) hx hb,
    List.getElem?_map, List.getElem?_range hb]
  rfl

/-- The plane with a function applied to every cell. -/
def map {β : Type*} (f : α → β) (P : Plane α) : Plane β where
  width := P.width
  height := P.height
  depth := P.depth
  cell x y b := f (P.cell x y b)

theorem map_cells {β : Type*} (f : α → β) (P : Plane α) : P.cells.map f = (P.map f).cells := by
  unfold cells
  simp only [List.map_flatMap, List.map_map]
  rfl

/-- **Loops that write a plane**: row by row, pixel by pixel, cell by cell. -/
theorem writes_cells (P : Plane α) (turn : Nat → Nat → Nat → List α × Nat → Option (List α × Nat))
    (h : ∀ x y b, x < P.width → y < P.height → b < P.depth →
      Writes (turn y x b) [P.cell x y b]) :
    Writes (fun st => (List.range P.height).foldlM (fun st y =>
      (List.range P.width).foldlM (fun st x =>
        (List.range P.depth).foldlM (fun st b => turn y x b st) st) st) st) P.cells := by
  refine writes_foldlM fun y hy => writes_foldlM fun x hx => ?_
  rw [List.map_eq_flatMap]
  refine writes_foldlM fun b hb => ?_
  exact h x y b (List.mem_range.mp hx) (List.mem_range.mp hy) (List.mem_range.mp hb)

theorem mem_cells_iff {a : α} :
    a ∈ P.cells ↔ ∃ x y b, x < P.width ∧ y < P.height ∧ b < P.depth ∧ P.cell x y b = a := by
  unfold cells
  simp only [List.mem_flatMap, List.mem_map, List.mem_range]
  constructor
  · rintro ⟨y, hy, x, hx, b, hb, rfl⟩
    exact ⟨x, y, b, hx, hy, hb, rfl⟩
  · rintro ⟨x, y, b, hx, hy, hb, rfl⟩
    exact ⟨y, hy, x, hx, b, hb, rfl⟩

/-- Turning makes no new cells. -/
theorem mem_cells_of_turns {a : α} {k : Nat} (h : a ∈ (turn^[k] P).cells) : a ∈ P.cells := by
  induction k with
  | zero => exact h
  | succ k ih =>
    rw [Function.iterate_succ_apply'] at h
    refine ih (mem_cells_iff.mpr ?_)
    obtain ⟨x, y, b, hx, hy, hb, rfl⟩ := mem_cells_iff.mp h
    change x < (turn^[k] P).height at hx
    exact ⟨y, _, b, hy, by omega, hb, rfl⟩

/-- A block with the cells of a plane in their places is its raster. -/
theorem eq_cells {l : List α} (hlen : l.length = P.width * P.height * P.depth)
    (hcell : ∀ x y b, x < P.width → y < P.height → b < P.depth →
      l[place P.width P.depth x y b]? = some (P.cell x y b)) : l = P.cells := by
  refine List.ext_getElem? fun n => ?_
  by_cases hn : n < P.width * P.height * P.depth
  · obtain ⟨x, y, b, hx, hy, hb, rfl⟩ := exists_place hn
    rw [hcell x y b hx hy hb, P.getElem?_cells hx hy hb]
  · rw [List.getElem?_eq_none (by omega), List.getElem?_eq_none (by rw [P.length_cells]; omega)]

/-- **Planes that agree have one raster.** -/
theorem Agree.cells (h : Agree P Q) : P.cells = Q.cells := by
  refine eq_cells ?_ fun x y b hx hy hb => ?_
  · rw [P.length_cells, h.width, h.height, h.depth]
  · rw [← h.width, ← h.depth, P.getElem?_cells (h.width ▸ hx) (h.height ▸ hy) (h.depth ▸ hb),
      h.cell x y b (h.width ▸ hx) (h.height ▸ hy) (h.depth ▸ hb)]

/-- The plane that a block shows. -/
def ofCells [Inhabited α] (w h d : Nat) (l : List α) : Plane α where
  width := w
  height := h
  depth := d
  cell x y b := l[place w d x y b]?.getD default

theorem cells_ofCells [Inhabited α] {w h d : Nat} {l : List α} (hlen : l.length = w * h * d) :
    (ofCells w h d l).cells = l := by
  refine (eq_cells hlen fun x y b hx hy hb => ?_).symm
  have hlt : place w d x y b < l.length := by
    rw [hlen]
    exact place_lt hx hy hb
  change l[place w d x y b]? = some (l[place w d x y b]?.getD default)
  rw [List.getElem?_eq_getElem hlt]
  rfl

end Plane

end Lib
