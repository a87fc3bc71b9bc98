/-
# The PNG compressor's destination

`PNGCompressor.cc` gives the PNG library a function of its own to write with.  Each call of
`png_write_data` hands over a block, which is copied behind the bytes written so far.  If it does
not fit, the buffer is doubled before:

    if( dest->written + length > dest->output_size ){
      unsigned int new_size = dest->output_size * 2;

Once, whatever the length of the block; and through an `unsigned int`, while `output_size` is a
`size_t`.  So the copy goes behind the end of the buffer if the block needs more than one doubling,
and the copy of the old buffer does if that has 2 GiB or more.  `hasRoom_iff` says exactly when
every block has room, for every size of the first buffer and every sequence of blocks.

Which buffer the first one is does not matter here: `Compress` and `InitCompression` allocate one,
`CompressStrip` and `Finish` are given one.
-/
import Mathlib.Algebra.Group.Nat.Defs
import Iipsrv.Lib.Buffer

namespace Iipsrv

open Lib.Buffer

/-! ## 1. The function -/

/-- `png_destination_mgr`, the part that the output goes to.  A cell of `output` that nothing has
been copied to is `none`. -/
structure PngDestinationMgr where
  output : List (Option UInt8)
  outputSize : Nat
  written : Nat
  deriving DecidableEq

namespace PngDestinationMgr

/-- A buffer of `n` bytes, with nothing in it. -/
def start (n : Nat) : PngDestinationMgr := ⟨fresh n, n, 0⟩

/-- The doubling.  `none`: the new buffer is too small for the old one. -/
def double (d : PngDestinationMgr) : Option PngDestinationMgr := do
  let newSize := d.outputSize * 2 % 2 ^ 32
  let output ← copy (fresh newSize) 0 d.output 0 d.outputSize
  some { d with output := output, outputSize := newSize }

/-- The copy of the block.  `none`: it goes behind the end of the buffer. -/
def append (d : PngDestinationMgr) (block : List UInt8) : Option PngDestinationMgr := do
  let output ← copy d.output d.written (block.map some) 0 block.length
  some { d with output := output, written := (d.written + block.length) % 2 ^ 64 }

/-- `png_write_data`. -/
def pngWriteData (d : PngDestinationMgr) (block : List UInt8) : Option PngDestinationMgr :=
  if d.outputSize < (d.written + block.length) % 2 ^ 64 then
    d.double.bind fun d => d.append block
  else d.append block

/-- The calls of `png_write_data`, one after the other. -/
def writeBlocks (d : PngDestinationMgr) (blocks : List (List UInt8)) : Option PngDestinationMgr :=
  blocks.foldlM pngWriteData d

/-- Every block has been copied inside the buffer, and the first `written` bytes are the blocks. -/
def HasRoom (n : Nat) (blocks : List (List UInt8)) : Prop :=
  ∃ d, writeBlocks (start n) blocks = some d ∧ d.written = blocks.flatten.length ∧
    d.output.take d.written = blocks.flatten.map some

/-! ## 2. One block -/

/-- The destination holds exactly the bytes `out`. -/
structure Filled (out : List UInt8) (d : PngDestinationMgr) : Prop where
  length : d.output.length = d.outputSize
  filled : d.output.take out.length = out.map some
  written : d.written = out.length
  le : out.length ≤ d.outputSize
  small : d.outputSize < 2 ^ 64

section
variable {out block : List UInt8} {d : PngDestinationMgr}

/-- A block that ends inside the buffer is copied behind the others. -/
theorem Filled.append_of_le (h : Filled out d)
    (hfit : out.length + block.length ≤ d.outputSize) :
    ∃ e, d.append block = some e ∧ e.outputSize = d.outputSize ∧ Filled (out ++ block) e := by
  have hsmall := h.small
  obtain ⟨output, hcopy⟩ : ∃ output,
      copy d.output d.written (block.map some) 0 block.length = some output := by
    rw [← Option.isSome_iff_exists, copy_isSome, h.length, h.written, List.length_map]
    exact ⟨by omega, hfit⟩
  refine ⟨⟨output, d.outputSize, (d.written + block.length) % 2 ^ 64⟩,
    by rw [append, hcopy]; rfl, rfl, ?_⟩
  have hlength : (out ++ block).length = out.length + block.length := List.length_append
  refine ⟨(length_copy hcopy).trans h.length, ?_, ?_, hlength ▸ hfit, hsmall⟩
  · have hout := (copy_eq_some hcopy).2
    have hblock : ((block.map some).drop 0).take block.length = block.map some := by
      rw [List.drop_zero, ← List.length_map some, List.take_length]
    have hfront : (out.map some ++ block.map some).length = (out ++ block).length := by simp
    rw [hblock, h.written, h.filled] at hout
    rw [hout, ← hfront, List.take_left, List.map_append]
  · change (d.written + block.length) % 2 ^ 64 = (out ++ block).length
    rw [hlength, h.written, Nat.mod_eq_of_lt (Nat.lt_of_le_of_lt hfit hsmall)]

/-- A block that does not is copied outside. -/
theorem Filled.append_of_lt (h : Filled out d)
    (hover : d.outputSize < out.length + block.length) : d.append block = none := by
  have hcopy : copy d.output d.written (block.map some) 0 block.length = none := by
    rw [← Option.not_isSome_iff_eq_none, copy_isSome, h.length, h.written]
    omega
  rw [append, hcopy]
  rfl

/-- **Doubling keeps what is there** below 2 GiB. -/
theorem Filled.double_of_lt (h : Filled out d) (hsmall : d.outputSize < 2 ^ 31) :
    ∃ e, d.double = some e ∧ e.outputSize = 2 * d.outputSize ∧ Filled out e := by
  have hnew : d.outputSize * 2 % 2 ^ 32 = 2 * d.outputSize := by omega
  obtain ⟨output, hcopy⟩ : ∃ output,
      copy (fresh (2 * d.outputSize)) 0 d.output 0 d.outputSize = some output := by
    rw [← Option.isSome_iff_exists, copy_isSome, h.length, length_fresh]
    omega
  refine ⟨⟨output, 2 * d.outputSize, d.written⟩, by rw [double, hnew, hcopy]; rfl, rfl, ?_⟩
  have hle := h.le
  refine ⟨(length_copy hcopy).trans (length_fresh _), ?_, h.written, ?_, ?_⟩
  · have hout := (copy_eq_some hcopy).2
    have hold : (d.output.drop 0).take d.outputSize = d.output := by
      rw [List.drop_zero, ← h.length, List.take_length]
    rw [hold, List.take_zero, List.nil_append] at hout
    rw [hout, List.take_append_of_le_length (by rw [h.length]; exact hle), h.filled]
  · change out.length ≤ 2 * d.outputSize
    omega
  · change 2 * d.outputSize < 2 ^ 64
    omega

/-- From 2 GiB on the new buffer is smaller than the old one. -/
theorem Filled.double_of_le (h : Filled out d) (hbig : 2 ^ 31 ≤ d.outputSize) :
    d.double = none := by
  have hcopy : copy (fresh (d.outputSize * 2 % 2 ^ 32)) 0 d.output 0 d.outputSize = none := by
    rw [← Option.not_isSome_iff_eq_none, copy_isSome, h.length, length_fresh]
    omega
  rw [double, hcopy]
  rfl

/-- **What a call can do**: the block fits, it fits after one doubling, or something is copied
outside a buffer. -/
theorem Filled.pngWriteData_cases (h : Filled out d) (block : List UInt8) :
    (out.length + block.length ≤ d.outputSize ∧ ∃ e, d.pngWriteData block = some e ∧
        e.outputSize = d.outputSize ∧ Filled (out ++ block) e) ∨
      (d.outputSize < out.length + block.length ∧ d.outputSize < 2 ^ 31 ∧
        out.length + block.length ≤ 2 * d.outputSize ∧ ∃ e, d.pngWriteData block = some e ∧
          e.outputSize = 2 * d.outputSize ∧ Filled (out ++ block) e) ∨
      (d.outputSize < out.length + block.length ∧
        (2 ^ 31 ≤ d.outputSize ∨ 2 * d.outputSize < out.length + block.length) ∧
        d.pngWriteData block = none) := by
  have hsmall := h.small
  unfold pngWriteData
  rw [h.written]
  by_cases hfit : out.length + block.length ≤ d.outputSize
  · rw [if_neg (by omega)]
    exact .inl ⟨hfit, h.append_of_le hfit⟩
  refine .inr ?_
  have hover := Nat.not_le.mp hfit
  by_cases hgrow : d.outputSize < (out.length + block.length) % 2 ^ 64
  · rw [if_pos hgrow]
    by_cases hbig : 2 ^ 31 ≤ d.outputSize
    · rw [h.double_of_le hbig]
      exact .inr ⟨hover, .inl hbig, rfl⟩
    obtain ⟨e, hdouble, hsize, he⟩ := h.double_of_lt (Nat.not_le.mp hbig)
    rw [hdouble, Option.bind_some]
    by_cases hroom : out.length + block.length ≤ 2 * d.outputSize
    · obtain ⟨e', happend, hsize', he'⟩ := he.append_of_le (hsize ▸ hroom)
      exact .inl ⟨hover, Nat.not_le.mp hbig, hroom, e', happend, hsize'.trans hsize, he'⟩
    · rw [he.append_of_lt (by omega)]
      exact .inr ⟨hover, .inr (Nat.not_le.mp hroom), rfl⟩
  · -- the sum has wrapped, and the buffer is not doubled
    rw [if_neg hgrow, h.append_of_lt hover]
    exact .inr ⟨hover, by omega, rfl⟩

end

/-! ## 3. All blocks -/

/-- There is room for a block of `length` bytes behind `w` others.  One doubling is enough for it:
of the buffers that hold `w` bytes, each holds it after one doubling.  And each buffer that becomes
too small has less than 2 GiB. -/
structure Room (n w length : Nat) : Prop where
  once : ∀ i, w ≤ n * 2 ^ i → w + length ≤ n * 2 ^ (i + 1)
  outgrown : ∀ i, n * 2 ^ i < w + length → n * 2 ^ i < 2 ^ 31

/-- The destination holds exactly the bytes `out`, in the first of the buffers `n`, `2 * n`,
`4 * n`, … that is large enough for them. -/
structure Holds (n : Nat) (out : List UInt8) (d : PngDestinationMgr) : Prop
    extends Filled out d where
  doubled : ∃ j, d.outputSize = n * 2 ^ j
  outgrown : ∀ i, n * 2 ^ i < d.outputSize → n * 2 ^ i < out.length ∧ n * 2 ^ i < 2 ^ 31

section
variable {n : Nat} {out block : List UInt8} {d e : PngDestinationMgr}

theorem holds_start (hn : n < 2 ^ 64) : Holds n [] (start n) where
  length := length_fresh n
  filled := rfl
  written := rfl
  le := Nat.zero_le n
  small := hn
  doubled := ⟨0, by rw [pow_zero, mul_one]; rfl⟩
  outgrown i hi := by
    have hle : n * 1 ≤ n * 2 ^ i := Nat.mul_le_mul_left n Nat.one_le_two_pow
    have hlt : n * 2 ^ i < n := hi
    omega

theorem mul_two_pow_succ (n i : Nat) : n * 2 ^ (i + 1) = 2 * (n * 2 ^ i) := by
  rw [pow_succ, ← Nat.mul_assoc, Nat.mul_comm]

/-- A buffer that is smaller than the next one is not larger than this one. -/
theorem le_of_lt_double {i j : Nat} (h : n * 2 ^ i < n * 2 ^ (j + 1)) :
    n * 2 ^ i ≤ n * 2 ^ j := by
  have hij : i ≤ j := by
    by_contra hlt
    have hpow : 2 ^ (j + 1) ≤ 2 ^ i := Nat.pow_le_pow_right (by decide) (by omega)
    exact absurd (Nat.mul_le_mul_left n hpow) (Nat.not_le.mpr h)
  exact Nat.mul_le_mul_left n (Nat.pow_le_pow_right (by decide) hij)

/-- The present buffer is the first one that is large enough. -/
theorem Holds.outputSize_le (h : Holds n out d) {i : Nat} (hi : out.length ≤ n * 2 ^ i) :
    d.outputSize ≤ n * 2 ^ i := by
  by_contra hlt
  exact absurd (h.outgrown i (Nat.not_le.mp hlt)).1 (Nat.not_lt.mpr hi)

/-- A block that fits after one doubling of it fits after one doubling of any that is. -/
theorem Holds.once (h : Holds n out d) (hroom : out.length + block.length ≤ 2 * d.outputSize)
    (i : Nat) (hi : out.length ≤ n * 2 ^ i) :
    out.length + block.length ≤ n * 2 ^ (i + 1) := by
  have hle := h.outputSize_le hi
  rw [mul_two_pow_succ]
  omega

/-- **A call succeeds exactly if there is room**, and keeps the invariant. -/
theorem Holds.pngWriteData_cases (h : Holds n out d) (block : List UInt8) :
    (Room n out.length block.length ∧
        ∃ e, d.pngWriteData block = some e ∧ Holds n (out ++ block) e) ∨
      (¬ Room n out.length block.length ∧ d.pngWriteData block = none) := by
  obtain ⟨j, hj⟩ := h.doubled
  have hdouble : n * 2 ^ (j + 1) = 2 * d.outputSize := by rw [mul_two_pow_succ, hj]
  rcases h.toFilled.pngWriteData_cases block with ⟨hfit, e, he, hsize, hfilled⟩ |
    ⟨hover, hsmall, hroom, e, he, hsize, hfilled⟩ | ⟨hover, hno, he⟩
  · refine .inl ⟨⟨h.once (by omega), ?_⟩, e, he, ⟨hfilled, ⟨j, hsize.trans hj⟩, fun i hi => ?_⟩⟩
    · exact fun i hi => (h.outgrown i (Nat.lt_of_lt_of_le hi hfit)).2
    · obtain ⟨hlt, hsmall⟩ := h.outgrown i (hsize ▸ hi)
      rw [List.length_append]
      exact ⟨by omega, hsmall⟩
  · -- the only buffer that becomes too small is the present one
    have houtgrown : ∀ i, n * 2 ^ i < 2 * d.outputSize → n * 2 ^ i ≤ d.outputSize := by
      intro i hi
      rw [← hdouble] at hi
      exact hj ▸ le_of_lt_double hi
    refine .inl ⟨⟨h.once hroom, ?_⟩, e, he, ⟨hfilled, ⟨j + 1, hsize.trans hdouble.symm⟩, ?_⟩⟩
    · intro i hi
      have := houtgrown i (by omega)
      omega
    · intro i hi
      have := houtgrown i (hsize ▸ hi)
      rw [List.length_append]
      exact ⟨by omega, by omega⟩
  · refine .inr ⟨?_, he⟩
    rintro ⟨honce, houtgrown⟩
    have hlarge := honce j (hj ▸ h.le)
    have hless := houtgrown j (hj ▸ hover)
    rw [hdouble] at hlarge
    rw [← hj] at hless
    omega

/-- There is room for each block, behind the others and `w` bytes in front of them. -/
def RoomForAll (n w : Nat) (blocks : List (List UInt8)) : Prop :=
  ∀ front block back, blocks = front ++ block :: back →
    Room n (w + front.flatten.length) block.length

theorem roomForAll_cons {w : Nat} {blocks : List (List UInt8)} :
    RoomForAll n w (block :: blocks) ↔
      Room n w block.length ∧ RoomForAll n (w + block.length) blocks := by
  constructor
  · intro h
    refine ⟨h [] block blocks rfl, ?_⟩
    rintro front block' back rfl
    have hroom := h (block :: front) block' back rfl
    rwa [List.flatten_cons, List.length_append, ← Nat.add_assoc] at hroom
  · rintro ⟨hfirst, hrest⟩ front block' back hcut
    cases front with
    | nil =>
      obtain ⟨rfl, rfl⟩ := List.cons.inj hcut
      exact hfirst
    | cons b front =>
      obtain ⟨rfl, rfl⟩ := List.cons.inj hcut
      have hroom := hrest front block' back rfl
      rwa [List.flatten_cons, List.length_append, ← Nat.add_assoc]

/-- **The calls succeed exactly if there is room for each block.** -/
theorem Holds.writeBlocks_cases (h : Holds n out d) (blocks : List (List UInt8)) :
    (RoomForAll n out.length blocks ∧
        ∃ e, d.writeBlocks blocks = some e ∧ Holds n (out ++ blocks.flatten) e) ∨
      (¬ RoomForAll n out.length blocks ∧ d.writeBlocks blocks = none) := by
  induction blocks generalizing out d with
  | nil =>
    refine .inl ⟨?_, d, rfl, by simpa using h⟩
    intro front block back hnil
    cases front <;> cases hnil
  | cons block blocks ih =>
    have hcons : d.writeBlocks (block :: blocks) =
        (d.pngWriteData block).bind fun e => e.writeBlocks blocks := List.foldlM_cons
    rw [hcons, roomForAll_cons]
    rcases h.pngWriteData_cases block with ⟨hroom, d₁, hd₁, h₁⟩ | ⟨hno, hnone⟩
    · rw [hd₁, Option.bind_some]
      have hlength : (out ++ block).length = out.length + block.length := List.length_append
      rcases ih h₁ with ⟨hrest, e, he, hholds⟩ | ⟨hno, hnone⟩
      · rw [hlength] at hrest
        rw [List.append_assoc, ← List.flatten_cons] at hholds
        exact .inl ⟨⟨hroom, hrest⟩, e, he, hholds⟩
      · rw [hlength] at hno
        exact .inr ⟨fun hall => hno hall.2, hnone⟩
    · rw [hnone]
      exact .inr ⟨fun hall => hno hall.1, rfl⟩

end

/-- **When every block has room**, behind those before it. -/
theorem hasRoom_iff (n : Nat) (blocks : List (List UInt8)) (hsize : n < 2 ^ 64) :
    HasRoom n blocks ↔ ∀ front block back, blocks = front ++ block :: back →
      Room n front.flatten.length block.length := by
  have hroom : RoomForAll n 0 blocks ↔ ∀ front block back, blocks = front ++ block :: back →
      Room n front.flatten.length block.length := by
    unfold RoomForAll
    simp only [Nat.zero_add]
  rw [← hroom]
  rcases (holds_start hsize).writeBlocks_cases blocks with ⟨hall, e, he, hholds⟩ | ⟨hno, hnone⟩
  · rw [List.nil_append] at hholds
    refine iff_of_true ⟨e, he, hholds.written, ?_⟩ hall
    rw [hholds.written, hholds.filled]
  · refine iff_of_false ?_ hno
    rintro ⟨e, he, -⟩
    cases hnone.symm.trans he

/-- A block of three bytes fits into a buffer of two that is doubled. -/
theorem hasRoom_iff_doubled : HasRoom 2 [[1, 2, 3]] := by
  refine (hasRoom_iff 2 [[1, 2, 3]] (by decide)).mpr fun front block back hcut => ?_
  obtain ⟨rfl, rfl⟩ : front = [] ∧ block = [1, 2, 3] := by
    cases front with
    | nil => exact ⟨rfl, (List.cons.inj hcut).1.symm⟩
    | cons b front => simp at hcut
  refine ⟨fun i _ => ?_, fun i hi => ?_⟩
  · have hpos : 1 ≤ 2 ^ i := Nat.one_le_two_pow
    rw [pow_succ]
    simp only [List.flatten_nil, List.length_nil, List.length_cons]
    omega
  · simp only [List.flatten_nil, List.length_nil, List.length_cons] at hi
    omega

/-- It does not fit into a buffer of one, for which one doubling is not enough. -/
theorem long_block_outside :
    pngWriteData (start 1) [1, 2, 3] = none ∧ ¬ HasRoom 1 [[1, 2, 3]] := by
  refine ⟨by decide, ?_⟩
  rintro ⟨d, hd, -⟩
  have hnone : writeBlocks (start 1) [[1, 2, 3]] = none := by decide
  cases hnone.symm.trans hd

end PngDestinationMgr

end Iipsrv
