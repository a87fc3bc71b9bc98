/-
# The copy of a reply

`FCGIWriter` passes on what is written and keeps a copy for the response cache, in a block of 64k
that `realloc` enlarges as needed.  When there is no memory the block is gone but `sz` goes on
counting from where it was; a later `realloc` may find memory again.  The first `malloc` can fail
like any other.  `copied_iff` says when the copy is the reply.
-/
import Iipsrv.Lib.Buffer
import Iipsrv.Lib.Print

namespace Iipsrv

open Lib.Print (Text)
open Lib.Buffer

structure FCGIWriter where
  buffer : Option (List (Option Char))
  sz : Nat

namespace FCGIWriter

def bufsize : Nat := 65536

/-- The constructor.  `malloc` may find no memory. -/
def new (memory : Bool) : FCGIWriter := ⟨if memory then some (fresh bufsize) else none, 0⟩

variable (w : FCGIWriter)

/-- `buffer`, behind the `realloc` for `len` more bytes.  There may be no memory. -/
def block (len : Nat) (memory : Bool) : Option (List (Option Char)) :=
  if bufsize < w.sz + len then
    let old := w.buffer.getD []
    if memory then some (old.take (w.sz + len) ++ fresh (w.sz + len - old.length)) else none
  else w.buffer

def cpy2buf (msg : Text) (memory : Bool) : Option FCGIWriter :=
  match w.block msg.length memory with
  | none => some { w with buffer := none }
  | some b => (copy b w.sz (msg.map some) 0 msg.length).map (⟨some ·, w.sz + msg.length⟩)

/-- The writes of a request. -/
def run (writes : List (Text × Bool)) : Option FCGIWriter :=
  writes.foldlM (fun w p => w.cpy2buf p.1 p.2) w

/-- Whether there is a block behind a write of `len` bytes that follow `n` others. -/
def kept (block : Bool) (n len : Nat) (memory : Bool) : Bool :=
  if bufsize < n + len then memory else block

/-- There is a block at the end, and there has been one from the first byte on. -/
def Granted : Bool → Nat → List (Text × Bool) → Prop
  | block, _, [] => block
  | block, n, p :: writes =>
    (kept block n p.1.length p.2 ∨ n + p.1.length = 0) ∧
      Granted (kept block n p.1.length p.2) (n + p.1.length) writes

/-- A byte of the copy, if it has been set. -/
def cell (i : Nat) : Option Char := (w.buffer.bind (·[i]?)).join

/-- The copy is what has been sent. -/
def Copied (sent : Text) : Prop :=
  w.buffer.isSome ∧ w.sz = sent.length ∧ ∀ i < w.sz, w.cell i = sent[i]?

/-- The block has room for what is counted.  Where the copy is not whole it will not be: bytes are
missing, or the first one is not set. -/
structure Tracks (sent : Text) (whole : Prop) : Prop where
  room : ∀ b, w.buffer = some b → bufsize ≤ b.length ∧ w.sz ≤ b.length
  copied : whole → w.sz = sent.length ∧ (w.buffer.isSome ∨ sent = []) ∧
    ∀ i < w.sz, w.cell i = sent[i]?
  lost : ¬ whole → w.sz < sent.length ∨ w.sz = sent.length ∧ 0 < w.sz ∧ w.cell 0 = none

variable {w} {sent : Text} {whole : Prop}

theorem isSome_block (len : Nat) (memory : Bool) :
    (w.block len memory).isSome = kept w.buffer.isSome w.sz len memory := by
  unfold FCGIWriter.block kept
  split
  · cases memory <;> rfl
  · rfl

/-- The block of the next write has room for it, and what was set in the old one. -/
theorem Tracks.block (h : w.Tracks sent whole) {len : Nat} {memory : Bool}
    {b : List (Option Char)} (hb : w.block len memory = some b) :
    bufsize ≤ b.length ∧ w.sz + len ≤ b.length ∧ ∀ i < w.sz, (b[i]?).join = w.cell i := by
  unfold FCGIWriter.block at hb
  split at hb
  case isTrue hlong =>
    cases memory with
    | false => cases hb
    | true =>
      cases hb
      refine ⟨by simp; omega, by simp; omega, fun i hi => ?_⟩
      unfold cell
      cases hold : w.buffer with
      | none => simp [fresh, Nat.lt_add_right len hi]
      | some b₀ =>
        have hkept := Nat.lt_of_lt_of_le hi (h.room b₀ hold).2
        simp [List.getElem?_append, Nat.lt_add_right len hi, hkept]
  case isFalse hshort =>
    obtain ⟨hbig, -⟩ := h.room b hb
    exact ⟨hbig, by omega, fun i _ => by rw [cell, hb]; rfl⟩

/-- A write that finds no block.  The message is not counted; an empty one has cost the block. -/
theorem Tracks.unwritten (h : w.Tracks sent whole) (msg : Text) {block : Bool}
    (hblock : block = false) :
    Tracks { w with buffer := none } (sent ++ msg)
      (whole ∧ (block ∨ sent.length + msg.length = 0)) := by
  subst hblock
  refine ⟨nofun, ?_, fun hno => ?_⟩
  · rintro ⟨hwhole, hkept⟩
    obtain ⟨hsz, -, -⟩ := h.copied hwhole
    have hnothing : w.sz + msg.length = 0 := hsz ▸ hkept.resolve_left nofun
    have hsent : sent ++ msg = [] := by
      rw [← List.length_eq_zero_iff, List.length_append, ← hsz, hnothing]
    have hzero : w.sz = 0 := by omega
    exact ⟨by simp [hsent, hzero], .inr hsent, fun i hi => by simp [hzero] at hi⟩
  · have hsz : w.sz < (sent ++ msg).length ∨ w.sz = (sent ++ msg).length ∧ 0 < w.sz := by
      rw [List.length_append]
      by_cases hwhole : whole
      · have hsz := (h.copied hwhole).1
        have hsent : sent.length + msg.length ≠ 0 := fun h0 => hno ⟨hwhole, .inr h0⟩
        omega
      · have hlost := h.lost hwhole
        omega
    exact hsz.imp_right fun hall => ⟨hall.1, hall.2, rfl⟩

/-- A write that finds a block with room: the copy is as whole as it was. -/
theorem Tracks.written (h : w.Tracks sent whole) {msg : Text} {b b' : List (Option Char)}
    (hbig : bufsize ≤ b.length) (hfits : w.sz + msg.length ≤ b.length)
    (hkept : ∀ i < w.sz, (b[i]?).join = w.cell i)
    (hcopy : copy b w.sz (msg.map some) 0 msg.length = some b') {Q : Prop} (hQ : Q) :
    Tracks ⟨some b', w.sz + msg.length⟩ (sent ++ msg) (whole ∧ Q) := by
  have hcell := getElem?_copy hcopy
  refine ⟨?_, ?_, fun hno => ?_⟩
  · rintro _ ⟨⟩
    rw [length_copy hcopy]
    exact ⟨hbig, hfits⟩
  · rintro ⟨hwhole, -⟩
    obtain ⟨hsz, -, hsent⟩ := h.copied hwhole
    refine ⟨by simp [hsz], .inl rfl, fun i hi => ?_⟩
    change (b'[i]?).join = _
    rw [hcell]
    split
    case isTrue hin =>
      rw [List.getElem?_append_right (by omega), ← hsz, List.getElem?_map, Nat.zero_add]
      cases msg[i - w.sz]? <;> rfl
    case isFalse hout =>
      have hi' : i < w.sz := by dsimp only at hi; omega
      rw [hkept i hi', hsent i hi', List.getElem?_append_left (by omega)]
  · have hwhole : ¬ whole := fun hwhole => hno ⟨hwhole, hQ⟩
    rw [List.length_append]
    refine (h.lost hwhole).imp (fun hlt => Nat.add_lt_add_right hlt _) ?_
    rintro ⟨hsz, hpos, hnone⟩
    refine ⟨by rw [hsz], Nat.add_pos_left hpos _, ?_⟩
    change (b'[0]?).join = _
    rw [hcell, if_neg (by omega), hkept 0 hpos, hnone]

/-- **One write** stays inside the block. -/
theorem Tracks.cpy2buf (h : w.Tracks sent whole) (msg : Text) (memory : Bool) :
    ∃ w', w.cpy2buf msg memory = some w' ∧
      w'.buffer.isSome = kept w.buffer.isSome w.sz msg.length memory ∧
      w'.Tracks (sent ++ msg) (whole ∧ (kept w.buffer.isSome w.sz msg.length memory ∨
        sent.length + msg.length = 0)) := by
  have hsome := isSome_block (w := w) msg.length memory
  unfold FCGIWriter.cpy2buf
  cases hb : w.block msg.length memory with
  | none =>
    rw [hb] at hsome
    exact ⟨_, rfl, hsome, h.unwritten msg hsome.symm⟩
  | some b =>
    rw [hb] at hsome
    obtain ⟨hbig, hfits, hkept⟩ := h.block hb
    obtain ⟨b', hb'⟩ := Option.isSome_iff_exists.mp
      (copy_isSome.mpr ⟨by simp, hfits⟩ : (copy b w.sz (msg.map some) 0 msg.length).isSome)
    exact ⟨⟨some b', w.sz + msg.length⟩, by simp [hb'], hsome,
      h.written hbig hfits hkept hb' (.inl hsome.symm)⟩

/-- All writes of a request, and what is left in the end. -/
theorem Tracks.run (h : w.Tracks sent whole) (writes : List (Text × Bool)) :
    ∃ w' whole', w.run writes = some w' ∧ w'.Tracks (sent ++ writes.flatMap Prod.fst) whole' ∧
      (whole' ∧ w'.buffer.isSome ↔ whole ∧ Granted w.buffer.isSome sent.length writes) := by
  induction writes generalizing w sent whole with
  | nil => exact ⟨w, whole, rfl, by simpa using h, by simp [Granted]⟩
  | cons p writes ih =>
    obtain ⟨w₁, hw₁, hsome, h₁⟩ := h.cpy2buf p.1 p.2
    obtain ⟨w', whole', hw', h', hiff⟩ := ih h₁
    refine ⟨w', whole', by rw [FCGIWriter.run, List.foldlM_cons, hw₁]; exact hw', ?_, ?_⟩
    · rwa [List.append_assoc] at h'
    · rw [hiff, Granted, List.length_append, and_assoc]
      refine and_congr_right fun hwhole => ?_
      rw [hsome, (h.copied hwhole).1]

/-- **The copy is complete exactly if there was memory.**  For all writes of a request, whichever
allocation fails, that of the constructor included: none leaves the block, and in the end the block
holds what has been sent, byte for byte, if and only if there is one now and has been one from the
first byte on. -/
theorem copied_iff (malloc : Bool) (writes : List (Text × Bool)) :
    ∃ w, (new malloc).run writes = some w ∧
      (w.Copied (writes.flatMap Prod.fst) ↔ Granted malloc 0 writes) := by
  have hnew : (new malloc).Tracks [] True := by
    refine ⟨?_, fun _ => ⟨rfl, .inr rfl, nofun⟩, fun h => absurd trivial h⟩
    intro b hb
    cases malloc <;> cases hb
    exact ⟨by simp, Nat.zero_le _⟩
  have hblock : (new malloc).buffer.isSome = malloc := by cases malloc <;> rfl
  obtain ⟨w, whole, hw, h, hiff⟩ := hnew.run writes
  rw [hblock, true_and] at hiff
  refine ⟨w, hw, fun ⟨hsome, hsz, hsent⟩ => hiff.mp ⟨?_, hsome⟩, fun hg => ?_⟩
  · by_contra hno
    rcases h.lost hno with hlt | ⟨-, hpos, hnone⟩
    · rw [List.nil_append] at hlt
      omega
    · have hfirst := (hsent 0 hpos).symm.trans hnone
      rw [List.getElem?_eq_none_iff] at hfirst
      omega
  · obtain ⟨hwhole, hsome⟩ := hiff.mpr hg
    obtain ⟨hsz, -, hsent⟩ := h.copied hwhole
    exact ⟨hsome, hsz, hsent⟩

-- without memory in the constructor a short reply is lost, although no realloc is made
example : ¬ Granted false 0 [(['a'], true)] := by simp [Granted, kept, bufsize]

end FCGIWriter

end Iipsrv
