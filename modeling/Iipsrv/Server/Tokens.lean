/-
# The tokens of a text

Every request is taken apart by `Tokenizer` (`Tokenizer.h`).  Its two methods look at the text in
different ways: `hasMoreTokens` for a character that is NOT the delimiter, `nextToken` for the
delimiter, again and again as long as the piece in front of it is empty.

* `pieces_nextToken`: `nextToken` takes the first piece that is not empty;
* `hasMoreTokens_iff`: there is one exactly if `hasMoreTokens` says so;
* `tokens_eq`: so the loop over the tokens goes through these pieces.

The positions are kept in an `int`.  `Strings.lean` has numbers instead; `tokens32` is the same loop
with the `int`s, and up to `2 ^ 31` characters there is no difference (`tokens32_eq`).
-/
import Iipsrv.Server.Strings

namespace Iipsrv.Tokenizer

open Lib.Print (Text)
open Lib.Str

/-! ## 1. The pieces -/

section
variable {delim : Char} {arg : Text}

/-- The pieces between delimiters that are not empty. -/
def pieces (delim : Char) (arg : Text) : List Text := (arg.splitOn delim).filter fun p => p ≠ []

/-- Where `piece` cuts. -/
theorem piece_cases (delim : Char) (arg : Text) :
    (delim ∉ arg ∧ piece delim arg = (arg, [])) ∨
      ∃ u v, arg = u ++ delim :: v ∧ delim ∉ u ∧ piece delim arg = (u, v) := by
  cases hfind : find [delim] arg with
  | none =>
    refine .inl ⟨fun hin => ?_, by rw [piece, hfind]⟩
    exact find_eq_none_iff.mp hfind ((List.singleton_infix_iff delim arg).mpr hin)
  | some n =>
    refine .inr ⟨arg.take n, arg.drop (n + 1), (find_spec hfind).symm, fun hin => ?_,
      by rw [piece, hfind]⟩
    exact not_infix_take_of_find hfind ((List.singleton_infix_iff delim _).mpr hin)

/-- The piece that is cut off, and those of the rest. -/
theorem pieces_eq (delim : Char) (arg : Text) :
    pieces delim arg =
      [(piece delim arg).1].filter (fun p => p ≠ []) ++ pieces delim (piece delim arg).2 := by
  rcases piece_cases delim arg with ⟨hnot, hpiece⟩ | ⟨u, v, rfl, hu, hpiece⟩
  · rw [hpiece]
    simp [pieces, List.splitOn_eq_singleton hnot]
  · rw [hpiece, pieces, List.splitOn_append_cons_self_of_not_mem hu, ← List.singleton_append,
      List.filter_append]
    rfl

theorem any_piece (delim : Char) (arg : Text) :
    hasMoreTokens delim arg ↔
      (piece delim arg).1 ≠ [] ∨ hasMoreTokens delim (piece delim arg).2 := by
  have hfront : ∀ u : Text, delim ∉ u → (u.any (· ≠ delim) ↔ u ≠ []) := by
    intro u hu
    cases u with
    | nil => simp
    | cons c u =>
      have hc : c ≠ delim := fun hc => hu (hc ▸ List.mem_cons_self)
      simp [hc]
  rcases piece_cases delim arg with ⟨hnot, hpiece⟩ | ⟨u, v, rfl, hu, hpiece⟩
  · rw [hpiece, hasMoreTokens, hfront arg hnot]
    simp [hasMoreTokens]
  · rw [hpiece, hasMoreTokens, List.any_append, Bool.or_eq_true, hfront u hu]
    simp [hasMoreTokens]

/-- **`hasMoreTokens` is right**: there is a piece that is not empty. -/
theorem hasMoreTokens_iff (delim : Char) (arg : Text) :
    hasMoreTokens delim arg ↔ pieces delim arg ≠ [] := by
  induction hn : arg.length using Nat.strongRecOn generalizing arg with
  | ind n ih =>
    by_cases hne : arg = []
    · subst hne
      simp [hasMoreTokens, pieces]
    · rw [any_piece, pieces_eq, ih _ (hn ▸ length_piece_lt hne) _ rfl]
      by_cases hfirst : (piece delim arg).1 = [] <;> simp [hfirst]

/-- **`nextToken` takes the first piece**, if there is one. -/
theorem pieces_nextToken (h : hasMoreTokens delim arg) :
    (nextToken delim arg).1 ≠ [] ∧
      pieces delim arg = (nextToken delim arg).1 :: pieces delim (nextToken delim arg).2 := by
  fun_induction nextToken delim arg with
  | case1 arg hskip ih =>
    have hrest := (any_piece delim arg).mp h
    rw [pieces_eq, hskip.1]
    exact ih (hrest.resolve_left fun hne => hne hskip.1)
  | case2 arg hstop =>
    have hfirst : (piece delim arg).1 ≠ [] := by
      intro hnil
      have hend : (piece delim arg).2 = [] := by
        by_contra hne
        exact hstop ⟨hnil, hne⟩
      rcases (any_piece delim arg).mp h with hne | hmore
      · exact hne hnil
      · rw [hend] at hmore
        simp [hasMoreTokens] at hmore
    rw [pieces_eq]
    simp [hfirst]

/-- **The tokens are the pieces.** -/
theorem tokens_eq (delim : Char) (arg : Text) : tokens delim arg = pieces delim arg := by
  fun_induction tokens delim arg with
  | case1 arg hmore ih => rw [(pieces_nextToken hmore).2, ih]
  | case2 arg hnone =>
    by_contra hne
    exact hnone ((hasMoreTokens_iff delim arg).mpr (Ne.symm hne))

end

/-! ## 2. The loop with `int`s -/

/-- The result of a search, stored in an `int`.  `npos` is -1. -/
def position : Option Nat → Int32
  | none => -1
  | some n => Int32.ofNat n

/-- `_nextToken`. -/
def piece32 (delim : Char) (arg : Text) : Text × Text :=
  let n := position (find [delim] arg)
  if n < 0 then (arg, []) else (arg.take n.toInt.toNat, arg.drop (n.toInt.toNat + 1))

theorem length_piece32_lt {delim : Char} {arg : Text} (h : arg ≠ []) :
    (piece32 delim arg).2.length < arg.length := by
  have hpos : 0 < arg.length := List.length_pos_of_ne_nil h
  unfold piece32
  dsimp only
  split
  case isTrue => exact hpos
  case isFalse =>
    rw [List.length_drop]
    omega

/-- `nextToken`. -/
def nextToken32 (delim : Char) (arg : Text) : Text × Text :=
  if _h : (piece32 delim arg).1 = [] ∧ (piece32 delim arg).2 ≠ [] then
    nextToken32 delim (piece32 delim arg).2
  else piece32 delim arg
termination_by arg.length
decreasing_by
  refine length_piece32_lt ?_
  rintro rfl
  exact _h.2 rfl

theorem length_nextToken32_lt {delim : Char} {arg : Text} (h : arg ≠ []) :
    (nextToken32 delim arg).2.length < arg.length := by
  fun_induction nextToken32 delim arg with
  | case1 arg hskip ih => exact (ih hskip.2).trans (length_piece32_lt h)
  | case2 arg hstop => exact length_piece32_lt h

/-- `hasMoreTokens`, by `find_first_not_of`. -/
def hasMoreTokens32 (delim : Char) (arg : Text) : Bool :=
  0 ≤ position (arg.findIdx? (· ≠ delim))

theorem ne_nil_of_hasMoreTokens32 {delim : Char} {arg : Text} (h : hasMoreTokens32 delim arg) :
    arg ≠ [] := by
  rintro rfl
  simp [hasMoreTokens32, position] at h

/-- `while( hasMoreTokens() ) nextToken()`. -/
def tokens32 (delim : Char) (arg : Text) : List Text :=
  if _h : hasMoreTokens32 delim arg then
    (nextToken32 delim arg).1 :: tokens32 delim (nextToken32 delim arg).2
  else []
termination_by arg.length
decreasing_by exact length_nextToken32_lt (ne_nil_of_hasMoreTokens32 _h)

/-! ## 3. Up to `2 ^ 31` characters -/

section
variable {delim : Char} {arg : Text}

/-- A position in a short text is kept. -/
theorem position_of_lt {n : Nat} (h : n < 2 ^ 31) :
    ¬ position (some n) < 0 ∧ (position (some n)).toInt.toNat = n := by
  have htoInt : (position (some n)).toInt = n := Int32.toInt_ofNat_of_lt h
  refine ⟨?_, by rw [htoInt, Int.toNat_natCast]⟩
  rw [Int32.lt_iff_toInt_lt, htoInt]
  exact Int.not_lt.mpr (Int.natCast_nonneg n)

theorem piece32_eq (h : arg.length < 2 ^ 31) : piece32 delim arg = piece delim arg := by
  cases hfind : find [delim] arg with
  | none => rw [piece32, piece, hfind]; rfl
  | some n =>
    have hle := find_le hfind
    obtain ⟨hnonneg, hn⟩ := position_of_lt (n := n) (by omega)
    rw [piece32, piece, hfind, if_neg hnonneg, hn]

theorem nextToken32_eq (h : arg.length < 2 ^ 31) : nextToken32 delim arg = nextToken delim arg := by
  fun_induction nextToken32 delim arg with
  | case1 arg hskip ih =>
    have hne : arg ≠ [] := by
      rintro rfl
      exact hskip.2 rfl
    have hshort : (piece32 delim arg).2.length < arg.length := length_piece32_lt hne
    rw [ih (hshort.trans h), piece32_eq h, nextToken.eq_def delim arg, dif_pos]
    rwa [← piece32_eq h]
  | case2 arg hstop =>
    rw [nextToken, dif_neg, piece32_eq h]
    rwa [← piece32_eq h]

theorem hasMoreTokens32_eq (h : arg.length < 2 ^ 31) :
    hasMoreTokens32 delim arg = hasMoreTokens delim arg := by
  unfold hasMoreTokens32 hasMoreTokens
  cases hfind : arg.findIdx? (· ≠ delim) with
  | none =>
    rw [List.findIdx?_eq_none_iff] at hfind
    rw [List.any_eq_false.mpr fun c hc => by simpa using hfind c hc]
    rfl
  | some n =>
    obtain ⟨hn, hc, -⟩ := List.findIdx?_eq_some_iff_getElem.mp hfind
    have hnonneg := (position_of_lt (n := n) (by omega)).1
    rw [List.any_eq_true.mpr ⟨_, List.getElem_mem hn, hc⟩, decide_eq_true_iff]
    exact Int32.not_lt.mp hnonneg

/-- **The `int` is wide enough.** -/
theorem tokens32_eq (h : arg.length < 2 ^ 31) : tokens32 delim arg = tokens delim arg := by
  fun_induction tokens32 delim arg with
  | case1 arg hmore ih =>
    have hshort : (nextToken32 delim arg).2.length < arg.length :=
      length_nextToken32_lt (ne_nil_of_hasMoreTokens32 hmore)
    rw [ih (hshort.trans h), nextToken32_eq h, tokens.eq_def delim arg, dif_pos]
    rwa [← hasMoreTokens32_eq h]
  | case2 arg hnone =>
    rw [tokens, dif_neg]
    rwa [← hasMoreTokens32_eq h]

end

/-- **The tokenizer goes through the pieces that are not empty.**  For every text that an `int` can
measure the loop over the tokens returns them in order, and whenever `hasMoreTokens` holds
`nextToken` returns one. -/
theorem tokens32_enumerate (delim : Char) (s : Text) (hs : s.length < 2 ^ 31) :
    tokens32 delim s = (s.splitOn delim).filter (fun p => p ≠ []) ∧
      (hasMoreTokens32 delim s → (nextToken32 delim s).1 ≠ []) := by
  constructor
  · rw [tokens32_eq hs, tokens_eq, pieces]
  · intro hmore
    rw [hasMoreTokens32_eq hs] at hmore
    rw [nextToken32_eq hs]
    exact (pieces_nextToken hmore).1

/-- `&a&&b&`. -/
theorem tokens32_enumerate_gaps :
    tokens32 '&' ['&', 'a', '&', '&', 'b', '&'] = [['a'], ['b']] ∧
      (nextToken32 '&' ['&', 'a', '&', '&', 'b', '&']).1 ≠ [] := by
  obtain ⟨htokens, hnext⟩ := tokens32_enumerate '&' ['&', 'a', '&', '&', 'b', '&'] (by decide)
  exact ⟨htokens.trans (by decide), hnext (by decide)⟩

end Iipsrv.Tokenizer
