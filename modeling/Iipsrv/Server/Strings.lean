/-
# Strings of a request

The two helpers that take a request apart: `Tokenizer` (`Tokenizer.h`), which cuts at a
delimiter and skips empty pieces, and `URL` (`URL.h`), which decodes percent-encoded characters.
With them the filter of `FIF.cc` for `../`.

A character is a byte.
-/
import Iipsrv.Lib.Str

namespace Iipsrv

open Lib.Print (Text)
open Lib.Str

/-! ## 1. Tokenizer -/

namespace Tokenizer

/-- `_nextToken`: up to the delimiter, and what is left behind it. -/
def piece (delim : Char) (arg : Text) : Text × Text :=
  match find [delim] arg with
  | none => (arg, [])
  | some n => (arg.take n, arg.drop (n + 1))

/-- What is left is shorter. -/
theorem length_piece_lt {delim : Char} {arg : Text} (h : arg ≠ []) :
    (piece delim arg).2.length < arg.length := by
  have hpos : 0 < arg.length := List.length_pos_of_ne_nil h
  unfold piece
  split
  case h_1 => exact hpos
  case h_2 n hn =>
    have := find_le hn
    rw [List.length_singleton] at this
    rw [List.length_drop]
    omega

/-- `nextToken`: skip empty pieces, unless nothing is left. -/
def nextToken (delim : Char) (arg : Text) : Text × Text :=
  if _h : (piece delim arg).1 = [] ∧ (piece delim arg).2 ≠ [] then
    nextToken delim (piece delim arg).2
  else piece delim arg
termination_by arg.length
decreasing_by
  refine length_piece_lt ?_
  rintro rfl
  exact _h.2 rfl

/-- `hasMoreTokens`: a character that is not the delimiter. -/
def hasMoreTokens (delim : Char) (arg : Text) : Bool := arg.any (· ≠ delim)

theorem length_nextToken_lt {delim : Char} {arg : Text} (h : arg ≠ []) :
    (nextToken delim arg).2.length < arg.length := by
  fun_induction nextToken delim arg with
  | case1 arg hskip ih => exact (ih hskip.2).trans (length_piece_lt h)
  | case2 arg hstop => exact length_piece_lt h

/-- All tokens: `nextToken` as long as `hasMoreTokens`. -/
def tokens (delim : Char) (arg : Text) : List Text :=
  if _h : hasMoreTokens delim arg then
    (nextToken delim arg).1 :: tokens delim (nextToken delim arg).2
  else []
termination_by arg.length
decreasing_by
  refine length_nextToken_lt ?_
  rintro rfl
  exact absurd _h Bool.false_ne_true

/-- A text without the delimiter is one token. -/
theorem tokens_of_not_mem {delim : Char} {arg : Text} (hne : arg ≠ []) (h : delim ∉ arg) :
    tokens delim arg = [arg] := by
  have hpiece : piece delim arg = (arg, []) := by
    have hnone : find [delim] arg = none :=
      find_eq_none_iff.mpr fun hin => h ((List.singleton_infix_iff delim arg).mp hin)
    rw [piece, hnone]
  have hnext : nextToken delim arg = (arg, []) := by
    rw [nextToken, dif_neg (by simp [hpiece]), hpiece]
  have hmore : hasMoreTokens delim arg := by
    obtain ⟨c, s, rfl⟩ := List.exists_cons_of_ne_nil hne
    have hc : c ≠ delim := fun hc => h (hc ▸ List.mem_cons_self)
    simp [hasMoreTokens, hc]
  have hend : tokens delim [] = [] := by
    rw [tokens, dif_neg (by simp [hasMoreTokens])]
  rw [tokens, dif_pos hmore, hnext, hend]

end Tokenizer

/-! ## 2. URL -/

namespace URL

def isxdigit (c : Char) : Bool :=
  c.isDigit || ('a' ≤ c && c ≤ 'f') || ('A' ≤ c && c ≤ 'F')

/-- The value of a hexadecimal digit. -/
def hexDigit (c : Char) : Nat :=
  if 'A' ≤ c then (c.toNat &&& 0xDF) - 'A'.toNat + 10 else c.toNat - '0'.toNat

def hexToChar (first second : Char) : Char := Char.ofNat (hexDigit first * 16 + hexDigit second)

/-- `decode`.  An embedded NUL is dropped; a `%` that is not followed by two digits is passed
through. -/
def decode : Text → Text
  | [] => []
  | '+' :: s => ' ' :: decode s
  | '%' :: a :: b :: s =>
    if isxdigit a ∧ isxdigit b then
      if a = '0' ∧ b = '0' then decode s else hexToChar a b :: decode s
    else '%' :: decode (a :: b :: s)
  | c :: s => c :: decode s

/-- `escape`, for JSON. -/
def escape (url : Text) : Text :=
  (decode url).flatMap fun c =>
    if c = '\\' then ['\\', '\\']
    else if c = '"' then ['\\', '"']
    else if c = '%' then ['%', '%']
    else [c]

end URL

/-! ## 3. The path of an image -/

/-- Filter out any `../` to prevent users by-passing any file system prefix. -/
def filterParents (path : Text) : Text :=
  match _h : find ['.', '.', '/'] path with
  | none => path
  | some n => filterParents (path.take n ++ path.drop (n + 3))
termination_by path.length
decreasing_by
  have := find_le _h
  rw [List.length_append, List.length_take, List.length_drop]
  simp only [List.length_cons, List.length_nil] at this
  omega

/-- The path that `FIF` looks up. -/
def imagePath (src : Text) : Text := filterParents (URL.decode src)

/-- `transform( …, ::tolower )`. -/
def tolower (s : Text) : Text := s.map Char.toLower

/-- The two parts of a text before and behind a character.  Without the character both are the
whole text: `npos` ends the first, and `npos + 1` begins the second. -/
def cutAt (c : Char) (s : Text) : Text × Text :=
  (upTo s (find [c] s), s.drop (next (find [c] s)))

/-- Whether a rotation begins with a `!`, and what is behind it. -/
def mirrored (s : Text) : Bool × Text :=
  if s.take 1 = ['!'] then (true, s.drop 1) else (false, s)

end Iipsrv
