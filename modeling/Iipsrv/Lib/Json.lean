/-
# JSON strings

What a text between two double quotes means in JSON.  A text is a list of bytes, each of them a
character below 256.

* A character that is neither a quote nor a backslash nor a control character stands for itself.
* A backslash and one of `"\/bfnrt` stand for a character.
* A backslash, a `u` and four hexadecimal digits stand for the UTF-8 bytes of a code point; behind
  the first half of a surrogate pair there must be the second.

`unit` reads one of these, `value` all of them.  A text that is not well formed has no value.

The library names nothing of the server.
-/
import Iipsrv.Lib.Print

namespace Lib.Json

open Lib.Print (Text)

/-! ## 1. Units -/

/-- What a letter behind a backslash stands for. -/
def shortEscape (c : Char) : Option Char :=
  [('"', '"'), ('\\', '\\'), ('/', '/'), ('b', '\x08'), ('f', '\x0c'), ('n', '\n'), ('r', '\r'),
    ('t', '\t')].lookup c

def hexDigit (c : Char) : Option Nat :=
  if '0' ≤ c ∧ c ≤ '9' then some (c.toNat - 48)
  else if 'a' ≤ c ∧ c ≤ 'f' then some (c.toNat - 87)
  else if 'A' ≤ c ∧ c ≤ 'F' then some (c.toNat - 55)
  else none

/-- The number of four hexadecimal digits. -/
def codeUnit : Text → Option Nat
  | [a, b, c, d] => do
    let a ← hexDigit a
    let b ← hexDigit b
    let c ← hexDigit c
    let d ← hexDigit d
    return ((a * 16 + b) * 16 + c) * 16 + d
  | _ => none

/-- The bytes of a code point. -/
def utf8 (n : Nat) : Text :=
  (String.utf8EncodeChar (Char.ofNat n)).map fun b => Char.ofNat b.toNat

/-- A code point, from behind the `u`. -/
def codePoint (s : Text) : Option (Text × Text) := do
  let first ← codeUnit (s.take 4)
  if 0xD800 ≤ first ∧ first < 0xDC00 then
    let second ← codeUnit ((s.drop 6).take 4)
    if (s.drop 4).take 2 = ['\\', 'u'] ∧ 0xDC00 ≤ second ∧ second < 0xE000 then
      some (utf8 (0x10000 + (first - 0xD800) * 0x400 + (second - 0xDC00)), s.drop 10)
    else none
  else if 0xDC00 ≤ first ∧ first < 0xE000 then none
  else some (utf8 first, s.drop 4)

/-- What stands behind a backslash. -/
def escaped : Text → Option (Text × Text)
  | [] => none
  | e :: s => if e = 'u' then codePoint s else (shortEscape e).map fun d => ([d], s)

/-- What the first unit stands for, and the text behind it. -/
def unit : Text → Option (Text × Text)
  | [] => none
  | c :: s =>
    if c = '\\' then escaped s
    else if c = '"' ∨ c.toNat < 0x20 then none
    else some ([c], s)

theorem length_codePoint_le {s v rest : Text} (h : codePoint s = some (v, rest)) :
    rest.length ≤ s.length := by
  unfold codePoint at h
  obtain ⟨first, -, h⟩ := Option.bind_eq_some_iff.mp h
  split at h
  · obtain ⟨second, -, h⟩ := Option.bind_eq_some_iff.mp h
    split at h
    · rw [← (Prod.mk.inj (Option.some.inj h)).2]
      exact (List.drop_suffix 10 s).length_le
    · cases h
  · split at h
    · cases h
    · rw [← (Prod.mk.inj (Option.some.inj h)).2]
      exact (List.drop_suffix 4 s).length_le

theorem length_escaped_le {s v rest : Text} (h : escaped s = some (v, rest)) :
    rest.length ≤ s.length := by
  cases s with
  | nil => cases h
  | cons e s =>
    rw [escaped] at h
    rw [List.length_cons]
    split at h
    · exact Nat.le_succ_of_le (length_codePoint_le h)
    · obtain ⟨d, -, hd⟩ := Option.map_eq_some_iff.mp h
      cases hd
      exact Nat.le_succ _

theorem length_unit_lt {s v rest : Text} (h : unit s = some (v, rest)) :
    rest.length < s.length := by
  cases s with
  | nil => cases h
  | cons c s =>
    rw [unit] at h
    rw [List.length_cons]
    split at h
    · exact Nat.lt_succ_of_le (length_escaped_le h)
    · split at h
      · cases h
      · cases h
        exact Nat.lt_succ_self _

/-! ## 2. Values -/

/-- The value of the text between two quotes. -/
def value (s : Text) : Option Text :=
  if s = [] then some []
  else
    match _h : unit s with
    | none => none
    | some (v, rest) => (value rest).map (v ++ ·)
termination_by s.length
decreasing_by exact length_unit_lt _h

theorem value_nil : value [] = some [] := by
  rw [value, if_pos rfl]

theorem value_of_unit {s v rest : Text} (h : unit s = some (v, rest)) :
    value s = (value rest).map (v ++ ·) := by
  have hne : s ≠ [] := by
    rintro rfl
    cases h
  rw [value, if_neg hne]
  split
  case h_1 hnone => rw [h] at hnone; cases hnone
  case h_2 v' rest' hsome =>
    rw [h] at hsome
    cases hsome
    rfl

theorem value_of_unit_none {s : Text} (hne : s ≠ []) (h : unit s = none) : value s = none := by
  rw [value, if_neg hne]
  split
  case h_1 => rfl
  case h_2 v rest hsome => rw [h] at hsome; cases hsome

/-- A unit that stands for one character. -/
theorem value_of_single {s rest : Text} {c : Char} (h : unit s = some ([c], rest)) :
    value s = (value rest).map (c :: ·) := value_of_unit h

/-- A character that stands for itself. -/
theorem value_cons {c : Char} (hquote : c ≠ '"') (hbackslash : c ≠ '\\') (hcontrol : 0x20 ≤ c.toNat)
    (s : Text) : value (c :: s) = (value s).map (c :: ·) := by
  refine value_of_single ?_
  rw [unit, if_neg hbackslash, if_neg]
  rintro (hc | hc)
  · exact hquote hc
  · omega

/-- A control character is not allowed. -/
theorem value_control {c : Char} (h : c.toNat < 0x20) (s : Text) : value (c :: s) = none := by
  refine value_of_unit_none (List.cons_ne_nil c s) ?_
  have hbackslash : c ≠ '\\' := by
    rintro rfl
    exact absurd h (by decide)
  rw [unit, if_neg hbackslash, if_pos (.inr h)]

theorem value_shortEscape {e d : Char} (hu : e ≠ 'u') (h : shortEscape e = some d) (s : Text) :
    value ('\\' :: e :: s) = (value s).map (d :: ·) := by
  refine value_of_single ?_
  rw [unit, if_pos rfl, escaped, if_neg hu, h]
  rfl

end Lib.Json
