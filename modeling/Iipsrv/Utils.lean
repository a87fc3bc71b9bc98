/-
# Splitting at a delimiter

`Utils::split` (`Utils.cpp`), which cuts a text at a delimiter of any length, into a number of
strings that may be limited.  The loop keeps the beginning of the rest in an `unsigned int` and
counts the strings in an `int`:

    if (counter == limit) {
      strings.push_back(argument.substr(start, argument.size() - 1));
      return strings;
    }

The second argument of `substr` is a LENGTH.  Behind the first string it is at least that of the
rest, so nothing is lost.  In front of it, with a limit of 1, it is one too few.

`whole_iff` is the exact condition under which the strings put together are the text again: not a
limit of 1 for a text with the delimiter in it, and, without a limit, no more delimiters than the
counter can count.
-/
import Iipsrv.Lib.Signed
import Iipsrv.Lib.Str
import Iipsrv.Lib.While
import Iipsrv.Lib.Word

namespace Iipsrv.Utils

open Lib.Print (Text)
open Lib.Signed (checked checked_of_bounds checked_eq_none)
open Lib.Str Lib.While Lib.Word

/-! ## 1. The loop -/

/-- `s.find(pattern, pos)`. -/
def findFrom (pattern s : Text) (pos : Nat) : Option Nat :=
  (find pattern (s.drop pos)).map (pos + ·)

/-- What the loop carries.  `stop` is the `end` of the source. -/
structure Splitting where
  strings : List Text
  counter : Int
  start : Nat
  stop : Option Nat

/-- One turn.  The result is `none` if `counter` overflows or a `substr` throws. -/
def turn (argument delimiter : Text) (limit : Int32) (st : Splitting) :
    Turn Splitting (Option (List Text)) :=
  match st.stop with
  | none => .leave ((substr argument st.start).map fun last => st.strings ++ [last])
  | some stop =>
    if st.counter = limit.toInt then
      .leave ((substr argument st.start).map fun last =>
        st.strings ++ [last.take (argument.length - 1)])
    else
      match substr argument st.start, checked (st.counter + 1) with
      | some front, some counter =>
        let start := u32 (stop + delimiter.length)
        .next ⟨st.strings ++ [front.take (stop - st.start)], counter, start,
          findFrom delimiter argument start⟩
      | _, _ => .leave none

/-- The state in front of the loop. -/
def begin (argument delimiter : Text) : Splitting := ⟨[], 1, 0, findFrom delimiter argument 0⟩

/-- `split` ends with this result. -/
def Splits (argument delimiter : Text) (limit : Int32) (result : Option (List Text)) : Prop :=
  Ends (turn argument delimiter limit) (begin argument delimiter) result

/-! ## 2. What the loop has done -/

/-- The strings so far, each with a delimiter behind it, and the rest from `start` on make up the
text. -/
structure Reached (s : Text) (c : Char) (sep : Text) (st : Splitting) : Prop where
  start_le : st.start ≤ s.length
  stop : st.stop = findFrom (c :: sep) s st.start
  counter : st.counter = st.strings.length + 1
  front : st.strings.flatMap (· ++ (c :: sep)) ++ s.drop st.start = s
  clean : ∀ p ∈ st.strings, ¬ (c :: sep) <:+: p
  pieces : Lib.Str.split c sep s = st.strings ++ Lib.Str.split c sep (s.drop st.start)

section
variable {s : Text} {c : Char} {sep : Text} {limit : Int32} {st : Splitting}

theorem reached_begin (s : Text) (c : Char) (sep : Text) :
    Reached s c sep (begin s (c :: sep)) where
  start_le := Nat.zero_le _
  stop := rfl
  counter := rfl
  front := rfl
  clean := fun _ hp => absurd hp List.not_mem_nil
  pieces := rfl

theorem Reached.substr (h : Reached s c sep st) :
    Lib.Str.substr s st.start = some (s.drop st.start) := if_pos h.start_le

/-- The delimiters that are left. -/
theorem Reached.counted (h : Reached s c sep st) :
    occurrences c sep s = st.strings.length + occurrences c sep (s.drop st.start) := by
  have hlength := congrArg List.length h.pieces
  rw [List.length_append, length_split, length_split] at hlength
  omega

/-- Behind the first string the rest is shorter than the text. -/
theorem Reached.start_pos (h : Reached s c sep st) (hne : st.strings ≠ []) : 0 < st.start := by
  have hlength := congrArg List.length h.front
  obtain ⟨p, ps, hps⟩ := List.exists_cons_of_ne_nil hne
  rw [hps, List.flatMap_cons] at hlength
  simp only [List.length_append, List.length_cons, List.length_drop] at hlength
  have := h.start_le
  omega

/-- **One turn** cuts off the next string. -/
theorem Reached.next (h : Reached s c sep st) (hs : s.length < 2 ^ 32) {i : Nat}
    (hfind : find (c :: sep) (s.drop st.start) = some i) (hlimit : st.counter ≠ limit.toInt)
    (hcounter : st.counter + 1 < 2 ^ 31) :
    ∃ st', turn s (c :: sep) limit st = .next st' ∧ Reached s c sep st' ∧
      st'.counter = st.counter + 1 ∧ st.start < st'.start := by
  have hle := find_le hfind
  rw [List.length_drop, List.length_cons] at hle
  have hstart := h.start_le
  have hstop : st.stop = some (st.start + i) := by rw [h.stop, findFrom, hfind]; rfl
  have hlong : u32 (st.start + i + (c :: sep).length) = st.start + i + (c :: sep).length :=
    u32_of_lt (by rw [List.length_cons]; omega)
  have hchecked : checked (st.counter + 1) = some (st.counter + 1) :=
    checked_of_bounds (by rw [h.counter]; omega) hcounter
  have hwidth : st.start + i - st.start = i := by omega
  have hdrop : s.drop (st.start + i + (c :: sep).length) =
      (s.drop st.start).drop (i + (c :: sep).length) := by
    rw [List.drop_drop, Nat.add_assoc]
  refine ⟨⟨st.strings ++ [(s.drop st.start).take i], st.counter + 1,
    st.start + i + (c :: sep).length, findFrom (c :: sep) s (st.start + i + (c :: sep).length)⟩,
    ?_, ⟨?_, rfl, ?_, ?_, ?_, ?_⟩, rfl, ?_⟩
  · simp only [turn, hstop, if_neg hlimit, h.substr, hchecked, hlong, hwidth]
  · simp only [List.length_cons]
    omega
  · simp only [h.counter, List.length_append, List.length_singleton, Nat.cast_add, Nat.cast_one]
  · simp only [List.flatMap_append, List.flatMap_singleton, hdrop, List.append_assoc]
    rw [find_spec hfind]
    exact h.front
  · intro p hp
    rcases List.mem_append.mp hp with hp | hp
    · exact h.clean p hp
    · rw [List.mem_singleton.mp hp]
      exact not_infix_take_of_find hfind
  · simp only [h.pieces, split_of_some hfind, hdrop, List.append_assoc, List.singleton_append]
  · simp only [List.length_cons]
    omega

/-- Without another delimiter the rest is the last string. -/
theorem Reached.leave (h : Reached s c sep st) (hfind : find (c :: sep) (s.drop st.start) = none) :
    turn s (c :: sep) limit st = .leave (some (st.strings ++ [s.drop st.start])) := by
  have hstop : st.stop = none := by rw [h.stop, findFrom, hfind]; rfl
  simp only [turn, hstop, h.substr, Option.map_some]

/-- At the limit a part of the rest is. -/
theorem Reached.leave_at_limit (h : Reached s c sep st) {i : Nat}
    (hfind : find (c :: sep) (s.drop st.start) = some i) (hlimit : st.counter = limit.toInt) :
    turn s (c :: sep) limit st =
      .leave (some (st.strings ++ [(s.drop st.start).take (s.length - 1)])) := by
  have hstop : st.stop = some (st.start + i) := by rw [h.stop, findFrom, hfind]; rfl
  simp only [turn, hstop, if_pos hlimit, h.substr, Option.map_some]

/-- The counter overflows. -/
theorem Reached.leave_at_overflow (h : Reached s c sep st) {i : Nat}
    (hfind : find (c :: sep) (s.drop st.start) = some i) (hlimit : st.counter ≠ limit.toInt)
    (hcounter : 2 ^ 31 ≤ st.counter + 1) : turn s (c :: sep) limit st = .leave none := by
  have hstop : st.stop = some (st.start + i) := by rw [h.stop, findFrom, hfind]; rfl
  simp only [turn, hstop, if_neg hlimit, h.substr, checked_eq_none hcounter]

/-! ## 3. What `split` returns -/

/-- The strings make up the text, only the last one may contain the delimiter, and there are as
many as there should be. -/
structure Whole (s : Text) (c : Char) (sep : Text) (limit : Int32) (strings : List Text) :
    Prop where
  join : (c :: sep).intercalate strings = s
  clean : ∀ p ∈ strings.dropLast, ¬ (c :: sep) <:+: p
  unlimited : limit = -1 → strings.length = occurrences c sep s + 1
  limited : limit ≠ -1 → (strings.length : Int) ≤ limit.toInt

/-- The strings that have been cut off and the rest. -/
theorem Reached.whole (h : Reached s c sep st)
    (hunlimited : limit = -1 → occurrences c sep (s.drop st.start) = 0)
    (hlimited : limit ≠ -1 → st.counter ≤ limit.toInt) :
    Whole s c sep limit (st.strings ++ [s.drop st.start]) where
  join := by rw [intercalate_append_singleton, h.front]
  clean := by
    rw [List.dropLast_concat]
    exact h.clean
  unlimited := fun hlimit => by
    rw [List.length_append, List.length_singleton, h.counted, hunlimited hlimit, Nat.add_zero]
  limited := fun hlimit => by
    have := hlimited hlimit
    rw [h.counter] at this
    rw [List.length_append, List.length_singleton]
    exact_mod_cast this

/-- **Without a limit** all strings are found, as long as they can be counted. -/
theorem splits_unlimited (hs : s.length < 2 ^ 32) :
    ∃ result, Splits s (c :: sep) (-1) result ∧
      (occurrences c sep s + 1 < 2 ^ 31 → result = some (Lib.Str.split c sep s) ∧
        Whole s c sep (-1) (Lib.Str.split c sep s)) ∧
      (2 ^ 31 ≤ occurrences c sep s + 1 → result = none) := by
  refine ends_of_variant
    (fun st => Reached s c sep st ∧ st.counter < 2 ^ 31) (fun st => s.length - st.start) ?_
    ⟨reached_begin s c sep, (by decide : (1 : Int) < 2 ^ 31)⟩
  rintro st ⟨h, hcounter⟩
  have hminus : ((-1 : Int32)).toInt = -1 := rfl
  have hlimit : st.counter ≠ (-1 : Int32).toInt := by
    rw [hminus, h.counter]
    omega
  have hcount := h.counted
  cases hfind : find (c :: sep) (s.drop st.start) with
  | none =>
    have hnone := occurrences_of_none hfind
    rw [h.pieces, split_of_none hfind]
    refine .inl ⟨_, h.leave hfind, fun _ => ⟨rfl, h.whole (fun _ => hnone) ?_⟩, fun hmany => ?_⟩
    · exact fun hne => absurd rfl hne
    · rw [h.counter] at hcounter
      omega
  | some i =>
    have hsome := occurrences_of_some hfind
    by_cases hmore : st.counter + 1 < 2 ^ 31
    · obtain ⟨st', hturn, h', hcounter', hlt⟩ := h.next hs hfind hlimit hmore
      have := h'.start_le
      exact .inr ⟨st', hturn, ⟨h', by omega⟩, by omega⟩
    · refine .inl ⟨none, h.leave_at_overflow hfind hlimit (by omega), fun hfew => ?_, fun _ => rfl⟩
      rw [h.counter] at hmore
      omega

/-- In front of the first string the rest is the text. -/
theorem Reached.rest_eq (h : Reached s c sep st) (hcounter : st.counter ≤ 1) :
    st.strings = [] ∧ s.drop st.start = s := by
  have hnil : st.strings = [] := by
    rw [h.counter] at hcounter
    exact List.length_eq_zero_iff.mp (by omega)
  have hfront := h.front
  rw [hnil] at hfront
  exact ⟨hnil, hfront⟩

theorem toInt_eq_one_iff : limit = 1 ↔ limit.toInt = 1 := Int32.toInt_inj.symm

/-- **With a limit** the last string is the rest, unless there is no other. -/
theorem splits_limited (hs : s.length < 2 ^ 32) (hlimit : 1 ≤ limit.toInt) :
    ∃ result, Splits s (c :: sep) limit result ∧ ∃ strings, result = some strings ∧
      (¬ (limit = 1 ∧ (c :: sep) <:+: s) → Whole s c sep limit strings) ∧
      (limit = 1 ∧ (c :: sep) <:+: s → strings = [s.take (s.length - 1)]) := by
  refine ends_of_variant
    (fun st => Reached s c sep st ∧ st.counter ≤ limit.toInt) (fun st => s.length - st.start) ?_
    ⟨reached_begin s c sep, hlimit⟩
  rintro st ⟨h, hcounter⟩
  have hne : limit ≠ -1 := by
    rintro rfl
    exact absurd hlimit (by decide)
  have hwhole := h.whole (fun hminus => absurd hminus hne) fun _ => hcounter
  cases hfind : find (c :: sep) (s.drop st.start) with
  | none =>
    refine .inl ⟨_, h.leave hfind, _, rfl, fun _ => hwhole, ?_⟩
    rintro ⟨hone, hin⟩
    obtain ⟨-, hrest⟩ := h.rest_eq (hcounter.trans (toInt_eq_one_iff.mp hone).le)
    rw [hrest] at hfind
    exact absurd hin (find_eq_none_iff.mp hfind)
  | some i =>
    by_cases hat : st.counter = limit.toInt
    · refine .inl ⟨_, h.leave_at_limit hfind hat, _, rfl, fun hlater => ?_, ?_⟩
      · -- behind the first string `argument.size() - 1` is long enough
        have hmore : st.strings ≠ [] := by
          intro hnil
          have hone : limit.toInt = 1 := by rw [← hat, h.counter, hnil]; rfl
          obtain ⟨-, hrest⟩ := h.rest_eq (hat.trans hone).le
          rw [hrest] at hfind
          refine hlater ⟨toInt_eq_one_iff.mpr hone, ?_⟩
          by_contra hin
          rw [find_eq_none_iff.mpr hin] at hfind
          cases hfind
        have hpos := h.start_pos hmore
        rw [List.take_of_length_le (by rw [List.length_drop]; omega)]
        exact hwhole
      · rintro ⟨hone, -⟩
        obtain ⟨hnil, hrest⟩ := h.rest_eq (hcounter.trans (toInt_eq_one_iff.mp hone).le)
        rw [hnil, hrest, List.nil_append]
    · have hbound := Int32.toInt_lt limit
      obtain ⟨st', hturn, h', hcounter', hlt⟩ := h.next hs hfind hat (by omega)
      have := h'.start_le
      exact .inr ⟨st', hturn, ⟨h', by omega⟩, by omega⟩

/-- **When splitting loses nothing.**  `split` returns, and its strings are as they should be,
exactly if the limit is not 1 for a text that contains the delimiter and, without a limit, the
strings can be counted in an `int`. -/
theorem whole_iff (s : Text) (c : Char) (sep : Text) (limit : Int32) (hs : s.length < 2 ^ 32)
    (hlimit : limit = -1 ∨ 1 ≤ limit.toInt) :
    (∃ strings, Splits s (c :: sep) limit (some strings) ∧ Whole s c sep limit strings) ↔
      ¬ (limit = 1 ∧ (c :: sep) <:+: s) ∧
        (limit = -1 → occurrences c sep s + 1 < 2 ^ 31) := by
  rcases hlimit with rfl | hlimit
  · obtain ⟨result, hsplits, hfew, hmany⟩ := @splits_unlimited s c sep hs
    constructor
    · rintro ⟨strings, hstrings, -⟩
      refine ⟨fun hone => absurd hone.1 (by decide), fun _ => ?_⟩
      by_contra hover
      rw [hmany (by omega)] at hsplits
      cases hsplits.unique hstrings
    · rintro ⟨-, hcount⟩
      obtain ⟨rfl, hwhole⟩ := hfew (hcount rfl)
      exact ⟨_, hsplits, hwhole⟩
  · obtain ⟨result, hsplits, strings, rfl, hwhole, hcut⟩ :=
      @splits_limited s c sep limit hs hlimit
    constructor
    · rintro ⟨strings', hstrings', hwhole'⟩
      cases hsplits.unique hstrings'
      refine ⟨fun hone => ?_, ?_⟩
      · -- the last character is missing
        have hjoin := congrArg List.length hwhole'.join
        have hpos := hone.2.length_le
        rw [hcut hone, List.intercalate_singleton, List.length_take] at hjoin
        rw [List.length_cons] at hpos
        omega
      · rintro rfl
        exact absurd hlimit (by decide)
    · rintro ⟨hlater, -⟩
      exact ⟨strings, hsplits, hwhole hlater⟩

end

/-- `a,b,c` in two strings. -/
theorem whole_iff_two :
    ∃ strings, Splits ['a', ',', 'b', ',', 'c'] [','] 2 (some strings) ∧
      Whole ['a', ',', 'b', ',', 'c'] ',' [] 2 strings :=
  (whole_iff _ ',' [] 2 (by decide) (.inr (by decide))).mpr ⟨by decide, by decide⟩

/-- In one string `a,b` loses its last character. -/
theorem one_string_cut :
    Splits ['a', ',', 'b'] [','] 1 (some [['a', ',']]) ∧
      [','].intercalate [['a', ',']] ≠ ['a', ',', 'b'] :=
  ⟨Ends.of_iterate (n := 1) rfl, by decide⟩

end Iipsrv.Utils
