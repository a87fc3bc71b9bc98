/-
# Searching in strings

The searches of `std::string`, and what they find in a text that has been put together from
known pieces.

* `find`, `rfind`: the first and the last position of a pattern (`none` is `npos`);
* `substr`, `upTo`, `next`: the ways positions are used;
* `split`, `occurrences`: the pieces between separators, and how many separators there are;
* `atoi`: the number at the beginning of a text.

A search finds the piece that has been put there if the pattern occurs nowhere before (or
behind) it, not even across a joint.  `not_infix_joint` and `rest_of_occurrence` decide that by
single characters: a character that is not in the pattern cannot be inside an occurrence, and an
occurrence begins with the first character of the pattern.
-/
import Iipsrv.Lib.Print

namespace Lib.Str

open Lib.Print (Text)

section

variable {α : Type*}

/-! ## 1. Occurrences across a joint -/

/-- **An occurrence does not reach across a character that is not in the pattern.** -/
theorem not_infix_joint {pat a b : List α} {c : α} (hc : c ∉ pat) (ha : ¬ pat <:+: a)
    (hb : ¬ pat <:+: b) : ¬ pat <:+: a ++ c :: b := by
  rw [List.infix_append_iff]
  rintro (hin | hin | ⟨l, r, rfl, hl, hr⟩)
  · exact ha hin
  · rcases List.infix_cons_iff.mp hin with hfront | hin
    · cases pat with
      | nil => exact ha (List.nil_infix)
      | cons d p =>
        obtain rfl := (List.cons_prefix_cons.mp hfront).1
        exact hc List.mem_cons_self
    · exact hb hin
  · cases r with
    | nil =>
      rw [List.append_nil] at ha
      exact ha hl.isInfix
    | cons d r =>
      obtain rfl := (List.cons_prefix_cons.mp hr).1
      exact hc (List.mem_append_right l List.mem_cons_self)

/-- **An occurrence begins with the first character of the pattern.**  If there is only one such
character, the rest of the pattern stands behind it. -/
theorem rest_of_occurrence {c : α} {p a b : List α} (ha : c ∉ a) (hb : c ∉ b)
    (h : (c :: p) <:+: a ++ c :: b) : p <+: b := by
  induction a with
  | nil =>
    rcases List.infix_cons_iff.mp h with hfront | hin
    · exact (List.cons_prefix_cons.mp hfront).2
    · exact absurd (hin.subset List.mem_cons_self) hb
  | cons d a ih =>
    rw [List.mem_cons, not_or] at ha
    rcases List.infix_cons_iff.mp h with hfront | hin
    · exact absurd (List.cons_prefix_cons.mp hfront).1 ha.1
    · exact ih ha.2 hin

/-- A pattern is not in a text that is made up of pieces without it. -/
theorem not_infix_intercalate {c : α} {pat : List α} (hpat : pat ≠ []) (hc : c ∉ pat)
    {pieces : List (List α)} (h : ∀ p ∈ pieces, ¬ pat <:+: p) :
    ¬ pat <:+: List.intercalate [c] pieces := by
  induction pieces with
  | nil => simpa using hpat
  | cons p ps ih =>
    have hp := h p List.mem_cons_self
    cases ps with
    | nil => simpa using hp
    | cons q qs =>
      rw [List.intercalate_cons_cons, List.append_assoc]
      exact not_infix_joint hc hp (ih fun x hx => h x (List.mem_cons_of_mem p hx))

/-- Pieces that each end with the separator, and a last one. -/
theorem intercalate_append_singleton (sep : List α) (pieces : List (List α)) (last : List α) :
    sep.intercalate (pieces ++ [last]) = pieces.flatMap (· ++ sep) ++ last := by
  induction pieces with
  | nil => simp
  | cons p ps ih =>
    obtain ⟨q, qs, hqs⟩ := List.exists_cons_of_ne_nil (List.append_ne_nil_of_right_ne_nil ps
      (List.cons_ne_nil last []))
    rw [List.cons_append, hqs, List.intercalate_cons_cons, ← hqs, ih, List.flatMap_cons,
      List.append_assoc (p ++ sep)]

/-! ## 2. Cutting -/

/-- `pos + 1`, where `npos + 1` is 0. -/
def next : Option Nat → Nat
  | none => 0
  | some i => i + 1

/-- `s.substr(0, pos)`. -/
def upTo (s : List α) : Option Nat → List α
  | none => s
  | some i => s.take i

/-- `s.substr(pos)`, which throws if `pos` is behind the end. -/
def substr (s : List α) (pos : Nat) : Option (List α) :=
  if pos ≤ s.length then some (s.drop pos) else none

theorem substr_append (u v : List α) : substr (u ++ v) u.length = some v := by
  rw [substr, if_pos (by simp), List.drop_left]

theorem drop_append_cons (u v : List α) (c : α) : (u ++ c :: v).drop (u.length + 1) = v := by
  rw [← List.drop_drop, List.drop_left, List.drop_one, List.tail_cons]

/-! ## 3. Searches -/

variable [DecidableEq α]

/-- `s.find(pat)`. -/
def find (pat : List α) : List α → Option Nat
  | [] => if pat = [] then some 0 else none
  | c :: s => if pat <+: c :: s then some 0 else (find pat s).map (· + 1)

/-- `s.rfind(pat)`; for a single character also `s.find_last_of(pat)`. -/
def rfind (pat : List α) : List α → Option Nat
  | [] => if pat = [] then some 0 else none
  | c :: s =>
    match rfind pat s with
    | some i => some (i + 1)
    | none => if pat <+: c :: s then some 0 else none

theorem find_eq_none_iff {pat s : List α} : find pat s = none ↔ ¬ pat <:+: s := by
  induction s with
  | nil => simp [find]
  | cons c s ih =>
    rw [find, List.infix_cons_iff, not_or, ← ih]
    split <;> simp_all

theorem rfind_eq_none_iff {pat s : List α} : rfind pat s = none ↔ ¬ pat <:+: s := by
  induction s with
  | nil => simp [rfind]
  | cons c s ih =>
    rw [rfind, List.infix_cons_iff, not_or, ← ih]
    cases rfind pat s <;> simp

/-- A pattern at the front is found there. -/
theorem find_front {pat s : List α} (h : pat <+: s) : find pat s = some 0 := by
  cases s with
  | nil => rw [find, if_pos (List.prefix_nil.mp h)]
  | cons c s => rw [find, if_pos h]

/-- The first occurrence is the one that has been put there. -/
theorem find_append {pat u v : List α} (h : ∀ w, w <:+ u → w ≠ [] → ¬ pat <+: w ++ (pat ++ v)) :
    find pat (u ++ (pat ++ v)) = some u.length := by
  induction u with
  | nil => exact find_front (List.prefix_append pat v)
  | cons c u ih =>
    have hhead : ¬ pat <+: c :: (u ++ (pat ++ v)) :=
      h (c :: u) (List.suffix_refl _) (List.cons_ne_nil c u)
    rw [List.cons_append, find, if_neg hhead,
      ih fun w hw => h w (hw.trans (List.suffix_cons c u))]
    rfl

/-- The last occurrence is the one that has been put there. -/
theorem rfind_append {c : α} {p u v : List α} (h : ¬ (c :: p) <:+: p ++ v) :
    rfind (c :: p) (u ++ (c :: p ++ v)) = some u.length := by
  induction u with
  | nil =>
    rw [List.nil_append, List.cons_append, rfind, rfind_eq_none_iff.mpr h]
    exact if_pos (List.prefix_append (c :: p) v)
  | cons d u ih => rw [List.cons_append, rfind, ih, List.length_cons]

theorem rfind_single {c : α} {u v : List α} (h : c ∉ v) :
    rfind [c] (u ++ c :: v) = some u.length :=
  rfind_append (p := []) (fun hin => h ((List.singleton_infix_iff c v).mp hin))

/-- A character is found at its last occurrence. -/
theorem append_of_rfind_single {c : α} {s : List α} {pos : Nat} (h : rfind [c] s = some pos) :
    s = s.take pos ++ c :: s.drop (pos + 1) ∧ c ∉ s.drop (pos + 1) := by
  induction s generalizing pos with
  | nil => simp [rfind] at h
  | cons d s ih =>
    rw [rfind] at h
    cases hs : rfind [c] s with
    | some i =>
      rw [hs] at h
      obtain rfl := Option.some.inj h
      obtain ⟨heq, hnot⟩ := ih hs
      rw [List.take_succ_cons, List.drop_succ_cons, List.cons_append, ← heq]
      exact ⟨rfl, hnot⟩
    | none =>
      rw [hs] at h
      dsimp only at h
      split at h
      case isTrue hfront =>
        obtain rfl := Option.some.inj h
        obtain rfl : c = d := (List.cons_prefix_cons.mp hfront).1
        have hnot := rfind_eq_none_iff.mp hs
        rw [List.singleton_infix_iff] at hnot
        exact ⟨rfl, hnot⟩
      case isFalse => cases h

theorem exists_rfind_single {c : α} {s : List α} (h : c ∈ s) : ∃ pos, rfind [c] s = some pos := by
  rw [← Option.ne_none_iff_exists', ne_eq, rfind_eq_none_iff, not_not, List.singleton_infix_iff]
  exact h

theorem lt_length_of_rfind_single {c : α} {s : List α} {pos : Nat} (h : rfind [c] s = some pos) :
    pos < s.length := by
  have hlength := congrArg List.length (append_of_rfind_single h).1
  rw [List.length_append, List.length_cons, List.length_take, List.length_drop] at hlength
  omega

/-- The first occurrence, if the first character of the pattern does not come again in it: an
earlier occurrence cannot overlap the one that has been put there. -/
theorem find_append_of_head {c : α} {p u v : List α} (hc : c ∉ p) (hu : ¬ (c :: p) <:+: u) :
    find (c :: p) (u ++ (c :: p ++ v)) = some u.length := by
  refine find_append fun w hw hne hfront => ?_
  rcases List.prefix_or_prefix_of_prefix hfront (List.prefix_append w _) with hpw | hwp
  · exact hu (hpw.isInfix.trans hw.isInfix)
  · obtain ⟨rest, hrest⟩ := hwp
    cases w with
    | nil => exact hne rfl
    | cons d w =>
      rw [List.cons_append, List.cons.injEq] at hrest
      obtain ⟨rfl, rfl⟩ := hrest
      -- behind w stands the pattern itself, so the rest begins with its first character
      have hbehind : rest <+: d :: (w ++ rest) ++ v := by
        rw [← List.cons_append, List.prefix_append_right_inj] at hfront
        exact hfront
      cases rest with
      | nil => exact hu (by simpa using hw.isInfix)
      | cons e rest =>
        obtain rfl := (List.cons_prefix_cons.mp hbehind).1
        exact hc (List.mem_append_right w List.mem_cons_self)

theorem find_single {c : α} {u v : List α} (h : c ∉ u) : find [c] (u ++ c :: v) = some u.length :=
  find_append_of_head List.not_mem_nil fun hin => h ((List.singleton_infix_iff c u).mp hin)

/-! ## 4. Pieces -/

/-- The pattern that has been found lies inside the text. -/
theorem find_le {pat s : List α} {i : Nat} (h : find pat s = some i) :
    i + pat.length ≤ s.length := by
  induction s generalizing i with
  | nil =>
    rw [find] at h
    split at h
    · cases h
      simp_all
    · cases h
  | cons c s ih =>
    rw [find] at h
    split at h
    case isTrue hfront =>
      cases h
      simpa using hfront.length_le
    case isFalse =>
      obtain ⟨j, hj, rfl⟩ := Option.map_eq_some_iff.mp h
      have := ih hj
      rw [List.length_cons]
      omega

/-- The pieces of a text between separators.  The first character of the separator is an argument
of its own, so that there is one. -/
def split (c : α) (sep : List α) (s : List α) : List (List α) :=
  match _h : find (c :: sep) s with
  | none => [s]
  | some i => s.take i :: split c sep (s.drop (i + (c :: sep).length))
termination_by s.length
decreasing_by
  have := find_le _h
  rw [List.length_drop, List.length_cons] at *
  omega

theorem split_of_none {c : α} {sep s : List α} (h : find (c :: sep) s = none) :
    split c sep s = [s] := by
  rw [split]
  split
  case h_1 => rfl
  case h_2 i hi => rw [h] at hi; cases hi

theorem split_of_some {c : α} {sep s : List α} {i : Nat} (h : find (c :: sep) s = some i) :
    split c sep s = s.take i :: split c sep (s.drop (i + (c :: sep).length)) := by
  rw [split]
  split
  case h_1 hnone => rw [h] at hnone; cases hnone
  case h_2 j hj =>
    rw [h] at hj
    cases hj
    rfl

theorem split_ne_nil (c : α) (sep s : List α) : split c sep s ≠ [] := by
  rw [split]
  split <;> simp

/-- What is found stands there. -/
theorem find_spec {pat s : List α} {i : Nat} (h : find pat s = some i) :
    s.take i ++ (pat ++ s.drop (i + pat.length)) = s := by
  induction s generalizing i with
  | nil =>
    rw [find] at h
    split at h
    · cases h
      simp_all
    · cases h
  | cons c s ih =>
    rw [find] at h
    split at h
    case isTrue hfront =>
      cases h
      obtain ⟨rest, hrest⟩ := hfront
      rw [← hrest]
      simp
    case isFalse =>
      obtain ⟨j, hj, rfl⟩ := Option.map_eq_some_iff.mp h
      rw [List.take_succ_cons, List.cons_append, Nat.add_right_comm, List.drop_succ_cons, ih hj]

theorem find_eq_zero_iff {pat s : List α} : find pat s = some 0 ↔ pat <+: s := by
  refine ⟨fun h => ?_, find_front⟩
  have hspec := find_spec h
  rw [List.take_zero, List.nil_append] at hspec
  exact ⟨_, hspec⟩

/-- A pattern is found behind the first character if it stands there and not at the front. -/
theorem find_eq_one_iff {pat s : List α} :
    find pat s = some 1 ↔ ¬ pat <+: s ∧ pat <+: s.drop 1 := by
  cases s with
  | nil =>
    rw [find, List.drop_nil]
    split <;> simp
  | cons c s =>
    rw [find, List.drop_one, List.tail_cons, ← find_eq_zero_iff (s := s)]
    split
    case isTrue hfront => simp [hfront]
    case isFalse hfront => simp [hfront]

/-- The part in front of a character, by its length. -/
theorem find_single_getD (c : α) (s : List α) :
    (find [c] s).getD s.length = (s.takeWhile (· ≠ c)).length := by
  induction s with
  | nil => rfl
  | cons d s ih =>
    rw [find]
    split
    case isTrue hfront =>
      obtain rfl : c = d := (List.cons_prefix_cons.mp hfront).1
      rw [List.takeWhile_cons_of_neg (by simp)]
      rfl
    case isFalse hfront =>
      have hne : d ≠ c := by
        rintro rfl
        exact hfront (List.cons_prefix_cons.mpr ⟨rfl, List.nil_prefix⟩)
      rw [List.takeWhile_cons_of_pos (by simpa using hne), List.length_cons, List.length_cons, ← ih]
      cases find [c] s <;> rfl

/-- **The pieces make up the text.** -/
theorem intercalate_split (c : α) (sep s : List α) :
    (c :: sep).intercalate (split c sep s) = s := by
  fun_induction split c sep s with
  | case1 s => simp
  | case2 s i hfind ih =>
    obtain ⟨p, ps, hps⟩ := List.exists_cons_of_ne_nil
      (split_ne_nil c sep (s.drop (i + (c :: sep).length)))
    rw [hps] at ih ⊢
    rw [List.intercalate_cons_cons, ih, List.append_assoc]
    exact find_spec hfind

/-- In front of what is found there is none. -/
theorem not_infix_take_of_find {c : α} {p s : List α} {i : Nat} (h : find (c :: p) s = some i) :
    ¬ (c :: p) <:+: s.take i := by
  induction s generalizing i with
  | nil => cases h
  | cons d s ih =>
    rw [find] at h
    split at h
    case isTrue =>
      cases h
      simp
    case isFalse hfront =>
      obtain ⟨j, hj, rfl⟩ := Option.map_eq_some_iff.mp h
      rw [List.take_succ_cons, List.infix_cons_iff]
      rintro (hin | hin)
      · exact hfront (hin.trans (List.take_prefix (j + 1) (d :: s)))
      · exact ih hj hin

/-- The number of times a pattern is found from the left, each time behind the time before. -/
def occurrences (c : α) (sep : List α) (s : List α) : Nat :=
  match _h : find (c :: sep) s with
  | none => 0
  | some i => occurrences c sep (s.drop (i + (c :: sep).length)) + 1
termination_by s.length
decreasing_by
  have := find_le _h
  rw [List.length_drop, List.length_cons] at *
  omega

theorem occurrences_of_none {c : α} {sep s : List α} (h : find (c :: sep) s = none) :
    occurrences c sep s = 0 := by
  rw [occurrences]
  split
  case h_1 => rfl
  case h_2 i hi => rw [h] at hi; cases hi

theorem occurrences_of_some {c : α} {sep s : List α} {i : Nat} (h : find (c :: sep) s = some i) :
    occurrences c sep s = occurrences c sep (s.drop (i + (c :: sep).length)) + 1 := by
  rw [occurrences]
  split
  case h_1 hnone => rw [h] at hnone; cases hnone
  case h_2 j hj =>
    rw [h] at hj
    cases hj
    rfl

theorem length_split (c : α) (sep s : List α) :
    (split c sep s).length = occurrences c sep s + 1 := by
  fun_induction split c sep s with
  | case1 s hnone => rw [occurrences_of_none hnone, List.length_singleton]
  | case2 s i hfind ih => rw [occurrences_of_some hfind, List.length_cons, ih]

/-- What is found in a text is found in a longer one. -/
theorem find_append_left {c : α} {u v : List α} {i : Nat} (h : find [c] u = some i) :
    find [c] (u ++ v) = some i := by
  induction u generalizing i with
  | nil => simp [find] at h
  | cons d u ih =>
    rw [List.cons_append, find]
    rw [find] at h
    split at h
    case isTrue hfront =>
      have hcd : c = d := by simpa using hfront
      simpa [hcd] using h
    case isFalse hfront =>
      have hcd : c ≠ d := by simpa using hfront
      obtain ⟨j, hj, rfl⟩ := Option.map_eq_some_iff.mp h
      simp [hcd, ih hj]

/-- **A separator ends the pieces in front of it.** -/
theorem split_append_cons (c : α) (u v : List α) :
    split c [] (u ++ c :: v) = split c [] u ++ split c [] v := by
  fun_induction split c [] u with
  | case1 u hnone =>
    have hc : c ∉ u := fun hin =>
      find_eq_none_iff.mp hnone ((List.singleton_infix_iff c u).mpr hin)
    rw [split_of_some (find_single hc), List.take_left, List.length_singleton, drop_append_cons,
      List.singleton_append]
  | case2 u i hfind ih =>
    have hle := find_le hfind
    rw [split_of_some (find_append_left hfind), List.take_append_of_le_length (by omega),
      List.drop_append_of_le_length hle, ih, List.cons_append]

theorem not_mem_of_split_singleton {c : α} {s x : List α} (h : split c [] s = [x]) : c ∉ s := by
  intro hc
  obtain ⟨u, v, rfl⟩ := List.append_of_mem hc
  rw [split_append_cons] at h
  have hlength := congrArg List.length h
  have hu := List.length_pos_of_ne_nil (split_ne_nil c [] u)
  have hv := List.length_pos_of_ne_nil (split_ne_nil c [] v)
  rw [List.length_append, List.length_singleton] at hlength
  omega

/-- **Behind every piece but the last one there is a separator.** -/
theorem infix_of_mem_dropLast_split {c : α} {s x : List α} (hx : x ∈ (split c [] s).dropLast) :
    x ++ [c] <:+: s := by
  fun_induction split c [] s with
  | case1 s hnone => simp at hx
  | case2 s i hfind ih =>
    rw [List.dropLast_cons_of_ne_nil (split_ne_nil c [] _), List.mem_cons] at hx
    have hspec := find_spec hfind
    rcases hx with rfl | hx
    · refine ⟨[], s.drop (i + [c].length), ?_⟩
      rw [List.nil_append, List.append_assoc]
      exact hspec
    · exact (ih hx).trans (List.drop_suffix _ _).isInfix

/-- **Pieces without the separator are found again.** -/
theorem split_intercalate {c : α} {pieces : List (List α)} (hne : pieces ≠ [])
    (h : ∀ p ∈ pieces, c ∉ p) : split c [] (List.intercalate [c] pieces) = pieces := by
  induction pieces with
  | nil => exact absurd rfl hne
  | cons p ps ih =>
    have hp : c ∉ p := h p List.mem_cons_self
    cases ps with
    | nil =>
      rw [List.intercalate_singleton]
      exact split_of_none (find_eq_none_iff.mpr
        fun hin => hp ((List.singleton_infix_iff c p).mp hin))
    | cons q qs =>
      rw [List.intercalate_cons_cons, List.append_assoc]
      have hfind : find [c] (p ++ ([c] ++ List.intercalate [c] (q :: qs))) = some p.length :=
        find_single hp
      rw [split_of_some hfind, List.take_left]
      refine congrArg (p :: ·) ?_
      rw [List.length_singleton, List.singleton_append, drop_append_cons]
      exact ih (List.cons_ne_nil q qs) fun x hx => h x (List.mem_cons_of_mem p hx)

end

/-! ## 5. Numbers -/

/-- The characters `atoi` skips. -/
def isspace (c : Char) : Bool := c = ' ' || (9 ≤ c.toNat && c.toNat ≤ 13)

/-- The number at the beginning of a text, 0 if there is none. -/
def digits (s : Text) : Nat := Nat.ofDigitChars 10 (s.takeWhile Char.isDigit) 0

/-- `atoi`: blanks, a sign, digits; what follows is ignored.  The number is a `long`, which stops
at its bounds, cut to an `int`. -/
def atoi (s : Text) : Int32 :=
  let value : Int := match s.dropWhile isspace with
    | '-' :: rest => -(digits rest : Int)
    | '+' :: rest => digits rest
    | rest => digits rest
  Int32.ofInt (max (-2 ^ 63) (min value (2 ^ 63 - 1)))

theorem digits_toDigits (n : Nat) : digits (Nat.toDigits 10 n) = n := by
  have hall : (Nat.toDigits 10 n).takeWhile Char.isDigit = Nat.toDigits 10 n := by
    rw [List.takeWhile_eq_self_iff]
    exact fun c hc => Nat.isDigit_of_mem_toDigits (by norm_num) (by norm_num) hc
  rw [digits, hall, Nat.ofDigitChars_toDigits (by norm_num) (by norm_num)]

/-- **A number that has been printed is read back.** -/
theorem toInt_atoi_toDigits {n : Nat} (h : n < 2 ^ 31) : (atoi (Nat.toDigits 10 n)).toInt = n := by
  obtain ⟨d, ds, hds⟩ := List.exists_cons_of_ne_nil (Nat.toDigits_ne_nil (b := 10) (n := n))
  have hdigit : d.isDigit := Nat.isDigit_of_mem_toDigits (b := 10) (n := n) (by norm_num)
    (by norm_num) (hds ▸ List.mem_cons_self)
  have hblank : ¬ isspace d := by
    intro hspace
    simp only [isspace, Char.isDigit, Bool.or_eq_true, Bool.and_eq_true, decide_eq_true_eq,
      ge_iff_le, UInt32.le_iff_toNat_le] at hspace hdigit
    rcases hspace with rfl | ⟨-, hle⟩
    · exact absurd hdigit.1 (by decide)
    · have h48 := hdigit.1
      change 48 ≤ d.toNat at h48
      omega
  have hskip : (Nat.toDigits 10 n).dropWhile isspace = Nat.toDigits 10 n := by
    rw [hds, List.dropWhile_cons_of_neg hblank]
  have hvalue := digits_toDigits n
  rw [hds] at hskip hvalue
  unfold atoi
  rw [hds, hskip]
  split
  case h_1 hsign =>
    obtain rfl := (List.cons.inj hsign).1
    exact absurd hdigit (by decide)
  case h_2 hsign =>
    obtain rfl := (List.cons.inj hsign).1
    exact absurd hdigit (by decide)
  case h_3 =>
    dsimp only
    rw [hvalue, Int32.toInt_ofInt]
    have hmax : max (-2 ^ 63) (min (n : Int) (2 ^ 63 - 1)) = n := by omega
    rw [hmax]
    exact Int.bmod_eq_of_le (by omega) (by norm_num; omega)

end Lib.Str
