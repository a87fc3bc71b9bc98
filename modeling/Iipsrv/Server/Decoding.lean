/-
# Decoding and escaping

`URL` (`URL.h`) reads the address of a request, and `escape` prints it again for the `info.json` of
an IIIF image.

* Section 1: `decode` undoes every percent-encoding (`decode_of_encodes`), and what it returns has
  no NUL in it even if the text is not well formed (`nul_not_mem_decode`).
* Section 2: `escape`.  It puts a backslash in front of a quote and of a backslash, which is right,
  and DOUBLES every `%`, for a `printf` that the text never gets to.  Control characters it leaves
  as they are.  So between quotes it is a JSON string exactly if there is no control character
  (`value_escapeChar`), and the string is the decoded address exactly if there is no `%` either
  (`identifier_iff`).

The counter of the loop in `escape` is an `unsigned int`.  With `2 ^ 32` characters or more it never
reaches the end.
-/
import Iipsrv.Lib.Json
import Iipsrv.Lib.While
import Iipsrv.Server.Paths

namespace Iipsrv.URL

open Lib.Print (Text)
open Lib.Json (value value_nil value_cons value_control value_shortEscape)
open Lib.While Lib.Word

/-! ## 1. Decoding -/

/-- The hexadecimal digits, in lower case and in upper case. -/
def lowerDigits : Text :=
  ['0', '1', '2', '3', '4', '5', '6', '7', '8', '9', 'a', 'b', 'c', 'd', 'e', 'f']

def upperDigits : Text :=
  ['0', '1', '2', '3', '4', '5', '6', '7', '8', '9', 'A', 'B', 'C', 'D', 'E', 'F']

/-- This character is a digit for `n`. -/
def Writes (c : Char) (n : Nat) : Prop := lowerDigits[n]? = some c ∨ upperDigits[n]? = some c

/-- The second text is an encoding of the first: a byte is literal, or its two digits behind a `%`,
or, if it is a blank, a `+`. -/
inductive Encodes : Text → Text → Prop
  | nil : Encodes [] []
  | literal {c : Char} {s e : Text} (hpercent : c ≠ '%') (hplus : c ≠ '+') (h : Encodes s e) :
      Encodes (c :: s) (c :: e)
  | escaped {c a b : Char} {s e : Text} (ha : Writes a (c.toNat / 16))
      (hb : Writes b (c.toNat % 16)) (h : Encodes s e) : Encodes (c :: s) ('%' :: a :: b :: e)
  | plus {s e : Text} (h : Encodes s e) : Encodes (' ' :: s) ('+' :: e)

/-- The digits of the decoder are these. -/
theorem hexDigit_of_writes {c : Char} {n : Nat} (h : Writes c n) :
    n < 16 ∧ isxdigit c ∧ hexDigit c = n := by
  have hlower : ∀ n < 16, lowerDigits[n]?.all fun c => isxdigit c && hexDigit c == n := by decide
  have hupper : ∀ n < 16, upperDigits[n]?.all fun c => isxdigit c && hexDigit c == n := by decide
  rcases h with h | h
  · have hn : n < 16 := (List.getElem?_eq_some_iff.mp h).1
    have hc := hlower n hn
    rw [h] at hc
    exact ⟨hn, by simpa using hc⟩
  · have hn : n < 16 := (List.getElem?_eq_some_iff.mp h).1
    have hc := hupper n hn
    rw [h] at hc
    exact ⟨hn, by simpa using hc⟩

/-- **Two digits are read as the byte they stand for.** -/
theorem hexToChar_of_writes {a b c : Char} (ha : Writes a (c.toNat / 16))
    (hb : Writes b (c.toNat % 16)) : hexToChar a b = c := by
  rw [hexToChar, (hexDigit_of_writes ha).2.2, (hexDigit_of_writes hb).2.2, Nat.div_add_mod',
    Char.ofNat_toNat]

/-- **`decode` undoes an encoding** of a text without NUL. -/
theorem decode_of_encodes {s e : Text} (h : Encodes s e) (hs : '\x00' ∉ s) : decode e = s := by
  induction h with
  | nil => rfl
  | @literal c s e hpercent hplus _ ih =>
    rw [decode_cons hplus hpercent, ih fun hin => hs (List.mem_cons_of_mem c hin)]
  | @escaped c a b s e ha hb _ ih =>
    obtain ⟨-, hxa, hna⟩ := hexDigit_of_writes ha
    obtain ⟨-, hxb, hnb⟩ := hexDigit_of_writes hb
    have hnul : ¬ (a = '0' ∧ b = '0') := by
      rintro ⟨rfl, rfl⟩
      have hc := hexToChar_of_writes ha hb
      exact hs (hc ▸ List.mem_cons_self)
    rw [decode, if_pos ⟨hxa, hxb⟩, if_neg hnul, hexToChar_of_writes ha hb,
      ih fun hin => hs (List.mem_cons_of_mem c hin)]
  | plus _ ih => rw [decode, ih fun hin => hs (List.mem_cons_of_mem ' ' hin)]

/-- Only `0` is a digit for 0. -/
theorem hexDigit_spec {c : Char} (h : isxdigit c) :
    hexDigit c < 16 ∧ (hexDigit c = 0 → c = '0') := by
  have hall : ∀ n < 128, isxdigit (Char.ofNat n) →
      hexDigit (Char.ofNat n) < 16 ∧ (hexDigit (Char.ofNat n) = 0 → Char.ofNat n = '0') := by
    decide
  have hascii : c.toNat < 128 := by
    simp only [isxdigit, Char.isDigit, Bool.or_eq_true, Bool.and_eq_true, decide_eq_true_eq,
      Char.le_def, UInt32.le_iff_toNat_le] at h
    rcases h with (h | h) | h
    · exact Nat.lt_of_le_of_lt h.2 (by decide)
    · exact Nat.lt_of_le_of_lt h.2 (by decide)
    · exact Nat.lt_of_le_of_lt h.2 (by decide)
  have hc := hall c.toNat hascii
  rw [Char.ofNat_toNat] at hc
  exact hc h

/-- Two digits that are not both `0` do not make a NUL. -/
theorem hexToChar_ne_nul {a b : Char} (ha : isxdigit a) (hb : isxdigit b)
    (h : ¬ (a = '0' ∧ b = '0')) : hexToChar a b ≠ '\x00' := by
  obtain ⟨hla, hza⟩ := hexDigit_spec ha
  obtain ⟨hlb, hzb⟩ := hexDigit_spec hb
  intro hnul
  have hvalid : (hexDigit a * 16 + hexDigit b).isValidChar := .inl (by omega)
  have hzero : (hexToChar a b).toNat = 0 := congrArg Char.toNat hnul
  rw [hexToChar, Char.ofNat, dif_pos hvalid] at hzero
  change hexDigit a * 16 + hexDigit b = 0 at hzero
  exact h ⟨hza (by omega), hzb (by omega)⟩

/-- **No NUL comes out** if none goes in. -/
theorem nul_not_mem_decode {u : Text} (h : '\x00' ∉ u) : '\x00' ∉ decode u := by
  fun_induction decode u with
  | case1 => exact List.not_mem_nil
  | case2 s ih =>
    rw [List.mem_cons, not_or]
    exact ⟨by decide, ih fun hin => h (List.mem_cons_of_mem _ hin)⟩
  | case3 a b s hdigits hzero ih =>
    refine ih fun hin => h ?_
    exact List.mem_cons_of_mem _ (List.mem_cons_of_mem _ (List.mem_cons_of_mem _ hin))
  | case4 a b s hdigits hzero ih =>
    rw [List.mem_cons, not_or]
    refine ⟨Ne.symm (hexToChar_ne_nul hdigits.1 hdigits.2 hzero), ih fun hin => h ?_⟩
    exact List.mem_cons_of_mem _ (List.mem_cons_of_mem _ (List.mem_cons_of_mem _ hin))
  | case5 a b s hdigits ih =>
    rw [List.mem_cons, not_or]
    exact ⟨by decide, ih fun hin => h (List.mem_cons_of_mem _ hin)⟩
  | case6 c s hplus hescape ih =>
    rw [List.mem_cons, not_or] at h ⊢
    exact ⟨h.1, ih h.2⟩

/-- **Decoding undoes percent-encoding**, and never makes a NUL. -/
theorem decode_undoes_encoding :
    (∀ s e, Encodes s e → '\x00' ∉ s → decode e = s) ∧ ∀ u, '\x00' ∉ u → '\x00' ∉ decode u :=
  ⟨fun _ _ h hs => decode_of_encodes h hs, fun _ hu => nul_not_mem_decode hu⟩

/-- `é +`, in Latin 1, as `%e9+%2B`. -/
theorem decode_undoes_encoding_mixed :
    decode ['%', 'e', '9', '+', '%', '2', 'B'] = ['\xe9', ' ', '+'] ∧
      '\x00' ∉ decode ['%', '0', '0', '%', '0'] := by
  refine ⟨decode_undoes_encoding.1 _ _ ?_ (by decide), decode_undoes_encoding.2 _ (by decide)⟩
  have hlast : Encodes ['+'] ['%', '2', 'B'] := .escaped (.inl rfl) (.inr rfl) .nil
  exact .escaped (.inl rfl) (.inl rfl) (.plus hlast)

/-! ## 2. Escaping -/

/-- What `escape` appends for a character. -/
def escapeChar (c : Char) : Text :=
  if c = '\\' then ['\\', '\\']
  else if c = '"' then ['\\', '"']
  else if c = '%' then ['%', '%']
  else [c]

theorem escape_eq (url : Text) : escape url = (decode url).flatMap escapeChar := rfl

/-- One turn of the loop over the characters, with its counter and the text so far. -/
def escapeTurn (input : Text) (st : Nat × Text) : Turn (Nat × Text) Text :=
  match input[st.1]? with
  | none => .leave st.2
  | some c => .next (u32 (st.1 + 1), st.2 ++ escapeChar c)

/-- `escape` ends with this text. -/
def Escapes (url json : Text) : Prop := Ends (escapeTurn (decode url)) (0, []) json

/-- **Up to `2 ^ 32` characters the counter reaches the end.** -/
theorem escapes_of_lt {url : Text} (h : (decode url).length < 2 ^ 32) :
    Escapes url (escape url) := by
  have hends : ∃ json, Escapes url json ∧ json = escape url := by
    refine ends_of_variant
      (fun st => st.1 ≤ (decode url).length ∧
        st.2 ++ ((decode url).drop st.1).flatMap escapeChar = escape url)
      (fun st => (decode url).length - st.1) ?_ ⟨Nat.zero_le _, rfl⟩
    rintro ⟨i, json⟩ ⟨hi, hjson⟩
    dsimp only at hi hjson
    cases hc : (decode url)[i]? with
    | none =>
      have hend : (decode url).drop i = [] :=
        List.drop_eq_nil_of_le (List.getElem?_eq_none_iff.mp hc)
      rw [hend, List.flatMap_nil, List.append_nil] at hjson
      refine .inl ⟨json, ?_, hjson⟩
      rw [escapeTurn, hc]
    | some c =>
      obtain ⟨hlt, hget⟩ := List.getElem?_eq_some_iff.mp hc
      have hnext : u32 (i + 1) = i + 1 := u32_of_lt (by omega)
      rw [List.drop_eq_getElem_cons hlt, hget, List.flatMap_cons, ← List.append_assoc] at hjson
      refine .inr ⟨(i + 1, json ++ escapeChar c), ?_, ⟨hlt, hjson⟩, ?_⟩
      · rw [escapeTurn, hc, hnext]
      · dsimp only
        omega
  obtain ⟨json, hjson, rfl⟩ := hends
  exact hjson

/-- **With more it does not.** -/
theorem not_escapes_of_le {url json : Text} (h : 2 ^ 32 ≤ (decode url).length) :
    ¬ Escapes url json := by
  refine not_ends (fun st => st.1 < 2 ^ 32) ?_ (by decide : 0 < 2 ^ 32)
  rintro ⟨i, json⟩ hi
  dsimp only at hi
  have hlt : i < (decode url).length := by omega
  refine ⟨(u32 (i + 1), json ++ escapeChar (decode url)[i]), ?_, u32_lt (i + 1)⟩
  rw [escapeTurn, List.getElem?_eq_getElem hlt]

/-- A `%` is printed twice. -/
def doublePercent (c : Char) : Text := if c = '%' then ['%', '%'] else [c]

/-- A character that is printed, read again. -/
theorem value_escapeChar_append {c : Char} (hc : 0x20 ≤ c.toNat) (s : Text) :
    value (escapeChar c ++ s) = (value s).map (doublePercent c ++ ·) := by
  unfold escapeChar
  split
  case isTrue hbackslash =>
    subst hbackslash
    exact value_shortEscape (by decide) rfl s
  case isFalse hbackslash =>
    split
    case isTrue hquote =>
      subst hquote
      exact value_shortEscape (by decide) rfl s
    case isFalse hquote =>
      split
      case isTrue hpercent =>
        subst hpercent
        have hone : ∀ t, value ('%' :: t) = (value t).map ('%' :: ·) :=
          value_cons (by decide) (by decide) (by decide)
        rw [List.cons_append, List.cons_append, List.nil_append, hone, hone, Option.map_map]
        rfl
      case isFalse hpercent =>
        rw [doublePercent, if_neg hpercent]
        exact value_cons hquote hbackslash hc s

/-- **What the printed text is in JSON** if there is no control character: the text with every `%`
doubled. -/
theorem value_escapeChar {s : Text} (h : ∀ c ∈ s, 0x20 ≤ c.toNat) :
    value (s.flatMap escapeChar) = some (s.flatMap doublePercent) := by
  induction s with
  | nil => exact value_nil
  | cons c s ih =>
    rw [List.forall_mem_cons] at h
    rw [List.flatMap_cons, List.flatMap_cons, value_escapeChar_append h.1, ih h.2]
    rfl

/-- With a control character it is not a string. -/
theorem value_escapeChar_of_control {s : Text} {c : Char} (hc : c ∈ s) (h : c.toNat < 0x20) :
    value (s.flatMap escapeChar) = none := by
  induction s with
  | nil => cases hc
  | cons d s ih =>
    rw [List.flatMap_cons]
    by_cases hd : 0x20 ≤ d.toNat
    · have hmem : c ∈ s := by
        rcases List.mem_cons.mp hc with rfl | hmem
        · omega
        · exact hmem
      rw [value_escapeChar_append hd, ih hmem]
      rfl
    · have hself : escapeChar d = [d] := by
        have hne : ∀ e : Char, 0x20 ≤ e.toNat → d ≠ e := fun e he hde => hd (hde ▸ he)
        rw [escapeChar, if_neg (hne '\\' (by decide)), if_neg (hne '"' (by decide)),
          if_neg (hne '%' (by decide))]
      rw [hself, List.singleton_append, value_control (by omega)]

theorem flatMap_doublePercent_eq_iff (s : Text) : s.flatMap doublePercent = s ↔ '%' ∉ s := by
  have hle : ∀ t : Text, t.length ≤ (t.flatMap doublePercent).length := by
    intro t
    induction t with
    | nil => exact le_rfl
    | cons c t ih =>
      rw [List.flatMap_cons, List.length_append, List.length_cons, doublePercent]
      split
      · simp only [List.length_cons, List.length_nil]
        omega
      · simp only [List.length_cons, List.length_nil]
        omega
  induction s with
  | nil => simp
  | cons c s ih =>
    rw [List.flatMap_cons, List.mem_cons, not_or, doublePercent]
    split
    case isTrue hc =>
      subst hc
      refine iff_of_false (fun h => ?_) fun h => h.1 rfl
      have hlength := congrArg List.length h
      have := hle s
      simp only [List.length_append, List.length_cons, List.length_nil] at hlength
      omega
    case isFalse hc =>
      rw [List.singleton_append]
      constructor
      · exact fun h => ⟨Ne.symm hc, ih.mp (List.cons.inj h).2⟩
      · exact fun h => congrArg (c :: ·) (ih.mpr h.2)

/-- **When the identifier is right.**  `escape` ends, and what it returns is between quotes a JSON
string for the decoded address, exactly if the address has fewer than `2 ^ 32` characters when it
is decoded and none of them is a `%` or a control character. -/
theorem identifier_iff (u : Text) :
    (∃ json, Escapes u json ∧ value json = some (decode u)) ↔
      (decode u).length < 2 ^ 32 ∧ ∀ c ∈ decode u, c ≠ '%' ∧ 0x20 ≤ c.toNat := by
  by_cases hlength : (decode u).length < 2 ^ 32
  · have hends := escapes_of_lt hlength
    have hvalue : value (escape u) = some (decode u) ↔
        ∀ c ∈ decode u, c ≠ '%' ∧ 0x20 ≤ c.toNat := by
      rw [escape_eq]
      constructor
      · intro h
        have hprintable : ∀ c ∈ decode u, 0x20 ≤ c.toNat := by
          intro c hc
          by_contra hcontrol
          rw [value_escapeChar_of_control hc (by omega)] at h
          cases h
        rw [value_escapeChar hprintable] at h
        have hpercent := (flatMap_doublePercent_eq_iff _).mp (Option.some.inj h)
        exact fun c hc => ⟨fun heq => hpercent (heq ▸ hc), hprintable c hc⟩
      · intro h
        rw [value_escapeChar fun c hc => (h c hc).2, (flatMap_doublePercent_eq_iff _).mpr]
        exact fun hin => (h '%' hin).1 rfl
    rw [← hvalue]
    constructor
    · rintro ⟨json, hjson, hdecoded⟩
      cases hends.unique hjson
      exact ⟨hlength, hdecoded⟩
    · rintro ⟨-, hdecoded⟩
      exact ⟨_, hends, hdecoded⟩
  · refine iff_of_false ?_ fun h => hlength h.1
    rintro ⟨json, hjson, -⟩
    exact not_escapes_of_le (by omega) hjson

/-- `a%25` is decoded to `a%` and printed as `a%%`. -/
theorem percent_doubled :
    decode ['a', '%', '2', '5'] = ['a', '%'] ∧ Escapes ['a', '%', '2', '5'] ['a', '%', '%'] ∧
      value ['a', '%', '%'] = some ['a', '%', '%'] ∧
      ¬ ∃ json, Escapes ['a', '%', '2', '5'] json ∧ value json = some ['a', '%'] := by
  have hdecode : decode ['a', '%', '2', '5'] = ['a', '%'] := by decide
  have hends : Escapes ['a', '%', '2', '5'] ['a', '%', '%'] := Ends.of_iterate (n := 3) (by decide)
  have hvalue : value ['a', '%', '%'] = some ['a', '%', '%'] :=
    value_escapeChar (s := ['a', '%']) (by simp)
  refine ⟨hdecode, hends, hvalue, ?_⟩
  rintro ⟨json, hjson, hdecoded⟩
  cases hends.unique hjson
  rw [hvalue] at hdecoded
  cases hdecoded

end Iipsrv.URL
