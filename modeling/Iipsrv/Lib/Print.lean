/-
# Printed fields

What a C program prints with `%s` and `%d`, and when the result can be read back.

* `cString`: the part of a string that `%s` prints, up to the first NUL;
* `decimal`: what `%d` prints;
* `joinFields`: a text followed by fields, each after a separator;
* `snprintf`: a text cut to the room of a fixed buffer.

`joinFields_injective` is the reading back: fields that do not contain the separator can be
split off from the RIGHT, so the leading text may contain anything, the separator included.
-/
import Mathlib.Data.List.TakeWhile
import Mathlib.Tactic

namespace Lib.Print

/-- A text is a list of characters, one for each byte. -/
abbrev Text := List Char

/-- What `c_str()` shows to a function that reads up to the first NUL. -/
def cString (s : Text) : Text := s.takeWhile (fun c => c ≠ '\x00')

theorem cString_eq_self_iff {s : Text} : cString s = s ↔ '\x00' ∉ s := by
  rw [cString, List.takeWhile_eq_self_iff]
  constructor
  · intro h hc
    simpa using h _ hc
  · intro h c hc
    simpa using fun hc0 : c = '\x00' => h (hc0 ▸ hc)

theorem cString_eq_self {s : Text} (h : '\x00' ∉ s) : cString s = s := cString_eq_self_iff.2 h

/-- `snprintf` into a buffer of `n` characters, one of them the terminating NUL. -/
def snprintf (n : Nat) (s : Text) : Text := s.take (n - 1)

/-- A buffer holds a text exactly if it has room for it. -/
theorem snprintf_eq_iff {n : Nat} {s : Text} : snprintf n s = s ↔ s.length ≤ n - 1 := by
  rw [snprintf, List.take_eq_self_iff]

theorem snprintf_eq_self {n : Nat} {s : Text} (h : s.length ≤ n - 1) : snprintf n s = s :=
  snprintf_eq_iff.2 h

/-! ## 1. Decimal numbers -/

/-- What `%d` prints. -/
def decimal (i : Int) : Text :=
  if i < 0 then '-' :: Nat.toDigits 10 i.natAbs else Nat.toDigits 10 i.natAbs

theorem decimal_natCast (n : Nat) : decimal n = Nat.toDigits 10 n := by
  simp [decimal]

theorem length_decimal_le_iff {n k : Nat} (hk : 0 < k) : (decimal n).length ≤ k ↔ n < 10 ^ k := by
  rw [decimal_natCast, Nat.length_toDigits_le_iff (by norm_num) hk]

theorem toDigits_injective {m n : Nat} (h : Nat.toDigits 10 m = Nat.toDigits 10 n) : m = n := by
  rw [← Nat.ofDigitChars_toDigits (b := 10) (n := m) (by norm_num) (by norm_num), h,
    Nat.ofDigitChars_toDigits (by norm_num) (by norm_num)]

/-- The characters of a number are digits and a minus sign. -/
theorem not_mem_decimal {c : Char} (hd : c.isDigit = false) (hm : c ≠ '-') (i : Int) :
    c ∉ decimal i := by
  have hdig : c ∉ Nat.toDigits 10 i.natAbs := by
    intro hc
    rw [Nat.isDigit_of_mem_toDigits (by norm_num) (by norm_num) hc] at hd
    cases hd
  rw [decimal]
  split
  · simp [hm, hdig]
  · exact hdig

theorem decimal_injective {i j : Int} (h : decimal i = decimal j) : i = j := by
  have hminus : ∀ n, '-' ∉ Nat.toDigits 10 n := by
    intro n hn
    have := Nat.isDigit_of_mem_toDigits (by norm_num) (by norm_num) hn
    exact absurd this (by decide)
  unfold decimal at h
  split at h <;> split at h
  · have := toDigits_injective (List.cons.inj h).2
    omega
  · exact absurd (h ▸ List.mem_cons_self) (hminus j.natAbs)
  · exact absurd (h ▸ List.mem_cons_self) (hminus i.natAbs)
  · have := toDigits_injective h
    omega

/-! ## 2. Separated fields -/

/-- `s`, then each field after a separator. -/
def joinFields (sep : Char) : Text → List Text → Text
  | s, [] => s
  | s, f :: fs => joinFields sep (s ++ sep :: f) fs

/-- The last separator splits a text in one way only. -/
theorem split_last {sep : Char} {u v a b : Text} (ha : sep ∉ a) (hb : sep ∉ b)
    (h : u ++ sep :: a = v ++ sep :: b) : u = v ∧ a = b := by
  have hrev : a.reverse ++ sep :: u.reverse = b.reverse ++ sep :: v.reverse := by
    simpa using congrArg List.reverse h
  have htake : ∀ {w z : Text}, sep ∉ w →
      (w.reverse ++ sep :: z.reverse).takeWhile (fun c => c ≠ sep) = w.reverse := by
    intro w z hw
    rw [List.takeWhile_append_of_pos]
    · simp
    · intro c hc
      simpa using fun hcs : c = sep => hw (hcs ▸ List.mem_reverse.mp hc)
  have hab : a.reverse = b.reverse := by
    rw [← htake (z := u) ha, hrev, htake hb]
  have hab' : a = b := List.reverse_injective hab
  subst hab'
  exact ⟨List.append_cancel_right h, rfl⟩

/-- **Fields without the separator can be read back**, whatever the leading text is. -/
theorem joinFields_injective {sep : Char} :
    ∀ {s t : Text} {fs gs : List Text}, fs.length = gs.length →
      (∀ f ∈ fs, sep ∉ f) → (∀ g ∈ gs, sep ∉ g) →
      joinFields sep s fs = joinFields sep t gs → s = t ∧ fs = gs
  | s, t, [], [], _, _, _, h => ⟨h, rfl⟩
  | s, t, [], _ :: _, hlen, _, _, _ => by simp at hlen
  | s, t, _ :: _, [], hlen, _, _, _ => by simp at hlen
  | s, t, f :: fs, g :: gs, hlen, hf, hg, h => by
    obtain ⟨hst, rfl⟩ := joinFields_injective (s := s ++ sep :: f) (t := t ++ sep :: g)
      (by simpa using hlen) (fun x hx => hf x (by simp [hx])) (fun x hx => hg x (by simp [hx])) h
    obtain ⟨rfl, rfl⟩ := split_last (hf f (by simp)) (hg g (by simp)) hst
    exact ⟨rfl, rfl⟩

/-- The leading text is a prefix of what is printed. -/
theorem joinFields_eq_append {sep : Char} :
    ∀ (s : Text) (fs : List Text), joinFields sep s fs = s ++ joinFields sep [] fs
  | s, [] => by simp [joinFields]
  | s, f :: fs => by
    rw [joinFields, joinFields_eq_append, joinFields, joinFields_eq_append ([] ++ sep :: f)]
    simp

end Lib.Print
