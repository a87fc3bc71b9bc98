/-
# Announced lengths

A line of a reply that carries a text announces its length: `field/length:text`.  The reader
takes that many bytes behind the colon, so the text may contain anything, line ends included.

`IIPResponse::addResponse` prints the announcement into 8 characters, and `setError` the whole
line into 32.  Both are right as long as there is room, which is what this module makes exact.
-/
import Iipsrv.Server.Session

namespace Iipsrv

open Lib.Print (Text decimal snprintf cString decimal_natCast length_decimal_le_iff snprintf_eq_iff
  cString_eq_self_iff)
open Lib.Str

/-! ## 1. The line and its reader -/

/-- A text with its announcement. -/
def announced (field data : Text) : Text := field ++ '/' :: decimal data.length ++ ':' :: data

/-- A reader that knows the field: the number up to the colon, then so many bytes. -/
def readAnnounced (field line : Text) : Option Text :=
  let rest := line.drop (field.length + 1)
  (find [':'] rest).map fun colon => (rest.drop (colon + 1)).take (digits (rest.take colon))

/-- **A reader recovers the text**, whatever follows the line. -/
theorem readAnnounced_announced (field data more : Text) :
    readAnnounced field (announced field data ++ more) = some data := by
  have hcolon : ':' ∉ Nat.toDigits 10 data.length := by
    intro hc
    exact absurd (Nat.isDigit_of_mem_toDigits (by norm_num) (by norm_num) hc) (by decide)
  have hrest : (announced field data ++ more).drop (field.length + 1) =
      Nat.toDigits 10 data.length ++ ':' :: (data ++ more) := by
    simp [announced, decimal_natCast, drop_append_cons]
  unfold readAnnounced
  rw [hrest]
  simp only [find_single hcolon, Option.map_some, drop_append_cons, List.take_left, digits_toDigits]

/-! ## 2. What there is room for -/

theorem isPrefix_cString (s : Text) : cString s <+: s := List.takeWhile_prefix _

/-- The announcement of a text. -/
theorem announcement_eq_iff {n : Nat} :
    snprintf 8 ('/' :: decimal (Int32.ofNat n).toInt ++ [':']) = '/' :: decimal n ++ [':'] ↔
      n < 100000 := by
  constructor
  · intro h
    -- what has been printed has at most seven characters, so the number has at most five
    have hlength := congrArg List.length h
    have hroom : (snprintf 8 ('/' :: decimal (Int32.ofNat n).toInt ++ [':'])).length ≤ 7 :=
      List.length_take_le _ _
    have hdigits : (decimal n).length ≤ 5 := by
      rw [hlength] at hroom
      simp only [List.length_append, List.length_cons, List.length_nil] at hroom
      omega
    exact (length_decimal_le_iff (by norm_num)).mp hdigits
  · intro h
    have hint : (Int32.ofNat n).toInt = n := by
      rw [Int32.toInt_ofNat_of_lt]
      omega
    have hdigits : (decimal n).length ≤ 5 := (length_decimal_le_iff (by norm_num)).mpr (by omega)
    rw [hint, snprintf_eq_iff]
    simp only [List.length_append, List.length_cons, List.length_nil]
    omega

/-- **Two strings are printed as they are** exactly if there is room for both, and neither is cut
at a NUL. -/
theorem snprintf_cStrings_eq_iff {n : Nat} {front a b : Text} :
    snprintf n (front ++ ':' :: cString a ++ ' ' :: cString b) = front ++ ':' :: a ++ ' ' :: b ↔
      (front ++ ':' :: a ++ ' ' :: b).length ≤ n - 1 ∧ '\x00' ∉ a ∧ '\x00' ∉ b := by
  constructor
  · intro h
    have ha := (isPrefix_cString a).length_le
    have hb := (isPrefix_cString b).length_le
    have hlength := congrArg List.length h
    have hroom := List.length_take_le (n - 1) (front ++ ':' :: cString a ++ ' ' :: cString b)
    have htext := List.length_take_le' (n - 1) (front ++ ':' :: cString a ++ ' ' :: cString b)
    simp only [snprintf, List.length_append, List.length_cons] at hlength hroom htext ⊢
    refine ⟨by omega, ?_, ?_⟩
    · exact cString_eq_self_iff.mp ((isPrefix_cString a).eq_of_length (by omega))
    · exact cString_eq_self_iff.mp ((isPrefix_cString b).eq_of_length (by omega))
  · rintro ⟨hroom, ha, hb⟩
    rw [cString_eq_self_iff.mpr ha, cString_eq_self_iff.mpr hb]
    exact snprintf_eq_iff.mpr hroom

/-- Two digits are enough for the lengths that fit. -/
theorem length_with_decimal_le_iff (n : Nat) : 7 + (decimal n).length + n ≤ 31 ↔ n ≤ 22 := by
  have hone : (decimal n).length ≤ 1 ↔ n < 10 ^ 1 := length_decimal_le_iff (by norm_num)
  have htwo : (decimal n).length ≤ 2 ↔ n < 10 ^ 2 := length_decimal_le_iff (by norm_num)
  omega

/-- The line of an error. -/
theorem errorLine_eq_iff {code arg : Text} :
    snprintf 32 (str "Error/" ++ decimal (code.length + arg.length + 1) ++
        ':' :: cString code ++ ' ' :: cString arg) = announced (str "Error") (code ++ ' ' :: arg) ↔
      (code ++ ' ' :: arg).length ≤ 22 ∧ '\x00' ∉ code ∧ '\x00' ∉ arg := by
  have hdecimal : decimal (code.length + arg.length + 1) =
      decimal ((code ++ ' ' :: arg).length : Nat) := by
    congr 1
    simp [add_assoc]
  have hspec : announced (str "Error") (code ++ ' ' :: arg) =
      (str "Error/" ++ decimal ((code ++ ' ' :: arg).length : Nat)) ++
        ':' :: code ++ ' ' :: arg := by
    simp [announced, str]
  have hlength : ((str "Error/" ++ decimal ((code ++ ' ' :: arg).length : Nat)) ++ ':' :: code ++
      ' ' :: arg).length = 7 + (decimal ((code ++ ' ' :: arg).length : Nat)).length +
        (code ++ ' ' :: arg).length := by
    simp only [List.length_append, List.length_cons, str]
    simp
    omega
  rw [hspec, hdecimal, snprintf_cStrings_eq_iff, hlength, length_with_decimal_le_iff]

/-! ## 3. The two writers -/

/-- What has been added to the end of a text. -/
def added (before after : Text) : Text := after.drop before.length

/-- **A line that can be read back**: it announces the length of the text, and a reader recovers
the text. -/
structure ReadBack (field data line : Text) : Prop where
  line_eq : line = announced field data ++ eof
  read_eq : readAnnounced field line = some data

/-- The reader recovers the text of a line that announces it. -/
theorem readBack_iff {field data line : Text} :
    ReadBack field data line ↔ line = announced field data ++ eof := by
  constructor
  · exact ReadBack.line_eq
  · rintro rfl
    exact ⟨rfl, readAnnounced_announced field data eof⟩

theorem added_append (before line : Text) : added before (before ++ line) = line := List.drop_left

theorem readBack_addText_iff (r : IIPResponse) (field data : Text) :
    ReadBack field data (added r.responseBody (r.addText field data).responseBody) ↔
      data.length < 100000 := by
  have hbody : (r.addText field data).responseBody = r.responseBody ++ (field ++
      snprintf 8 ('/' :: decimal (Int32.ofNat data.length).toInt ++ [':']) ++ data) ++ eof := rfl
  have hspec : announced field data ++ eof =
      field ++ ('/' :: decimal data.length ++ [':']) ++ data ++ eof := by
    simp [announced]
  rw [readBack_iff, hbody, List.append_assoc, added_append, hspec, List.append_left_inj,
    List.append_left_inj, List.append_right_inj]
  exact announcement_eq_iff

theorem readBack_setError_iff (r : IIPResponse) (code arg : Text) :
    ReadBack (str "Error") (code ++ ' ' :: arg) (added r.error (r.setError code arg).error) ↔
      (code ++ ' ' :: arg).length ≤ 22 ∧ '\x00' ∉ code ∧ '\x00' ∉ arg := by
  have herror : (r.setError code arg).error = r.error ++
      (snprintf 32 (str "Error/" ++ decimal (code.length + arg.length + 1) ++
        ':' :: cString code ++ ' ' :: cString arg) ++ eof) := rfl
  rw [readBack_iff, herror, added_append, List.append_left_inj]
  exact errorLine_eq_iff

/-- **The announced lengths are right exactly for texts of less than 100000 bytes**, and in an
error for at most 22 bytes without a NUL. -/
theorem readBack_iff_room (r : IIPResponse) (field data code arg : Text) :
    (ReadBack field data (added r.responseBody (r.addText field data).responseBody) ↔
      data.length < 100000) ∧
    (ReadBack (str "Error") (code ++ ' ' :: arg) (added r.error (r.setError code arg).error) ↔
      (code ++ ' ' :: arg).length ≤ 22 ∧ '\x00' ∉ code ∧ '\x00' ∉ arg) :=
  ⟨readBack_addText_iff r field data, readBack_setError_iff r code arg⟩

/-- The error of an unsupported command with a long name loses its end. -/
theorem setError_cuts_argument :
    added [] (IIPResponse.new.setError (str "2 2") (str "resolution-numbers-x")).error =
      str "Error/24:2 2 resolution-numbers" ++ eof ∧
    ¬ ReadBack (str "Error") (str "2 2 resolution-numbers-x")
      (added [] (IIPResponse.new.setError (str "2 2") (str "resolution-numbers-x")).error) := by
  have hline : added [] (IIPResponse.new.setError (str "2 2") (str "resolution-numbers-x")).error =
      str "Error/24:2 2 resolution-numbers" ++ eof := by
    decide
  refine ⟨hline, fun h => ?_⟩
  rw [readBack_iff, hline] at h
  exact absurd h (by decide)

end Iipsrv
