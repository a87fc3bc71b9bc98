/-
# The four parameters of an IIIF request

`IIIF::run` takes its parameters from the end of the decoded argument.  It starts at the last
`/` and goes back three more,

    positionTmp = argument.find_last_of("/", positionTmp - 1);

so that the identifier in front may contain any number of them (`splitPath_parameters`).

An argument with fewer than four is refused when the search finds none.  It always finds one if
the argument begins with `/`: in front of position 0 the position wraps to the largest one, and
the search begins at the end of the argument again.  Such an argument is cut at one of its own
slashes, and the image layer is asked for what stands in front of it (`splitsRight_iff`).
-/
import Iipsrv.Server.Main
import Iipsrv.Server.Paths

namespace Iipsrv

open Lib.Print (Text)
open Lib.Str

namespace IIIF

/-! ## 1. One step back -/

section
variable {argument : Text} {pos p : Nat}

/-- From a slash behind the first character to the one before it. -/
theorem previousSlash_count (hfirst : argument.head? ≠ some '/') (hpos : pos ≠ 0)
    (h : previousSlash argument pos = some p) :
    p ≠ 0 ∧ (argument.take p).count '/' + 1 = (argument.take pos).count '/' := by
  rw [previousSlash, if_neg hpos] at h
  obtain ⟨hcut, hbehind⟩ := append_of_rfind_single h
  have hle : p ≤ pos := by
    have hlt := lt_length_of_rfind_single h
    rw [List.length_take] at hlt
    omega
  rw [List.take_take, Nat.min_eq_left hle] at hcut
  constructor
  · rintro rfl
    apply hfirst
    have hhead := List.head?_take (l := argument) (i := pos)
    rw [if_neg hpos, hcut] at hhead
    exact hhead.symm
  · rw [hcut, List.count_append, List.count_cons_self, List.count_eq_zero_of_not_mem hbehind]

/-- **Three steps back need three slashes**, unless the first character is one. -/
theorem three_le_count (hfirst : argument.head? ≠ some '/') (hpos : pos ≠ 0)
    (h : ((previousSlash argument pos).bind (previousSlash argument)).bind
      (previousSlash argument) = some p) : 3 ≤ (argument.take pos).count '/' := by
  obtain ⟨p₂, h₂, hp⟩ := Option.bind_eq_some_iff.mp h
  obtain ⟨p₁, hp₁, hp₂⟩ := Option.bind_eq_some_iff.mp h₂
  obtain ⟨hne₁, hcount₁⟩ := previousSlash_count hfirst hpos hp₁
  obtain ⟨hne₂, hcount₂⟩ := previousSlash_count hfirst hne₁ hp₂
  obtain ⟨-, hcount⟩ := previousSlash_count hfirst hne₂ hp
  omega

/-- **A slash at the front is always found**, from position 0 by way of the end. -/
theorem previousSlash_of_front (hfirst : argument.head? = some '/') (pos : Nat) :
    ∃ p, previousSlash argument pos = some p := by
  obtain ⟨rest, rfl⟩ := List.head?_eq_some_iff.mp hfirst
  have hmem : '/' ∈ if pos = 0 then '/' :: rest else ('/' :: rest).take pos := by
    split
    · exact List.mem_cons_self
    · obtain ⟨n, rfl⟩ := Nat.exists_eq_succ_of_ne_zero ‹pos ≠ 0›
      rw [List.take_succ_cons]
      exact List.mem_cons_self
  exact exists_rfind_single hmem

end

/-! ## 2. What the request is split into -/

/-- `IIIF::run` opens the image `filename` and reads the parameters from `params`. -/
def SplitInto (src filename params : Text) : Prop :=
  ∃ pos, rfind ['/'] (URL.decode src) = some pos ∧
    splitPath (URL.decode src) pos = .ok (filename, params)

/-- `IIIF::run` throws, in any session, and has done nothing before. -/
def Refused (src : Text) : Prop :=
  ∀ (S : Server) (h : Headers) (s : Session), ∃ t, IIIF.command S h src = [.opening t] ∧
    t s = .error (.thrown (.invalidArgument "IIIF: Not enough parameters")) s

/-- At least one slash and fewer than four, and no info request. -/
def TooFew (argument : Text) : Prop :=
  argument.count '/' < 4 ∧ ∃ front last, argument = front ++ '/' :: last ∧ '/' ∉ last ∧
    last.take 4 ≠ str "info"

/-- A request with four parameters is split in front of them, and one with fewer is refused. -/
structure SplitsRight (src : Text) : Prop where
  four : ∀ id a b c d : Text, '/' ∉ a → '/' ∉ b → '/' ∉ c → '/' ∉ d → d.take 4 ≠ str "info" →
    URL.decode src = id ++ '/' :: parameters a b c d → SplitInto src id (parameters a b c d)
  fewer : TooFew (URL.decode src) → Refused src

section
variable {src : Text}

/-- **Four parameters** are split off from any identifier. -/
theorem splitInto_parameters {id a b c d : Text} (ha : '/' ∉ a) (hb : '/' ∉ b) (hc : '/' ∉ c)
    (hd : '/' ∉ d) (hinfo : d.take 4 ≠ str "info")
    (hsrc : URL.decode src = id ++ '/' :: parameters a b c d) :
    SplitInto src id (parameters a b c d) := by
  refine ⟨(id ++ '/' :: a ++ '/' :: b ++ '/' :: c).length, ?_, ?_⟩
  · have hcut : id ++ '/' :: parameters a b c d =
        (id ++ '/' :: a ++ '/' :: b ++ '/' :: c) ++ '/' :: d := by
      simp [parameters]
    rw [hsrc, hcut]
    exact rfind_single hd
  · rw [hsrc]
    exact splitPath_parameters id ha hb hc hinfo

/-- **Fewer are refused** if the argument does not begin with a slash. -/
theorem refused_of_tooFew (h : TooFew (URL.decode src))
    (hfirst : (URL.decode src).head? ≠ some '/') : Refused src := by
  obtain ⟨hcount, front, last, hsrc, hlast, hinfo⟩ := h
  intro S hd s
  have hpos : rfind ['/'] (URL.decode src) = some front.length := by
    rw [hsrc]
    exact rfind_single hlast
  have hsplit : splitPath (URL.decode src) front.length =
      .error (.invalidArgument "IIIF: Not enough parameters") := by
    have hsuffix : (URL.decode src).drop (front.length + 1) = last := by
      rw [hsrc]
      exact drop_append_cons front last '/'
    have hfront : front.length ≠ 0 := by
      intro hnil
      rw [hsrc, List.length_eq_zero_iff.mp hnil] at hfirst
      exact hfirst rfl
    rw [splitPath, hsuffix, if_neg hinfo]
    cases hback : ((previousSlash (URL.decode src) front.length).bind
        (previousSlash (URL.decode src))).bind (previousSlash (URL.decode src)) with
    | none => rfl
    | some p =>
      have hthree := three_le_count hfirst hfront hback
      rw [hsrc, List.take_left] at hthree
      rw [hsrc, List.count_append, List.count_cons_self] at hcount
      omega
  refine ⟨IIIF.task S hd (URL.decode src) front.length, ?_, ?_⟩
  · rw [IIIF.command, hpos]
  · rw [IIIF.task, hsplit]
    rfl

/-- **An argument that begins with a slash is split somewhere.** -/
theorem splitInto_of_front (hfirst : (URL.decode src).head? = some '/') :
    ∃ filename params, SplitInto src filename params := by
  obtain ⟨pos, hpos⟩ := exists_rfind_single (List.mem_of_head? hfirst)
  by_cases hinfo : ((URL.decode src).drop (pos + 1)).take 4 = str "info"
  · exact ⟨_, _, pos, hpos, if_pos hinfo⟩
  · obtain ⟨p₁, hp₁⟩ := previousSlash_of_front hfirst pos
    obtain ⟨p₂, hp₂⟩ := previousSlash_of_front hfirst p₁
    obtain ⟨p₃, hp₃⟩ := previousSlash_of_front hfirst p₂
    refine ⟨(URL.decode src).take p₃, (URL.decode src).drop (p₃ + 1), pos, hpos, ?_⟩
    rw [splitPath, if_neg hinfo, hp₁, Option.bind_some, hp₂, Option.bind_some, hp₃]

/-- A request that is split is not refused: with no file on disk it fails in the image layer. -/
theorem SplitInto.not_refused {filename params : Text} (h : SplitInto src filename params) :
    ¬ Refused src := by
  intro hrefused
  obtain ⟨pos, hpos, hsplit⟩ := h
  have hpath : handedPath src = some (.ok (imagePath filename)) := by
    rw [handedPath, hpos, Option.map_some, hsplit]
    rfl
  obtain ⟨rest, hcommand⟩ := task_lookup (smallServer fun _ => none) (simpleHeaders [] []) hpath
  obtain ⟨t, ht, hthrown⟩ :=
    hrefused (smallServer fun _ => none) (simpleHeaders [] []) freshSession
  rw [hcommand] at ht
  cases ht
  cases hthrown

end

/-- **When a request is split as it should be**: unless it has too few parameters and begins with a
slash. -/
theorem splitsRight_iff (src : Text) :
    SplitsRight src ↔
      ¬ (TooFew (URL.decode src) ∧ (URL.decode src).head? = some '/') := by
  constructor
  · rintro hright ⟨hfew, hfirst⟩
    obtain ⟨filename, params, hsplit⟩ := splitInto_of_front hfirst
    exact hsplit.not_refused (hright.fewer hfew)
  · intro hnot
    refine ⟨fun id a b c d => splitInto_parameters, fun hfew => ?_⟩
    exact refused_of_tooFew hfew fun hfirst => hnot ⟨hfew, hfirst⟩

/-- `/x` is the image without a name, with the one parameter `x`. -/
theorem front_slash_split :
    TooFew (URL.decode (str "/x")) ∧ SplitInto (str "/x") [] (str "x") ∧
      ¬ Refused (str "/x") := by
  have hsplit : SplitInto (str "/x") [] (str "x") := ⟨0, by decide, by decide⟩
  have hfew : TooFew (URL.decode (str "/x")) :=
    ⟨by decide, [], str "x", by decide, by decide, by decide⟩
  exact ⟨hfew, hsplit, hsplit.not_refused⟩

end IIIF

end Iipsrv
