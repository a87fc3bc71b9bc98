/-
# The URI map

The server can be configured with a map of the form `prefix=>protocol` (`URI_MAP`).  The path of a
request below the prefix then becomes the argument of the protocol's command, and `QUERY_STRING` is
not looked at.  Both halves are in `main` (`Main.cc`): `setup` reads the map at the start, `mapUri`
applies it to the `REQUEST_URI` of each request.

The prefix is looked for behind the first character, which is taken to be a `/`, and two slashes
are taken off with it.  Neither is checked.  So the path that is cut out is the one below the
prefix only if what is found is followed by a `/` in front of the query (`mapsRight_iff`).
Otherwise a character that is not a slash is lost, the query becomes part of the path, or the cut
begins behind the end of the string and `substr` throws.
-/
import Iipsrv.Server.Main

namespace Iipsrv

open Lib.Print (Text)
open Lib.Str Lib.Effects

namespace URIMap

/-! ## 1. The map -/

/-- The supported protocols. -/
def protocols : List Text :=
  [str "iip", str "iiif", str "zoomify", str "deepzoom", str "deepzoomext"]

/-- The prefix and the command.  The IIP protocol requires `FIF` as first argument. -/
def setup (uriMapString : Text) : Option (Text × Text) :=
  match find (str "=>") uriMapString with
  | none => none
  | some pos =>
    let prtcl := tolower (uriMapString.drop (pos + 2))
    if protocols.contains prtcl then
      some (uriMapString.take pos, if prtcl = str "iip" then str "fif" else prtcl)
    else none

/-- `request_uri.substr( start, end - start )`, where `end` is the position of the query.  Both are
`unsigned int`, and so is their difference. -/
def path (start : Nat) (requestUri : Text) : Except Thrown Text :=
  let stop := (find ['?'] requestUri).getD requestUri.length % 2 ^ 32
  match substr requestUri start with
  | none => .error .outOfRange
  | some rest => .ok (rest.take ((stop + 2 ^ 32 - start) % 2 ^ 32))

/-- The request string of a URI, if it is mapped. -/
def mapUri : Option (Text × Text) → Text → Except Thrown (Option Text)
  | none, _ => .ok none
  | some (uriPrefix, command), requestUri =>
    let len := uriPrefix.length
    if len = 0 ∨ find uriPrefix requestUri = some 1 then
      -- add 2 to remove both leading and trailing slashes
      let start := if 0 < len then (len + 2) % 2 ^ 32 else 1
      (path start requestUri).map fun argument => some (command ++ '=' :: argument)
    else .ok none

/-- The request string: mapped, or the query, or the content of a POST. -/
def requestString (uriMap : Option (Text × Text)) (requestUri queryString content : Text) :
    Except Thrown Text := do
  let mapped := (← mapUri uriMap requestUri).getD []
  return if mapped ≠ [] then mapped else if queryString ≠ [] then queryString else content

/-- **A map names a command of the server**, so a request that is mapped has a handler. -/
theorem factory_of_setup {uriMapString uriPrefix command : Text}
    (h : setup uriMapString = some (uriPrefix, command)) : (Command.factory command).isSome := by
  have hall : ∀ p ∈ protocols,
      (Command.factory (if p = str "iip" then str "fif" else p)).isSome := by decide
  unfold setup at h
  split at h
  · cases h
  · dsimp only at h
    split at h
    case isTrue hp =>
      obtain ⟨-, rfl⟩ := Prod.mk.inj (Option.some.inj h)
      exact hall _ (List.contains_iff_mem.mp hp)
    case isFalse => cases h

/-- The query is read exactly if the URI is not mapped. -/
theorem requestString_of_mapUri {uriPrefix command requestUri queryString content : Text}
    {mapped : Option Text} (h : mapUri (some (uriPrefix, command)) requestUri = .ok mapped) :
    requestString (some (uriPrefix, command)) requestUri queryString content =
      .ok (mapped.getD (if queryString ≠ [] then queryString else content)) := by
  rw [requestString, h]
  cases mapped with
  | none => rfl
  | some r =>
    have hne : r ≠ [] := by
      rintro rfl
      unfold mapUri at h
      dsimp only at h
      split at h
      · obtain ⟨argument, -, hmapped⟩ := map_eq_ok h
        simp at hmapped
      · cases h
    exact congrArg Except.ok (if_pos hne)

/-! ## 2. What the map is for -/

/-- The part of a URI in front of the query. -/
def part (u : Text) : Text := u.takeWhile (· ≠ '?')

/-- The URI is below the prefix; everything is below an empty one. -/
def Below (p u : Text) : Prop := p = [] ∨ '/' :: p ++ ['/'] <+: part u

instance (p u : Text) : Decidable (Below p u) :=
  inferInstanceAs (Decidable (_ ∨ _))

/-- What stands behind the prefix and its slashes; behind the first slash if the prefix is empty. -/
def below (p u : Text) : Text := (part u).drop (if p = [] then 1 else p.length + 2)

/-- A URI below the prefix is mapped to the path below it, any other is not mapped. -/
def MapsRight (uriMap : Option (Text × Text)) (p command u : Text) : Prop :=
  mapUri uriMap u = .ok (if Below p u then some (command ++ '=' :: below p u) else none)

/-! ## 3. Where the cut is right -/

section
variable {p command u : Text} {start : Nat}

theorem part_isPrefix (u : Text) : part u <+: u := List.takeWhile_prefix _

theorem path_of_lt (h : u.length < start) : path start u = .error .outOfRange := by
  rw [path, substr, if_neg (Nat.not_le.mpr h)]

theorem path_of_le (h : start ≤ u.length) :
    path start u =
      .ok ((u.drop start).take (((part u).length % 2 ^ 32 + 2 ^ 32 - start) % 2 ^ 32)) := by
  rw [path, substr, if_pos h, find_single_getD]
  rfl

/-- **The cut.**  From a position in front of the query, up to the query, if an `unsigned int` can
count what is in between. -/
theorem path_eq_iff (hstart : start ≤ (part u).length) (hsmall : start < 2 ^ 32) :
    path start u = .ok ((part u).drop start) ↔ ((part u).drop start).length < 2 ^ 32 := by
  obtain ⟨query, hquery⟩ := part_isPrefix u
  have hcount : ((part u).length % 2 ^ 32 + 2 ^ 32 - start) % 2 ^ 32 =
      ((part u).drop start).length % 2 ^ 32 := by
    rw [List.length_drop]
    omega
  have hdrop : u.drop start = (part u).drop start ++ query := by
    conv_lhs => rw [← hquery]
    exact List.drop_append_of_le_length hstart
  have hle := Nat.mod_le ((part u).drop start).length (2 ^ 32)
  rw [path_of_le (hstart.trans (part_isPrefix u).length_le), hcount, hdrop,
    List.take_append_of_le_length hle, Except.ok.injEq, List.take_eq_self_iff]
  omega

/-- A cut that begins at the query goes on into it. -/
theorem path_query (query : Text) : path 1 ('?' :: query) = .ok (query.take (2 ^ 32 - 1)) := by
  have hnil : part ('?' :: query) = [] := List.takeWhile_cons_of_neg (by simp)
  rw [path_of_le (by simp), hnil]
  rfl

/-- **The empty prefix** maps every URI, so there has to be a first character, and it has to stand
in front of the query. -/
theorem path_one_eq_iff :
    path 1 u = .ok ((part u).drop 1) ↔
      u ≠ [] ∧ (part u ≠ [] ∨ u = ['?']) ∧ ((part u).drop 1).length < 2 ^ 32 := by
  rcases u with _ | ⟨c, s⟩
  · simp [path_of_lt]
  by_cases hc : c = '?'
  · subst hc
    have hnil : part ('?' :: s) = [] := List.takeWhile_cons_of_neg (by simp)
    rw [path_query, hnil]
    cases s <;> simp
  · have hpart : part (c :: s) = c :: part s := List.takeWhile_cons_of_pos (by simpa using hc)
    rw [path_eq_iff (by rw [hpart]; simp) (by decide)]
    simp [hpart]

theorem map_path_eq_iff {argument : Text} :
    ((path start u).map fun a => some (command ++ '=' :: a)) =
        .ok (some (command ++ '=' :: argument)) ↔ path start u = .ok argument := by
  cases path start u <;> simp [Except.map]

/-- The empty prefix. -/
theorem mapsRight_nil_iff :
    MapsRight (some ([], command)) [] command u ↔
      u ≠ [] ∧ (part u ≠ [] ∨ u = ['?']) ∧ (below [] u).length < 2 ^ 32 := by
  have hmap : mapUri (some ([], command)) u =
      (path 1 u).map fun a => some (command ++ '=' :: a) := rfl
  rw [MapsRight, if_pos (.inl rfl), hmap, map_path_eq_iff]
  exact path_one_eq_iff

theorem Below.le (hp : p ≠ []) (h : Below p u) : p.length + 2 ≤ (part u).length := by
  have hlength := (h.resolve_left hp).length_le
  simp only [List.length_append, List.length_cons, List.length_nil] at hlength
  omega

/-- Any other prefix. -/
theorem mapsRight_cons_iff (hne : p ≠ []) (hp : p.length + 2 < 2 ^ 32) :
    MapsRight (some (p, command)) p command u ↔
      (find p u = some 1 ↔ Below p u) ∧ (Below p u → (below p u).length < 2 ^ 32) := by
  have hlen : p.length ≠ 0 := fun h => hne (List.length_eq_zero_iff.mp h)
  have hstart : (if 0 < p.length then (p.length + 2) % 2 ^ 32 else 1) = p.length + 2 := by
    rw [if_pos (Nat.pos_of_ne_zero hlen), Nat.mod_eq_of_lt hp]
  by_cases hfound : find p u = some 1
  · have hmap : mapUri (some (p, command)) u =
        (path (p.length + 2) u).map fun a => some (command ++ '=' :: a) := by
      rw [← hstart]
      exact if_pos (.inr hfound)
    by_cases hbelow : Below p u
    · have hcut : below p u = (part u).drop (p.length + 2) := by rw [below, if_neg hne]
      rw [MapsRight, if_pos hbelow, hmap, map_path_eq_iff, hcut, path_eq_iff (hbelow.le hne) hp]
      exact ⟨fun h => ⟨iff_of_true hfound hbelow, fun _ => h⟩, fun h => h.2 hbelow⟩
    · rw [MapsRight, if_neg hbelow, hmap]
      refine ⟨fun h => ?_, fun h => absurd (h.1.mp hfound) hbelow⟩
      obtain ⟨argument, -, hnone⟩ := map_eq_ok h
      cases hnone
  · have hmap : mapUri (some (p, command)) u = .ok none :=
      if_neg (not_or.mpr ⟨hlen, hfound⟩)
    by_cases hbelow : Below p u
    · rw [MapsRight, if_pos hbelow, hmap]
      exact ⟨nofun, fun h => absurd (h.1.mpr hbelow) hfound⟩
    · rw [MapsRight, if_neg hbelow, hmap]
      exact ⟨fun _ => ⟨iff_of_false hfound hbelow, fun h => absurd h hbelow⟩, fun _ => rfl⟩

end

/-- **When the map takes the path below the prefix.**  With an empty prefix: the URI has a first
character in front of the query.  With any other: it stands behind the first character, and not at
the front, exactly if the URI is below it.  In both cases the path can be counted in 32 bits. -/
theorem mapsRight_iff (uriMapString p command u : Text)
    (hsetup : setup uriMapString = some (p, command)) (hp : p.length + 2 < 2 ^ 32) :
    MapsRight (setup uriMapString) p command u ↔
      (p = [] → u ≠ [] ∧ (part u ≠ [] ∨ u = ['?'])) ∧
      (p ≠ [] → (¬ p <+: u ∧ p <+: u.drop 1 ↔ Below p u)) ∧
      (Below p u → (below p u).length < 2 ^ 32) := by
  rw [hsetup]
  by_cases hnil : p = []
  · subst hnil
    have hbelow : Below [] u := .inl rfl
    rw [mapsRight_nil_iff]
    constructor
    · rintro ⟨hne, hpart, hlength⟩
      exact ⟨fun _ => ⟨hne, hpart⟩, fun h => absurd rfl h, fun _ => hlength⟩
    · rintro ⟨hfirst, -, hlength⟩
      exact ⟨(hfirst rfl).1, (hfirst rfl).2, hlength hbelow⟩
  · rw [mapsRight_cons_iff hnil hp, find_eq_one_iff]
    constructor
    · rintro ⟨hfound, hlength⟩
      exact ⟨fun h => absurd h hnil, fun _ => hfound, hlength⟩
    · rintro ⟨-, hfound, hlength⟩
      exact ⟨hfound hnil, hlength⟩

/-- A tile path below `iiif`, with a query behind it. -/
theorem mapsRight_iff_iiif :
    mapUri (setup (str "iiif=>IIIF")) (str "/iiif/a/info.json?x") =
      .ok (some (str "iiif=a/info.json")) :=
  (mapsRight_iff (str "iiif=>IIIF") (str "iiif") (str "iiif") (str "/iiif/a/info.json?x")
    (by decide) (by decide)).mpr ⟨by decide, by decide, by decide⟩

/-- The prefix alone is shorter than the two slashes that are taken off with it; a longer word that
begins with the prefix is mapped, without a character; and a query directly behind it is read as a
path. -/
theorem mapped_wrongly :
    mapUri (setup (str "iiif=>IIIF")) (str "/iiif") = .error .outOfRange ∧
      mapUri (setup (str "iiif=>IIIF")) (str "/iiifx/a") = .ok (some (str "iiif=/a")) ∧
      mapUri (setup (str "iiif=>IIIF")) (str "/iiif?x") = .ok (some (str "iiif=x")) := by
  decide

end URIMap

end Iipsrv
