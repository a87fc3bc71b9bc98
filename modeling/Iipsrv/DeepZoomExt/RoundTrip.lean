/-
# Requests are read back

A DeepZoomExt request is put together from paths, a level, a column, a row and a format.
`interpret_iff` says that all of it is read back, except for a header with `/greyscale`: there
the length of the WHOLE argument, less the four characters of `.dzi`, is more than what is left
of it, so the last path keeps its `.dzi`.

Every search of the parser is answered by one lemma of `Lib.Str`, from what is known about the
single characters of the pieces.
-/
import Iipsrv.DeepZoomExt.Model
import Iipsrv.Lib.Effects

namespace Iipsrv.DeepZoomExt

open Lib.Print (Text)
open Lib.Str Lib.Effects

/-! ## 1. How a request is put together -/

/-- The formats of a tile. -/
inductive Format
  | jpg | png | zip
  deriving DecidableEq

/-- The letters of a format. -/
def Format.text : Format → Text
  | jpg => DeepZoomExt.jpg
  | png => DeepZoomExt.png
  | zip => DeepZoomExt.zip

/-- The kinds of request. -/
inductive Kind
  | header
  | tile (r x y : Nat) (format : Format)
  deriving DecidableEq

/-- Column and row. -/
def position (x y : Nat) : Text := Nat.toDigits 10 x ++ '_' :: Nat.toDigits 10 y

/-- What stands between the paths and the last point. -/
def Kind.front : Kind → Text
  | header => []
  | tile r x y _ => filesMarker ++ (Nat.toDigits 10 r ++ '/' :: position x y)

/-- What stands behind the last point. -/
def Kind.extension : Kind → Text
  | header => dzi
  | tile _ _ _ format => format.text

/-- The option at the end. -/
def greyscaleText (grey : Bool) : Text := if grey then greyscaleOption else []

/-- A request without the option. -/
def body (paths : List Text) (kind : Kind) : Text :=
  List.intercalate [','] paths ++ (kind.front ++ '.' :: kind.extension)

/-- A request. -/
def encode (paths : List Text) (kind : Kind) (grey : Bool) : Text :=
  body paths kind ++ greyscaleText grey

/-- The settings of a request. -/
def Kind.settings (grey : Bool) : Kind → Settings
  | header => ⟨grey, none, false⟩
  | tile _ _ _ .jpg => ⟨grey, some .jpeg, false⟩
  | tile _ _ _ .png => ⟨grey, some .png, false⟩
  | tile _ _ _ .zip => ⟨grey, some .png, true⟩

/-- What is asked for of one image. -/
def Kind.part (present : Bool) : Kind → Part
  | header => .header present
  | tile r x y _ =>
    if present then .tile (Int32.ofNat r) (Int32.ofNat x) (Int32.ofNat y) else .missing

/-- The numbers of a tile fit into an `int`. -/
def Kind.Fits : Kind → Prop
  | header => True
  | tile r x y _ => r < 2 ^ 31 ∧ x < 2 ^ 31 ∧ y < 2 ^ 31

/-- A path that can be written into a request. -/
structure Plain (path : Text) : Prop where
  comma : ',' ∉ path
  greyscale : ¬ greyscaleOption <:+: path
  files : ¬ filesMarker <:+: path

/-! ## 2. What the searches find -/

/-- A character that is not a digit is not in a number. -/
theorem not_mem_toDigits {c : Char} (h : c.isDigit = false) (n : Nat) :
    c ∉ Nat.toDigits 10 n := by
  intro hc
  rw [Nat.isDigit_of_mem_toDigits (by norm_num) (by norm_num) hc] at h
  cases h

theorem not_mem_position {c : Char} (h : c.isDigit = false) (hc : c ≠ '_') (x y : Nat) :
    c ∉ position x y := by
  simp [position, not_mem_toDigits h, hc]

theorem not_mem_extension {c : Char} (hc : c ∈ ['r', '.', '/']) (kind : Kind) :
    c ∉ kind.extension := by
  simp only [List.mem_cons, List.not_mem_nil, or_false] at hc
  cases kind with
  | header =>
    change c ∉ dzi
    rcases hc with rfl | rfl | rfl <;> decide
  | tile r x y format =>
    change c ∉ format.text
    cases format <;> rcases hc with rfl | rfl | rfl <;> decide

/-- A tile is not taken for a header. -/
theorem extension_ne_dzi (r x y : Nat) (format : Format) :
    (Kind.tile r x y format).extension ≠ dzi := by
  change format.text ≠ dzi
  cases format <;> decide

/-- The suffix has no point, so all of it is the format. -/
theorem cut_extension (kind : Kind) :
    cut kind.extension (next (rfind ['.'] kind.extension)) = .ok kind.extension := by
  have hnone : rfind ['.'] kind.extension = none :=
    rfind_eq_none_iff.mpr fun hin =>
      not_mem_extension (by decide) kind ((List.singleton_infix_iff '.' _).mp hin)
  rw [hnone]
  rfl

section

variable {paths : List Text} {kind : Kind} {grey : Bool} {r x y : Nat} {format : Format}

/-- **The option is not in front of its place**: not in a path, not across the joint of two, and
not in the words behind them, which lack one of its letters. -/
theorem not_infix_body (hgrey : ∀ p ∈ paths, ¬ greyscaleOption <:+: p) :
    ¬ greyscaleOption <:+: body paths kind := by
  have hjoined : ¬ greyscaleOption <:+: List.intercalate [','] paths :=
    not_infix_intercalate (by decide) (by decide) hgrey
  have hwords : ∀ {words : Text}, 'r' ∉ words → ¬ greyscaleOption <:+: words :=
    fun hr hin => hr (hin.subset (by decide))
  have hextension : 'r' ∉ kind.extension := not_mem_extension (by decide) kind
  cases kind with
  | header => exact not_infix_joint (by decide) hjoined (hwords hextension)
  | tile r x y format =>
    change 'r' ∉ format.text at hextension
    have hrest : 'r' ∉ ['f', 'i', 'l', 'e', 's', '/'] ++
        (Nat.toDigits 10 r ++ '/' :: position x y) ++ '.' :: format.text := by
      simp [not_mem_toDigits, not_mem_position, hextension]
    exact not_infix_joint (c := '_') (by decide) hjoined (hwords hrest)

theorem find_greyscale (hgrey : ∀ p ∈ paths, ¬ greyscaleOption <:+: p) :
    find greyscaleOption (encode paths kind grey)
      = if grey then some (body paths kind).length else none := by
  cases grey with
  | false =>
    rw [encode, greyscaleText, if_neg Bool.false_ne_true, List.append_nil,
      if_neg Bool.false_ne_true]
    exact find_eq_none_iff.mpr (not_infix_body hgrey)
  | true =>
    have hbody : ¬ greyscaleOption <:+: body paths kind := not_infix_body hgrey
    have h := find_append_of_head (c := '/') (v := []) (by decide) hbody
    rw [List.append_nil] at h
    exact h

/-- The argument without the option. -/
theorem upTo_greyscale (hgrey : ∀ p ∈ paths, ¬ greyscaleOption <:+: p) :
    upTo (encode paths kind grey) (find greyscaleOption (encode paths kind grey))
      = body paths kind := by
  rw [find_greyscale hgrey]
  cases grey with
  | false => simp [upTo, encode, greyscaleText]
  | true => simp [upTo, encode]

/-- The last point. -/
theorem rfind_point :
    rfind ['.'] (encode paths kind grey)
      = some (List.intercalate [','] paths ++ kind.front).length := by
  have hbehind : '.' ∉ kind.extension ++ greyscaleText grey := by
    rw [List.mem_append, not_or]
    refine ⟨not_mem_extension (by decide) kind, ?_⟩
    cases grey <;> decide
  rw [← rfind_single hbehind]
  simp [encode, body]

/-- What stands behind a character whose position has been found. -/
theorem cut_cons (u : Text) (c : Char) (v : Text) :
    cut (u ++ c :: v) (next (some u.length)) = .ok v := by
  have h := substr_append (u ++ [c]) v
  rw [List.append_assoc, List.length_append] at h
  rw [cut, next]
  exact h ▸ rfl

/-- The suffix. -/
theorem cut_point :
    cut (body paths kind) (next (some (List.intercalate [','] paths ++ kind.front).length))
      = .ok kind.extension := by
  have hbody : body paths kind
      = (List.intercalate [','] paths ++ kind.front ++ ['.']) ++ kind.extension := by
    simp [body]
  have hpos : next (some (List.intercalate [','] paths ++ kind.front).length)
      = (List.intercalate [','] paths ++ kind.front ++ ['.']).length := by
    simp [next, Nat.add_assoc]
  rw [cut, hpos, hbody, substr_append]

/-- The last marker. -/
theorem rfind_marker :
    rfind filesMarker (encode paths (.tile r x y format) grey)
      = some (List.intercalate [','] paths).length := by
  have hbehind : ¬ filesMarker <:+: ['f', 'i', 'l', 'e', 's', '/'] ++
      (Nat.toDigits 10 r ++ '/' ::
        (position x y ++ '.' :: (format.text ++ greyscaleText grey))) := by
    intro hin
    -- the only underscore stands between column and row, with a digit behind it
    have hfront : '_' ∉ ['f', 'i', 'l', 'e', 's', '/'] ++
        (Nat.toDigits 10 r ++ '/' :: Nat.toDigits 10 x) := by
      simp [not_mem_toDigits]
    have hback : '_' ∉ Nat.toDigits 10 y ++ '.' :: (format.text ++ greyscaleText grey) := by
      have hwords : '_' ∉ format.text ++ greyscaleText grey := by
        cases format <;> cases grey <;> decide
      simp [not_mem_toDigits, hwords]
    have hrest := rest_of_occurrence hfront hback (by simpa [position, filesMarker] using hin)
    obtain ⟨d, ds, hd⟩ := List.exists_cons_of_ne_nil (Nat.toDigits_ne_nil (b := 10) (n := y))
    have hdigit : d.isDigit := Nat.isDigit_of_mem_toDigits (b := 10) (n := y) (by norm_num)
      (by norm_num) (hd ▸ List.mem_cons_self)
    rw [hd, List.cons_append] at hrest
    obtain rfl := (List.cons_prefix_cons.mp hrest).1
    exact absurd hdigit (by decide)
  have h := rfind_append (u := List.intercalate [','] paths) hbehind
  rw [← h]
  simp [encode, body, Kind.front, Kind.extension, filesMarker]

/-! ## 3. The coordinates -/

/-- A number that has been printed, as the `int` it is. -/
theorem atoi_toDigits {n : Nat} (h : n < 2 ^ 31) : atoi (Nat.toDigits 10 n) = Int32.ofNat n := by
  rw [← Int32.toInt_inj, toInt_atoi_toDigits h, Int32.toInt_ofNat_of_lt h]

/-- **Level, column and row are read back**, whatever the paths are. -/
theorem coordinates_body (hfits : (Kind.tile r x y format).Fits) :
    coordinates (body paths (.tile r x y format))
      = .ok ((Int32.ofNat r, Int32.ofNat x, Int32.ofNat y), position x y) := by
  obtain ⟨hr, hx, hy⟩ := hfits
  have hslash : '/' ∉ position x y ++ '.' :: format.text := by
    have := not_mem_extension (c := '/') (by decide) (.tile r x y format)
    change '/' ∉ format.text at this
    simp [not_mem_position, this]
  -- the part up to the last stroke, and in it the part up to the one before
  let files : Text := List.intercalate [','] paths ++ ['_', 'f', 'i', 'l', 'e', 's']
  let level : Text := files ++ '/' :: Nat.toDigits 10 r
  have hbody : body paths (.tile r x y format)
      = level ++ '/' :: (position x y ++ '.' :: format.text) := by
    simp [body, Kind.front, Kind.extension, filesMarker, level, files]
  have hn1 : rfind ['/'] (body paths (.tile r x y format)) = some level.length := by
    rw [hbody, rfind_single hslash]
  have hlevel : upTo (body paths (.tile r x y format)) (some level.length) = level := by
    rw [hbody, upTo, List.take_left]
  have hn2 : rfind ['/'] level = some files.length :=
    rfind_single (not_mem_toDigits rfl r)
  have hresolution : cut level (next (some files.length)) = .ok (Nat.toDigits 10 r) :=
    cut_cons files '/' _
  have hlast : cut (body paths (.tile r x y format)) (next (some level.length))
      = .ok (position x y ++ '.' :: format.text) := by
    rw [hbody]
    exact cut_cons level '/' _
  have hdot : rfind ['.'] (body paths (.tile r x y format))
      = some (next (some level.length) + (position x y).length) := by
    have hpoint : rfind ['.'] (encode paths (.tile r x y format) false) =
        some (List.intercalate [','] paths ++ Kind.front (.tile r x y format)).length := rfind_point
    rw [encode, greyscaleText, if_neg Bool.false_ne_true, List.append_nil] at hpoint
    rw [hpoint]
    simp [Kind.front, filesMarker, level, files, next]
    omega
  have hcolumn : find ['_'] (position x y) = some (Nat.toDigits 10 x).length :=
    find_single (not_mem_toDigits rfl x)
  have hrow : cut (position x y) (next (some (Nat.toDigits 10 x).length))
      = .ok (Nat.toDigits 10 y) := cut_cons _ '_' _
  have hx' : upTo (position x y) (some (Nat.toDigits 10 x).length) = Nat.toDigits 10 x := by
    rw [position, upTo, List.take_left]
  unfold coordinates
  simp only [hn1, hlevel, hn2, hresolution, hlast, hdot, ok_bind,
    Nat.not_lt.mpr (Nat.le_add_right _ _), if_false, Nat.add_sub_cancel_left, List.take_left,
    hcolumn, hrow, hx', atoi_toDigits hr, atoi_toDigits hx, atoi_toDigits hy]

/-! ## 4. The whole request -/

/-- The text that is split into paths. -/
def pathText (paths : List Text) (kind : Kind) (grey : Bool) : Text :=
  if kind = .header ∧ grey then body paths kind else List.intercalate [','] paths

theorem pathText_eq :
    (if kind.extension = dzi then
      if (encode paths kind grey).length < 4 then body paths kind
      else (body paths kind).take ((encode paths kind grey).length - 4)
    else upTo (body paths kind) (rfind filesMarker (encode paths kind grey)))
      = pathText paths kind grey := by
  cases kind with
  | header =>
    have hlength : (encode paths .header grey).length
        = (List.intercalate [','] paths).length + 4 + (greyscaleText grey).length := by
      simp [encode, body, Kind.front, Kind.extension, dzi]
      omega
    rw [if_pos (show Kind.header.extension = dzi from rfl), if_neg (by omega), hlength, pathText]
    cases grey with
    | false => simp [body, greyscaleText]
    | true =>
      rw [if_pos ⟨rfl, rfl⟩, List.take_of_length_le]
      simp [body, Kind.front, Kind.extension, dzi, greyscaleText, greyscaleOption]
  | tile r x y format =>
    rw [if_neg (extension_ne_dzi r x y format), rfind_marker, pathText, if_neg (by simp), upTo,
      body, List.take_left]

/-- **What the parser makes of a request.** -/
theorem parse_encode (hgrey : ∀ p ∈ paths, ¬ greyscaleOption <:+: p) :
    parse (encode paths kind grey) = .ok ⟨kind.settings grey, body paths kind, kind.extension,
      split ',' [] (pathText paths kind grey)⟩ := by
  have hsome : (find greyscaleOption (encode paths kind grey)).isSome = grey := by
    rw [find_greyscale hgrey]
    cases grey <;> rfl
  have hsettings : (⟨grey, (compressor kind.extension).1, (compressor kind.extension).2⟩ : Settings)
      = kind.settings grey := by
    cases kind with
    | header => rfl
    | tile r x y format => cases format <;> rfl
  unfold parse
  simp only [upTo_greyscale hgrey, hsome, rfind_point, cut_point, ok_bind, cut_extension]
  rw [← hsettings, pathText_eq]

/-- The loop over the images of a header. -/
theorem parts_header (pathExists : Text → Bool) (argument : Text) (paths : List Text) :
    parts pathExists argument dzi paths
      = .ok (paths.map fun p => (p, .header (pathExists p))) := by
  induction paths with
  | nil => rfl
  | cons p ps ih =>
    rw [parts, if_pos rfl, ih]
    rfl

/-- The loop over the images of a tile: the suffix changes, but does not become `dzi`. -/
theorem parts_tile (pathExists : Text → Bool) {argument suffix : Text}
    {t : (Int32 × Int32 × Int32) × Text} (hsuffix : suffix ≠ dzi)
    (hcoordinates : coordinates argument = .ok t) (hleft : t.2 ≠ dzi) (paths : List Text) :
    parts pathExists argument suffix paths = .ok (paths.map fun p =>
      (p, if pathExists p then .tile t.1.1 t.1.2.1 t.1.2.2 else .missing)) := by
  induction paths generalizing suffix with
  | nil => rfl
  | cons p ps ih =>
    rw [parts, if_neg hsuffix]
    cases hp : pathExists p with
    | true =>
      simp only [if_true, hcoordinates, ok_bind, ih hleft, List.map_cons, hp]
    | false =>
      simp only [Bool.false_eq_true, if_false, ih hsuffix, ok_bind, List.map_cons, hp]

/-- **What is made of a request**, for all images. -/
theorem interpret_encode (hpaths : ∀ p ∈ paths, Plain p) (hfits : kind.Fits)
    (pathExists : Text → Bool) :
    interpret pathExists (encode paths kind grey) = .ok (kind.settings grey,
      (split ',' [] (pathText paths kind grey)).map fun p => (p, kind.part (pathExists p))) := by
  unfold interpret
  rw [parse_encode fun p hp => (hpaths p hp).greyscale, ok_bind]
  cases kind with
  | header =>
    rw [show (Kind.header).extension = dzi from rfl, parts_header]
    rfl
  | tile r x y format =>
    have hleft : position x y ≠ dzi := by
      intro h
      have hmark : '_' ∈ position x y := List.mem_append_right _ List.mem_cons_self
      rw [h] at hmark
      exact absurd hmark (by decide)
    rw [parts_tile pathExists (extension_ne_dzi r x y format) (coordinates_body hfits) hleft]
    rfl

/-- A request for an image that exists is not refused. -/
theorem run_eq_interpret {argument : Text} {parsed : Parsed} {pathExists : Text → Bool}
    (hparse : parse argument = .ok parsed) (hpath : ∃ p ∈ parsed.paths, pathExists p = true) :
    run pathExists argument = interpret pathExists argument := by
  obtain ⟨p, hp, hexists⟩ := hpath
  have hsome : ¬ (parsed.paths.all fun path => !pathExists path) = true := by
    intro hall
    have := List.all_eq_true.mp hall p hp
    simp [hexists] at this
  rw [run, hparse, ok_bind, if_neg hsome]

/-- **A request is read back exactly if it is not a header with `/greyscale`.**  The paths may be
any that are plain; of each it is known whether it exists. -/
theorem interpret_iff (paths : List Text) (hne : paths ≠ []) (hpaths : ∀ p ∈ paths, Plain p)
    (kind : Kind) (hfits : kind.Fits) (grey : Bool) (pathExists : Text → Bool) :
    interpret pathExists (encode paths kind grey)
        = .ok (kind.settings grey, paths.map fun p => (p, kind.part (pathExists p))) ↔
      ¬ (kind = .header ∧ grey = true) := by
  rw [interpret_encode hpaths hfits, pathText]
  constructor
  · rintro hread ⟨rfl, rfl⟩
    -- the paths that are read make up the whole body, those of the request do not
    have hmap := congrArg (List.map Prod.fst) (Prod.mk.inj (Except.ok.inj hread)).2
    simp only [List.map_map, Function.comp_def, List.map_id', and_self, if_true] at hmap
    have hjoined := congrArg (List.intercalate [',']) hmap
    rw [intercalate_split, body] at hjoined
    have hlength := congrArg List.length hjoined
    simp [Kind.front, Kind.extension, dzi] at hlength
  · intro hkind
    rw [if_neg hkind, split_intercalate hne fun p hp => (hpaths p hp).comma]

end

/-- The path `a`. -/
theorem plain_a : Plain ['a'] := ⟨by decide, by decide, by decide⟩

/-- A tile of one image, in grey. -/
theorem interpret_iff_tile :
    interpret (fun _ => true) (encode [['a']] (.tile 9 2 3 .zip) true)
      = .ok (⟨true, some .png, true⟩, [(['a'], .tile 9 2 3)]) :=
  (interpret_iff [['a']] (List.cons_ne_nil _ _) (by simpa using plain_a) (.tile 9 2 3 .zip)
    (by norm_num [Kind.Fits]) true fun _ => true).mpr (fun h => nomatch h.1)

/-- **A header in grey.**  `a.dzi/greyscale` is taken for a request for the image `a.dzi`. -/
theorem header_keeps_dzi :
    encode [['a']] .header true = 'a' :: '.' :: (dzi ++ greyscaleOption) ∧
      (parse (encode [['a']] .header true)).map Parsed.paths = .ok [['a', '.', 'd', 'z', 'i']] := by
  refine ⟨rfl, ?_⟩
  rw [parse_encode (by simpa using plain_a.greyscale)]
  have hnone : find [','] ['a', '.', 'd', 'z', 'i'] = none := by decide
  exact congrArg Except.ok (split_of_none hnone)

end Iipsrv.DeepZoomExt
