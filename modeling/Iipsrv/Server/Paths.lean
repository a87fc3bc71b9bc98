/-
# Paths

How a request string becomes the name of a file.  `FIF::run` decodes its argument, erases `../`
as long as there is one, and hands the result to an `IIPImage`, which puts the file system prefix
in front.  Three other places do part of this: `pathExists` of `DeepZoomExt.cc` repeats it,
`IIIF::run` decodes BEFORE it runs `FIF`, and the image classes build the name that is opened.

* Section 1: decoding is not idempotent.  `URL.Plain` are the texts it leaves alone.
* Section 2: the filter.  `filterLoop` is the loop with its `unsigned int`; below `2 ^ 32`
  characters it is `filterParents`.
* Section 3: the names of `pathExists` and of the image classes.
* Section 4: the path of an `IIIF` request.
-/
import Iipsrv.Server.Opening

namespace Iipsrv

open Lib.Print (Text)
open Lib.Str Lib.Word Lib.Effects

/-! ## 1. Decoding -/

namespace URL

/-- A text without anything to decode: no `+`, and no `%` in front of two hexadecimal digits. -/
structure Plain (s : Text) : Prop where
  plus : '+' ∉ s
  escape : ∀ a b, isxdigit a → isxdigit b → ¬ ['%', a, b] <:+: s

theorem Plain.tail {c : Char} {s : Text} (h : Plain (c :: s)) : Plain s :=
  ⟨fun hin => h.plus (List.mem_cons_of_mem c hin),
    fun a b ha hb hin => h.escape a b ha hb (hin.trans (List.suffix_cons c s).isInfix)⟩

theorem length_decode_le (s : Text) : (decode s).length ≤ s.length := by
  fun_induction decode s with
  | case1 => exact le_rfl
  | case2 s ih => simpa using ih
  | case3 a b s hdigits hzero ih => simp only [List.length_cons]; omega
  | case4 a b s hdigits hzero ih => simp only [List.length_cons]; omega
  | case5 a b s hdigits ih => simpa using ih
  | case6 c s hplus hescape ih => simpa using ih

theorem decode_of_plain {s : Text} (h : Plain s) : decode s = s := by
  fun_induction decode s with
  | case1 => rfl
  | case2 s ih => exact absurd List.mem_cons_self h.plus
  | case3 a b s hdigits hzero ih =>
    exact absurd ⟨[], s, rfl⟩ (h.escape a b hdigits.1 hdigits.2)
  | case4 a b s hdigits hzero ih =>
    exact absurd ⟨[], s, rfl⟩ (h.escape a b hdigits.1 hdigits.2)
  | case5 a b s hdigits ih => rw [ih h.tail]
  | case6 c s hplus hescape ih => rw [ih h.tail]

/-- **Decoding changes everything it looks for**: a text that it leaves alone has nothing to
decode. -/
theorem plain_of_decode_eq {s : Text} (h : decode s = s) : Plain s := by
  fun_induction decode s with
  | case1 => exact ⟨List.not_mem_nil, fun a b _ _ hin => by simp at hin⟩
  | case2 s ih => exact absurd (List.cons.inj h).1 (by decide)
  | case3 a b s hdigits hzero ih =>
    have hlength := congrArg List.length h
    have hle := length_decode_le s
    simp only [List.length_cons] at hlength
    omega
  | case4 a b s hdigits hzero ih =>
    have hlength := congrArg List.length h
    have hle := length_decode_le s
    simp only [List.length_cons] at hlength
    omega
  | case5 a b s hdigits ih =>
    have htail := ih (List.cons.inj h).2
    refine ⟨by simpa using htail.plus, fun x y hx hy hin => ?_⟩
    rcases List.infix_cons_iff.mp hin with hfront | hin
    · obtain ⟨rest, hrest⟩ := hfront
      simp only [List.cons_append, List.nil_append, List.cons.injEq, true_and] at hrest
      obtain ⟨rfl, rfl, -⟩ := hrest
      exact hdigits ⟨hx, hy⟩
    · exact htail.escape x y hx hy hin
  | case6 c s hplus hescape ih =>
    have htail := ih (List.cons.inj h).2
    refine ⟨?_, fun x y hx hy hin => ?_⟩
    · rw [List.mem_cons, not_or]
      exact ⟨fun hc => hplus hc.symm, htail.plus⟩
    · rcases List.infix_cons_iff.mp hin with hfront | hin
      · obtain ⟨rest, hrest⟩ := hfront
        simp only [List.cons_append, List.nil_append, List.cons.injEq] at hrest
        exact hescape x y rest hrest.1.symm hrest.2.symm
      · exact htail.escape x y hx hy hin

theorem decode_cons {c : Char} (hplus : c ≠ '+') (hpercent : c ≠ '%') (s : Text) :
    decode (c :: s) = c :: decode s := by
  simp [decode, hpercent]

/-- A `%` that is not followed by two digits is passed through. -/
theorem decode_percent {s : Text}
    (h : ∀ a b rest, s = a :: b :: rest → ¬ (isxdigit a ∧ isxdigit b)) :
    decode ('%' :: s) = '%' :: decode s := by
  rcases s with _ | ⟨a, _ | ⟨b, s⟩⟩
  · rfl
  · simp [decode]
  · rw [decode, if_neg (h a b s rfl)]

/-- No escape reaches across a `/`. -/
theorem decode_append_slash (s t : Text) :
    decode (s ++ '/' :: t) = decode s ++ '/' :: decode t := by
  have hslash : ¬ isxdigit '/' := by decide
  fun_induction decode s with
  | case1 => exact decode_cons (by decide) (by decide) t
  | case2 s ih => rw [List.cons_append, decode, ih, List.cons_append]
  | case3 a b s hdigits hzero ih =>
    rw [List.cons_append, List.cons_append, List.cons_append, decode, if_pos hdigits, if_pos hzero,
      ih]
  | case4 a b s hdigits hzero ih =>
    rw [List.cons_append, List.cons_append, List.cons_append, decode, if_pos hdigits,
      if_neg hzero, ih, List.cons_append]
  | case5 a b s hdigits ih =>
    rw [List.cons_append, List.cons_append, List.cons_append, decode, if_neg hdigits,
      ← List.cons_append, ← List.cons_append, ih, List.cons_append]
  | case6 c s hplus hescape ih =>
    rw [List.cons_append, List.cons_append, ← ih]
    by_cases hpercent : c = '%'
    · subst hpercent
      refine decode_percent fun a b rest hrest => ?_
      -- fewer than two characters are left in front of the slash
      rcases s with _ | ⟨x, _ | ⟨y, s⟩⟩
      · obtain ⟨rfl, -⟩ := List.cons.inj hrest
        exact fun h => hslash h.1
      · obtain ⟨-, hrest⟩ := List.cons.inj hrest
        obtain ⟨rfl, -⟩ := List.cons.inj hrest
        exact fun h => hslash h.2
      · exact absurd rfl (hescape x y s rfl)
    · exact decode_cons hplus hpercent _

end URL

/-! ## 2. The filter -/

/-- `../` -/
def parent : Text := ['.', '.', '/']

/-- `s.erase( n, 3 )` for a position inside the text. -/
def eraseThree (s : Text) (n : Nat) : Text := s.take n ++ s.drop (n + 3)

theorem length_eraseThree_lt {s : Text} {n : Nat} (h : n < s.length) :
    (eraseThree s n).length < s.length := by
  simp only [eraseThree, List.length_append, List.length_take, List.length_drop]
  omega

theorem eraseThree_sublist (s : Text) (n : Nat) : (eraseThree s n).Sublist s := by
  have hdrop : (s.drop (n + 3)).Sublist (s.drop n) := by
    rw [← List.drop_drop]
    exact List.drop_sublist _ _
  have h : (eraseThree s n).Sublist (s.take n ++ s.drop n) := (List.Sublist.refl _).append hdrop
  rwa [List.take_append_drop] at h

/-- The result of `find`, stored in an `unsigned int`.  `npos` is the largest one. -/
def position : Option Nat → Nat
  | none => u32 (2 ^ 64 - 1)
  | some n => u32 n

/-- The loop of `FIF::run` and of `pathExists`. -/
def filterLoop (path : Text) : Text :=
  if _h : position (find parent path) < path.length then
    filterLoop (eraseThree path (position (find parent path)))
  else path
termination_by path.length
decreasing_by exact length_eraseThree_lt _h

theorem filterParents_of_none {path : Text} (h : find parent path = none) :
    filterParents path = path := by
  rw [filterParents]
  split
  case h_1 => rfl
  case h_2 n hn =>
    rw [parent, hn] at h
    cases h

theorem filterParents_of_some {path : Text} {n : Nat} (h : find parent path = some n) :
    filterParents path = filterParents (eraseThree path n) := by
  rw [filterParents]
  split
  case h_1 hnone =>
    rw [parent, hnone] at h
    cases h
  case h_2 m hm =>
    rw [parent, hm] at h
    cases h
    rfl

/-- **The `unsigned int` is wide enough** for a text shorter than `2 ^ 32`: a position is kept,
and `npos` is not smaller than the length. -/
theorem filterLoop_eq {path : Text} (h : path.length < 2 ^ 32) :
    filterLoop path = filterParents path := by
  fun_induction filterLoop path with
  | case1 path hlt ih =>
    have hshort := (length_eraseThree_lt hlt).trans h
    rw [ih hshort]
    cases hfind : find parent path with
    | none =>
      rw [hfind] at hlt
      simp only [position, u32] at hlt
      omega
    | some n =>
      have hn : u32 n = n := by
        have := find_le hfind
        exact u32_of_lt (by omega)
      rw [filterParents_of_some hfind, position, hn]
  | case2 path hge =>
    cases hfind : find parent path with
    | none => exact (filterParents_of_none hfind).symm
    | some n =>
      have hle := find_le hfind
      have hn : u32 n = n := u32_of_lt (by omega)
      rw [hfind] at hge
      simp only [position, hn, parent, List.length_cons, List.length_nil] at hge hle
      omega

theorem filterParents_sublist (path : Text) : (filterParents path).Sublist path := by
  fun_induction filterParents path with
  | case1 path hnone => exact List.Sublist.refl path
  | case2 path n hfind ih => exact ih.trans (eraseThree_sublist path n)

/-- **Nothing is left to erase**, also of the occurrences that erasing has made. -/
theorem not_infix_filterParents (path : Text) : ¬ parent <:+: filterParents path := by
  fun_induction filterParents path with
  | case1 path hnone => exact find_eq_none_iff.mp hnone
  | case2 path n hfind ih => exact ih

theorem filterParents_eq_self {path : Text} (h : ¬ parent <:+: path) : filterParents path = path :=
  filterParents_of_none (find_eq_none_iff.mpr h)

/-- The components of a path that begins with this text, from the end of it on. -/
def componentsBehind (front path : Text) : List Text :=
  (split '/' [] path).drop ((split '/' [] front).length - 1)

/-- Behind a text that ends in `/`, or is empty, the components are those of the rest. -/
theorem componentsBehind_append {front : Text} (hfront : front = [] ∨ front.getLast? = some '/')
    (rest : Text) : componentsBehind front (front ++ rest) = split '/' [] rest := by
  have hnil : split '/' [] ([] : Text) = [[]] := split_of_none rfl
  rcases hfront with rfl | hlast
  · simp [componentsBehind, hnil]
  · obtain ⟨init, rfl⟩ := List.getLast?_eq_some_iff.mp hlast
    simp [componentsBehind, split_append_cons, hnil]

/-- A text without `../` has no parent directory among its components, except for the last. -/
theorem parent_not_mem_components {path : Text} (h : ¬ parent <:+: path) :
    ['.', '.'] ∉ (split '/' [] path).dropLast :=
  fun hin => h (infix_of_mem_dropLast_split hin)

/-- **The filter cannot be bypassed.**  What is left of a request is a subsequence of what has
been decoded and has no `../` in it, so behind a file system prefix that is empty or ends in `/`
only the last component can be `..`. -/
theorem filterLoop_safe (s front : Text) (hs : s.length < 2 ^ 32)
    (hfront : front = [] ∨ front.getLast? = some '/') :
    (filterLoop (URL.decode s)).Sublist (URL.decode s) ∧
      ¬ parent <:+: filterLoop (URL.decode s) ∧
      ['.', '.'] ∉ (componentsBehind front (front ++ filterLoop (URL.decode s))).dropLast := by
  rw [filterLoop_eq ((URL.length_decode_le s).trans_lt hs), componentsBehind_append hfront]
  have hnone := not_infix_filterParents (URL.decode s)
  exact ⟨filterParents_sublist _, hnone, parent_not_mem_components hnone⟩

/-- Erasing makes a new occurrence here. -/
theorem filterLoop_safe_nested :
    (str "....//x").length < 2 ^ 32 ∧ (str "/data/").getLast? = some '/' ∧
      ¬ parent <:+: filterLoop (URL.decode (str "....//x")) := by
  have hs : (str "....//x").length < 2 ^ 32 := by decide
  have hfront : (str "/data/").getLast? = some '/' := by decide
  exact ⟨hs, hfront, (filterLoop_safe (str "....//x") (str "/data/") hs (.inr hfront)).2.1⟩

/-- **A text survives a second decoding and filtering exactly if it has nothing to decode.** -/
theorem imagePath_eq_self_iff {s : Text} (h : ¬ parent <:+: s) : imagePath s = s ↔ URL.Plain s := by
  constructor
  · intro hpath
    -- neither decoding nor filtering makes a text longer
    have hsub : (imagePath s).Sublist (URL.decode s) := filterParents_sublist _
    have hle := URL.length_decode_le s
    rw [hpath] at hsub
    exact URL.plain_of_decode_eq (hsub.eq_of_length_le hle).symm
  · intro hplain
    rw [imagePath, URL.decode_of_plain hplain, filterParents_eq_self h]

/-! ## 3. The names of files -/

/-- The configuration that names are made of. -/
structure Environment where
  fileSystemPrefix : Text
  fileSystemSuffix : Text
  fileNamePattern : Text

/-- The part of an `IIPImage` that the names of its files are made of. -/
structure Naming where
  imagePath : Text
  fileSystemPrefix : Text
  fileSystemSuffix : Text
  fileNamePattern : Text

namespace Naming

/-- The constructor that takes a path. -/
def new (path : Text) : Naming := ⟨path, [], [], []⟩

def setFileNamePattern (im : Naming) (pattern : Text) : Naming :=
  { im with fileNamePattern := pattern }

def setFileSystemPrefix (im : Naming) (front : Text) : Naming :=
  { im with fileSystemPrefix := front }

/-- The file that `testImageType` looks at, and `getFileName` of a single file, which `openImage`
opens. -/
def fileName (im : Naming) : Text := im.fileSystemPrefix ++ im.imagePath ++ im.fileSystemSuffix

end Naming

/-- The image cache, as far as names go. -/
abbrev NamingCache := List (Text × Naming)

namespace FIF

variable (env : Environment)

/-- What `FIF::run` does to its argument. -/
def decoded (src : Text) : Text := filterLoop (URL.decode src)

/-- The object that `FIF::run` opens: the one in the image cache, or a new one. -/
def naming (cache : NamingCache) (argument : Text) : Naming :=
  match cache.lookup argument with
  | some im => im
  | none => ((Naming.new argument).setFileNamePattern env.fileNamePattern).setFileSystemPrefix
      env.fileSystemPrefix

/-- A `FIF` request: the object goes into the image cache if it could be opened, and one of the
others may have to go. -/
structure NamingRequest where
  src : Text
  opened : Bool
  kept : Text → Bool

/-- The image cache after a request. -/
def remember (cache : NamingCache) (r : NamingRequest) : NamingCache :=
  if r.opened then
    (decoded r.src, naming env cache (decoded r.src)) :: cache.filter fun e => r.kept e.1
  else cache.filter fun e => r.kept e.1

/-- The image cache of a server, after these requests. -/
def remembered (requests : List NamingRequest) : NamingCache :=
  requests.foldl (remember env) []

end FIF

namespace DeepZoomExt

/-- The name of the file that `pathExists` looks at. -/
def testedName (env : Environment) (path : Text) : Text :=
  env.fileSystemPrefix ++ FIF.decoded path ++ env.fileSystemSuffix

end DeepZoomExt

namespace FIF

variable {env : Environment}

/-- Every object in the cache is named by its path, with the prefix and without a suffix. -/
def Named (env : Environment) (cache : NamingCache) : Prop :=
  ∀ e ∈ cache, e.2 = ⟨e.1, env.fileSystemPrefix, [], env.fileNamePattern⟩

theorem Named.naming {cache : NamingCache} (h : Named env cache) (argument : Text) :
    naming env cache argument = ⟨argument, env.fileSystemPrefix, [], env.fileNamePattern⟩ := by
  unfold FIF.naming
  split
  case h_1 im him =>
    obtain ⟨l₁, l₂, hcache, -⟩ := List.lookup_eq_some_iff.mp him
    exact h (argument, im) (by simp [hcache])
  case h_2 => rfl

/-- A request keeps the names. -/
theorem Named.remember {cache : NamingCache} (h : Named env cache) (r : NamingRequest) :
    Named env (remember env cache r) := by
  have hkept : Named env (cache.filter fun e => r.kept e.1) :=
    fun e he => h e (List.mem_filter.mp he).1
  unfold FIF.remember
  split
  case isTrue =>
    rintro e he
    rcases List.mem_cons.mp he with rfl | he
    · exact h.naming _
    · exact hkept e he
  case isFalse => exact hkept

theorem named_remembered (requests : List NamingRequest) : Named env (remembered env requests) := by
  have hrun : ∀ cache, Named env cache → Named env (requests.foldl (FIF.remember env) cache) := by
    induction requests with
    | nil => exact fun _ h => h
    | cons r requests ih => exact fun cache h => ih _ (h.remember r)
  exact hrun [] fun e he => absurd he List.not_mem_nil

end FIF

/-- **`pathExists` looks at the file that is opened exactly if there is no file system suffix**,
after any requests. -/
theorem testedName_eq_iff (env : Environment) (requests : List FIF.NamingRequest) (path : Text) :
    DeepZoomExt.testedName env path =
        (FIF.naming env (FIF.remembered env requests) (FIF.decoded path)).fileName ↔
      env.fileSystemSuffix = [] := by
  rw [(FIF.named_remembered requests).naming]
  simp [DeepZoomExt.testedName, Naming.fileName]

/-- With the suffix `.tif`, the file `a.tif` is looked at and the file `a` is opened. -/
theorem testedName_with_suffix :
    ∃ env : Environment, DeepZoomExt.testedName env (str "a") = str "a.tif" ∧
      (FIF.naming env (FIF.remembered env []) (FIF.decoded (str "a"))).fileName = str "a" := by
  have hdecoded : FIF.decoded (str "a") = str "a" := by
    have hnone : ¬ parent <:+: str "a" := by decide
    unfold FIF.decoded
    rw [filterLoop_eq (by decide)]
    exact filterParents_eq_self hnone
  refine ⟨⟨[], str ".tif", []⟩, ?_, ?_⟩
  · rw [DeepZoomExt.testedName, hdecoded]
    rfl
  · rw [hdecoded]
    rfl

/-! ## 4. The path of an IIIF request -/

namespace IIIF

/-- The path that `IIIF::run` hands to the image layer, by way of `FIF`. -/
def handedPath (src : Text) : Option (Except Thrown Text) :=
  (rfind ['/'] (URL.decode src)).map fun pos =>
    (splitPath (URL.decode src) pos).map fun p => imagePath p.1

/-- The request for the whole image with this identifier. -/
def fullRequest (identifier : Text) : Text := identifier ++ str "/full/full/0/default.jpg"

/-- The slash in front of a piece without one. -/
theorem previousSlash_append {v : Text} (hv : '/' ∉ v) (u w : Text) :
    previousSlash (u ++ '/' :: v ++ w) (u ++ '/' :: v).length = some u.length := by
  have hpos : (u ++ '/' :: v).length ≠ 0 := by simp
  rw [previousSlash, if_neg hpos, List.take_left]
  exact rfind_single hv

/-- Four parameters, as they stand in a request. -/
def parameters (region size rotation quality : Text) : Text :=
  region ++ '/' :: (size ++ '/' :: (rotation ++ '/' :: quality))

/-- **The four parameters are cut off from the end**, so they may stand behind anything. -/
theorem splitPath_parameters (d : Text) {region size rotation quality : Text}
    (hregion : '/' ∉ region) (hsize : '/' ∉ size) (hrotation : '/' ∉ rotation)
    (hquality : quality.take 4 ≠ str "info") :
    splitPath (d ++ '/' :: parameters region size rotation quality)
        (d ++ '/' :: region ++ '/' :: size ++ '/' :: rotation).length =
      .ok (d, parameters region size rotation quality) := by
  -- the argument, cut in front of each of the four
  have hcut₄ : d ++ '/' :: parameters region size rotation quality =
      (d ++ '/' :: region ++ '/' :: size ++ '/' :: rotation) ++ '/' :: quality := by
    simp [parameters]
  have hcut₃ : d ++ '/' :: parameters region size rotation quality =
      (d ++ '/' :: region ++ '/' :: size) ++ ('/' :: rotation ++ '/' :: quality) := by
    simp [parameters]
  have hcut₂ : d ++ '/' :: parameters region size rotation quality =
      (d ++ '/' :: region) ++ ('/' :: size ++ ('/' :: rotation ++ '/' :: quality)) := by
    simp [parameters]
  have hslash₃ := previousSlash_append hrotation (d ++ '/' :: region ++ '/' :: size)
    ('/' :: quality)
  have hslash₂ := previousSlash_append hsize (d ++ '/' :: region)
    ('/' :: rotation ++ '/' :: quality)
  have hslash₁ := previousSlash_append hregion d
    ('/' :: size ++ ('/' :: rotation ++ '/' :: quality))
  rw [← hcut₄] at hslash₃
  rw [← hcut₃] at hslash₂
  rw [← hcut₂] at hslash₁
  have hlast : (d ++ '/' :: parameters region size rotation quality).drop
      ((d ++ '/' :: region ++ '/' :: size ++ '/' :: rotation).length + 1) = quality := by
    rw [hcut₄]
    exact drop_append_cons _ _ _
  unfold splitPath
  rw [hlast, if_neg hquality, hslash₃, Option.bind_some, hslash₂, Option.bind_some, hslash₁]
  simp only [List.take_left, drop_append_cons]

theorem splitPath_full (d : Text) :
    splitPath (d ++ str "/full/full/0/default.jpg") (d ++ str "/full/full/0").length =
      .ok (d, str "full/full/0/default.jpg") := by
  have hfull : '/' ∉ str "full" := by decide
  have hzero : '/' ∉ str "0" := by decide
  have hdefault : (str "default.jpg").take 4 ≠ str "info" := by decide
  have h := splitPath_parameters d hfull hfull hzero hdefault
  simpa [parameters, str] using h

/-- **`IIIF` decodes twice.** -/
theorem handedPath_full (e : Text) :
    handedPath (fullRequest e) = some (.ok (imagePath (URL.decode e))) := by
  have hdecode : URL.decode (fullRequest e) =
      URL.decode e ++ str "/full/full/0/default.jpg" := by
    have htail : URL.decode (str "full/full/0/default.jpg") = str "full/full/0/default.jpg" := by
      decide
    have h := URL.decode_append_slash e (str "full/full/0/default.jpg")
    rwa [htail] at h
  have hpos : rfind ['/'] (URL.decode e ++ str "/full/full/0/default.jpg") =
      some (URL.decode e ++ str "/full/full/0").length := by
    have h := rfind_single (c := '/') (u := URL.decode e ++ str "/full/full/0")
      (v := str "default.jpg") (by decide)
    simpa [str] using h
  rw [handedPath, hdecode, hpos, Option.map_some, splitPath_full]
  rfl

/-- The path that is handed over is the one `FIF` looks up. -/
theorem task_lookup (S : Server) (h : Headers) {src path : Text}
    (hpath : handedPath src = some (.ok path)) :
    ∃ rest : Opened → Task Opened,
      IIIF.command S h src = [.opening (FIF.lookup S path >>= rest)] := by
  unfold handedPath at hpath
  obtain ⟨pos, hpos, hsplit⟩ := Option.map_eq_some_iff.mp hpath
  obtain ⟨⟨filename, params⟩, hfilename, hname⟩ := map_eq_ok hsplit
  unfold command
  rw [hpos]
  dsimp only
  unfold task
  rw [hfilename]
  dsimp only
  rw [FIF.task, bind_assoc, hname]
  exact ⟨_, rfl⟩

end IIIF

/-- **`IIIF` and `FIF` name the same file exactly if the decoded identifier has nothing to
decode**: no `+`, and no `%` in front of two hexadecimal digits. -/
theorem handedPath_eq_imagePath_iff (e : Text) (he : ¬ parent <:+: URL.decode e) :
    IIIF.handedPath (IIIF.fullRequest e) = some (.ok (imagePath e)) ↔ URL.Plain (URL.decode e) := by
  have hfif : imagePath e = URL.decode e := filterParents_eq_self he
  rw [IIIF.handedPath_full, hfif, ← imagePath_eq_self_iff he]
  simp

/-- A name with a blank. -/
theorem handedPath_eq_imagePath_blank :
    ¬ parent <:+: URL.decode (str "a%20b") ∧ URL.Plain (URL.decode (str "a%20b")) ∧
      IIIF.handedPath (IIIF.fullRequest (str "a%20b")) = some (.ok (imagePath (str "a%20b"))) := by
  have hparent : ¬ parent <:+: URL.decode (str "a%20b") := by decide
  have hplain : URL.Plain (URL.decode (str "a%20b")) := URL.plain_of_decode_eq (by decide)
  exact ⟨hparent, hplain, (handedPath_eq_imagePath_iff (str "a%20b") hparent).mpr hplain⟩

/-- The file `a+b` is requested as `a%2Bb`, and `IIIF` looks for `a b`. -/
theorem handedPath_plus :
    ¬ parent <:+: URL.decode (str "a%2Bb") ∧ imagePath (str "a%2Bb") = str "a+b" ∧
      IIIF.handedPath (IIIF.fullRequest (str "a%2Bb")) = some (.ok (str "a b")) := by
  have hparent : ¬ parent <:+: URL.decode (str "a%2Bb") := by decide
  have htwice : imagePath (URL.decode (str "a%2Bb")) = str "a b" := by
    have hnone : ¬ parent <:+: URL.decode (URL.decode (str "a%2Bb")) := by decide
    exact filterParents_eq_self hnone
  refine ⟨hparent, filterParents_eq_self hparent, ?_⟩
  rw [IIIF.handedPath_full, htwice]

end Iipsrv
