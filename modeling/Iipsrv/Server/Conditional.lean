/-
# Requests with `If-Modified-Since`

`FIF::run` compares the timestamp of the image it has opened with the time of the header and throws
304 if the image is not newer.  A `DeepZoomExt` request opens several images, one after the other,
and the FIRST that is not newer ends it, whatever the others are.

* `ends304_iff_reached`: a request ends with 304 exactly if the loop over the paths comes to an
  image that can be opened and is unchanged;
* `ends304_iff_unchanged_iff`: when that is the same as all images being unchanged.

Timestamps are those of the files.  `openImage` reads them anew, also for an image that has been
found in the cache, so the state of the cache does not matter.
-/
import Iipsrv.Lib.Triple
import Iipsrv.Server.Assembly
import Iipsrv.Server.Paths

namespace Iipsrv

open Lib.Print (Text)
open Lib.Str Lib.Effects

/-! ## 1. Timestamps -/

namespace FIF

variable {disk : Disk} {openjpeg : Bool} {first : ImageCache → Nat} {argument : Text}
  {c : ImageCache}

/-- The time of the file under a path, for a sequence that of its first view. -/
def mtime (disk : Disk) (path : Text) : Option Int :=
  (disk path).bind fun source => (source.file 0 90).map FileData.mtime

theorem timestamp_openFrom {test : IIPImage} {timestamp : Int} {image : Opened}
    (h : openFrom disk openjpeg test timestamp = .ok image) :
    (disk.fileOf test).map FileData.mtime = some image.base.timestamp := by
  rcases openFrom_eq_ok.mp h with ⟨mtime, f, -, hfile, -, rfl⟩ | ⟨mtime, f, -, -, hfile, rfl⟩
  · rw [hfile]
    unfold openedTiff refresh TPTImage.start TPTImage.ensureInfo
    split <;> split <;> rfl
  · rw [hfile]
    unfold openedJp2 refresh OpenJPEGImage.start OpenJPEGImage.ensureInfo
    split <;> split <;> rfl

/-- **An image that has been opened has the time of its file**, whether it comes from the cache or
not. -/
theorem timestamp_run (hall : c.Entries) {image : Opened}
    (h : (run disk openjpeg first argument c).1 = .ok image) :
    mtime disk argument = some image.base.timestamp := by
  obtain ⟨test, timestamp, hstart, hopen⟩ := run_eq_ok.mp h
  have hready : Ready argument test := by
    rcases hstart with ⟨hfind, -⟩ | ⟨-, hinit, -⟩
    · exact (hall argument test (ImageCache.mem_of_find hfind)).toReady
    · exact (ready_of_initialise hinit).1
  have htime := timestamp_openFrom hopen
  unfold Disk.fileOf at htime
  rw [hready.imagePath, hready.currentX, hready.currentY] at htime
  unfold mtime
  cases hsource : disk argument with
  | none =>
    rw [hsource] at htime
    cases htime
  | some source =>
    rw [hsource] at htime
    dsimp only at htime
    split at htime
    · exact htime
    · cases htime

theorem openImage_ne_status {file : Option FileData} {image : Opened} {code : Nat} :
    image.openImage file ≠ .error (.status code) := by
  rcases image with im | im
  · rcases file with _ | ⟨mtime, f | f | _⟩
    · exact nofun
    · unfold Opened.openImage TPTImage.openImage
      dsimp only
      split <;> exact nofun
    · exact nofun
    · exact nofun
  · rcases file with _ | ⟨mtime, f | f | _⟩ <;> exact nofun

theorem openFrom_ne_status {test : IIPImage} {timestamp : Int} {code : Nat} :
    openFrom disk openjpeg test timestamp ≠ .error (.status code) := by
  intro h
  rcases bind_eq_error h with hcreate | ⟨made, -, h⟩
  · unfold create at hcreate
    split at hcreate
    · cases hcreate
    · split at hcreate <;> cases hcreate
    · cases hcreate
  · rcases bind_eq_error h with hopen | ⟨image, -, h⟩
    · exact openImage_ne_status hopen
    · cases h

/-- No exception on the way to the comparison is a status code. -/
theorem run_ne_status {code : Nat} :
    (run disk openjpeg first argument c).1 ≠ .error (.status code) := by
  unfold run
  split
  case h_1 => rw [finish_fst]; exact openFrom_ne_status
  case h_2 =>
    cases hinit : initialise disk argument with
    | error e =>
      unfold initialise at hinit
      split at hinit <;> cases hinit
      exact nofun
    | ok im => rw [finish_fst]; exact openFrom_ne_status

end FIF

/-! ## 2. The comparison -/

/-- What `FIF::run` throws for an image that is not newer. -/
def notModified : Stop := .thrown (.status 304)

/-- The exceptions of the libraries carry no status codes. -/
def Server.Ordinary (S : Server) : Prop := ∀ message code, S.exception message ≠ .status code

/-- The image of a path is not later than `t`. -/
def Server.Unchanged (S : Server) (t : Int) (path : Text) : Prop :=
  ∃ m, FIF.mtime S.disk (imagePath path) = some m ∧ m ≤ t

/-- The image of a path can be opened, with this image cache. -/
def Server.Opens (S : Server) (path : Text) (c : FIF.ImageCache) : Prop :=
  ∃ im, (FIF.run S.disk S.openjpeg S.first (imagePath path) c).1 = .ok im

namespace FIF

variable {S : Server} {h : Headers} {path : Text} {s : Session}

/-- The session behind an image that has been opened. -/
def opened (S : Server) (path : Text) (im : Opened) (s : Session) : Session :=
  { s with
    imageCache := (run S.disk S.openjpeg S.first (imagePath path) s.imageCache).2
    response := s.response.setLastModified (S.timestamp im)
    view := { s.view with xangle := 0, yangle := 90 } }

/-- **What `FIF::run` can do**: return the image, find it unmodified, or fail to open it. -/
theorem task_cases (S : Server) (h : Headers) (path : Text) (s : Session) :
    (∃ im, (run S.disk S.openjpeg S.first (imagePath path) s.imageCache).1 = .ok im ∧
        ¬ unmodified S h im ∧ task S h path s = .ok im (opened S path im s)) ∨
      (∃ im s', (run S.disk S.openjpeg S.first (imagePath path) s.imageCache).1 = .ok im ∧
        unmodified S h im ∧ task S h path s = .error notModified s') ∨
      (∃ e s', (run S.disk S.openjpeg S.first (imagePath path) s.imageCache).1 = .error e ∧
        task S h path s = .error (.thrown e) s') := by
  rcases hrun : run S.disk S.openjpeg S.first (imagePath path) s.imageCache with ⟨r, cache⟩
  cases r with
  | error e =>
    have hlookup : ∃ s', lookup S (imagePath path) s = .error (.thrown e) s' := by
      unfold lookup
      rw [hrun]
      cases e <;> exact ⟨_, rfl⟩
    obtain ⟨s', hlookup⟩ := hlookup
    exact .inr (.inr ⟨e, s', rfl, EState.bind_error hlookup⟩)
  | ok im =>
    have hlookup : lookup S (imagePath path) s = .ok im { s with imageCache := cache } := by
      unfold lookup
      rw [hrun]
    unfold task opened
    rw [EState.bind_ok hlookup, hrun]
    by_cases hun : unmodified S h im
    · rw [if_pos hun]
      exact .inr (.inl ⟨im, _, rfl, hun, rfl⟩)
    · rw [if_neg hun]
      exact .inl ⟨im, rfl, hun, rfl⟩

/-- With the header, an image is unmodified exactly if its file is not later. -/
theorem unmodified_iff {text : Text} (htext : h.ifModifiedSince = some text)
    (hall : s.imageCache.Entries) {im : Opened}
    (him : (run S.disk S.openjpeg S.first (imagePath path) s.imageCache).1 = .ok im) :
    unmodified S h im ↔ S.Unchanged (S.parseDate text) path := by
  unfold unmodified Server.Unchanged
  rw [htext, timestamp_run hall him]
  simp

/-- **When `FIF::run` throws 304.** -/
theorem task_notModified_iff {text : Text} (htext : h.ifModifiedSince = some text)
    (hall : s.imageCache.Entries) :
    (∃ s', task S h path s = .error notModified s') ↔
      S.Opens path s.imageCache ∧ S.Unchanged (S.parseDate text) path := by
  rcases task_cases S h path s with ⟨im, him, hun, htask⟩ | ⟨im, s₁, him, hun, htask⟩ |
    ⟨e, s₁, he, htask⟩
  · rw [htask]
    refine iff_of_false ?_ ?_
    · rintro ⟨s', heq⟩
      cases heq
    · rintro ⟨-, hunchanged⟩
      exact hun ((unmodified_iff htext hall him).2 hunchanged)
  · rw [htask]
    exact iff_of_true ⟨s₁, rfl⟩ ⟨⟨im, him⟩, (unmodified_iff htext hall him).1 hun⟩
  · rw [htask]
    refine iff_of_false ?_ ?_
    · rintro ⟨s', heq⟩
      cases heq
      exact run_ne_status he
    · rintro ⟨⟨im, him⟩, -⟩
      cases he.symm.trans him

end FIF

/-! ## 3. What does not throw 304 -/

namespace Task

variable {S : Server} {α β : Type} {x : Task α} {f : α → Task β} {s : Session}

/-- Neither opens an image nor throws 304. -/
def Quiet (x : Task α) : Prop :=
  ∀ c, Triple (fun s => s.imageCache = c) x (fun _ s => s.imageCache = c) fun e _ => e ≠ notModified

namespace Quiet

theorem pure (a : α) : Quiet (Pure.pure a : Task α) := fun _ => Triple.pure fun _ hs => hs

theorem get_bind {f : Session → Task β} (hf : ∀ s, Quiet (f s)) : Quiet (get >>= f) :=
  fun c => Triple.get_bind fun s _ => hf s c

theorem bind (hx : Quiet x) (hf : ∀ a, Quiet (f a)) : Quiet (x >>= f) :=
  fun c => Triple.bind (hx c) fun a => hf a c

theorem throw {e : Stop} (he : e ≠ notModified) : Quiet (MonadExcept.throw e : Task α) :=
  fun _ => Triple.throw fun _ _ => he

theorem raise {t : Thrown} (ht : t ≠ .status 304) : Quiet (Task.raise t : Task α) :=
  throw fun heq => ht (Stop.thrown.inj heq)

theorem reply (text : Text) : Quiet (Task.reply text) := fun _ => Triple.modify fun _ hs => hs

theorem stop_ne (hS : S.Ordinary) (e : Failure) : stop S e ≠ notModified := by
  cases e with
  | fault f => exact nofun
  | thrown m => exact fun heq => hS m 304 (Stop.thrown.inj heq)

theorem manage (hS : S.Ordinary) (m : Manager α) : Quiet (Task.manage S m) := by
  intro c s hs
  unfold Task.manage
  cases m s.tileCache with
  | ok a tiles => exact hs
  | error e tiles => exact stop_ne hS e

theorem ofExcept (hS : S.Ordinary) (x : Except Failure α) : Quiet (Task.ofExcept S x) := by
  intro c s hs
  unfold Task.ofExcept
  cases x with
  | ok a => exact hs
  | error e => exact stop_ne hS e

theorem tileAt (im : Opened) (level x y : Int32) : Quiet (Task.tileAt im level x y) := by
  unfold Task.tileAt
  split
  · exact throw nofun
  · split
    · exact throw nofun
    · exact pure _

/-- It leaves the image cache as it is. -/
theorem imageCache_eq {a : α} {s' : Session} (hx : Quiet x) (h : x s = .ok a s') :
    s'.imageCache = s.imageCache :=
  (hx s.imageCache).of_ok rfl h

theorem ne_notModified {s' : Session} (hx : Quiet x) : x s ≠ .error notModified s' :=
  fun h => (hx s.imageCache).of_error rfl h rfl

end Quiet

/-- A 304 comes from what stands before the quiet part. -/
theorem bind_notModified_iff (hf : ∀ a, Quiet (f a)) :
    (∃ s', (x >>= f) s = .error notModified s') ↔ ∃ s', x s = .error notModified s' := by
  constructor
  · rintro ⟨s', h⟩
    rcases EState.bind_eq_error h with hx | ⟨a, s₁, -, ha⟩
    · exact ⟨s', hx⟩
    · exact absurd ha (hf a).ne_notModified
  · rintro ⟨s', hx⟩
    exact ⟨s', EState.bind_error hx⟩

end Task

namespace JTLExt

variable {S : Server}

theorem quiet_getTile (hS : S.Ordinary) (resolution tile : Int32) (im : Opened) :
    Task.Quiet (getTile S resolution tile im) := by
  unfold getTile
  split
  · exact .raise nofun
  · split
    · exact .throw nofun
    · refine .get_bind fun s => .bind (.manage hS _) fun r => ?_
      exact .bind (.ofExcept hS _) fun sent => .pure _

theorem quiet_tileOf (hS : S.Ordinary) (resolution x y : Int32) (im : Opened) :
    Task.Quiet (tileOf S resolution x y im) :=
  .bind (.tileAt im _ x y) fun tile => quiet_getTile hS _ tile im

theorem quiet_send (settings : DeepZoomExt.Settings) (tiles : List (Option RawTile)) :
    Task.Quiet (send S settings tiles) := by
  unfold send
  split
  · exact .throw nofun
  · exact .get_bind fun s => .reply _

end JTLExt

namespace DeepZoomExt

variable {S : Server} {h : Headers} {argument path : Text} {v : Vectors}

theorem cut_ne_status {t : Text} {pos code : Nat} : cut t pos ≠ .error (.status code) := by
  unfold cut
  split <;> exact nofun

theorem coordinates_ne_status {code : Nat} : coordinates argument ≠ .error (.status code) := by
  intro heq
  rcases bind_eq_error heq with hcut | ⟨level, -, heq⟩
  · exact cut_ne_status hcut
  rcases bind_eq_error heq with hcut | ⟨last, -, heq⟩
  · exact cut_ne_status hcut
  rcases bind_eq_error heq with hcut | ⟨row, -, heq⟩
  · exact cut_ne_status hcut
  · cases heq

theorem quiet_existingFile (hS : S.Ordinary) (isFirst : Bool) (im : Opened) :
    Task.Quiet (existingFile S argument isFirst im v) := by
  unfold existingFile
  split
  · exact .get_bind fun s => .pure _
  · split
    case h_1 e he =>
      refine .raise ?_
      rintro rfl
      exact coordinates_ne_status he
    case h_2 => exact .bind (JTLExt.quiet_tileOf hS _ _ _ im) fun t => .pure _

theorem quiet_missingFile (isFirst : Bool) : Task.Quiet (missingFile S isFirst v) := by
  unfold missingFile
  split
  · exact .get_bind fun s => .pure _
  · exact .pure _

theorem quiet_conclude (settings : Settings) (r : Vectors × Reply) :
    Task.Quiet (conclude S settings r) := by
  unfold conclude
  split
  · exact .raise nofun
  · unfold Reply.send
    split
    · exact .bind (.reply _) fun _ => .pure _
    · refine .bind ?_ fun _ => .pure _
      unfold JTLExt.sendVectors
      split
      · exact .throw nofun
      · split
        · exact .throw nofun
        · exact JTLExt.quiet_send _ _

/-! ## 4. The loop -/

/-- An image that has been opened is an entry of the cache from then on. -/
theorem entries_task {im : Opened} {s s' : Session} (hs : s.imageCache.Entries)
    (htask : FIF.task S h path s = .ok im s') : s'.imageCache.Entries := by
  rcases FIF.task_cases S h path s with ⟨im₁, -, -, hok⟩ | ⟨im₁, s₁, -, -, herror⟩ |
    ⟨e, s₁, -, herror⟩
  · cases htask.symm.trans hok
    exact hs.run
  · cases htask.symm.trans herror
  · cases htask.symm.trans herror

theorem entries_imageOf (hS : S.Ordinary) {suffix suffix' : Text} {s s' : Session}
    (hs : s.imageCache.Entries) (h₁ : imageOf S h argument suffix path s = .ok suffix' s') :
    s'.imageCache.Entries := by
  unfold imageOf at h₁
  split at h₁
  · split at h₁
    · obtain ⟨im, s₁, htask, h₁⟩ := EState.bind_eq_ok h₁
      cases h₁
      exact entries_task hs htask
    · obtain ⟨r, s₁, hr, h₁⟩ := EState.bind_eq_ok h₁
      cases h₁
      obtain ⟨im, s₂, htask, hr⟩ := EState.bind_eq_ok hr
      cases hc : coordinates argument with
      | error e =>
        rw [hc] at hr
        cases hr
      | ok c =>
        rw [hc] at hr
        obtain ⟨t, s₃, ht, hr⟩ := EState.bind_eq_ok hr
        cases hr
        rw [(JTLExt.quiet_tileOf hS _ _ _ im).imageCache_eq ht]
        exact entries_task hs htask
  · cases h₁
    exact hs

/-- The loop comes to a path: what is to be done for the paths before it can be done.  It leaves
this session behind. -/
def Reaches (S : Server) (h : Headers) (argument suffix : Text) (s : Session) (paths : List Text)
    (path : Text) (s₁ : Session) : Prop :=
  ∃ before behind suffix₁, paths = before ++ path :: behind ∧
    before.foldlM (imageOf S h argument) suffix s = .ok suffix₁ s₁

section

variable {suffix p : Text} {paths : List Text} {count i : Nat} {s s₁ : Session}

theorem not_reaches_nil : ¬ Reaches S h argument suffix s [] p s₁ := by
  rintro ⟨before, behind, suffix₁, hpaths, -⟩
  cases before <;> cases hpaths

/-- The first path is reached at once, the others behind it. -/
theorem reaches_cons :
    Reaches S h argument suffix s (path :: paths) p s₁ ↔
      (p = path ∧ s₁ = s) ∨ ∃ suffix' s', imageOf S h argument suffix path s = .ok suffix' s' ∧
        Reaches S h argument suffix' s' paths p s₁ := by
  constructor
  · rintro ⟨before, behind, suffix₁, hpaths, hfold⟩
    cases before with
    | nil =>
      cases hpaths
      cases hfold
      exact .inl ⟨rfl, rfl⟩
    | cons q before =>
      cases hpaths
      rw [List.foldlM_cons] at hfold
      obtain ⟨suffix', s', himage, hfold⟩ := EState.bind_eq_ok hfold
      exact .inr ⟨suffix', s', himage, before, behind, suffix₁, rfl, hfold⟩
  · rintro (⟨rfl, rfl⟩ | ⟨suffix', s', himage, before, behind, suffix₁, rfl, hfold⟩)
    · exact ⟨[], paths, suffix, rfl, rfl⟩
    · refine ⟨path :: before, behind, suffix₁, rfl, ?_⟩
      rw [List.foldlM_cons, EState.bind_ok himage]
      exact hfold

theorem Reaches.entries (hS : S.Ordinary) (hs : s.imageCache.Entries)
    (h₁ : Reaches S h argument suffix s paths p s₁) : s₁.imageCache.Entries := by
  induction paths generalizing suffix s with
  | nil => exact absurd h₁ not_reaches_nil
  | cons path paths ih =>
    rcases reaches_cons.1 h₁ with ⟨-, rfl⟩ | ⟨suffix', s', himage, h₁⟩
    · exact hs
    · exact ih (entries_imageOf hS hs himage) h₁

/-- **The turn of a path throws 304 exactly if opening its image does.** -/
theorem turn_notModified_iff (hS : S.Ordinary) (hle : v.invalidPathIndices.length ≤ i)
    (hi : i < count) :
    (∃ s', turn S h argument count i path v s = .error notModified s') ↔
      S.pathExists path ∧ ∃ s', FIF.task S h path s = .error notModified s' := by
  by_cases hpath : S.pathExists path
  · rw [turn_of_exists hpath (by omega),
      Task.bind_notModified_iff fun im => quiet_existingFile hS _ im]
    exact (and_iff_right hpath).symm
  · refine iff_of_false ?_ fun hand => hpath hand.1
    rintro ⟨s', hturn⟩
    by_cases hall : count = v.invalidPathIndices.length + 1
    · rw [turn_of_allMissing hpath hall] at hturn
      cases hturn
    · rw [turn_of_missing hpath hall] at hturn
      exact (quiet_missingFile _).ne_notModified hturn

/-- **The loop throws 304 exactly if it comes to an image whose opening does.** -/
theorem loop_notModified_iff (hS : S.Ordinary) (hle : v.invalidPathIndices.length ≤ i)
    (hcount : count = i + 1 + paths.length) :
    (∃ s', loop S h argument count i path paths v s = .error notModified s') ↔
      ∃ p s₁, Reaches S h argument v.suffix s (path :: paths) p s₁ ∧ S.pathExists p ∧
        ∃ s', FIF.task S h p s₁ = .error notModified s' := by
  have hi : i < count := by omega
  induction paths generalizing i path v s with
  | nil =>
    rw [loop, Task.bind_notModified_iff fun _ => .pure _, turn_notModified_iff hS hle hi]
    constructor
    · rintro ⟨hpath, htask⟩
      exact ⟨path, s, reaches_cons.2 (.inl ⟨rfl, rfl⟩), hpath, htask⟩
    · rintro ⟨p, s₁, hreach, hp, htask⟩
      rcases reaches_cons.1 hreach with ⟨rfl, rfl⟩ | ⟨suffix', s', -, hreach⟩
      · exact ⟨hp, htask⟩
      · exact absurd hreach not_reaches_nil
  | cons path' paths ih =>
    rw [List.length_cons] at hcount
    constructor
    · rintro ⟨s', hloop⟩
      rcases EState.bind_eq_error hloop with hturn | ⟨v₁, s₁, hturn, hrest⟩
      · obtain ⟨hpath, htask⟩ := (turn_notModified_iff hS hle hi).1 ⟨s', hturn⟩
        exact ⟨path, s, reaches_cons.2 (.inl ⟨rfl, rfl⟩), hpath, htask⟩
      · obtain ⟨p, s₂, hreach, hp, htask⟩ :=
          (ih (length_invalid_turn hle hi hturn).1 (by omega) (by omega)).1 ⟨s', hrest⟩
        refine ⟨p, s₂, reaches_cons.2 (.inr ⟨v₁.suffix, s₁, ?_, hreach⟩), hp, htask⟩
        exact imageOf_of_turn hle hi hturn
    · rintro ⟨p, s₁, hreach, hp, htask⟩
      rcases reaches_cons.1 hreach with ⟨rfl, rfl⟩ | ⟨suffix', s₂, himage, hreach⟩
      · obtain ⟨s', hturn⟩ := (turn_notModified_iff hS hle hi).2 ⟨hp, htask⟩
        exact ⟨s', EState.bind_error hturn⟩
      · obtain ⟨v₁, hturn, rfl⟩ := turn_of_imageOf hle hi (.inr (by omega)) himage
        obtain ⟨s', hrest⟩ := (ih (length_invalid_turn hle hi hturn).1 (by omega) (by omega)).2
          ⟨p, s₁, hreach, hp, htask⟩
        exact ⟨s', (EState.bind_ok hturn).trans hrest⟩

end

/-! ## 5. The request -/

/-- A request ends with 304. -/
def Ends304 (S : Server) (h : Headers) (argument : Text) (s : Session) : Prop :=
  ∃ s', task S h argument s = .error notModified s'

/-- The images that exist are all unchanged. -/
def AllUnchanged (S : Server) (t : Int) (paths : List Text) : Prop :=
  ∀ p ∈ paths, S.pathExists p → S.Unchanged t p

/-- The first image that exists can be opened. -/
def FirstOpens (S : Server) (c : FIF.ImageCache) (paths : List Text) : Prop :=
  ∃ p, paths.find? S.pathExists = some p ∧ S.Opens p c

/-- An unchanged image that can be opened stands behind one at which the request fails. -/
def Shielded (S : Server) (h : Headers) (t : Int) (parsed : Parsed) (s : Session) : Prop :=
  ∀ p s₁, Reaches S h parsed.strippedArgument parsed.suffix s parsed.paths p s₁ →
    S.pathExists p → S.Unchanged t p → ¬ S.Opens p s₁.imageCache

section

variable {parsed : Parsed} {text : Text} {s s₁ : Session}

/-- **When a request ends with 304**: it comes to an unchanged image that can be opened. -/
theorem ends304_iff_reached (hS : S.Ordinary) (htext : h.ifModifiedSince = some text)
    (hparse : parse argument = .ok parsed) (hs : s.imageCache.Entries) :
    Ends304 S h argument s ↔
      ∃ p s₁, Reaches S h parsed.strippedArgument parsed.suffix
          (prepared argument parsed.settings s) parsed.paths p s₁ ∧ S.pathExists p ∧
        S.Opens p s₁.imageCache ∧ S.Unchanged (S.parseDate text) p := by
  have hassemble : (∃ s', assemble S h argument s = .error notModified s') ↔
      ∃ s', gather S h parsed (prepared argument parsed.settings s) = .error notModified s' := by
    unfold assemble
    rw [hparse]
    exact Task.bind_notModified_iff fun _ => .pure _
  have hgather : (∃ s', gather S h parsed (prepared argument parsed.settings s)
        = .error notModified s') ↔
      ∃ p s₁, Reaches S h parsed.strippedArgument parsed.suffix
          (prepared argument parsed.settings s)
          (parsed.paths.headD [] :: parsed.paths.tail) p s₁ ∧ S.pathExists p ∧
        ∃ s', FIF.task S h p s₁ = .error notModified s' :=
    loop_notModified_iff hS (Nat.le_refl 0) (length_paths hparse)
  rw [cons_paths hparse] at hgather
  unfold Ends304
  rw [task_eq, Task.bind_notModified_iff fun r => quiet_conclude _ _, hassemble, hgather]
  refine exists_congr fun p => exists_congr fun s₁ => and_congr_right fun hreach => ?_
  have hprepared : (prepared argument parsed.settings s).imageCache.Entries := hs
  rw [FIF.task_notModified_iff htext (hreach.entries hS hprepared)]

/-- An image that the loop gets past has changed. -/
theorem not_unchanged_of_imageOf {suffix suffix' : Text} (htext : h.ifModifiedSince = some text)
    (hs : s.imageCache.Entries) (hpath : S.pathExists path)
    (himage : imageOf S h argument suffix path s = .ok suffix' s₁) :
    ¬ S.Unchanged (S.parseDate text) path := by
  have htask : ∃ im s', FIF.task S h path s = .ok im s' := by
    rw [imageOf, if_pos hpath] at himage
    split at himage
    · obtain ⟨im, s', htask, -⟩ := EState.bind_eq_ok himage
      exact ⟨im, s', htask⟩
    · obtain ⟨r, s', hr, -⟩ := EState.bind_eq_ok himage
      obtain ⟨im, s', htask, -⟩ := EState.bind_eq_ok hr
      exact ⟨im, s', htask⟩
  obtain ⟨im, s', htask⟩ := htask
  intro hunchanged
  rcases FIF.task_cases S h path s with ⟨im₁, him, hun, -⟩ | ⟨im₁, s₂, -, -, herror⟩ |
    ⟨e, s₂, -, herror⟩
  · exact hun ((FIF.unmodified_iff htext hs him).2 hunchanged)
  · cases htask.symm.trans herror
  · cases htask.symm.trans herror

/-- **Among unchanged images the first decides.** -/
theorem reached_iff_firstOpens {suffix : Text} {paths : List Text}
    (htext : h.ifModifiedSince = some text) (hs : s.imageCache.Entries)
    (hall : AllUnchanged S (S.parseDate text) paths) :
    (∃ p s₁, Reaches S h argument suffix s paths p s₁ ∧ S.pathExists p ∧
        S.Opens p s₁.imageCache ∧ S.Unchanged (S.parseDate text) p) ↔
      FirstOpens S s.imageCache paths := by
  induction paths with
  | nil =>
    refine iff_of_false ?_ ?_
    · rintro ⟨p, s₁, hreach, -⟩
      exact not_reaches_nil hreach
    · rintro ⟨p, hfind, -⟩
      cases hfind
  | cons path paths ih =>
    by_cases hpath : S.pathExists path
    · have hunchanged := hall path List.mem_cons_self hpath
      have hfind : (path :: paths).find? S.pathExists = some path := List.find?_cons_of_pos hpath
      constructor
      · rintro ⟨p, s₁, hreach, -, hopens, -⟩
        rcases reaches_cons.1 hreach with ⟨rfl, rfl⟩ | ⟨suffix', s', himage, -⟩
        · exact ⟨p, hfind, hopens⟩
        · exact absurd hunchanged (not_unchanged_of_imageOf htext hs hpath himage)
      · rintro ⟨p, hp, hopens⟩
        cases hfind.symm.trans hp
        exact ⟨path, s, reaches_cons.2 (.inl ⟨rfl, rfl⟩), hpath, hopens, hunchanged⟩
    · have hfind : (path :: paths).find? S.pathExists = paths.find? S.pathExists :=
        List.find?_cons_of_neg hpath
      have himage : imageOf S h argument suffix path s = .ok suffix s := by
        rw [imageOf, if_neg hpath]
        rfl
      have hrest := ih fun p hp => hall p (List.mem_cons_of_mem path hp)
      unfold FirstOpens at hrest ⊢
      rw [hfind, ← hrest]
      constructor
      · rintro ⟨p, s₁, hreach, hp, hopens⟩
        rcases reaches_cons.1 hreach with ⟨rfl, rfl⟩ | ⟨suffix', s', himage', hreach⟩
        · exact absurd hp hpath
        · cases himage.symm.trans himage'
          exact ⟨p, s₁, hreach, hp, hopens⟩
      · rintro ⟨p, s₁, hreach, hp, hopens⟩
        exact ⟨p, s₁, reaches_cons.2 (.inr ⟨suffix, s, himage, hreach⟩), hp, hopens⟩

end

/-- **When 304 means that nothing has changed.**  If nothing has, the first image must be one that
can be opened; if something has, the loop must not come to an unchanged image that can be. -/
theorem ends304_iff_unchanged_iff (S : Server) (h : Headers) (argument text : Text)
    (parsed : Parsed) (s : Session) (hS : S.Ordinary) (htext : h.ifModifiedSince = some text)
    (hparse : parse argument = .ok parsed) (hs : s.imageCache.Entries) :
    (Ends304 S h argument s ↔ AllUnchanged S (S.parseDate text) parsed.paths) ↔
      (AllUnchanged S (S.parseDate text) parsed.paths ∧
          FirstOpens S s.imageCache parsed.paths) ∨
        (¬ AllUnchanged S (S.parseDate text) parsed.paths ∧
          Shielded S h (S.parseDate text) parsed (prepared argument parsed.settings s)) := by
  rw [ends304_iff_reached hS htext hparse hs]
  by_cases hall : AllUnchanged S (S.parseDate text) parsed.paths
  · have hprepared : (prepared argument parsed.settings s).imageCache.Entries := hs
    rw [reached_iff_firstOpens htext hprepared hall]
    simp only [hall, iff_true, true_and, not_true_eq_false, false_and, or_false]
    rfl
  · simp only [hall, iff_false, false_and, not_false_eq_true, true_and, false_or]
    constructor
    · intro hnone p s₁ hreach hp hunchanged hopens
      exact hnone ⟨p, s₁, hreach, hp, hopens, hunchanged⟩
    · rintro hshield ⟨p, s₁, hreach, hp, hopens, hunchanged⟩
      exact hshield p s₁ hreach hp hunchanged hopens

/-- A server with an old image at the path `b` and newer ones elsewhere, and a request with the
time `t`. -/
def datedServer (t : Int) : Server :=
  { oneImageServer with
    disk := fun path =>
      some (FIF.singleFile .tif (if path = ['b'] then 1 else 9) (.tiff (greyTiff 4)))
    pathExists := fun _ => true
    parseDate := fun _ => t }

/-- Headers with a date. -/
def datedHeaders : Headers := { simpleHeaders [] [] with ifModifiedSince := some [] }

/-- A single letter is too short to be decoded or filtered. -/
theorem imagePath_singleton {c : Char} (hplus : c ≠ '+') : imagePath [c] = [c] := by
  refine (imagePath_eq_self_iff ?_).2 ⟨?_, ?_⟩
  · intro hinfix
    have hlength : 3 ≤ 1 := hinfix.length_le
    omega
  · intro hmem
    exact hplus (List.mem_singleton.1 hmem).symm
  · intro a b _ _ hinfix
    have hlength : 3 ≤ 1 := hinfix.length_le
    omega

theorem ordinary_datedServer (t : Int) : (datedServer t).Ordinary := by
  intro message code heq
  cases heq

theorem entries_session : oneImageSession.imageCache.Entries := by
  intro p x hx
  cases hx

theorem mtime_datedServer (t : Int) (path : Text) :
    FIF.mtime (datedServer t).disk path = some (if path = ['b'] then 1 else 9) := rfl

theorem opens_datedServer (t : Int) (path : Text) : (datedServer t).Opens path [] := ⟨_, rfl⟩

/-- Both images are unchanged. -/
theorem ends304_iff_unchanged_iff_both :
    Ends304 (datedServer 9) datedHeaders (str "b,a_files/0/0_0.jpg") oneImageSession ↔
      AllUnchanged (datedServer 9) 9 firstMissing.paths := by
  have hall : AllUnchanged (datedServer 9) 9 firstMissing.paths := by
    intro p _ _
    refine ⟨_, mtime_datedServer 9 _, ?_⟩
    split <;> decide
  exact (ends304_iff_unchanged_iff (datedServer 9) datedHeaders _ [] firstMissing oneImageSession
    (ordinary_datedServer 9) rfl parse_firstMissing entries_session).2
      (.inl ⟨hall, ['b'], rfl, opens_datedServer 9 _⟩)

/-- `b,a_files/0/0_0.jpg` at the time 5: `b` is of the time 1, `a` is of the time 9.  The client is
told that nothing has changed. -/
theorem changed_image_not_sent :
    Ends304 (datedServer 5) datedHeaders (str "b,a_files/0/0_0.jpg") oneImageSession ∧
      ¬ AllUnchanged (datedServer 5) 5 firstMissing.paths := by
  constructor
  · refine (ends304_iff_reached (ordinary_datedServer 5) rfl parse_firstMissing
      entries_session).2 ⟨['b'], _, reaches_cons.2 (.inl ⟨rfl, rfl⟩), rfl,
        opens_datedServer 5 _, 1, ?_, by decide⟩
    rw [mtime_datedServer, imagePath_singleton (by decide)]
    rfl
  · intro hall
    obtain ⟨m, hm, hle⟩ := hall ['a'] (by decide) rfl
    rw [mtime_datedServer, imagePath_singleton (by decide)] at hm
    cases hm
    exact absurd hle (by decide)

end DeepZoomExt

end Iipsrv
