/-
# What the image cache holds

Every entry of the image cache is the `IIPImage` part of an object that has been opened, with a
histogram added at most.

* `openFrom_eq_ok`: what opening an object comes to, class by class;
* `run_eq_ok`, `mem_run`: what a request returns and what it leaves in the cache;
* `after_invariant`, `step_entries`: how a property of the entries is carried over a history;
* `after_entry`: every entry is at its first view and has level sizes.
-/
import Iipsrv.FIF.Model
import Iipsrv.Image.Levels
import Iipsrv.Lib.Effects

namespace Iipsrv

open Lib.Print (Text)
open Lib.Effects

/-! ## 1. Opening, class by class -/

namespace TPTImage

/-- A new object for the file, with its metadata. -/
def start (f : TiffFile) (mtime : Int) (test : IIPImage) : TPTImage :=
  { ensureInfo f { ofIIPImage test with timestamp := mtime } with isSet := true }

/-- `openImage` refuses an image without tiles. -/
def Tiled (im : IIPImage) : Prop := ¬ (im.tileWidth = 0 ∧ im.tileHeight = 0)

theorem start_of_bpc {f : TiffFile} {mtime : Int} {test : IIPImage} (h : test.bpc ≠ 0) :
    start f mtime test = { ofIIPImage test with timestamp := mtime, isSet := true } := by
  have hinfo : ensureInfo f { ofIIPImage test with timestamp := mtime }
      = { ofIIPImage test with timestamp := mtime } := if_neg h
  rw [start, hinfo]

theorem start_of_bpc_eq_zero {f : TiffFile} {mtime : Int} {test : IIPImage} (h : test.bpc = 0) :
    start f mtime test = { loadImageInfo f { ofIIPImage test with timestamp := mtime }
      test.currentX test.currentY with isSet := true } := by
  have hinfo : ensureInfo f { ofIIPImage test with timestamp := mtime }
      = loadImageInfo f { ofIIPImage test with timestamp := mtime } test.currentX test.currentY :=
    if_pos h
  rw [start, hinfo]

/-- A TIFF object can be opened on a TIFF file that is tiled. -/
theorem openImage_eq_ok {file : Option FileData} {test : IIPImage} {im : TPTImage} :
    (ofIIPImage test).openImage file = .ok im ↔
      ∃ mtime f, file = some ⟨mtime, .tiff f⟩ ∧ Tiled (start f mtime test).toIIPImage ∧
        im = start f mtime test := by
  rcases file with _ | ⟨mtime, f | f | _⟩
  · refine ⟨nofun, ?_⟩
    rintro ⟨_, _, hfile, -⟩
    cases hfile
  · by_cases h : Tiled (start f mtime test).toIIPImage
    · have hopen : (ofIIPImage test).openImage (some ⟨mtime, .tiff f⟩)
          = .ok (start f mtime test) := if_neg h
      rw [hopen, Except.ok.injEq]
      constructor
      · rintro rfl
        exact ⟨mtime, f, rfl, h, rfl⟩
      · rintro ⟨_, _, hfile, -, rfl⟩
        cases hfile
        rfl
    · have hopen : (ofIIPImage test).openImage (some ⟨mtime, .tiff f⟩)
          = .error (.fileError "TPTImage :: Image is not tiled") := if_pos (not_not.mp h)
      rw [hopen]
      refine ⟨nofun, ?_⟩
      rintro ⟨_, _, hfile, htiled, -⟩
      cases hfile
      exact absurd htiled h
  · refine ⟨nofun, ?_⟩
    rintro ⟨_, _, hfile, -⟩
    cases hfile
  · refine ⟨nofun, ?_⟩
    rintro ⟨_, _, hfile, -⟩
    cases hfile

end TPTImage

namespace OpenJPEGImage

/-- A new object for the file, with its metadata. -/
def start (f : Jp2File) (mtime : Int) (test : IIPImage) : IIPImage :=
  ensureInfo f { ofIIPImage test with timestamp := mtime }

theorem start_of_bpc {f : Jp2File} {mtime : Int} {test : IIPImage} (h : test.bpc ≠ 0) :
    start f mtime test = { ofIIPImage test with timestamp := mtime } :=
  if_neg h

theorem start_of_bpc_eq_zero {f : Jp2File} {mtime : Int} {test : IIPImage} (h : test.bpc = 0) :
    start f mtime test = loadImageInfo f { ofIIPImage test with timestamp := mtime } :=
  if_pos h

theorem openImage_eq_ok {file : Option FileData} {test im : IIPImage} :
    openImage file (ofIIPImage test) = .ok im ↔
      ∃ mtime f, file = some ⟨mtime, .jp2 f⟩ ∧ im = start f mtime test := by
  rcases file with _ | ⟨mtime, f | f | _⟩
  · refine ⟨nofun, ?_⟩
    rintro ⟨_, _, hfile, -⟩
    cases hfile
  · refine ⟨nofun, ?_⟩
    rintro ⟨_, _, hfile, -⟩
    cases hfile
  · constructor
    · intro h
      exact ⟨mtime, f, rfl, (Except.ok.inj h).symm⟩
    · rintro ⟨_, _, hfile, rfl⟩
      cases hfile
      rfl
  · refine ⟨nofun, ?_⟩
    rintro ⟨_, _, hfile, -⟩
    cases hfile

end OpenJPEGImage

namespace FIF

section

variable {disk : Disk} {openjpeg : Bool} {test : IIPImage} {timestamp mtime : Int}

/-- A TIFF object opened on a file: made anew, and read again if the file is newer. -/
def openedTiff (f : TiffFile) (mtime timestamp : Int) (test : IIPImage) : Opened :=
  refresh (some ⟨mtime, .tiff f⟩) timestamp (.tpt (.start f mtime test))

/-- A JPEG2000 object opened on a file. -/
def openedJp2 (f : Jp2File) (mtime timestamp : Int) (test : IIPImage) : Opened :=
  refresh (some ⟨mtime, .jp2 f⟩) timestamp (.openJPEG (OpenJPEGImage.start f mtime test))

/-- **What opening comes to**: the object has the class of its format, the file is readable by
that class, and a TIFF is tiled. -/
theorem openFrom_eq_ok {image : Opened} :
    openFrom disk openjpeg test timestamp = .ok image ↔
      (∃ mtime f, test.format = .tif ∧ disk.fileOf test = some ⟨mtime, .tiff f⟩ ∧
        TPTImage.Tiled (TPTImage.start f mtime test).toIIPImage ∧
        image = openedTiff f mtime timestamp test) ∨
      (∃ mtime f, test.format = .jpeg2000 ∧ openjpeg = true ∧
        disk.fileOf test = some ⟨mtime, .jp2 f⟩ ∧ image = openedJp2 f mtime timestamp test) := by
  constructor
  · intro h
    obtain ⟨made, hmade, h⟩ := bind_eq_ok h
    obtain ⟨im, him, h⟩ := bind_eq_ok h
    obtain rfl := (Except.ok.inj h).symm
    unfold create at hmade
    split at hmade
    case h_1 hformat =>
      obtain rfl := Except.ok.inj hmade
      obtain ⟨t, ht, rfl⟩ := map_eq_ok him
      obtain ⟨mtime, f, hfile, htiled, rfl⟩ := TPTImage.openImage_eq_ok.mp ht
      exact .inl ⟨mtime, f, hformat, hfile, htiled, by rw [hfile]; rfl⟩
    case h_2 hformat =>
      split at hmade
      case isTrue hoj =>
        obtain rfl := Except.ok.inj hmade
        obtain ⟨t, ht, rfl⟩ := map_eq_ok him
        obtain ⟨mtime, f, hfile, rfl⟩ := OpenJPEGImage.openImage_eq_ok.mp ht
        exact .inr ⟨mtime, f, hformat, hoj, hfile, by rw [hfile]; rfl⟩
      case isFalse => cases hmade
    case h_3 => cases hmade
  · rintro (⟨mtime, f, hformat, hfile, htiled, rfl⟩ | ⟨mtime, f, hformat, hoj, hfile, rfl⟩)
    · have hopen := TPTImage.openImage_eq_ok.mpr ⟨mtime, f, rfl, htiled, rfl⟩
      simp only [openFrom, create, hformat, hfile, bind, Except.bind, Opened.openImage, hopen]
      rfl
    · simp only [openFrom, create, hformat, hfile, hoj, bind, Except.bind]
      rfl

/-! ## 2. What a request does to the cache -/

namespace ImageCache

variable {c : ImageCache} {path p : Text} {im x : IIPImage}

theorem mem_of_find (h : c.find path = some im) : (path, im) ∈ c := by
  obtain ⟨l₁, l₂, rfl, -⟩ := List.lookup_eq_some_iff.mp h
  simp

theorem mem_assign : (p, x) ∈ c.assign path im ↔ (p = path ∧ x = im) ∨ ((p, x) ∈ c ∧ p ≠ path) := by
  simp [assign]

theorem mem_of_mem_evict {first : ImageCache → Nat} (h : (p, x) ∈ c.evict first) : (p, x) ∈ c := by
  unfold evict at h
  split at h
  · exact List.mem_of_mem_eraseIdx h
  · exact h

theorem mem_setHistogram {histogram : List Nat} (h : (p, x) ∈ c.setHistogram path histogram) :
    ∃ y, (p, y) ∈ c ∧ x = { y with histogram := x.histogram } := by
  obtain ⟨⟨q, y⟩, hy, he⟩ := List.mem_map.mp h
  split at he <;> cases he
  · exact ⟨y, hy, rfl⟩
  · exact ⟨x, hy, rfl⟩

end ImageCache

variable {first : ImageCache → Nat} {argument : Text} {c : ImageCache}

/-- The object that a request starts from, and the timestamp of the cached image. -/
def StartsFrom (disk : Disk) (argument : Text) (c : ImageCache) (test : IIPImage)
    (timestamp : Int) : Prop :=
  (c.find argument = some test ∧ timestamp = test.timestamp) ∨
    (c.find argument = none ∧ initialise disk argument = .ok test ∧ timestamp = 0)

theorem finish_fst {image : Except Thrown Opened} : (finish c argument image).1 = image := by
  cases image <;> rfl

/-- A request that succeeds opens the object it starts from. -/
theorem run_eq_ok {image : Opened} :
    (run disk openjpeg first argument c).1 = .ok image ↔
      ∃ test timestamp, StartsFrom disk argument c test timestamp ∧
        openFrom disk openjpeg test timestamp = .ok image := by
  unfold run StartsFrom
  cases hfind : c.find argument with
  | some im =>
    simp only [finish_fst]
    constructor
    · exact fun h => ⟨im, im.timestamp, .inl ⟨rfl, rfl⟩, h⟩
    · rintro ⟨test, timestamp, ⟨htest, rfl⟩ | ⟨hnone, -⟩, h⟩
      · cases htest
        exact h
      · cases hnone
  | none =>
    cases hinit : initialise disk argument with
    | error e => simp
    | ok im => simp [finish_fst]

/-- After a request, an entry is an old one or the image that has been opened. -/
theorem mem_run {p : Text} {x : IIPImage}
    (h : (p, x) ∈ (run disk openjpeg first argument c).2) :
    (p, x) ∈ c ∨ (p = argument ∧
      ∃ image, (run disk openjpeg first argument c).1 = .ok image ∧ x = image.base) := by
  have hfinish : ∀ {c' : ImageCache} {r : Except Thrown Opened},
      (∀ e, e ∈ c' → e ∈ c) → (p, x) ∈ (finish c' argument r).2 →
      (p, x) ∈ c ∨ (p = argument ∧ ∃ image, (finish c' argument r).1 = .ok image ∧
        x = image.base) := by
    intro c' r hsub hmem
    cases r with
    | error e => exact .inl (hsub _ hmem)
    | ok image =>
      rcases ImageCache.mem_assign.mp hmem with ⟨rfl, rfl⟩ | ⟨hold, -⟩
      · exact .inr ⟨rfl, image, rfl, rfl⟩
      · exact .inl (hsub _ hold)
  unfold run at h ⊢
  cases hfind : c.find argument with
  | some im =>
    rw [hfind] at h
    exact hfinish (fun _ he => he) h
  | none =>
    rw [hfind] at h
    dsimp only at h ⊢
    cases hinit : initialise disk argument with
    | error e =>
      rw [hinit] at h
      exact .inl h
    | ok im =>
      rw [hinit] at h
      exact hfinish (fun _ he => ImageCache.mem_of_mem_evict he) h

end

/-! ## 3. Invariants of histories -/

section

variable {openjpeg : Bool} {first : ImageCache → Nat} {histogramOf : ImageSource → List Nat}

/-- **The invariant rule.** -/
theorem after_invariant {I : State → Prop} {events : List Event}
    (hstep : ∀ e ∈ events, ∀ σ, I σ → I (step openjpeg first histogramOf σ e)) {σ : State}
    (h : I σ) : I (after openjpeg first histogramOf σ events) := by
  induction events generalizing σ with
  | nil => exact h
  | cons e es ih =>
    exact ih (fun e' he' => hstep e' (List.mem_cons_of_mem e he'))
      (hstep e List.mem_cons_self σ h)

/-- A step leaves a property of the entries of the cache alone if opening and a new histogram do. -/
theorem step_entries {Q : Text → IIPImage → Prop} {σ : State}
    (hopen : ∀ argument test timestamp image, StartsFrom σ.disk argument σ.cache test timestamp →
      openFrom σ.disk openjpeg test timestamp = .ok image → Q argument image.base)
    (hhist : ∀ p x h, Q p x → Q p { x with histogram := h })
    (hall : ∀ p x, (p, x) ∈ σ.cache → Q p x) (e : Event) :
    ∀ p x, (p, x) ∈ (step openjpeg first histogramOf σ e).cache → Q p x := by
  intro p x hx
  cases e with
  | fif argument =>
    rcases mem_run hx with hold | ⟨rfl, image, himage, rfl⟩
    · exact hall p x hold
    · obtain ⟨test, timestamp, hstart, hopened⟩ := run_eq_ok.mp himage
      exact hopen _ test timestamp image hstart hopened
  | histogram path =>
    unfold step at hx
    dsimp only at hx
    cases hs : σ.disk path with
    | none =>
      rw [hs] at hx
      exact hall p x hx
    | some s =>
      rw [hs] at hx
      obtain ⟨y, hy, he⟩ := ImageCache.mem_setHistogram hx
      rw [he]
      exact hhist p y _ (hall p y hy)
  | replace path s => exact hall p x hx

/-- An object for a path, at its first view. -/
structure Ready (path : Text) (im : IIPImage) : Prop where
  imagePath : im.imagePath = path
  currentX : im.currentX = 0
  currentY : im.currentY = 90

/-- An object whose level sizes have been read. -/
structure Entry (path : Text) (im : IIPImage) : Prop extends Ready path im where
  imageWidths : im.imageWidths ≠ []

theorem Ready.loadTiff {path : Text} {im : TPTImage} (h : Ready path im.toIIPImage)
    (f : TiffFile) : Entry path (im.loadImageInfo f im.currentX im.currentY).toIIPImage :=
  ⟨⟨h.imagePath, h.currentX, h.currentY⟩, by simp [TPTImage.loadImageInfo]⟩

theorem Ready.loadJp2 {path : Text} {im : IIPImage} (h : Ready path im) (f : Jp2File) :
    Entry path (OpenJPEGImage.loadImageInfo f im) :=
  ⟨⟨h.imagePath, h.currentX, h.currentY⟩, by simp [OpenJPEGImage.loadImageInfo]⟩

/-- **Opening gives an entry.** -/
theorem openFrom_entry {disk : Disk} {path : Text} {test : IIPImage} {timestamp : Int}
    {image : Opened} (hready : Ready path test) (hwidths : test.bpc ≠ 0 → test.imageWidths ≠ [])
    (h : openFrom disk openjpeg test timestamp = .ok image) : Entry path image.base := by
  rcases openFrom_eq_ok.mp h with ⟨mtime, f, -, -, -, rfl⟩ | ⟨mtime, f, -, -, -, rfl⟩
  · have hstart : Entry path (TPTImage.start f mtime test).toIIPImage := by
      by_cases hbpc : test.bpc = 0
      · rw [TPTImage.start_of_bpc_eq_zero hbpc]
        have hnew : Ready path { TPTImage.ofIIPImage test with timestamp := mtime }.toIIPImage :=
          ⟨hready.imagePath, hready.currentX, hready.currentY⟩
        have hload := hnew.loadTiff f
        exact ⟨⟨hload.imagePath, hload.currentX, hload.currentY⟩, hload.imageWidths⟩
      · rw [TPTImage.start_of_bpc hbpc]
        exact ⟨⟨hready.imagePath, hready.currentX, hready.currentY⟩, hwidths hbpc⟩
    unfold openedTiff refresh
    split
    · exact hstart.toReady.loadTiff f
    · exact hstart
  · have hstart : Entry path (OpenJPEGImage.start f mtime test) := by
      by_cases hbpc : test.bpc = 0
      · rw [OpenJPEGImage.start_of_bpc_eq_zero hbpc]
        have hnew : Ready path { OpenJPEGImage.ofIIPImage test with timestamp := mtime } :=
          ⟨hready.imagePath, hready.currentX, hready.currentY⟩
        exact hnew.loadJp2 f
      · rw [OpenJPEGImage.start_of_bpc hbpc]
        exact ⟨⟨hready.imagePath, hready.currentX, hready.currentY⟩, hwidths hbpc⟩
    unfold openedJp2 refresh
    split
    · exact hstart.toReady.loadJp2 f
    · exact hstart

theorem ready_of_initialise {disk : Disk} {path : Text} {test : IIPImage}
    (h : initialise disk path = .ok test) : Ready path test ∧ test.bpc = 0 := by
  unfold initialise at h
  split at h
  · cases h
  · cases h
    exact ⟨⟨rfl, rfl, rfl⟩, rfl⟩

/-- Every entry of the cache is one. -/
def ImageCache.Entries (c : ImageCache) : Prop := ∀ p x, (p, x) ∈ c → Entry p x

/-- What a request opens is one if the entries are. -/
theorem StartsFrom.entry {disk : Disk} {argument : Text} {c : ImageCache} {test : IIPImage}
    {timestamp : Int} {image : Opened} (hstart : StartsFrom disk argument c test timestamp)
    (hall : c.Entries) (hopen : openFrom disk openjpeg test timestamp = .ok image) :
    Entry argument image.base := by
  rcases hstart with ⟨hfind, -⟩ | ⟨-, hinit, -⟩
  · have hentry := hall argument test (ImageCache.mem_of_find hfind)
    exact openFrom_entry hentry.toReady (fun _ => hentry.imageWidths) hopen
  · obtain ⟨hready, hbpc⟩ := ready_of_initialise hinit
    exact openFrom_entry hready (fun hne => absurd hbpc hne) hopen

theorem ImageCache.Entries.run {disk : Disk} {argument : Text} {c : ImageCache}
    (hall : c.Entries) : (FIF.run disk openjpeg first argument c).2.Entries := by
  intro p x hx
  rcases mem_run hx with hold | ⟨rfl, image, himage, rfl⟩
  · exact hall p x hold
  · obtain ⟨test, timestamp, hstart, hopen⟩ := run_eq_ok.mp himage
    exact hstart.entry hall hopen

/-- **Every entry of the cache is one**, in every history. -/
theorem after_entry {disk : Disk} {events : List Event} {path : Text} {im : IIPImage}
    (h : (path, im) ∈ (after openjpeg first histogramOf ⟨disk, []⟩ events).cache) :
    Entry path im := by
  refine after_invariant (I := fun σ => ∀ p x, (p, x) ∈ σ.cache → Entry p x) ?_ ?_ path im h
  · intro e _ σ hall
    refine step_entries ?_ (fun p x _ hx => ⟨⟨hx.imagePath, hx.currentX, hx.currentY⟩,
      hx.imageWidths⟩) hall e
    exact fun argument test timestamp image hstart hopen => hstart.entry hall hopen
  · intro p x hx
    cases hx

end

end FIF

end Iipsrv
