/-
# One TIFF object over many calls

A `TPTImage` of an image sequence is asked for tiles of several views.  `getTile` closes the file
when the view changes, opens that of the new view and calls `loadImageInfo` again, on an object
that has been loaded before: the level sizes are appended, the offsets inserted, and nothing is
cleared.  `getTile` also reads the offsets by itself whenever the object has none, from the
directory the LAST call has left the file at.

WHAT IS SAID: an object that describes its file goes on doing so through a run of calls exactly if
no call loads it again, and no call reads the offsets of another directory than the first.  A
reload never comes out right, whatever the two files are: the number of levels counts those of the
last load, the two vectors hold those of all of them (`length_imageWidths_loadImageInfo`).

A call that throws ends there; the object keeps what it has been given so far.
-/
import Iipsrv.Image.Model

namespace Iipsrv

/-! ## 1. The open file -/

/-- A TIFF file with the tags of all its directories.  Those of the first are `first`, which also
has the sizes of the others. -/
structure TiffPages where
  first : TiffFile
  behind : Position → TiffFile

/-- A file with what is known of its other directories. -/
def TiffFile.pages (f : TiffFile) : TiffPages where
  first := f
  behind p := { f with photometric := (f.lower p).1, subIfds := (f.lower p).2 }

/-- A `TIFF *`: the file and its current directory. -/
structure OpenTiff where
  file : TiffPages
  position : Position

namespace OpenTiff

/-- `TIFFOpen` reads the first directory. -/
def start (file : TiffPages) : OpenTiff := ⟨file, .page 0⟩

/-- The tags of the current directory. -/
def directory (t : OpenTiff) : TiffFile :=
  match t.position with
  | .page 0 => t.file.first
  | p => t.file.behind p

/-- What `loadImageInfo` reads: the tags of the directory it starts at, the offsets and the level
sizes from the first one on. -/
def seen (t : OpenTiff) : TiffFile :=
  { t.directory with
    subIfds := t.file.first.subIfds
    subDirectory := t.file.first.subDirectory
    directories := t.file.first.directories }

/-- The directory `loadImageInfo` resets.  One found through an offset has no number to return to,
so the file stays at the first one. -/
def reset (t : OpenTiff) : OpenTiff :=
  match t.position with
  | .page _ => t
  | .sub _ => ⟨t.file, .page 0⟩

/-- The change to the directory of a resolution.  If there is none, the call throws and the file
stays where it is; so it does for a subscript outside the offsets, about which nothing is said
here. -/
def seek (offsets : List Nat) (vipsres : Int) (t : OpenTiff) : OpenTiff :=
  if offsets = [] ∨ vipsres = 0 then
    if 0 ≤ vipsres ∧ vipsres ≤ t.file.first.directories.length then
      ⟨t.file, .page vipsres.toNat⟩
    else t
  else if 0 < vipsres then
    match offsets[vipsres.toNat - 1]? with
    | some offset => ⟨t.file, .sub offset⟩
    | none => t
  else t

theorem seen_start (file : TiffPages) : (start file).seen = file.first := rfl

theorem file_seek (offsets : List Nat) (vipsres : Int) (t : OpenTiff) :
    (t.seek offsets vipsres).file = t.file := by
  unfold seek
  repeat' split
  all_goals rfl

end OpenTiff

/-! ## 2. The object and its calls -/

/-- A `TPTImage` with its file handle. -/
structure TPTReader where
  image : TPTImage
  tiff : Option OpenTiff

/-- The file of each view that can be opened, by horizontal and vertical angle. -/
abbrev Sequence := Int → Int → Option TiffPages

namespace TPTReader

/-- `closeImage`. -/
def closeImage (r : TPTReader) : TPTReader := { r with tiff := none }

/-- `loadImageInfo` on the open file. -/
def loadImageInfo (t : OpenTiff) (seq ang : Int) (r : TPTReader) : TPTReader :=
  ⟨r.image.loadImageInfo t.seen seq ang, some t.reset⟩

/-- Are we working on a different sequence number? -/
def Elsewhere (r : TPTReader) (seq ang : Int) : Prop :=
  r.image.currentX ≠ seq ∨ r.image.currentY ≠ ang

instance (r : TPTReader) (seq ang : Int) : Decidable (r.Elsewhere seq ang) :=
  inferInstanceAs (Decidable (_ ∨ _))

/-- Open the TIFF if it's not already open. -/
def handle (files : Sequence) (seq ang : Int) (r : TPTReader) : Option OpenTiff :=
  match r.tiff with
  | some t => some t
  | none => (files seq ang).map OpenTiff.start

/-- Load the offsets, which are those of the CURRENT directory, and change to the right one for
the resolution. -/
def locate (res : Nat) (t : OpenTiff) (im : TPTImage) : TPTReader :=
  let im := if im.subIfdOffsets = [] then im.initializeSubIfdOffsets t.directory else im
  ⟨im, some (t.seek im.subIfdOffsets ((im.numResolutions : Int) - 1 - res))⟩

/-- `TPTImage::getTile`, up to the choice of the directory.  What follows reads the tile and does
not touch the description of the file. -/
def getTile (files : Sequence) (seq ang : Int) (res : Nat) (r : TPTReader) : TPTReader :=
  if r.image.numResolutions < res then r
  else if r.Elsewhere seq ang then
    match r.closeImage.handle files seq ang with
    | none => r.closeImage
    | some t => locate res t.reset (r.image.loadImageInfo t.seen seq ang)
  else
    match r.handle files seq ang with
    | none => r
    | some t => locate res t r.image

/-- The two calls of the public interface that change the description. -/
inductive Call
  | loadImageInfo (seq ang : Int)
  | getTile (seq ang : Int) (res : Nat)

/-- A call.  `none`: `loadImageInfo` without an open file reads through a null pointer. -/
def call (files : Sequence) (r : TPTReader) : Call → Option TPTReader
  | .loadImageInfo seq ang => r.tiff.map (r.loadImageInfo · seq ang)
  | .getTile seq ang res => some (r.getTile files seq ang res)

/-- `openImage` for a file that can be opened: an object that has been copied from another one
is not loaded again. -/
def openImage (file : TiffPages) (im : TPTImage) : TPTReader :=
  if im.bpc = 0 then
    loadImageInfo (OpenTiff.start file) im.currentX im.currentY ⟨im, none⟩
  else ⟨im, some (OpenTiff.start file)⟩

end TPTReader

/-! ## 3. Describing a file -/

/-- The levels of a file: its first directory, and either the sub-directories of that one or the
directories behind it. -/
def TiffFile.levels (f : TiffFile) : List (Nat × Nat) :=
  (f.width, f.height) :: TPTImage.lowerLevels f f.subIfds

/-- The number of levels and their sizes. -/
structure TPTImage.Sized (im : TPTImage) (f : TiffFile) : Prop where
  count : im.numResolutions = f.levels.length
  widths : im.imageWidths = f.levels.map Prod.fst
  heights : im.imageHeights = f.levels.map Prod.snd

/-- The description an object has of a file. -/
structure TPTImage.Fits (im : TPTImage) (f : TiffFile) : Prop extends im.Sized f where
  offsets : im.subIfdOffsets = f.subIfds

namespace TPTReader

/-- The object describes the file it has open. -/
def Describes (r : TPTReader) : Prop := ∀ t, r.tiff = some t → r.image.Fits t.file.first

/-- **The property of a run**: each call returns, and after it the object describes its file. -/
def DescribesThroughout (files : Sequence) : TPTReader → List Call → Prop
  | _, [] => True
  | r, c :: cs => ∃ r', r.call files c = some r' ∧ r'.Describes ∧ DescribesThroughout files r' cs

/-- **When a call keeps the description.**  The object is loaded already, so `loadImageInfo` never
does.  `getTile` does if it is refused and the description was right, if it fails to open the file
of another view, or if it stays at the view and reads the offsets, should the object have none,
at a directory that has those of the first one. -/
def Keeps (files : Sequence) (r : TPTReader) : Call → Prop
  | .loadImageInfo _ _ => False
  | .getTile seq ang res =>
    (r.image.numResolutions < res ∧ r.Describes) ∨
      (¬ r.image.numResolutions < res ∧
        ((r.Elsewhere seq ang ∧ files seq ang = none) ∨
          (¬ r.Elsewhere seq ang ∧ (r.image.subIfdOffsets = [] →
            ∀ t, r.tiff = some t → t.directory.subIfds = t.file.first.subIfds))))

/-- Every call of a run keeps the description. -/
def KeepsThroughout (files : Sequence) : TPTReader → List Call → Prop
  | _, [] => True
  | r, c :: cs =>
    r.Keeps files c ∧ ∀ r', r.call files c = some r' → KeepsThroughout files r' cs

/-- An object that has been loaded from the file of its view, which is the one it has open if it
has one open.  A copy of such an object comes without the offsets; it is then at the first
directory, where the first tile request reads them. -/
structure Loaded (files : Sequence) (r : TPTReader) (file : TiffPages) : Prop where
  current : files r.image.currentX r.image.currentY = some file
  sized : r.image.Sized file.first
  opened : ∀ t, r.tiff = some t → t.file = file
  offsets : r.image.subIfdOffsets = file.first.subIfds ∨
    (r.image.subIfdOffsets = [] ∧ ∀ t, r.tiff = some t → t.directory = file.first)

/-- A new object is loaded once it has been opened. -/
theorem loaded_openImage {files : Sequence} {im : TPTImage} {file : TiffPages}
    (hbpc : im.bpc = 0) (hfile : files im.currentX im.currentY = some file)
    (hoffsets : im.subIfdOffsets = []) (hwidths : im.imageWidths = [])
    (hheights : im.imageHeights = []) : (openImage file im).Loaded files file := by
  rw [openImage, if_pos hbpc]
  refine ⟨hfile, ?_, ?_, .inl ?_⟩
  · constructor <;>
      simp [loadImageInfo, OpenTiff.seen_start, TPTImage.loadImageInfo,
        TPTImage.initializeSubIfdOffsets, TiffFile.levels, hoffsets, hwidths, hheights]
  · intro t ht
    cases ht
    rfl
  · change file.first.subIfds ++ im.subIfdOffsets = file.first.subIfds
    rw [hoffsets, List.append_nil]

/-- So is a copy of a loaded one, which has lost its offsets. -/
theorem loaded_openImage_copy {files : Sequence} {im : TPTImage} {file : TiffPages}
    (hbpc : im.bpc ≠ 0) (hfile : files im.currentX im.currentY = some file)
    (hsized : im.Sized file.first) :
    (openImage file (.ofIIPImage im.toIIPImage)).Loaded files file := by
  rw [openImage, if_neg (show (TPTImage.ofIIPImage im.toIIPImage).bpc ≠ 0 from hbpc)]
  refine ⟨hfile, ⟨hsized.count, hsized.widths, hsized.heights⟩, ?_, .inr ⟨rfl, ?_⟩⟩ <;>
  · intro t ht
    cases ht
    rfl

/-! ## 4. Loading again -/

/-- **The vectors grow by as many entries as there are levels**: what was there before stays. -/
theorem length_imageWidths_loadImageInfo (im : TPTImage) (f : TiffFile) (seq ang : Int) :
    (im.loadImageInfo f seq ang).imageWidths.length
      = im.imageWidths.length + (im.loadImageInfo f seq ang).numResolutions := by
  simp [TPTImage.loadImageInfo]

/-- An object whose vectors are longer than its number of levels describes no file. -/
theorem not_fits_of_lt {im : TPTImage} {f : TiffFile}
    (h : im.numResolutions < im.imageWidths.length) : ¬ im.Fits f := by
  intro hfits
  rw [hfits.count, hfits.widths, List.length_map] at h
  exact lt_irrefl _ h

theorem lt_length_loadImageInfo {im : TPTImage} {f : TiffFile} (hsized : im.Sized f)
    (f' : TiffFile) (seq ang : Int) :
    (im.loadImageInfo f' seq ang).numResolutions
      < (im.loadImageInfo f' seq ang).imageWidths.length := by
  rw [length_imageWidths_loadImageInfo, hsized.widths]
  simp [TiffFile.levels]

/-- What `getTile` does behind the load touches the offsets at most, which it reads if there are
none. -/
theorem image_locate (res : Nat) (t : OpenTiff) (im : TPTImage) :
    (locate res t im).image
      = { im with subIfdOffsets :=
            if im.subIfdOffsets = [] then t.directory.subIfds else im.subIfdOffsets } := by
  unfold locate
  dsimp only
  split
  case isTrue hnone => rw [TPTImage.initializeSubIfdOffsets, hnone, List.append_nil]
  case isFalse => rfl

theorem file_locate {res : Nat} {t t' : OpenTiff} {im : TPTImage}
    (h : (locate res t im).tiff = some t') : t'.file = t.file := by
  cases h
  exact t.file_seek _ _

theorem not_describes_locate {res : Nat} {t : OpenTiff} {im : TPTImage}
    (h : im.numResolutions < im.imageWidths.length) : ¬ (locate res t im).Describes := by
  intro hdesc
  refine not_fits_of_lt ?_ (hdesc _ rfl)
  rw [image_locate]
  exact h

/-! ## 5. One call -/

section

variable {files : Sequence} {r : TPTReader} {file : TiffPages} {seq ang : Int} {res : Nat}

/-- At the object's own view the file is the one of the view, opened at its first directory if it
was closed. -/
theorem Loaded.handle (h : r.Loaded files file) (hview : ¬ r.Elsewhere seq ang) :
    ∃ t, r.handle files seq ang = some t ∧ t.file = file ∧
      (r.tiff = some t ∨ r.tiff = none ∧ t.directory = file.first) := by
  unfold TPTReader.handle
  cases ht : r.tiff with
  | some t => exact ⟨t, rfl, h.opened t ht, .inl rfl⟩
  | none =>
    have hseq : r.image.currentX = seq := by
      by_contra hne
      exact hview (.inl hne)
    have hang : r.image.currentY = ang := by
      by_contra hne
      exact hview (.inr hne)
    refine ⟨OpenTiff.start file, ?_, rfl, .inr ⟨rfl, rfl⟩⟩
    dsimp only
    rw [← hseq, ← hang, h.current]
    rfl

/-- The directory `getTile` reads the offsets of, in terms of the state before the call. -/
theorem directory_iff {t : OpenTiff} (hfile : t.file = file)
    (hcase : r.tiff = some t ∨ r.tiff = none ∧ t.directory = file.first) :
    t.directory.subIfds = file.first.subIfds
      ↔ ∀ t', r.tiff = some t' → t'.directory.subIfds = t'.file.first.subIfds := by
  rcases hcase with ht | ⟨ht, hdir⟩
  · constructor
    · intro hd t' ht'
      cases ht.symm.trans ht'
      rw [hd, hfile]
    · intro hd
      rw [hd t ht, hfile]
  · rw [ht, hdir]
    exact ⟨fun _ _ hsome => (nomatch hsome), fun _ => rfl⟩

/-- The offsets are right behind `locate` exactly if they were there or are read from a directory
that has those of the first one. -/
theorem Loaded.offsets_locate_iff (h : r.Loaded files file) {t : OpenTiff} :
    (locate res t r.image).image.subIfdOffsets = file.first.subIfds
      ↔ (r.image.subIfdOffsets = [] → t.directory.subIfds = file.first.subIfds) := by
  rw [image_locate]
  dsimp only
  split
  case isTrue hnone => exact ⟨fun heq _ => heq, fun heq => heq hnone⟩
  case isFalse hsome =>
    refine ⟨fun _ hnone => absurd hnone hsome, fun _ => ?_⟩
    rcases h.offsets with heq | ⟨hnone, -⟩
    · exact heq
    · exact absurd hnone hsome

theorem Loaded.describes_locate_iff (h : r.Loaded files file) {t : OpenTiff}
    (hfile : t.file = file) :
    (locate res t r.image).Describes
      ↔ (r.image.subIfdOffsets = [] → t.directory.subIfds = file.first.subIfds) := by
  have hread : (locate res t r.image).image.subIfdOffsets = file.first.subIfds ↔ _ :=
    h.offsets_locate_iff
  rw [← hread]
  constructor
  · intro hdesc
    have hoffsets := (hdesc _ rfl).offsets
    rwa [t.file_seek, hfile] at hoffsets
  · intro hoffsets t' ht'
    rw [file_locate ht', hfile]
    refine ⟨?_, hoffsets⟩
    rw [image_locate]
    exact ⟨h.sized.count, h.sized.widths, h.sized.heights⟩

/-- A located level leaves a loaded object if the offsets are right. -/
theorem Loaded.locate (h : r.Loaded files file) {t : OpenTiff} (hfile : t.file = file)
    (hdir : r.image.subIfdOffsets = [] → t.directory.subIfds = file.first.subIfds) :
    (locate res t r.image).Loaded files file := by
  refine ⟨?_, ?_, ?_, .inl (h.offsets_locate_iff.2 hdir)⟩
  · rw [image_locate]
    exact h.current
  · rw [image_locate]
    exact ⟨h.sized.count, h.sized.widths, h.sized.heights⟩
  · intro t' ht'
    rw [file_locate ht', hfile]

theorem Loaded.closeImage (h : r.Loaded files file) : r.closeImage.Loaded files file := by
  refine ⟨h.current, h.sized, fun _ ht => (nomatch ht), ?_⟩
  rcases h.offsets with heq | ⟨hnone, -⟩
  · exact .inl heq
  · exact .inr ⟨hnone, fun _ ht => nomatch ht⟩

theorem describes_closeImage : r.closeImage.Describes := fun _ ht => nomatch ht

/-- Closing and failing to open the file of another view leaves a closed object. -/
theorem getTile_of_unopened (hres : ¬ r.image.numResolutions < res)
    (hview : r.Elsewhere seq ang) (hnone : files seq ang = none) :
    r.getTile files seq ang res = r.closeImage := by
  simp [getTile, if_neg hres, if_pos hview, TPTReader.handle, TPTReader.closeImage, hnone]

/-- The file of another view is loaded into the object as it is. -/
theorem getTile_of_elsewhere (hres : ¬ r.image.numResolutions < res)
    (hview : r.Elsewhere seq ang) (hsome : files seq ang = some file) :
    r.getTile files seq ang res
      = locate res (OpenTiff.start file) (r.image.loadImageInfo file.first seq ang) := by
  simp only [getTile, if_neg hres, if_pos hview, TPTReader.handle, TPTReader.closeImage, hsome,
    Option.map_some, OpenTiff.seen_start]
  rfl

theorem getTile_of_here (hres : ¬ r.image.numResolutions < res)
    (hview : ¬ r.Elsewhere seq ang) {t : OpenTiff} (ht : r.handle files seq ang = some t) :
    r.getTile files seq ang res = locate res t r.image := by
  simp only [getTile, if_neg hres, if_neg hview, ht]

/-- A call that keeps the description leaves a loaded object, and the description is right. -/
theorem Loaded.call (h : r.Loaded files file) {c : Call} (hkeeps : r.Keeps files c) :
    ∃ r', r.call files c = some r' ∧ r'.Loaded files file ∧ r'.Describes := by
  cases c with
  | loadImageInfo seq ang => exact hkeeps.elim
  | getTile seq ang res =>
    refine ⟨_, rfl, ?_⟩
    rcases hkeeps with ⟨hlt, hdesc⟩ | ⟨hres, ⟨hview, hnone⟩ | ⟨hview, hdir⟩⟩
    · rw [getTile, if_pos hlt]
      exact ⟨h, hdesc⟩
    · rw [getTile_of_unopened hres hview hnone]
      exact ⟨h.closeImage, describes_closeImage⟩
    · obtain ⟨t, ht, hfile, hcase⟩ := h.handle hview
      have hread : r.image.subIfdOffsets = [] → t.directory.subIfds = file.first.subIfds :=
        fun hnone => (directory_iff hfile hcase).2 (hdir hnone)
      rw [getTile_of_here hres hview ht]
      exact ⟨h.locate hfile hread, (h.describes_locate_iff hfile).2 hread⟩

/-- A call after which the object describes its file is one that keeps the description. -/
theorem Loaded.keeps_of_describes (h : r.Loaded files file) {c : Call} {r' : TPTReader}
    (hcall : r.call files c = some r') (hdesc : r'.Describes) : r.Keeps files c := by
  cases c with
  | loadImageInfo seq ang =>
    obtain ⟨t, -, rfl⟩ := Option.map_eq_some_iff.1 hcall
    exact not_fits_of_lt (lt_length_loadImageInfo h.sized t.seen seq ang) (hdesc _ rfl)
  | getTile seq ang res =>
    cases hcall
    by_cases hres : r.image.numResolutions < res
    · rw [getTile, if_pos hres] at hdesc
      exact .inl ⟨hres, hdesc⟩
    refine .inr ⟨hres, ?_⟩
    by_cases hview : r.Elsewhere seq ang
    · cases hother : files seq ang with
      | none => exact .inl ⟨hview, rfl⟩
      | some other =>
        rw [getTile_of_elsewhere hres hview hother] at hdesc
        exact absurd hdesc
          (not_describes_locate (lt_length_loadImageInfo h.sized other.first seq ang))
    · obtain ⟨t, ht, hfile, hcase⟩ := h.handle hview
      rw [getTile_of_here hres hview ht, h.describes_locate_iff hfile] at hdesc
      exact .inr ⟨hview, fun hnone => (directory_iff hfile hcase).1 (hdesc hnone)⟩

end

/-! ## 6. Runs -/

/-- **An object describes its file through a run exactly if every call keeps the description**,
for every sequence of files, every loaded object and every list of calls. -/
theorem describesThroughout_iff_keeps (files : Sequence) (r : TPTReader) (file : TiffPages)
    (hloaded : r.Loaded files file) (calls : List Call) :
    r.DescribesThroughout files calls ↔ r.KeepsThroughout files calls := by
  induction calls generalizing r with
  | nil => exact Iff.rfl
  | cons c cs ih =>
    constructor
    · rintro ⟨r', hcall, hdesc, hrest⟩
      have hkeeps := hloaded.keeps_of_describes hcall hdesc
      obtain ⟨r₁, hr₁, hloaded₁, -⟩ := hloaded.call hkeeps
      cases hcall.symm.trans hr₁
      refine ⟨hkeeps, fun r'' hcall' => ?_⟩
      cases hcall.symm.trans hcall'
      exact (ih _ hloaded₁).1 hrest
    · rintro ⟨hkeeps, hrest⟩
      obtain ⟨r₁, hr₁, hloaded₁, hdesc₁⟩ := hloaded.call hkeeps
      exact ⟨r₁, hr₁, hdesc₁, (ih _ hloaded₁).2 (hrest r₁ hr₁)⟩

/-- A sequence whose views are all the same file of one level. -/
def greySequence : Sequence := fun _ _ => some ⟨greyTiff 4, fun _ => greyTiff 4⟩

/-- A new object, opened on the first view of the sequence. -/
def greyReader : TPTReader :=
  openImage ⟨greyTiff 4, fun _ => greyTiff 4⟩ (.ofIIPImage (.new []))

theorem loaded_greyReader :
    greyReader.Loaded greySequence ⟨greyTiff 4, fun _ => greyTiff 4⟩ :=
  loaded_openImage rfl rfl rfl rfl rfl

/-- Two tiles of the first view. -/
theorem describesThroughout_iff_keeps_grey :
    greyReader.DescribesThroughout greySequence [.getTile 0 90 0, .getTile 0 90 0] := by
  refine (describesThroughout_iff_keeps _ _ _ loaded_greyReader _).2 ⟨?_, ?_⟩
  · refine .inr ⟨by decide, .inr ⟨by decide, ?_⟩⟩
    rintro - t ht
    cases ht
    rfl
  · intro r hr
    cases hr
    refine ⟨.inr ⟨by decide, .inr ⟨by decide, ?_⟩⟩, fun _ _ => trivial⟩
    rintro - t ht
    cases ht
    rfl

/-- **A tile of a second view**: two files of one level each, and the object then has one level
and the sizes of two. -/
theorem second_view_appends :
    greyReader.Loaded greySequence ⟨greyTiff 4, fun _ => greyTiff 4⟩ ∧
      (greyReader.getTile greySequence 10 90 0).image.numResolutions = 1 ∧
      (greyReader.getTile greySequence 10 90 0).image.imageWidths = [4, 4] ∧
      ¬ greyReader.DescribesThroughout greySequence [.getTile 10 90 0] := by
  refine ⟨loaded_greyReader, rfl, rfl, ?_⟩
  rintro ⟨r', hcall, hdesc, -⟩
  cases hcall
  exact not_fits_of_lt (by decide : 1 < [4, 4].length) (hdesc _ rfl)

end TPTReader

end Iipsrv
