/-
# Hits and changed files

What a request gets that finds its path in the image cache, compared with what a server gets that
has not seen the path before.

* `hit_same_iff`: for a file that does not change, a hit gives the same image as a miss, except
  for a JPEG2000 file with virtual levels: the constructor resets `virtual_levels`, and as `bpc`
  is not 0 the metadata are not read again.
* `changed_same_iff`: for a TIFF file that has been replaced by a newer one, the image has the
  metadata of the new file only if the path is not in the cache.  Otherwise the level sizes of
  the new file stand BEHIND those of the old one, and the histogram is still that of the old one.
-/
import Iipsrv.FIF.Histories

namespace Iipsrv

open Lib.Print (Text)
open Lib.Effects

namespace FIF

variable {disk : Disk} {openjpeg : Bool} {first : ImageCache → Nat}
  {histogramOf : ImageSource → List Nat} {path : Text}

/-! ## 1. A server that has not seen the path -/

/-- **A miss**: the image is opened from a new object, and nothing is read twice. -/
theorem run_miss {c : ImageCache} (hmiss : c.find path = none) {image : Opened} :
    (run disk openjpeg first path c).1 = .ok image ↔
      ∃ s, disk path = some s ∧ openFrom disk openjpeg (s.object path) 0 = .ok image := by
  rw [run_eq_ok]
  constructor
  · rintro ⟨test, timestamp, ⟨hfind, -⟩ | ⟨-, hinit, rfl⟩, h⟩
    · rw [hmiss] at hfind
      cases hfind
    · unfold initialise at hinit
      split at hinit
      · cases hinit
      · next s hs =>
        cases hinit
        exact ⟨s, hs, h⟩
  · rintro ⟨s, hs, h⟩
    exact ⟨_, 0, .inr ⟨hmiss, by rw [initialise, hs], rfl⟩, h⟩

/-- The file of an object that is at its first view. -/
theorem fileOf_eq {s : ImageSource} {im : IIPImage} (hs : disk path = some s)
    (hready : Ready path im) (hfile : im.isFile = s.isFile) : disk.fileOf im = s.file 0 90 := by
  unfold Disk.fileOf
  rw [hready.imagePath, hs, hready.currentX, hready.currentY]
  exact if_pos hfile.symm

theorem ready_object (s : ImageSource) (path : Text) : Ready path (s.object path) :=
  ⟨rfl, rfl, rfl⟩

/-- **What a server opens that has not seen the path**: an object of the class of the format, on
a file that this class can read. -/
inductive OpensAs (openjpeg : Bool) (s : ImageSource) (path : Text) : Content → Opened → Prop
  | tiff {mtime : Int} {f : TiffFile} (hformat : s.format = .tif)
      (hfile : s.file 0 90 = some ⟨mtime, .tiff f⟩)
      (htiled : TPTImage.Tiled (TPTImage.start f mtime (s.object path)).toIIPImage) :
      OpensAs openjpeg s path (.tiff f) (.tpt (.start f mtime (s.object path)))
  | jp2 {mtime : Int} {f : Jp2File} (hformat : s.format = .jpeg2000)
      (hbuilt : openjpeg = true) (hfile : s.file 0 90 = some ⟨mtime, .jp2 f⟩) :
      OpensAs openjpeg s path (.jp2 f) (.openJPEG (OpenJPEGImage.start f mtime (s.object path)))

theorem openFrom_object {s : ImageSource} (hs : disk path = some s) {image : Opened} :
    openFrom disk openjpeg (s.object path) 0 = .ok image ↔
      ∃ content, OpensAs openjpeg s path content image := by
  have hkeep : ∀ file (image : Opened), refresh file 0 image = image :=
    fun file image => if_neg (fun h => lt_irrefl _ h.1)
  rw [openFrom_eq_ok, fileOf_eq hs (ready_object s path) rfl]
  simp only [openedTiff, openedJp2, hkeep]
  constructor
  · rintro (⟨mtime, f, hformat, hfile, htiled, rfl⟩ | ⟨mtime, f, hformat, hbuilt, hfile, rfl⟩)
    · exact ⟨_, .tiff hformat hfile htiled⟩
    · exact ⟨_, .jp2 hformat hbuilt hfile⟩
  · rintro ⟨content, ⟨hformat, hfile, htiled⟩ | ⟨hformat, hbuilt, hfile⟩⟩
    · exact .inl ⟨_, _, hformat, hfile, htiled, rfl⟩
    · exact .inr ⟨_, _, hformat, hbuilt, hfile, rfl⟩

/-- The level widths of a TIFF file. -/
def tiffWidths (f : TiffFile) : List Nat :=
  ((f.width, f.height) :: TPTImage.lowerLevels f f.subIfds).map Prod.fst

theorem tiffWidths_start (f : TiffFile) (mtime : Int) (s : ImageSource) (path : Text) :
    (TPTImage.start f mtime (s.object path)).imageWidths = tiffWidths f := by
  rw [TPTImage.start_of_bpc_eq_zero rfl]
  simp [TPTImage.loadImageInfo, TPTImage.initializeSubIfdOffsets, TPTImage.ofIIPImage,
    ImageSource.object, IIPImage.new, tiffWidths]

/-- **Reading appends**: the widths of the file stand behind those the object had. -/
theorem tiffWidths_append (f : TiffFile) {mtime timestamp : Int} {test : IIPImage}
    (h : test.bpc = 0 ∨ (0 < timestamp ∧ timestamp < mtime)) :
    ∃ rest, (openedTiff f mtime timestamp test).base.imageWidths
      = test.imageWidths ++ (tiffWidths f ++ rest) := by
  have hload : ∀ im : TPTImage,
      (im.loadImageInfo f im.currentX im.currentY).imageWidths = im.imageWidths ++
        ((f.width, f.height) :: TPTImage.lowerLevels f (f.subIfds ++ im.subIfdOffsets)).map
          Prod.fst := fun im => rfl
  have hfirst : ∀ im : TPTImage, im.subIfdOffsets = [] →
      (im.loadImageInfo f im.currentX im.currentY).imageWidths
        = im.imageWidths ++ tiffWidths f := by
    intro im him
    rw [hload im, him, List.append_nil]
    rfl
  by_cases hbpc : test.bpc = 0
  · have hstart : (TPTImage.start f mtime test).imageWidths
        = test.imageWidths ++ tiffWidths f := by
      rw [TPTImage.start_of_bpc_eq_zero hbpc]
      exact hfirst { TPTImage.ofIIPImage test with timestamp := mtime } rfl
    unfold openedTiff refresh
    split
    · have happend := hload (TPTImage.start f mtime test)
      rw [hstart, List.append_assoc] at happend
      exact ⟨_, happend⟩
    · exact ⟨[], by rw [List.append_nil]; exact hstart⟩
  · have hnewer := h.resolve_left hbpc
    have hstart : TPTImage.start f mtime test
        = { TPTImage.ofIIPImage test with timestamp := mtime, isSet := true } :=
      TPTImage.start_of_bpc hbpc
    refine ⟨[], ?_⟩
    rw [openedTiff, refresh, if_pos (by rw [hstart]; exact hnewer), hstart, List.append_nil]
    exact hfirst { TPTImage.ofIIPImage test with timestamp := mtime, isSet := true } rfl

/-! ## 2. A file that does not change -/

/-- Two objects that decode alike: the metadata, and with them what is asked of the decoder. -/
structure SameImage (a b : IIPImage) : Prop where
  numResolutions : a.numResolutions = b.numResolutions
  virtualLevels : a.virtualLevels = b.virtualLevels
  imageWidths : a.imageWidths = b.imageWidths
  imageHeights : a.imageHeights = b.imageHeights
  tileWidth : a.tileWidth = b.tileWidth
  tileHeight : a.tileHeight = b.tileHeight
  channels : a.channels = b.channels
  bpc : a.bpc = b.bpc
  colourspace : a.colourspace = b.colourspace
  min : a.min = b.min
  max : a.max = b.max
  process : OpenJPEGImage.process a = OpenJPEGImage.process b

/-- The object is the one a miss has built, but for the histogram and the virtual levels. -/
def Copy (im₀ im : IIPImage) : Prop :=
  im = { im₀ with histogram := im.histogram, virtualLevels := im.virtualLevels }

theorem Copy.sameImage {im₀ im : IIPImage} (h : Copy im₀ im)
    (hlevels : im.virtualLevels = im₀.virtualLevels) : SameImage im im₀ := by
  unfold Copy at h
  rw [hlevels] at h
  rw [h]
  exact ⟨rfl, rfl, rfl, rfl, rfl, rfl, rfl, rfl, rfl, rfl, rfl, rfl⟩

theorem Copy.setVirtualLevels {im₀ im : IIPImage} (h : Copy im₀ im) (n : Nat) :
    Copy im₀ { im with virtualLevels := n } := by
  unfold Copy at h ⊢
  rw [h]

theorem Copy.setHistogram {im₀ im : IIPImage} (h : Copy im₀ im) (histogram : List Nat) :
    Copy im₀ { im with histogram := histogram } := by
  unfold Copy at h ⊢
  rw [h]

/-- What the cache holds for a path whose file does not change.  A file that says it has no bits
is read again by every request. -/
structure Held (path : Text) (im₀ im : IIPImage) : Prop where
  entry : Entry path im
  isFile : im.isFile = im₀.isFile
  format : im.format = im₀.format
  bpc : im.bpc = im₀.bpc
  copy : im₀.bpc ≠ 0 → Copy im₀ im
  virtualLevels : im.virtualLevels = im₀.virtualLevels ∨ im.virtualLevels = 0

/-- Which files a hit reads as a miss does. -/
def Keeps : Content → Prop
  | .tiff f => f.bitsPerSample ≠ 0
  | .jp2 f => f.width / 2 ^ f.numResolutions ≤ OpenJPEGImage.tileSize ∧
      f.height / 2 ^ f.numResolutions ≤ OpenJPEGImage.tileSize
  | .unreadable => False

section

variable {s : ImageSource} {content : Content} {image₀ : Opened} {test : IIPImage}

/-- A TIFF object that has been read before is taken as it is. -/
theorem Held.start_tiff {f : TiffFile} {mtime : Int}
    (h : Held path (TPTImage.start f mtime (s.object path)).toIIPImage test)
    (hbits : f.bitsPerSample ≠ 0) : (TPTImage.start f mtime test).toIIPImage = test := by
  have hfresh : TPTImage.start f mtime (s.object path) =
      { TPTImage.loadImageInfo f { TPTImage.ofIIPImage (s.object path) with timestamp := mtime }
        0 90 with isSet := true } := TPTImage.start_of_bpc_eq_zero rfl
  have hbpc₀ : (TPTImage.start f mtime (s.object path)).bpc ≠ 0 := by
    rw [hfresh]
    exact hbits
  have hcopy := h.copy hbpc₀
  have htime : mtime = test.timestamp := by
    rw [hcopy, hfresh]
    rfl
  have hset : true = test.isSet := by
    rw [hcopy, hfresh]
  rw [TPTImage.start_of_bpc (h.bpc ▸ hbpc₀), htime, hset]
  rfl

/-- A JPEG2000 object that has been read before is taken as it is, without virtual levels. -/
theorem Held.start_jp2 {f : Jp2File} {mtime : Int}
    (h : Held path (OpenJPEGImage.start f mtime (s.object path)) test) :
    OpenJPEGImage.start f mtime test = { test with virtualLevels := 0 } := by
  have hfresh : OpenJPEGImage.start f mtime (s.object path) = OpenJPEGImage.loadImageInfo f
      { OpenJPEGImage.ofIIPImage (s.object path) with timestamp := mtime } :=
    OpenJPEGImage.start_of_bpc_eq_zero rfl
  have hbpc₀ : (OpenJPEGImage.start f mtime (s.object path)).bpc ≠ 0 := by
    rw [hfresh]
    exact Nat.ne_of_gt f.prec_pos
  have hcopy := h.copy hbpc₀
  have htime : mtime = test.timestamp := by
    rw [hcopy, hfresh]
    rfl
  have hwidth : OpenJPEGImage.tileSize = test.tileWidth := by
    rw [hcopy, hfresh]
    rfl
  have hheight : OpenJPEGImage.tileSize = test.tileHeight := by
    rw [hcopy, hfresh]
    rfl
  rw [OpenJPEGImage.start_of_bpc (h.bpc ▸ hbpc₀), OpenJPEGImage.ofIIPImage]
  nth_rewrite 1 [hwidth]
  rw [hheight, htime]

/-- An image that is not newer is not read again. -/
theorem base_refresh {file : Option FileData} {timestamp : Int} {image : Opened} {im : IIPImage}
    (h : image.base = im) (htime : im.timestamp = timestamp) :
    (refresh file timestamp image).base = im := by
  rw [refresh, if_neg (fun hnew => absurd hnew.2 (by rw [h, htime]; exact lt_irrefl _))]
  exact h

/-- A hit on a TIFF file that says how many bits it has. -/
theorem Held.base_tiff {f : TiffFile} {mtime : Int}
    (h : Held path (TPTImage.start f mtime (s.object path)).toIIPImage test)
    (hbits : f.bitsPerSample ≠ 0) : (openedTiff f mtime test.timestamp test).base = test :=
  base_refresh (h.start_tiff hbits) rfl

/-- A hit on a JPEG2000 file. -/
theorem Held.base_jp2 {f : Jp2File} {mtime : Int}
    (h : Held path (OpenJPEGImage.start f mtime (s.object path)) test) :
    (openedJp2 f mtime test.timestamp test).base = { test with virtualLevels := 0 } :=
  base_refresh h.start_jp2 rfl

theorem OpensAs.isFile (h : OpensAs openjpeg s path content image₀) :
    image₀.base.isFile = s.isFile := by
  cases h <;> rfl

theorem OpensAs.format (h : OpensAs openjpeg s path content image₀) :
    image₀.base.format = s.format := by
  cases h <;> rfl

/-- A file without bits is read again by a hit, and still has none. -/
theorem openedTiff_bpc (f : TiffFile) (mtime timestamp : Int) (hbpc : test.bpc = 0) :
    (openedTiff f mtime timestamp test).base.bpc = f.bitsPerSample := by
  rw [openedTiff, TPTImage.start_of_bpc_eq_zero hbpc, refresh]
  split <;> rfl

/-- What no reading of a TIFF file changes. -/
theorem openedTiff_fields (f : TiffFile) (mtime timestamp : Int) (test : IIPImage) :
    (openedTiff f mtime timestamp test).base.isFile = test.isFile ∧
      (openedTiff f mtime timestamp test).base.format = test.format ∧
      (openedTiff f mtime timestamp test).base.virtualLevels = test.virtualLevels := by
  unfold openedTiff refresh TPTImage.start TPTImage.ensureInfo
  split <;> split <;> exact ⟨rfl, rfl, rfl⟩

/-- The file a hit opens is the one a miss opens. -/
theorem Held.fileOf (h : Held path image₀.base test)
    (hopens : OpensAs openjpeg s path content image₀) (hs : disk path = some s) :
    disk.fileOf test = s.file 0 90 :=
  fileOf_eq hs h.entry.toReady (h.isFile.trans hopens.isFile)

/-- **A hit keeps what the cache holds.** -/
theorem Held.reopened (h : Held path image₀.base test)
    (hopens : OpensAs openjpeg s path content image₀) (hs : disk path = some s) {image : Opened}
    (hopen : openFrom disk openjpeg test test.timestamp = .ok image) :
    Held path image₀.base image.base := by
  have hfile := h.fileOf hopens hs
  have hentry := openFrom_entry h.entry.toReady (fun _ => h.entry.imageWidths) hopen
  have hformat : test.format = s.format := h.format.trans hopens.format
  cases hopens with
  | @tiff mtime f hs_format hs_file htiled =>
    rcases openFrom_eq_ok.mp hopen with ⟨mtime', f', -, hread, -, rfl⟩ | ⟨_, _, hjp2, -⟩
    · have hsame : some (FileData.mk mtime' (.tiff f')) = some ⟨mtime, .tiff f⟩ := by
        rw [← hread, hfile, hs_file]
      cases hsame
      by_cases hbits : f.bitsPerSample = 0
      · have hbpc : test.bpc = 0 := h.bpc.trans hbits
        obtain ⟨hisFile, hfmt, hlevels⟩ := openedTiff_fields f mtime test.timestamp test
        exact ⟨hentry, hisFile.trans h.isFile, hfmt.trans h.format,
          openedTiff_bpc f mtime _ hbpc, fun hne => absurd hbits hne,
          hlevels.symm ▸ h.virtualLevels⟩
      · rw [h.base_tiff hbits]
        exact h
    · rw [hformat, hs_format] at hjp2
      cases hjp2
  | @jp2 mtime f hs_format hbuilt hs_file =>
    rcases openFrom_eq_ok.mp hopen with ⟨_, _, htif, -⟩ | ⟨mtime', f', -, -, hread, rfl⟩
    · rw [hformat, hs_format] at htif
      cases htif
    · have hsame : some (FileData.mk mtime' (.jp2 f')) = some ⟨mtime, .jp2 f⟩ := by
        rw [← hread, hfile, hs_file]
      cases hsame
      rw [h.base_jp2] at hentry ⊢
      exact ⟨hentry, h.isFile, h.format, h.bpc,
        fun hbpc => (h.copy hbpc).setVirtualLevels 0, .inr rfl⟩

/-- The widths of a file cannot end in themselves with something in front. -/
theorem append_ne_self {ws vs rest : List Nat} (h : ws ≠ []) : ws ++ (vs ++ rest) ≠ vs := by
  intro he
  have hlen := congrArg List.length he
  simp only [List.length_append] at hlen
  exact h (List.length_eq_zero_iff.mp (by omega))

/-- **A hit is like a miss** if the file is. -/
theorem Held.same_iff (h : Held path image₀.base test)
    (hopens : OpensAs openjpeg s path content image₀) (hs : disk path = some s) :
    (∃ image, openFrom disk openjpeg test test.timestamp = .ok image ∧
      SameImage image.base image₀.base) ↔ Keeps content := by
  have hfile := h.fileOf hopens hs
  have hformat : test.format = s.format := h.format.trans hopens.format
  cases hopens with
  | @tiff mtime f hs_format hs_file htiled =>
    rw [hs_file] at hfile
    constructor
    · rintro ⟨image, hopen, hsame⟩ hbits
      rcases openFrom_eq_ok.mp hopen with ⟨mtime', f', -, hread, -, rfl⟩ | ⟨_, _, hjp2, -⟩
      · rw [hfile] at hread
        cases hread
        have hwidths := hsame.imageWidths.trans (tiffWidths_start f mtime s path)
        obtain ⟨rest, happend⟩ := tiffWidths_append f (.inl (h.bpc.trans hbits))
        exact append_ne_self h.entry.imageWidths (happend.symm.trans hwidths)
      · rw [hformat, hs_format] at hjp2
        cases hjp2
    · intro hbits
      have hbase := h.base_tiff hbits
      have hcopy : Copy (TPTImage.start f mtime (s.object path)).toIIPImage test := h.copy hbits
      refine ⟨openedTiff f mtime test.timestamp test, openFrom_eq_ok.mpr (.inl ⟨mtime, f,
        hformat.trans hs_format, hfile, ?_, rfl⟩), ?_⟩
      · rw [h.start_tiff hbits, hcopy]
        exact htiled
      · rw [hbase]
        exact hcopy.sameImage (h.virtualLevels.elim id (fun h0 => h0.trans rfl))
  | @jp2 mtime f hs_format hbuilt hs_file =>
    rw [hs_file] at hfile
    have hcopy : Copy (OpenJPEGImage.start f mtime (s.object path)) test :=
      h.copy (Nat.ne_of_gt f.prec_pos)
    have hlevels : (OpenJPEGImage.start f mtime (s.object path)).virtualLevels
        = OpenJPEGImage.fitting OpenJPEGImage.tileSize OpenJPEGImage.tileSize f.width f.height
          - f.numResolutions := by
      rw [OpenJPEGImage.start_of_bpc_eq_zero rfl]
      exact OpenJPEGImage.virtualLevels_loadImageInfo rfl rfl rfl
    have hopen : openFrom disk openjpeg test test.timestamp
        = .ok (openedJp2 f mtime test.timestamp test) :=
      openFrom_eq_ok.mpr (.inr ⟨mtime, f, hformat.trans hs_format, hbuilt, hfile, rfl⟩)
    rw [Keeps, ← OpenJPEGImage.fitting_le_iff]
    constructor
    · rintro ⟨image, himage, hsame⟩
      rw [hopen] at himage
      cases himage
      have hzero := hsame.virtualLevels
      rw [h.base_jp2] at hzero
      have : (OpenJPEGImage.start f mtime (s.object path)).virtualLevels = 0 := hzero.symm
      omega
    · intro hfit
      refine ⟨_, hopen, ?_⟩
      rw [h.base_jp2]
      refine (hcopy.setVirtualLevels 0).sameImage ?_
      change 0 = (OpenJPEGImage.start f mtime (s.object path)).virtualLevels
      omega

theorem Held.setHistogram {im₀ im : IIPImage} (h : Held path im₀ im) (histogram : List Nat) :
    Held path im₀ { im with histogram := histogram } :=
  ⟨⟨⟨h.entry.imagePath, h.entry.currentX, h.entry.currentY⟩, h.entry.imageWidths⟩, h.isFile,
    h.format, h.bpc, fun hbpc => (h.copy hbpc).setHistogram histogram, h.virtualLevels⟩

/-- A miss puts what it opens into the cache. -/
theorem OpensAs.held (h : OpensAs openjpeg s path content image₀) (hs : disk path = some s) :
    Held path image₀.base image₀.base :=
  ⟨openFrom_entry (ready_object s path) (fun hne => absurd rfl hne)
    ((openFrom_object hs).mpr ⟨content, h⟩), rfl, rfl, rfl, fun _ => rfl, .inl rfl⟩

/-- **Over a whole history** in which the path is left alone. -/
theorem after_held {events : List Event} (hevents : ∀ e ∈ events, ∀ s, e ≠ .replace path s)
    (hopens : OpensAs openjpeg s path content image₀) (hs : disk path = some s) :
    (after openjpeg first histogramOf ⟨disk, []⟩ events).disk path = some s ∧
      ∀ p im, (p, im) ∈ (after openjpeg first histogramOf ⟨disk, []⟩ events).cache →
        p = path → Held path image₀.base im := by
  refine after_invariant (I := fun σ => σ.disk path = some s ∧
    ∀ p im, (p, im) ∈ σ.cache → p = path → Held path image₀.base im) ?_
    ⟨hs, fun _ _ h => absurd h List.not_mem_nil⟩
  rintro e he σ ⟨hdisk, hall⟩
  refine ⟨?_, step_entries ?_ (fun p x h hx hp => (hx hp).setHistogram h) hall e⟩
  · cases e with
    | fif argument => exact hdisk
    | histogram p =>
      unfold step
      dsimp only
      split <;> exact hdisk
    | replace p source =>
      have hne : path ≠ p := fun hp => hevents _ he source (by rw [hp])
      exact (if_neg hne).trans hdisk
  · rintro argument test timestamp image hstart hopen rfl
    rcases hstart with ⟨hfind, rfl⟩ | ⟨-, hinit, rfl⟩
    · exact (hall _ test (ImageCache.mem_of_find hfind) rfl).reopened hopens hdisk hopen
    · rw [initialise, hdisk] at hinit
      cases hinit
      have hfresh := (openFrom_object hdisk).mpr ⟨content, hopens⟩
      rw [hopen] at hfresh
      cases hfresh
      exact hopens.held hdisk

theorem run_hit {c : ImageCache} {im : IIPImage} (h : c.find path = some im) :
    (run disk openjpeg first path c).1 = openFrom disk openjpeg im im.timestamp := by
  unfold run
  rw [h]
  exact finish_fst

/-- What lies under the path can be copied from the cache. -/
def KeepsOn (disk : Disk) (path : Text) : Prop :=
  ∃ s data, disk path = some s ∧ s.file 0 90 = some data ∧ Keeps data.content

theorem OpensAs.keepsOn_iff (h : OpensAs openjpeg s path content image₀)
    (hs : disk path = some s) : KeepsOn disk path ↔ Keeps content := by
  have hcontent : ∃ mtime, s.file 0 90 = some ⟨mtime, content⟩ := by
    cases h with
    | tiff _ hfile _ => exact ⟨_, hfile⟩
    | jp2 _ _ hfile => exact ⟨_, hfile⟩
  obtain ⟨mtime, hfile⟩ := hcontent
  constructor
  · rintro ⟨s', data, hs', hdata, hkeeps⟩
    rw [hs] at hs'
    cases hs'
    rw [hfile] at hdata
    cases hdata
    exact hkeeps
  · intro hkeeps
    exact ⟨s, _, hs, hfile, hkeeps⟩

end

/-- **A hit gives the same image as a miss** exactly if the file says that it has bits and, for a
JPEG2000 file, does without virtual levels.  The history is any in which what lies under the path
does not change. -/
theorem hit_same_iff {events : List Event} {image₀ : Opened} {im : IIPImage}
    (hevents : ∀ e ∈ events, ∀ s, e ≠ .replace path s)
    (hfresh : (run disk openjpeg first path []).1 = .ok image₀)
    (hhit : (after openjpeg first histogramOf ⟨disk, []⟩ events).cache.find path = some im) :
    (∃ image, (run (after openjpeg first histogramOf ⟨disk, []⟩ events).disk openjpeg first path
        (after openjpeg first histogramOf ⟨disk, []⟩ events).cache).1 = .ok image ∧
      SameImage image.base image₀.base) ↔ KeepsOn disk path := by
  obtain ⟨s, hs, hopen⟩ := (run_miss rfl).mp hfresh
  obtain ⟨content, hopens⟩ := (openFrom_object hs).mp hopen
  obtain ⟨hdisk, hall⟩ :
      (after openjpeg first histogramOf ⟨disk, []⟩ events).disk path = some s ∧ _ :=
    after_held hevents hopens hs
  have hheld := hall path im (ImageCache.mem_of_find hhit) rfl
  rw [run_hit hhit, hopens.keepsOn_iff hs]
  exact hheld.same_iff hopens hdisk

/-- A disk with one image. -/
def oneImage (source : ImageSource) : Disk := fun p => if p = [] then some source else none

/-- A single file. -/
def singleFile (format : ImageFormat) (mtime : Int) (content : Content) : ImageSource :=
  ⟨true, format, [0], [90], fun _ _ => some ⟨mtime, content⟩⟩

/-- A server that has been asked once for the image. -/
def askedOnce (openjpeg : Bool) (source : ImageSource) : State :=
  after openjpeg (fun _ => 0) (fun _ => []) ⟨oneImage source, []⟩ [.fif []]

/-- The second request for a TIFF. -/
theorem hit_same_iff_grey :
    ∃ image₀ image, (run (oneImage (singleFile .tif 1 (.tiff (greyTiff 4)))) false (fun _ => 0) []
        []).1 = .ok image₀ ∧
      (run (askedOnce false (singleFile .tif 1 (.tiff (greyTiff 4)))).disk false (fun _ => 0) []
        (askedOnce false (singleFile .tif 1 (.tiff (greyTiff 4)))).cache).1 = .ok image ∧
      SameImage image.base image₀.base := by
  have hkeeps : KeepsOn (oneImage (singleFile .tif 1 (.tiff (greyTiff 4)))) [] :=
    ⟨_, _, rfl, rfl, Nat.succ_ne_zero 7⟩
  have hleft : ∀ e ∈ [Event.fif []], ∀ s, e ≠ .replace [] s := by simp
  obtain ⟨image, hrun, hsame⟩ := (hit_same_iff hleft rfl rfl).mpr hkeeps
  exact ⟨_, image, rfl, hrun, hsame⟩

/-- **The second request for a JPEG2000 file.**  The first has one virtual level, the second
none. -/
theorem hit_forgets_virtualLevels :
    ((run (oneImage (singleFile .jpeg2000 1 (.jp2 (squareJp2 1024)))) true (fun _ => 0)
        [] []).1.map fun image => image.base.virtualLevels) = .ok 1 ∧
      ((run (askedOnce true (singleFile .jpeg2000 1 (.jp2 (squareJp2 1024)))).disk true
          (fun _ => 0) []
        (askedOnce true (singleFile .jpeg2000 1 (.jp2 (squareJp2 1024)))).cache).1.map
          fun image => image.base.virtualLevels) = .ok 0 := by
  refine ⟨?_, rfl⟩
  have hlevels : (OpenJPEGImage.loadImageInfo (squareJp2 1024)
      { OpenJPEGImage.ofIIPImage ((singleFile .jpeg2000 1
        (.jp2 (squareJp2 1024))).object []) with timestamp := 1 }).virtualLevels = 1 := by
    rw [OpenJPEGImage.virtualLevels_loadImageInfo rfl rfl rfl]
    decide
  exact congrArg Except.ok hlevels

/-! ## 3. A file that changes -/

/-- Two objects with the same metadata. -/
structure SameMetadata (a b : IIPImage) : Prop where
  imageWidths : a.imageWidths = b.imageWidths
  imageHeights : a.imageHeights = b.imageHeights
  numResolutions : a.numResolutions = b.numResolutions
  channels : a.channels = b.channels
  bpc : a.bpc = b.bpc
  min : a.min = b.min
  max : a.max = b.max

/-- An image has the metadata of a file, and no histogram but that file's. -/
def Own (im im₀ : IIPImage) (histogram : List Nat) : Prop :=
  SameMetadata im im₀ ∧ (im.histogram = [] ∨ im.histogram = histogram)

/-- An entry that is not recognized as old, and happens to have what the new file has. -/
def Undated (e im₀ : IIPImage) (histogram : List Nat) : Prop :=
  e.timestamp ≤ 0 ∧ e.bpc ≠ 0 ∧ TPTImage.Tiled e ∧ Own e im₀ histogram

/-- An entry that has been read, and is not read again. -/
theorem base_openedTiff {f : TiffFile} {mtime : Int} {e : IIPImage} (hbpc : e.bpc ≠ 0)
    (hdate : e.timestamp ≤ 0) :
    (openedTiff f mtime e.timestamp e).base = { e with timestamp := mtime, isSet := true } := by
  rw [openedTiff, refresh, if_neg (fun hnew => absurd hnew.1 (not_lt.mpr hdate)),
    TPTImage.start_of_bpc hbpc]
  rfl

/-- A hit on an entry that is older than the file. -/
theorem own_hit_iff {f : TiffFile} {mtime : Int} {s : ImageSource} {e : IIPImage}
    {histogram : List Nat} (hentry : Entry path e) (hformat : e.format = .tif)
    (hfile : disk.fileOf e = some ⟨mtime, .tiff f⟩) (hnewer : e.timestamp < mtime) :
    (∃ image, openFrom disk openjpeg e e.timestamp = .ok image ∧
      Own image.base (TPTImage.start f mtime (s.object path)).toIIPImage histogram) ↔
    Undated e (TPTImage.start f mtime (s.object path)).toIIPImage histogram := by
  constructor
  · rintro ⟨image, hopen, hown, hhist⟩
    rcases openFrom_eq_ok.mp hopen with ⟨mtime', f', -, hread, htiled, rfl⟩ | ⟨_, _, hjp2, -⟩
    · rw [hfile] at hread
      cases hread
      by_cases hagain : e.bpc = 0 ∨ (0 < e.timestamp ∧ e.timestamp < mtime)
      · obtain ⟨rest, happend⟩ := tiffWidths_append f hagain
        have hwidths := hown.imageWidths.trans (tiffWidths_start f mtime s path)
        exact absurd (happend.symm.trans hwidths) (append_ne_self hentry.imageWidths)
      · have hbpc : e.bpc ≠ 0 := fun h0 => hagain (.inl h0)
        have hdate : e.timestamp ≤ 0 := not_lt.mp fun hpos => hagain (.inr ⟨hpos, hnewer⟩)
        rw [base_openedTiff hbpc hdate] at hown hhist
        rw [TPTImage.start_of_bpc hbpc] at htiled
        exact ⟨hdate, hbpc, htiled, ⟨hown.imageWidths, hown.imageHeights, hown.numResolutions,
          hown.channels, hown.bpc, hown.min, hown.max⟩, hhist⟩
    · rw [hformat] at hjp2
      cases hjp2
  · rintro ⟨hdate, hbpc, htiled, hown, hhist⟩
    refine ⟨openedTiff f mtime e.timestamp e, openFrom_eq_ok.mpr (.inl ⟨mtime, f, hformat, hfile,
      ?_, rfl⟩), ?_⟩
    · rw [TPTImage.start_of_bpc hbpc]
      exact htiled
    · rw [base_openedTiff hbpc hdate]
      exact ⟨⟨hown.imageWidths, hown.imageHeights, hown.numResolutions, hown.channels, hown.bpc,
        hown.min, hown.max⟩, hhist⟩

/-- **A changed file is served with its own metadata** exactly if the path is not in the image
cache, or the cached object's timestamp is not positive, so that nothing is read again, and it
has the metadata of the new file already.  The history is any: before it the server has opened
no image, and at its end a TIFF lies under the path that is newer than the cached one. -/
theorem changed_same_iff {events : List Event} {s : ImageSource} {im₀ : TPTImage}
    (hs : (after openjpeg first histogramOf ⟨disk, []⟩ events).disk path = some s)
    (hfresh : (run (after openjpeg first histogramOf ⟨disk, []⟩ events).disk openjpeg first path
      []).1 = .ok (.tpt im₀))
    (hold : ∀ e, (after openjpeg first histogramOf ⟨disk, []⟩ events).cache.find path = some e →
      e.format = .tif ∧ e.isFile = s.isFile ∧ e.timestamp < im₀.timestamp) :
    (∃ image, (run (after openjpeg first histogramOf ⟨disk, []⟩ events).disk openjpeg first path
        (after openjpeg first histogramOf ⟨disk, []⟩ events).cache).1 = .ok image ∧
      Own image.base im₀.toIIPImage (histogramOf s)) ↔
    ((after openjpeg first histogramOf ⟨disk, []⟩ events).cache.find path = none ∨
      ∃ e, (after openjpeg first histogramOf ⟨disk, []⟩ events).cache.find path = some e ∧
        Undated e im₀.toIIPImage (histogramOf s)) := by
  obtain ⟨s', hs', hopen⟩ := (run_miss rfl).mp hfresh
  rw [hs] at hs'
  cases hs'
  obtain ⟨content, hopens⟩ := (openFrom_object hs).mp hopen
  cases hopens with
  | @tiff mtime f hs_format hs_file htiled =>
  cases hfind : (after openjpeg first histogramOf ⟨disk, []⟩ events).cache.find path with
  | none =>
    refine iff_of_true ⟨_, (run_miss hfind).mpr ⟨s, hs, hopen⟩, ?_, .inl rfl⟩ (.inl rfl)
    exact ⟨rfl, rfl, rfl, rfl, rfl, rfl, rfl⟩
  | some e =>
    obtain ⟨hformat, hisFile, hnewer⟩ := hold e hfind
    have hentry := after_entry (ImageCache.mem_of_find hfind)
    have hfile := (fileOf_eq hs hentry.toReady hisFile).trans hs_file
    rw [run_hit hfind, own_hit_iff hentry hformat hfile hnewer]
    constructor
    · exact fun h => .inr ⟨e, rfl, h⟩
    · rintro (hnone | ⟨e', he', h⟩)
      · cases hnone
      · cases he'
        exact h

/-- A TIFF of four pixels is replaced by a newer one, after some events. -/
def replaced (mtime : Int) (width : Nat) (events : List Event) : State :=
  after false (fun _ => 0) (fun _ => [])
    ⟨oneImage (singleFile .tif mtime (.tiff (greyTiff 4))), []⟩
    (events ++ [.replace [] (some (singleFile .tif 2 (.tiff (greyTiff width))))])

/-- The server has opened a file with the timestamp 0 and then finds a newer one of the same
size. -/
theorem changed_same_iff_undated :
    ∃ e im₀ image, (replaced 0 4 [.fif []]).cache.find [] = some e ∧
      (run (replaced 0 4 [.fif []]).disk false (fun _ => 0) [] []).1 = .ok (.tpt im₀) ∧
      e.timestamp < im₀.timestamp ∧
      (run (replaced 0 4 [.fif []]).disk false (fun _ => 0) []
        (replaced 0 4 [.fif []]).cache).1 = .ok image ∧
      Own image.base im₀.toIIPImage [] := by
  have hs : (replaced 0 4 [.fif []]).disk [] = some (singleFile .tif 2 (.tiff (greyTiff 4))) := rfl
  have hold : ∀ e, (replaced 0 4 [.fif []]).cache.find [] = some e →
      e.format = .tif ∧ e.isFile = true ∧ e.timestamp < 2 := by
    rintro e ⟨⟩
    exact ⟨rfl, rfl, by decide⟩
  obtain ⟨image, hrun, hown⟩ := (changed_same_iff hs rfl hold).mpr (.inr ⟨_, rfl, le_refl 0,
    Nat.succ_ne_zero 7, fun h => Nat.succ_ne_zero 3 h.1,
    ⟨rfl, rfl, rfl, rfl, rfl, rfl, rfl⟩, .inl rfl⟩)
  exact ⟨_, _, image, rfl, rfl, by decide, hrun, hown⟩

/-- **The server has opened the old file.**  Its width is still there. -/
theorem changed_keeps_old_levels :
    ((run (replaced 1 8 [.fif []]).disk false (fun _ => 0) [] []).1.map
        fun image => image.base.imageWidths) = .ok [8] ∧
      ((run (replaced 1 8 [.fif []]).disk false (fun _ => 0) []
          (replaced 1 8 [.fif []]).cache).1.map
        fun image => image.base.imageWidths) = .ok [4, 8] :=
  ⟨rfl, rfl⟩

end FIF

end Iipsrv
