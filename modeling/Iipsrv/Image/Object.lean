/-
# The object behind a tile

A request opens one object and asks it for tiles.  For a TIFF this leaves its marks:
`TPTImage::getTile` loads the object again for a tile of another view, reads the offsets if there
are none, leaves the file at the directory of the level, and OVERWRITES the colour space, of a
palette the number of channels as well.  The command handlers read these attributes in front of a
call and behind it, and do not always mean the same object.

`Opened.behind` is the object behind `getTile`; `Image/Reload.lean` has the first half of it,
`Image/Colours.lean` the second.  An object of JPEG2000 stays as it is.  A tile that cannot be
decoded ends the request, so nothing depends on the object then.  `Opened.Overruns` says when the
call uses a level outside the vectors of the object.

Of what a request is known by nothing changes (`Opened.kept_behind`): the path, the timestamp, the
views and the histogram.
-/
import Iipsrv.FIF.Model
import Iipsrv.Image.Colours
import Iipsrv.Image.Reload

namespace Iipsrv

/-! ## 1. `getTile`, as a change of the object -/

/-- The files that `getTile` opens for the views of an image. -/
def Disk.views (disk : Disk) (im : IIPImage) : Sequence := fun seq ang =>
  match disk im.imagePath with
  | none => none
  | some s =>
    if s.isFile = im.isFile then
      match (s.file seq ang).map FileData.content with
      | some (.tiff f) => some f.pages
      | _ => none
    else none

/-- The object with its open file, which is that of its view. -/
def TPTImage.reader (files : Sequence) (im : TPTImage) : TPTReader :=
  ⟨im, (files im.currentX im.currentY).map fun file => ⟨file, im.position⟩⟩

/-- What `TPTImage::getTile` leaves: behind the choice of the directory, its colour space is
handled. -/
def TPTImage.behind (files : Sequence) (seq ang : Int) (res : Nat) (im : TPTImage) : TPTImage :=
  let r := (im.reader files).getTile files seq ang res
  match r.tiff with
  | none => r.image
  | some t => { r.image.handleColourSpaces t.directory.photometric with position := t.position }

/-- What `getTile` of the image class leaves. -/
def Opened.behind (disk : Disk) (seq ang : Int) (res : Nat) : Opened → Opened
  | tpt im => tpt (im.behind (disk.views im.toIIPImage) seq ang res)
  | openJPEG im => openJPEG im

/-! ## 2. Subscripts -/

/-- The subscript of `subIfdOffsets` lies outside.  The level has been tested in FRONT of the load,
and is used behind it. -/
def TPTImage.Overruns (files : Sequence) (seq ang : Int) (res : Nat) (im : TPTImage) : Prop :=
  let r := (im.reader files).getTile files seq ang res
  let vipsres := (r.image.numResolutions : Int) - 1 - res
  res ≤ im.numResolutions ∧ r.tiff.isSome ∧ r.image.subIfdOffsets ≠ [] ∧ vipsres ≠ 0 ∧
    ¬ (0 ≤ vipsres - 1 ∧ vipsres - 1 < r.image.subIfdOffsets.length)

instance (files : Sequence) (seq ang : Int) (res : Nat) (im : TPTImage) :
    Decidable (im.Overruns files seq ang res) :=
  inferInstanceAs (Decidable (_ ∧ _ ∧ _ ∧ _ ∧ _))

/-- The subscript of the level sizes lies outside, which the classes for JPEG2000 use without
another test. -/
def OpenJPEGImage.Overruns (res : Nat) (im : IIPImage) : Prop :=
  let vipsres := (im.numResolutions : Int) - 1 - res
  res ≤ im.numResolutions ∧
    ¬ (0 ≤ vipsres ∧ vipsres < im.imageWidths.length ∧ vipsres < im.imageHeights.length)

instance (res : Nat) (im : IIPImage) : Decidable (OpenJPEGImage.Overruns res im) :=
  inferInstanceAs (Decidable (_ ∧ _))

/-- `getTile` of the image class uses a level outside a vector. -/
def Opened.Overruns (disk : Disk) (seq ang : Int) (res : Nat) : Opened → Prop
  | tpt im => im.Overruns (disk.views im.toIIPImage) seq ang res
  | openJPEG im => OpenJPEGImage.Overruns res im

instance (disk : Disk) (seq ang : Int) (res : Nat) (im : Opened) :
    Decidable (im.Overruns disk seq ang res) :=
  match im with
  | .tpt _ => inferInstanceAs (Decidable (TPTImage.Overruns _ _ _ _ _))
  | .openJPEG _ => inferInstanceAs (Decidable (OpenJPEGImage.Overruns _ _))

/-! ## 3. What is kept -/

/-- What a request is known by. -/
structure IIPImage.Kept (im im' : IIPImage) : Prop where
  imagePath : im'.imagePath = im.imagePath
  timestamp : im'.timestamp = im.timestamp
  horizontalAnglesList : im'.horizontalAnglesList = im.horizontalAnglesList
  histogram : im'.histogram = im.histogram

theorem IIPImage.Kept.refl (im : IIPImage) : im.Kept im := ⟨rfl, rfl, rfl, rfl⟩

theorem TPTReader.kept_locate (res : Nat) (t : OpenTiff) (im : TPTImage) :
    im.toIIPImage.Kept (locate res t im).image.toIIPImage := by
  rw [image_locate]
  exact ⟨rfl, rfl, rfl, rfl⟩

theorem TPTReader.kept_getTile (files : Sequence) (seq ang : Int) (res : Nat) (r : TPTReader) :
    r.image.toIIPImage.Kept (r.getTile files seq ang res).image.toIIPImage := by
  unfold TPTReader.getTile
  split
  case isTrue => exact .refl _
  case isFalse =>
    split
    case isTrue =>
      split
      case h_1 => exact .refl _
      case h_2 t _ =>
        have h := kept_locate res t.reset (r.image.loadImageInfo t.seen seq ang)
        exact ⟨h.imagePath, h.timestamp, h.horizontalAnglesList, h.histogram⟩
    case isFalse =>
      split
      case h_1 => exact .refl _
      case h_2 t _ => exact kept_locate res t r.image

theorem TPTImage.kept_handleColourSpaces (im : TPTImage) (p : Photometric) :
    im.toIIPImage.Kept (im.handleColourSpaces p).toIIPImage := by
  cases p <;> exact ⟨rfl, rfl, rfl, rfl⟩

theorem TPTImage.kept_behind (files : Sequence) (seq ang : Int) (res : Nat) (im : TPTImage) :
    im.toIIPImage.Kept (im.behind files seq ang res).toIIPImage := by
  have hread := TPTReader.kept_getTile files seq ang res (im.reader files)
  unfold TPTImage.behind
  dsimp only
  split
  case h_1 => exact hread
  case h_2 t _ =>
    have hcolour := kept_handleColourSpaces ((im.reader files).getTile files seq ang res).image
      t.directory.photometric
    exact ⟨hcolour.imagePath.trans hread.imagePath, hcolour.timestamp.trans hread.timestamp,
      hcolour.horizontalAnglesList.trans hread.horizontalAnglesList,
      hcolour.histogram.trans hread.histogram⟩

/-- **What a request is known by is kept.** -/
theorem Opened.kept_behind (disk : Disk) (seq ang : Int) (res : Nat) (im : Opened) :
    im.base.Kept (im.behind disk seq ang res).base := by
  cases im with
  | tpt im => exact TPTImage.kept_behind _ seq ang res im
  | openJPEG im => exact .refl im

end Iipsrv
