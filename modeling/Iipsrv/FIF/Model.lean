/-
# Opening an image

`FIF::run` (`FIF.cc`), from the decoded path to the open image.  The server keeps an `IIPImage`
for every path it has opened: a HIT copies that object instead of testing the file again, a MISS
builds a new one.  Either way an object of the class of its format is made from it and opened,
its metadata are read again if the file is newer than the cached object, and the `IIPImage` part
of the object goes back into the cache.

The image cache lives as long as the server, so what a request finds depends on all requests
before it and on what has happened to the files: `Event` and `step` below.

What lies on disk under a path is a parameter, `Disk`, and so is whether the server has been
built with OpenJPEG.  The conversion of the request string to a path, the reply's headers and the
log are left out, and so are the file names in the texts of the file errors, which begin with the
prefix of the environment.
-/
import Iipsrv.Image.Model

namespace Iipsrv

open Lib.Print (Text)

/-! ## 1. What is on disk -/

/-- What lies under an image path: a single file, or a sequence of views.  `file` is the file
that `getFileName` names for a view; for a single file it is always the same. -/
structure ImageSource where
  isFile : Bool
  format : ImageFormat
  horizontalViews : List Int
  verticalViews : List Int
  file : Int → Int → Option FileData

abbrev Disk := Text → Option ImageSource

/-- The file of the view an object is at. -/
def Disk.fileOf (disk : Disk) (im : IIPImage) : Option FileData :=
  match disk im.imagePath with
  | none => none
  | some s => if s.isFile = im.isFile then s.file im.currentX im.currentY else none

/-- A new object after `IIPImage::Initialise`: what kind of image it is, and its views.  It also
has a timestamp, which `openImage` sets again. -/
def ImageSource.object (s : ImageSource) (path : Text) : IIPImage :=
  { IIPImage.new path with
    isFile := s.isFile
    format := s.format
    horizontalAnglesList := s.horizontalViews
    verticalAnglesList := s.verticalViews }

def initialise (disk : Disk) (path : Text) : Except Thrown IIPImage :=
  match disk path with
  | none => .error (.fileError "neither a file nor part of an image sequence")
  | some s => .ok (s.object path)

/-! ## 2. Objects of the image classes -/

/-- `*session->image`. -/
inductive Opened
  | tpt (im : TPTImage)
  | openJPEG (im : IIPImage)

namespace Opened

/-- The `IIPImage` part. -/
def base : Opened → IIPImage
  | tpt im => im.toIIPImage
  | openJPEG im => im

/-- `openImage`. -/
def openImage (file : Option FileData) : Opened → Except Thrown Opened
  | tpt im => (im.openImage file).map .tpt
  | openJPEG im => (OpenJPEGImage.openImage file im).map .openJPEG

/-- `loadImageInfo` at the current view, of an object that has been opened on this file. -/
def loadImageInfo (file : Option FileData) : Opened → Opened
  | tpt im =>
    match file.map FileData.content with
    | some (.tiff f) => tpt (im.loadImageInfo f im.currentX im.currentY)
    | _ => tpt im
  | openJPEG im =>
    match file.map FileData.content with
    | some (.jp2 f) => openJPEG (OpenJPEGImage.loadImageInfo f im)
    | _ => openJPEG im

end Opened

namespace FIF

/-- The exception of a format that no class is for.  The argument of `FIF::run` is the path of the
object. -/
def unsupported (test : IIPImage) : Thrown :=
  .string ("Unsupported image type: " ++ String.ofList test.imagePath)

/-- An object of the class for the format.  Without OpenJPEG only TIFF is native. -/
def create (openjpeg : Bool) (test : IIPImage) : Except Thrown Opened :=
  match test.format with
  | .tif => .ok (.tpt (.ofIIPImage test))
  | .jpeg2000 =>
    if openjpeg then .ok (.openJPEG (OpenJPEGImage.ofIIPImage test))
    else .error (unsupported test)
  | .unsupported => .error (unsupported test)

/-- Check timestamp consistency.  If cached timestamp is older, update metadata. -/
def refresh (file : Option FileData) (timestamp : Int) (image : Opened) : Opened :=
  if 0 < timestamp ∧ timestamp < image.base.timestamp then image.loadImageInfo file else image

/-- From the object that has been found or built to the open image. -/
def openFrom (disk : Disk) (openjpeg : Bool) (test : IIPImage) (timestamp : Int) :
    Except Thrown Opened := do
  let image ← create openjpeg test
  let image ← image.openImage (disk.fileOf test)
  return refresh (disk.fileOf test) timestamp image

/-! ## 3. The image cache -/

/-- `imageCacheMapType`. -/
abbrev ImageCache := List (Text × IIPImage)

/-- `MAXIMAGECACHE`. -/
def maxImageCache : Nat := 1000

namespace ImageCache

def find (c : ImageCache) (path : Text) : Option IIPImage := c.lookup path

/-- `(*session->imageCache)[path] = image`. -/
def assign (c : ImageCache) (path : Text) (image : IIPImage) : ImageCache :=
  (path, image) :: c.filter (fun e => e.1 ≠ path)

/-- Delete an item if our list of images is too long.  Which one the hash table has at `begin()`
is left open: `first` names it. -/
def evict (first : ImageCache → Nat) (c : ImageCache) : ImageCache :=
  if maxImageCache ≤ c.length then c.eraseIdx (first c) else c

/-- Insert the histogram into our image cache. -/
def setHistogram (c : ImageCache) (path : Text) (histogram : List Nat) : ImageCache :=
  c.map fun e => if e.1 = path ∧ e.2.histogram = [] then (e.1, { e.2 with histogram }) else e

end ImageCache

/-- The end of `run`: an image that could be opened goes into the cache. -/
def finish (c : ImageCache) (argument : Text) (image : Except Thrown Opened) :
    Except Thrown Opened × ImageCache :=
  match image with
  | .error e => (.error e, c)
  | .ok im => (.ok im, c.assign argument im.base)

/-- `FIF::run`. -/
def run (disk : Disk) (openjpeg : Bool) (first : ImageCache → Nat) (argument : Text)
    (c : ImageCache) : Except Thrown Opened × ImageCache :=
  match c.find argument with
  | some im => finish c argument (openFrom disk openjpeg im im.timestamp)
  | none =>
    match initialise disk argument with
    | .error e => (.error e, c)
    | .ok im => finish (c.evict first) argument (openFrom disk openjpeg im 0)

/-! ## 4. Histories -/

/-- What happens to the image cache and to the files: a `FIF` request, the histogram that `JTL`
and `CVT` compute from an image's smallest tile, and a change of what lies under a path. -/
inductive Event
  | fif (argument : Text)
  | histogram (path : Text)
  | replace (path : Text) (source : Option ImageSource)

/-- The files and the server's image cache. -/
structure State where
  disk : Disk
  cache : ImageCache

section

variable (openjpeg : Bool) (first : ImageCache → Nat) (histogramOf : ImageSource → List Nat)

/-- One event.  `histogramOf` is the histogram of what lies under a path. -/
def step (σ : State) : Event → State
  | .fif argument => { σ with cache := (run σ.disk openjpeg first argument σ.cache).2 }
  | .histogram path =>
    match σ.disk path with
    | none => σ
    | some s => { σ with cache := σ.cache.setHistogram path (histogramOf s) }
  | .replace path source => { σ with disk := fun p => if p = path then source else σ.disk p }

/-- A history. -/
def after (σ : State) (events : List Event) : State :=
  events.foldl (step openjpeg first histogramOf) σ

end

end FIF

end Iipsrv
