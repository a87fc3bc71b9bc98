/-
# DeepZoomExt requests

How `DeepZoomExt::run` (`DeepZoomExt.cc`) reads its argument.  There are two kinds of request, for
several images at once:

* `a,b,c.dzi`: the header with the sizes of the images;
* `a,b,c_files/r/x_y.jpg`: a tile of each image, at level `r`, column `x` and row `y`.

Either may end with `/greyscale`.  The positions of the last `.` and of `_files/`, and the length
that the header's path is cut to, are those of the WHOLE argument; what is cut is the argument
without `/greyscale`.
-/
import Iipsrv.Lib.Str
import Iipsrv.Image.Model

namespace Iipsrv.DeepZoomExt

open Lib.Print (Text)
open Lib.Str

/-! ## 1. The words of a request -/

/-- `/greyscale` -/
def greyscaleOption : Text := ['/', 'g', 'r', 'e', 'y', 's', 'c', 'a', 'l', 'e']

/-- `_files/` -/
def filesMarker : Text := ['_', 'f', 'i', 'l', 'e', 's', '/']

/-- `dzi` -/
def dzi : Text := ['d', 'z', 'i']

/-- `jpg` -/
def jpg : Text := ['j', 'p', 'g']

/-- `png` -/
def png : Text := ['p', 'n', 'g']

/-- `zip` -/
def zip : Text := ['z', 'i', 'p']

/-! ## 2. The argument -/

/-- What is set for all images.  Without one of the formats the output format is left alone. -/
structure Settings where
  greyscale : Bool
  outputFormat : Option CompressionType
  zip : Bool
  deriving DecidableEq

/-- What `run` has read when it comes to the images. -/
structure Parsed where
  settings : Settings
  strippedArgument : Text
  suffix : Text
  paths : List Text
  deriving DecidableEq

/-- `substr`, with the exception it throws. -/
def cut (s : Text) (pos : Nat) : Except Thrown Text :=
  match substr s pos with
  | none => .error .outOfRange
  | some rest => .ok rest

/-- Set correct compressor: the output format, and whether the tiles are sent as a zip. -/
def compressor (format : Text) : Option CompressionType × Bool :=
  if jpg <+: format then (some .jpeg, false)
  else if png <+: format then (some .png, false)
  else if zip <+: format then (some .png, true)
  else (none, false)

/-- `DeepZoomExt::run`, up to the images. -/
def parse (argument : Text) : Except Thrown Parsed := do
  let greyscalePos := find greyscaleOption argument
  let strippedArgument := upTo argument greyscalePos
  let suffix ← cut strippedArgument (next (rfind ['.'] argument))
  let pathText :=
    if suffix = dzi then
      -- the length is unsigned: less than 4 is beyond every end
      if argument.length < 4 then strippedArgument
      else strippedArgument.take (argument.length - 4)
    else upTo strippedArgument (rfind filesMarker argument)
  let format ← cut suffix (next (rfind ['.'] suffix))
  let (outputFormat, isZip) := compressor format
  .ok ⟨⟨greyscalePos.isSome, outputFormat, isZip⟩, strippedArgument, suffix, split ',' [] pathText⟩

/-! ## 3. The images -/

/-- The tile coordinates of `sendExistingFileResponse`, and the suffix it leaves behind.  A text
without `/` has `n1 = -1`; a point that does not stand behind it ends nothing. -/
def coordinates (argument : Text) : Except Thrown ((Int32 × Int32 × Int32) × Text) := do
  let n1 := rfind ['/'] argument
  let n2 := next (rfind ['/'] (upTo argument n1))
  let level ← cut (upTo argument n1) n2
  let last ← cut argument (next n1)
  let suffix :=
    match rfind ['.'] argument with
    | none => last
    | some dot => if dot < next n1 then last else last.take (dot - next n1)
  let n := find ['_'] suffix
  let row ← cut suffix (next n)
  .ok ((atoi level, atoi (upTo suffix n), atoi row), suffix)

/-- What is done for one image. -/
inductive Part
  | header (present : Bool)
  | tile (resolution x y : Int32)
  | missing
  deriving DecidableEq

/-- The loop over the images.  The suffix is shared by them, and rewritten by each tile. -/
def parts (pathExists : Text → Bool) (argument : Text) :
    Text → List Text → Except Thrown (List (Text × Part))
  | _, [] => .ok []
  | suffix, path :: paths =>
    if suffix = dzi then do
      let rest ← parts pathExists argument suffix paths
      .ok ((path, .header (pathExists path)) :: rest)
    else if pathExists path then do
      let ((resolution, x, y), suffix) ← coordinates argument
      let rest ← parts pathExists argument suffix paths
      .ok ((path, .tile resolution x y) :: rest)
    else do
      let rest ← parts pathExists argument suffix paths
      .ok ((path, .missing) :: rest)

/-- What a request asks for. -/
def interpret (pathExists : Text → Bool) (argument : Text) :
    Except Thrown (Settings × List (Text × Part)) := do
  let parsed ← parse argument
  let images ← parts pathExists parsed.strippedArgument parsed.suffix parsed.paths
  .ok (parsed.settings, images)

/-- `DeepZoomExt::run`: a request for nothing but missing images is refused. -/
def run (pathExists : Text → Bool) (argument : Text) :
    Except Thrown (Settings × List (Text × Part)) := do
  let parsed ← parse argument
  if parsed.paths.all fun path => !pathExists path then
    .error (.fileError "All tile sources are missing!")
  else interpret pathExists argument

end Iipsrv.DeepZoomExt
