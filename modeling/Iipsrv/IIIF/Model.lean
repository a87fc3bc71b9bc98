/-
# IIIF image requests

`IIIF::run` (`IIIF.cc`) for an image request, from the four parameters on: region, size,
rotation and quality set up the view, then the request is passed on to `JTL` for a single tile
or to `CVT` for a region.

The parameters are taken as the parser reads them: the numbers of a region, the form of a size
with its numbers (`none` where `>>` fails), the angle.  The splitting of the URL, the count of
the parameters and `info.json` are not part of this model.
-/
import Iipsrv.CVT
import Iipsrv.TileManager.Region

namespace Iipsrv.IIIF

open Lib.Rounding Lib.Word

/-! ## 1. The parameters -/

/-- The region: `full`, `square`, or the numbers of `x,y,w,h` or `pct:x,y,w,h`. -/
inductive RegionParam
  | full
  | square
  | values (text : String) (pct : Bool) (numbers : List ℚ)

/-- A size in pixels: `,h`, `w,`, `w,h`, or no comma at all. -/
inductive SizeBox
  | noComma
  | height (h : Option Int32)
  | width (w : Option Int32)
  | both (w h : Option Int32)

/-- The size: `full` or `max`, `pct:n`, or pixels, with or without `!`. -/
inductive SizeParam
  | full
  | pct (scale : Option ℚ)
  | box (bang : Bool) (size : SizeBox)

/-- `jpg`, `png`, or a format that is not supported. -/
inductive Format
  | jpg | png | other

/-- `native`, `color` or `default`; `grey` or `gray`; `bitonal`; anything else. -/
inductive Quality
  | native | grey | bitonal | other

/-- The parameters of an image request.  `caret` is the `^` in front of the size. -/
structure Params where
  region : RegionParam
  caret : Bool
  size : SizeParam
  mirror : Bool
  angle : Option ℚ
  format : Option Format
  quality : Quality

/-! ## 2. The region -/

/-- The region parameter sets the viewport of the view, for an image of this size. -/
def setRegion (width height : Nat) (v : View) : RegionParam → Except Failure View
  | .full => .ok v
  -- Square region export using centered crop
  | .square =>
    if width < height then
      let h : ℚ := width / height
      .ok ((v.setViewTop ((1 - h) / 2)).setViewHeight h)
    else if height < width then
      let w : ℚ := height / width
      .ok ((v.setViewLeft ((1 - w) / 2)).setViewWidth w)
    else .ok v
  | .values text pct numbers =>
    let x := numbers.getD 0 0
    let y := numbers.getD 1 0
    let w := numbers.getD 2 1
    let h := numbers.getD 3 1
    -- our view expects a ratio, not pixel values
    let wd : ℚ := if pct then 100 else width
    let hd : ℚ := if pct then 100 else height
    if w ≤ 0 ∨ h ≤ 0 ∨ 4 < numbers.length ∨ numbers.length < 4 then
      .error (.thrown ("IIIF: incorrect region format: " ++ text))
    else .ok ((((v.setViewLeft (x / wd)).setViewTop (y / hd)).setViewWidth (w / wd)).setViewHeight
      (h / hd))

/-! ## 3. The size -/

/-- Before version 3 a `^` is not removed, so that neither `full`, `pct:` nor a width is
recognised. -/
def SizeParam.unread : SizeParam → SizeParam
  | .full => .box false .noComma
  | .pct _ => .box false .noComma
  | .box _ .noComma => .box false .noComma
  | .box _ _ => .box false (.both none none)

/-- The requested size for a region of `w` by `h` pixels, and whether the view has to maintain
the aspect ratio. -/
def askedSize (maintainAspect : Bool) (w h : Nat) : SizeParam → Except Failure (Bool × Int × Int)
  | .full => .ok (maintainAspect, w, h)
  | .pct none => .error (.thrown "invalid size")
  | .pct (some scale) =>
    .ok (maintainAspect, nearest (w * scale / 100), nearest (h * scale / 100))
  | .box _ .noComma => .error (.thrown "invalid size: no comma found")
  | .box _ (.height none) => .error (.thrown "invalid height")
  -- Maintain aspect ratio in this case
  | .box _ (.height (some n)) => .ok (true, nearest (n.toInt * ((w : ℚ) / h)), n.toInt)
  | .box _ (.width none) => .error (.thrown "invalid width")
  | .box _ (.width (some n)) => .ok (true, n.toInt, nearest (n.toInt / ((w : ℚ) / h)))
  | .box _ (.both none _) => .error (.thrown "invalid width")
  | .box _ (.both (some _) none) => .error (.thrown "invalid height")
  -- do not break aspect ratio if there is a !
  | .box bang (.both (some m) (some n)) => .ok (bang && maintainAspect, m.toInt, n.toInt)

/-- Limit our requested size to the maximum allowable size if necessary. -/
def limitSize (v : View) (ratio : ℚ) (w h : Int) : Int × Int :=
  if v.maxSize < w ∨ v.maxSize < h then
    if 1 < ratio then
      (v.maxSize,
        if v.maintainAspect then (nearest (toUnsigned v.maxSize * ratio) : Int) else v.maxSize)
    else
      (if v.maintainAspect then (nearest (toUnsigned v.maxSize / ratio) : Int) else v.maxSize,
        v.maxSize)
  else (w, h)

/-- The size parameter sets the requested size of the view, which is returned too. -/
def setSize (version : Int) (width height : Nat) (v : View) (caret : Bool) (size : SizeParam) :
    Except Failure (View × Int × Int) := do
  let size := if version < 3 ∧ caret then size.unread else size
  let v := if 3 ≤ version ∧ ¬ caret then { v with allowUpscaling := false } else v
  let (aspect, w, h) ← askedSize v.maintainAspect v.getViewWidth v.getViewHeight size
  let v := { v with maintainAspect := aspect }
  if w ≤ 0 ∨ h ≤ 0 then .error (.thrown "IIIF: invalid size")
  else if 3 ≤ version ∧ v.allowUpscaling = false ∧ (width < w ∨ height < h) then
    .error (.thrown "IIIF: upscaling should be prefixed with ^")
  else
    let (w, h) := limitSize v ((v.getViewWidth : ℚ) / v.getViewHeight) w h
    return ((v.setRequestWidth (toUnsigned w)).setRequestHeight (toUnsigned h), w, h)

/-! ## 4. Rotation, quality and format -/

/-- The rotation parameter; a `!180` request is simply a vertical flip. -/
def setRotation (v : View) (mirror : Bool) : Option ℚ → Except Failure View
  | none => .error (.thrown "IIIF: invalid rotation")
  | some rotation =>
    let v := if mirror then { v with flip := 1 } else v
    if ¬ (rotation = 0 ∨ rotation = 90 ∨ rotation = 180 ∨ rotation = 270 ∨ rotation = 360) then
      .error (.thrown
        "IIIF: currently implemented rotation angles are 0, 90, 180 and 270 degrees")
    else if rotation = 180 ∧ v.flip = 1 then .ok { v with flip := 2 }
    else .ok { v with rotation := rotation }

/-- The format, if there is one, then the quality. -/
def setQuality (v : View) (format : Option Format) (quality : Quality) : Except Failure View := do
  let v ← match format with
    | none => .ok v
    | some .jpg => .ok { v with outputFormat := .jpeg }
    | some .png => .ok { v with outputFormat := .png }
    | some .other => .error (.thrown "IIIF :: unsupported output format")
  match quality with
  | .native => return v
  | .grey => return { v with colourspace := .greyscale }
  | .bitonal => return { v with colourspace := .binary }
  | .other => throw (.thrown
      "unsupported quality parameter - must be one of native, color or grey")

/-! ## 5. The request -/

/-- The view that the parameters leave, and the requested size. -/
def parse (im : ImageInfo) (version : Int) (v : View) (p : Params) :
    Except Failure (View × Int × Int) :=
  match im.imageWidths[0]?, im.imageHeights[0]? with
  | some width, some height => do
    let v ← setRegion width height (v.setup im width height) p.region
    let (v, requestedWidth, requestedHeight) ← setSize version width height v p.caret p.size
    let v ← setRotation v p.mirror p.angle
    let v ← setQuality v p.format p.quality
    return (v, requestedWidth, requestedHeight)
  | _, _ => .error (.fault .levelSubscript)

/-- Where the request is passed on to: a tile of a level to `JTL`, anything else to `CVT`. -/
inductive Target
  | tile (resolution tile : Nat)
  | region
  deriving DecidableEq

/-- Whether this is a tile request which coincides with our tile boundaries. -/
def coincides (im : ImageInfo) (v : View) (requestedWidth requestedHeight : Int)
    (imWidth imHeight viewLeft viewTop : Nat) : Bool :=
  decide
    ((v.maintainAspect ∧ 0 < v.resolution ∧
        requestedWidth = im.tileWidth ∧ requestedHeight = im.tileHeight ∧
        viewLeft % im.tileWidth = 0 ∧ viewTop % im.tileHeight = 0 ∧
        v.getViewWidth % im.tileWidth = 0 ∧ v.getViewHeight % im.tileHeight = 0 ∧
        v.getViewWidth < imWidth ∧ v.getViewHeight < imHeight) ∨
      (v.maintainAspect ∧ v.resolution = 0 ∧
        toUnsigned requestedWidth = imWidth ∧ toUnsigned requestedHeight = imHeight))

/-- The end of `run`: get the most suitable resolution, and pass the request on. -/
def dispatch (im : ImageInfo) (v : View) (requestedWidth requestedHeight : Int) :
    Except Failure (View × Target) :=
  let v := v.getResolution
  match im.imageWidths[im.numResolutions - v.resolution - 1]?,
      im.imageHeights[im.numResolutions - v.resolution - 1]? with
  | some imWidth, some imHeight =>
    let viewLeft := if v.viewPortSet then v.getViewLeft else 0
    let viewTop := if v.viewPortSet then v.getViewTop else 0
    if coincides im v requestedWidth requestedHeight imWidth imHeight viewLeft viewTop then
      let ntlx := numTiles imWidth im.tileWidth
      let i := viewLeft / im.tileWidth
      let j := viewTop / im.tileHeight
      .ok (v, .tile v.resolution (u32 (j * ntlx + i)))
    else .ok (v, .region)
  | _, _ => .error (.fault .levelSubscript)

/-- `IIIF::run` for an image request. -/
def run (im : ImageInfo) (version : Int) (v : View) (p : Params) :
    Except Failure (View × Target) := do
  let (v, requestedWidth, requestedHeight) ← parse im version v p
  dispatch im v requestedWidth requestedHeight

end Iipsrv.IIIF
