/-
# The view

`View` (`View.h`, `View.cc`): what a request wants to see of an image.  The commands fill it in;
`CVT`, `JTL` and `IIIF` ask it for the resolution level to read from and for the viewport in
pixels of that level.

The `float`s are exact rationals.  `(unsigned int) floor( x )` and `round( x )` are applied to
numbers that are not negative only.  `min_size` is 1 from the constructor on and has no setter.

`requested_width / view_width` has a zero divisor if `view_width` is 0, which `setViewWidth`
makes it if the viewport begins at the right border; the conversion of the infinite quotient is
then undefined, and the model takes 0.
-/
import Iipsrv.RawTile
import Iipsrv.Lib.Rounding
import Iipsrv.Lib.Word

namespace Iipsrv

open Lib.Rounding Lib.Word

/-! ## 1. Viewports -/

/-- A position or an extent as a part of the image: between 0 and 1. -/
structure Ratio where
  val : ℚ
  nonneg : 0 ≤ val
  le_one : val ≤ 1

namespace Ratio

instance : Coe Ratio ℚ := ⟨Ratio.val⟩

/-- The limits that all four setters impose. -/
def clamp (x : ℚ) : Ratio :=
  if h1 : 1 < x then ⟨1, by norm_num, le_refl 1⟩
  else if h0 : x < 0 then ⟨0, le_refl 0, by norm_num⟩
  else ⟨x, not_lt.mp h0, not_lt.mp h1⟩

end Ratio

/-- What a request wants to see.  `shade`, `cmap` and `embed_icc` are not read here. -/
structure View where
  viewLeft : Ratio
  viewTop : Ratio
  viewWidth : Ratio
  viewHeight : Ratio
  resolution : Nat
  maxResolutions : Nat
  width : Nat
  height : Nat
  resWidth : Nat
  resHeight : Nat
  maxSize : Int
  requestedWidth : Nat
  requestedHeight : Nat
  rotation : ℚ
  xangle : Int32
  yangle : Int32
  shaded : Bool
  cmapped : Bool
  inverted : Bool
  maxLayers : Int32
  layers : Int32
  colourspace : ColourSpaces
  ctw : List (List ℚ)
  flip : Nat
  maintainAspect : Bool
  allowUpscaling : Bool
  outputFormat : CompressionType
  contrast : ℚ
  gamma : ℚ
  equalization : Bool

namespace View

/-- Minimum viewport dimension. -/
def minSize : Nat := 1

/-- The constructor. -/
def new : View where
  viewLeft := .clamp 0
  viewTop := .clamp 0
  viewWidth := .clamp 1
  viewHeight := .clamp 1
  resolution := 0
  maxResolutions := 0
  width := 0
  height := 0
  resWidth := 0
  resHeight := 0
  maxSize := 0
  requestedWidth := 0
  requestedHeight := 0
  rotation := 0
  xangle := 0
  yangle := 90
  shaded := false
  cmapped := false
  inverted := false
  maxLayers := 0
  layers := 0
  colourspace := .none
  ctw := []
  flip := 0
  maintainAspect := true
  allowUpscaling := true
  outputFormat := .jpeg
  contrast := 1
  gamma := 1
  equalization := false

def setMaxResolutions (v : View) (r : Nat) : View :=
  { v with maxResolutions := r, resolution := r - 1 }

def setImageSize (v : View) (w h : Nat) : View := { v with width := w, height := h }

def setRequestWidth (v : View) (w : Nat) : View := { v with requestedWidth := w }

def setRequestHeight (v : View) (h : Nat) : View := { v with requestedHeight := h }

def setViewLeft (v : View) (x : ℚ) : View := { v with viewLeft := .clamp x }

def setViewTop (v : View) (y : ℚ) : View := { v with viewTop := .clamp y }

/-- Crop region widths > 100% of image size. -/
def setViewWidth (v : View) (w : ℚ) : View :=
  { v with viewWidth := .clamp (if 1 < v.viewLeft + w then 1 - v.viewLeft else w) }

/-- The height is not cropped by the top: that line of the source is commented out. -/
def setViewHeight (v : View) (h : ℚ) : View := { v with viewHeight := .clamp h }

/-- Whether the viewport has been set. -/
def viewPortSet (v : View) : Bool :=
  decide (v.viewWidth.val < 1 ∨ v.viewHeight.val < 1 ∨ 0 < v.viewLeft.val ∨ 0 < v.viewTop.val)

/-- The number of layers to decode. -/
def getLayers (v : View) : Int32 :=
  if 0 < v.maxLayers then
    if 0 < v.layers ∧ v.layers < v.maxLayers then v.layers else v.maxLayers
  else if v.maxLayers < 0 ∧ v.layers = 0 then -1
  else v.layers

/-- Whether view requires floating point processing. -/
def floatProcessing (v : View) : Bool :=
  decide (v.contrast ≠ 1 ∨ v.gamma ≠ 1) || v.cmapped || v.shaded || v.inverted ||
    !v.ctw.isEmpty

/-- Whether we require a histogram. -/
def requireHistogram (v : View) : Bool :=
  v.equalization || decide (v.colourspace = .binary ∨ v.contrast = -1)

/-! ## 2. The resolution level -/

/-- The loop of `calculateResolution`, for at most `fuel` turns: halve `d`, and step down a level as
long as `d` is not below `rs`.  `none` if it is still running then. -/
def descendLoop (rs : Nat) : (fuel d : Nat) → Int → Option Int
  | 0, _, _ => none
  | fuel + 1, d, j => if d / 2 < rs then some j else descendLoop rs fuel (d / 2) (j - 1)

/-- `calculateResolution`.  The loop needs fewer turns than the dimension has pixels, and one. -/
def calculateResolution (v : View) (dimension requestedSize : Nat) : View :=
  let rs := if requestedSize < minSize then minSize else requestedSize
  let j := (descendLoop rs (dimension + 1) dimension (v.maxResolutions - 1)).getD 0
  -- Limit j to the maximum resolution
  let j := if j < 0 then 0 else j
  let j := if (v.maxResolutions : Int) - 1 < j then (v.maxResolutions : Int) - 1 else j
  -- the resolution has been reset to the smallest one
  { v with resolution := if 0 < j then j.toNat else 0 }

/-- The scaling if the requested size is in between available resolutions. -/
def getScale (v : View) : ℚ :=
  let rw := if v.requestedWidth = 0 ∧ 0 < v.requestedHeight then
      u32 (v.resWidth * v.requestedHeight) / v.resHeight
    else v.requestedWidth
  let rh := if v.requestedHeight = 0 ∧ 0 < v.requestedWidth then
      u32 (v.resHeight * v.requestedWidth) / v.resWidth
    else v.requestedHeight
  let scale : ℚ := rw / v.width
  let scale := if (rh : ℚ) / v.resHeight < scale then (rh : ℚ) / v.resHeight else scale
  if scale ≤ 0 ∨ 1 < scale then 1 else scale

/-- The loop at the end of `getResolution`, over the resolutions that are left: `dimension` is
halved until it does not exceed the maximum size.  The sizes are set to half of the full ones in
every turn. -/
def shrink : (resolution dimension : Nat) → View → View
  | 0, _, v => v
  | r + 1, dimension, v =>
    if v.maxSize < dimension then
      shrink r (dimension / 2)
        { v with resWidth := v.width / 2, resHeight := v.height / 2, resolution := r }
    else v

/-- Limit to a smaller resolution because of the maximum size. -/
def limitResolution (v : View) : View :=
  let w : ℚ := v.resWidth * v.viewWidth
  let h : ℚ := v.resHeight * v.viewHeight
  if 0 < v.maxSize ∧ (v.maxSize < w * v.getScale ∨ v.maxSize < h * v.getScale) then
    let dimension := if h / v.maxSize < w / v.maxSize then ⌊w * v.getScale⌋₊
      else ⌊h * v.getScale⌋₊
    shrink v.resolution dimension v
  else v

/-- The resolution for the requested width, then for the requested height. -/
def requestResolution (v : View) : View :=
  let v := if v.requestedWidth ≠ 0 then
      v.calculateResolution v.width ⌊(v.requestedWidth : ℚ) / v.viewWidth⌋₊
    else v
  if v.requestedHeight ≠ 0 then
    v.calculateResolution v.height ⌊(v.requestedHeight : ℚ) / v.viewHeight⌋₊
  else v

/-- `getResolution`, which sets `resolution` and returns it. -/
def getResolution (v : View) : View :=
  let v := v.requestResolution
  limitResolution
    { v with
      resWidth := (· / 2)^[v.maxResolutions - v.resolution - 1] v.width
      resHeight := (· / 2)^[v.maxResolutions - v.resolution - 1] v.height }

/-! ## 3. The viewport in pixels -/

/-- How often the full image has been halved at the view's resolution; the source divides by
`1 << (max_resolutions-resolution-1)`. -/
def shift (v : View) : Nat := v.maxResolutions - v.resolution - 1

/-- `getViewLeft` and `getViewTop`: calculated from the full resolution image. -/
def viewPos (size shift : Nat) (pos : ℚ) : Nat := nearest (size * pos / 2 ^ shift)

def getViewLeft (v : View) : Nat := viewPos v.width v.shift v.viewLeft

def getViewTop (v : View) : Nat := viewPos v.height v.shift v.viewTop

/-- `getViewWidth` and `getViewHeight`: scale up the viewport, then make sure the size is not too
large or too small. -/
def viewExtent (size shift : Nat) (pos len : ℚ) : Nat :=
  let rw := nearest ((size : ℚ) / 2 ^ shift)
  let w := nearest (len * rw)
  let left := nearest (pos * rw)
  let w := if rw < u32 (w + left) then sub32 rw left else w
  if w < minSize then minSize else w

def getViewWidth (v : View) : Nat := viewExtent v.width v.shift v.viewLeft v.viewWidth

def getViewHeight (v : View) : Nat := viewExtent v.height v.shift v.viewTop v.viewHeight

/-- `getRequestWidth` and `getRequestHeight`: a size that has not been requested is proportional
to the other one, or the full one, and all are limited to the maximum size. -/
def requestSize (maxSize : Int) (requested other size view otherView : Nat) : Nat :=
  let w := if requested = 0 then
      if other ≠ 0 then nearest ((u32 (view * other) : ℚ) / otherView) else size
    else requested
  if 0 < maxSize ∧ maxSize < w then maxSize.toNat else w

def getRequestWidth (v : View) : Nat :=
  requestSize v.maxSize v.requestedWidth v.requestedHeight v.width v.getViewWidth v.getViewHeight

def getRequestHeight (v : View) : Nat :=
  requestSize v.maxSize v.requestedHeight v.requestedWidth v.height v.getViewHeight v.getViewWidth

end View

end Iipsrv
