/-
# Sizes in single precision

`View.cc` computes the viewport and the proportional sizes with `float`s.  `View.Model` takes exact
rationals for them, which is what most questions about a view are about; here are the functions as
the code evaluates them.  Every number that is converted to a `float`, and every product and
quotient of two, is rounded to 24 digits (`single`).  Halving is exact.

A level of more than `2 ^ 24` pixels is rounded before the viewport is taken of it, so
`round( view_left*rw )` can exceed `rw`, and `rw - left` wraps.  A `float` beyond the range of an
`unsigned int` is converted as the processors do it, by its remainder.
-/
import Iipsrv.View.Level
import Iipsrv.Lib.Single

namespace Iipsrv.View.Single

open Lib.Rounding Lib.Word
open Lib.Single (single quotient)

/-- `getViewWidth` and `getViewHeight`. -/
def viewExtent (size shift : Nat) (pos len : ℚ) : Nat :=
  let rw := nearest (single size / 2 ^ shift)
  let w := nearest (single (len * single rw))
  let left := nearest (single (pos * single rw))
  let w := if rw < u32 (w + left) then sub32 rw left else w
  if w < minSize then minSize else w

def getViewWidth (v : View) : Nat := viewExtent v.width v.shift v.viewLeft v.viewWidth

def getViewHeight (v : View) : Nat := viewExtent v.height v.shift v.viewTop v.viewHeight

/-- `getRequestWidth` and `getRequestHeight`. -/
def requestSize (maxSize : Int) (requested other size view otherView : Nat) : Nat :=
  let w := if requested = 0 then
      if other ≠ 0 then u32 (nearest (quotient (u32 (view * other)) otherView)) else size
    else requested
  if 0 < maxSize ∧ maxSize < w then maxSize.toNat else w

def getRequestWidth (v : View) : Nat :=
  requestSize v.maxSize v.requestedWidth v.requestedHeight v.width (getViewWidth v)
    (getViewHeight v)

def getRequestHeight (v : View) : Nat :=
  requestSize v.maxSize v.requestedHeight v.requestedWidth v.height (getViewHeight v)
    (getViewWidth v)

end Iipsrv.View.Single
