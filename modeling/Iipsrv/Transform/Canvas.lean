/-
# Tiles of bytes

The tiles that `Transform`'s operations on 8 bit data are called with, with their pixels.  A
`Canvas` is a header and a block of cells, which need not all have been written; `Canvas.ofPlane`
shows a plane of `Lib.Plane`.  A `Picture` is a tile as it comes: as many bytes as its header says.
It shows a plane, so what is known about planes can be said of it.
-/
import Iipsrv.Transform.Headers
import Iipsrv.Lib.Plane

namespace Iipsrv.Transform

open Lib

/-- A tile of one byte for each sample, on its way through the operations.  A cell that has not
been written is `none`. -/
structure Canvas where
  header : Header
  cells : List (Option UInt8)
  deriving DecidableEq

/-- The tile that shows a plane. -/
def Canvas.ofPlane (h : Header) (P : Plane (Option UInt8)) : Canvas :=
  ⟨{ h with width := P.width, height := P.height }, P.cells⟩

theorem Canvas.ofPlane_agree {h : Header} {P Q : Plane (Option UInt8)} (hPQ : P.Agree Q) :
    ofPlane h P = ofPlane h Q := by
  unfold ofPlane
  rw [hPQ.width, hPQ.height, hPQ.cells]

/-- A tile of 8 bits: as many bytes as its header says, which is a number that `dataLength` can
hold. -/
structure Picture where
  header : Header
  bytes : List UInt8
  bpc_eq : header.bpc = 8
  consistent : Consistent header
  length_eq : bytes.length = header.dataLength
  length_lt : header.dataLength < 2 ^ 32

namespace Picture

variable (p : Picture)

def canvas : Canvas := ⟨p.header, p.bytes.map some⟩

/-- What the tile shows. -/
def plane : Plane (Option UInt8) :=
  .ofCells p.header.width p.header.height p.header.channels (p.bytes.map some)

theorem extent_eq : extent p.header = p.header.width * p.header.height * p.header.channels := by
  unfold extent
  rw [p.bpc_eq, Nat.div_self (by decide), Nat.mul_one]

theorem length_bytes : p.bytes.length = extent p.header := p.length_eq.trans p.consistent

/-- A byte for every channel of every pixel. -/
theorem length_samples :
    p.bytes.length = p.header.width * p.header.height * p.header.channels :=
  p.length_bytes.trans p.extent_eq

theorem extent_lt : extent p.header < 2 ^ 32 := by
  rw [← p.consistent]
  exact p.length_lt

theorem volume_plane : p.plane.width * p.plane.height * p.plane.depth = extent p.header :=
  p.extent_eq.symm

theorem cells_plane : p.plane.cells = p.bytes.map some :=
  Plane.cells_ofCells (by rw [List.length_map, p.length_samples])

theorem ofPlane_plane : Canvas.ofPlane p.header p.plane = p.canvas := by
  unfold Canvas.ofPlane canvas
  rw [p.cells_plane]
  rfl

end Picture

end Iipsrv.Transform
