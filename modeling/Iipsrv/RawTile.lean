/-
# Tiles

`RawTile.h`: the class that carries one image tile, decoded or encoded, through the server.
The fields are the source's.  `memoryManaged` is left out: it only tells the destructor
whether to free the buffer.

A `char` is one `Char` here, a byte of a buffer is a `UInt8`.  The tile number, the
resolution, the two sequence angles and the quality are the `int`s that make up a tile's
identity and are kept as `Int32`.  The sizes are natural numbers.
-/
import Mathlib.Data.List.Basic
import Iipsrv.Lib.Print

namespace Iipsrv

open Lib.Print (Text)

/-! ## 1. The enumerations -/

/-- `enum ColourSpaces`. -/
inductive ColourSpaces
  | none | greyscale | sRGB | cieLab | binary
  deriving DecidableEq, Repr

/-- `enum CompressionType`. -/
inductive CompressionType
  | uncompressed | jpeg | deflate | png
  deriving DecidableEq, Repr

/-- The value of the enumerator, which is what `%d` prints. -/
def CompressionType.toInt : CompressionType → Int
  | .uncompressed => 0
  | .jpeg => 1
  | .deflate => 2
  | .png => 3

theorem CompressionType.toInt_injective {c d : CompressionType} (h : c.toInt = d.toInt) :
    c = d := by
  cases c <;> cases d <;> first | rfl | exact absurd h (by decide)

/-- `enum SampleType`. -/
inductive SampleType
  | fixedPoint | floatingPoint
  deriving DecidableEq, Repr

/-! ## 2. Strings with a capacity -/

/-- A `std::string`: its characters, and how many its buffer has room for. -/
structure StdString where
  chars : Text
  capacity : Nat
  length_le : chars.length ≤ capacity
  deriving DecidableEq

/-- How much room the library gives to a string built from a C string.  The standard leaves
this to the implementation. -/
structure StringAlloc where
  room : Nat → Nat
  le_room : ∀ n, n ≤ room n

/-- `std::string( tmp )`. -/
def StringAlloc.ofCString (a : StringAlloc) (s : Text) : StdString :=
  ⟨s, a.room s.length, a.le_room _⟩

/-! ## 3. Tiles -/

/-- `class RawTile`.  `data` is the buffer the pointer leads to, `dataLength` the number of
bytes of it that are in use. -/
structure RawTile where
  tileNum : Int32
  resolution : Int32
  hSequence : Int32
  vSequence : Int32
  compressionType : CompressionType
  quality : Int32
  filename : StdString
  timestamp : Int
  data : List UInt8
  dataLength : Nat
  width : Nat
  height : Nat
  channels : Nat
  bpc : Nat
  sampleType : SampleType
  padded : Bool
  deriving DecidableEq

/-- The fields that say WHICH tile this is: those `operator==` compares and those the cache key
is printed from. -/
structure TileId where
  filename : Text
  resolution : Int32
  tileNum : Int32
  hSequence : Int32
  vSequence : Int32
  compressionType : CompressionType
  quality : Int32
  deriving DecidableEq

namespace RawTile

def tileId (t : RawTile) : TileId :=
  ⟨t.filename.chars, t.resolution, t.tileNum, t.hSequence, t.vSequence, t.compressionType,
    t.quality⟩

/-- `operator ==`. -/
def beq (a b : RawTile) : Bool :=
  a.tileNum = b.tileNum ∧ a.resolution = b.resolution ∧ a.hSequence = b.hSequence ∧
    a.vSequence = b.vSequence ∧ a.compressionType = b.compressionType ∧
    a.quality = b.quality ∧ a.filename.chars = b.filename.chars

theorem beq_iff_tileId_eq (a b : RawTile) : a.beq b = true ↔ a.tileId = b.tileId := by
  simp only [beq, tileId, decide_eq_true_eq, TileId.mk.injEq]
  tauto

/-- The copy constructor: every field, and the used part of the buffer. -/
def copy (t : RawTile) : RawTile := { t with data := t.data.take t.dataLength }

@[simp] theorem copy_copy (t : RawTile) : t.copy.copy = t.copy := by
  simp [copy]

end RawTile

end Iipsrv
