/-
# The tile cache

`Cache.h`: a list of tiles, most recently used first, an index from printed keys to list
iterators, and a counter of the bytes held.  Every operation changes the three separately, so
the model keeps them apart: `tiles.nodes` is `tileList`, `tiles.index` is `tileMap`.

What a C++ program may not do is a `Fault` of the model: following an iterator whose node is
gone, following `end()`, stepping back from the end of an empty list, and wrapping the
unsigned counter below zero.  The eviction loop is run for as many turns as the list has
nodes; needing another one is a fault too.  A run that returns `ok` has done none of these.

The byte counter is an `unsigned long` that counts memory the process holds, so it has no
upper end here.  Copying a `std::string` is taken to keep its capacity.
-/
import Iipsrv.RawTile
import Iipsrv.Lib.Linked

namespace Iipsrv

open Lib.Print Lib.Linked

/-! ## 1. The key -/

/-- The text that `getIndex` asks `snprintf` for: `"%s:%d:%d:%d:%d:%d:%d"`. -/
def indexText (f : Text) (r t h v : Int32) (c : CompressionType) (q : Int32) : Text :=
  joinFields ':' (cString f)
    [decimal r.toInt, decimal t.toInt, decimal h.toInt, decimal v.toInt, decimal c.toInt,
      decimal q.toInt]

/-- `Cache::getIndex`: printed into `char tmp[1024]`. -/
def getIndex (f : Text) (r t h v : Int32) (c : CompressionType) (q : Int32) : Text :=
  snprintf 1024 (indexText f r t h v c q)

/-- The text of an identity, before it is cut to the buffer. -/
def TileId.text (i : TileId) : Text :=
  indexText i.filename i.resolution i.tileNum i.hSequence i.vSequence i.compressionType i.quality

/-- The key of an identity. -/
def TileId.index (i : TileId) : Text :=
  getIndex i.filename i.resolution i.tileNum i.hSequence i.vSequence i.compressionType i.quality

/-! ## 2. The cache -/

/-- What the C++ leaves undefined, and what must never happen to the counter and the loop. -/
inductive Fault
  /-- an iterator whose node has been erased -/
  | danglingIterator
  /-- `end()` of the index, followed -/
  | endIterator
  /-- `--end()` on an empty list -/
  | emptyList
  /-- `currentSize` below zero -/
  | counterWrap
  /-- the eviction loop goes on -/
  | diverges
  /-- an access outside a buffer or vector -/
  | outOfBounds
  /-- a level outside the vectors that an image has for its levels -/
  | levelSubscript
  /-- an integer division by zero -/
  | divisionByZero
  deriving DecidableEq, Repr

/-- `std::pair<const std::string,RawTile>`. -/
structure Entry where
  key : StdString
  tile : RawTile
  deriving DecidableEq

/-- `class Cache`. -/
structure Cache where
  tileSize : Nat
  maxSize : Nat
  currentSize : Nat
  tiles : IndexedList Entry Text

/-- The `sizeof`s that the constructor adds up: of a `RawTile`, of the two pair types and of a
list iterator.  They depend on the platform. -/
structure Sizeof where
  rawTile : Nat
  pair : Nat
  indexPair : Nat
  listIter : Nat

namespace Cache

/-- The constructor, from the number of bytes it computes from its argument. -/
def new (z : Sizeof) (maxSize : Nat) : Cache :=
  { tileSize := z.rawTile + z.pair + z.indexPair + 64 + z.listIter
    maxSize := maxSize
    currentSize := 0
    tiles := IndexedList.empty }

/-- The cached entries, most recently used first. -/
def entries (c : Cache) : List Entry := c.tiles.entries

/-- What an entry adds to `currentSize`, and what `_remove` subtracts for it. -/
def cost (tileSize : Nat) (e : Entry) : Nat :=
  e.tile.dataLength + (e.tile.filename.capacity + e.key.capacity) + tileSize

/-- Follow a list iterator. -/
def deref (c : Cache) (it : Nat) : Except Fault Entry :=
  match c.tiles.deref it with
  | some e => .ok e
  | none => .error .danglingIterator

/-- `Cache::_touch`.  The result is the iterator found, `none` for `tileMap.end()`. -/
def touch (c : Cache) (key : Text) : Except Fault (Cache × Option Nat) :=
  match c.tiles.index key with
  | none => .ok (c, none)
  | some it =>
    match c.tiles.splice it with
    | some s => .ok ({ c with tiles := s }, some it)
    | none => .error .danglingIterator

/-- `Cache::_remove( const TileMap::iterator& )`, at the map entry `(key, it)`. -/
def removeAt (c : Cache) (key : Text) (it : Nat) : Except Fault Cache :=
  match c.deref it with
  | .error f => .error f
  | .ok e =>
    if c.currentSize < cost c.tileSize e then .error .counterWrap
    else match c.tiles.erase it with
      | none => .error .danglingIterator
      | some s => .ok
          { c with currentSize := c.currentSize - cost c.tileSize e, tiles := s.eraseKey key }

/-- `Cache::_remove( const std::string& )`. -/
def remove (c : Cache) (key : Text) : Except Fault Cache :=
  match c.tiles.index key with
  | none => .error .endIterator
  | some it => c.removeAt key it

/-- The loop of `insert`: `while( currentSize > maxSize )` remove the last element. -/
def evict : Nat → Cache → Except Fault Cache
  | 0, c => if c.maxSize < c.currentSize then .error .diverges else .ok c
  | n + 1, c =>
    if c.maxSize < c.currentSize then
      match c.tiles.back? with
      | none => .error .emptyList
      | some e =>
        match c.remove e.key.chars with
        | .error f => .error f
        | .ok c' => evict n c'
    else .ok c

/-- The rest of `insert`, once the key is not in the cache: store the pair at the head, count
it, and evict. -/
def store (c : Cache) (key : StdString) (r : RawTile) : Except Fault Cache :=
  let c' : Cache :=
    { c with
      tiles := (c.tiles.pushFront ⟨key, r.copy⟩).setKey key.chars c.tiles.next
      currentSize := c.currentSize +
        (r.dataLength + (r.filename.capacity + key.capacity) + c.tileSize) }
  evict c'.entries.length c'

/-- `Cache::insert`. -/
def insert (a : StringAlloc) (c : Cache) (r : RawTile) : Except Fault Cache :=
  if c.maxSize = 0 then .ok c
  else
    let key := a.ofCString (getIndex r.filename.chars r.resolution r.tileNum r.hSequence
      r.vSequence r.compressionType r.quality)
    match c.touch key.chars with
    | .error f => .error f
    | .ok (c, none) => c.store key r
    | .ok (c, some it) =>
      match c.deref it with
      | .error f => .error f
      | .ok e =>
        -- an older tile makes room for the new one, a tile that is up to date stays
        if e.tile.timestamp < r.timestamp then
          match c.removeAt key.chars it with
          | .error f => .error f
          | .ok c => c.store key r
        else .ok c

/-- `Cache::getTile`. -/
def getTile (c : Cache) (f : Text) (r t h v : Int32) (ct : CompressionType) (q : Int32) :
    Except Fault (Cache × Option RawTile) :=
  if c.maxSize = 0 then .ok (c, none)
  else
    let key := getIndex f r t h v ct q
    match c.tiles.index key with
    | none => .ok (c, none)
    | some it =>
      match c.touch key with
      | .error f => .error f
      | .ok (c, _) =>
        match c.deref it with
        | .error f => .error f
        | .ok e => .ok (c, some e.tile)

/-- `Cache::clear`. -/
def clear (c : Cache) : Cache := { c with tiles := c.tiles.clear, currentSize := 0 }

/-! ## 3. Runs -/

/-- A call on the cache. -/
inductive Call
  | insert (r : RawTile)
  | getTile (i : TileId)
  | clear

/-- One call: the new state, and the tile that `getTile` returns. -/
def step (a : StringAlloc) (c : Cache) : Call → Except Fault (Cache × Option RawTile)
  | .insert r => (c.insert a r).map fun c' => (c', none)
  | .getTile i => c.getTile i.filename i.resolution i.tileNum i.hSequence i.vSequence
      i.compressionType i.quality
  | .clear => .ok (c.clear, none)

/-- The state after a sequence of calls. -/
def run (a : StringAlloc) : Cache → List Call → Except Fault Cache
  | c, [] => .ok c
  | c, call :: calls =>
    match c.step a call with
    | .error f => .error f
    | .ok (c', _) => run a c' calls

end Cache

end Iipsrv
