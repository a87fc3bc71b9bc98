/-
# The tile manager of a request

A `TileManager` is made for the object of the request and calls its `getTile` for every tile that
the cache does not have.  The object is another one afterwards (`Image/Object.lean`), for the
manager itself as well: a new tile is cropped by the tile size that is found BEHIND the call, and
the loops of `getRegion` go on with the object that the last tile has left, while the region has
been laid out for the first.

So `tileOf` and `regionOf` return the object with the tile.  On the cache and the tile they are
`getTile` and `getRegion` of the tile manager, which are stated for an image that does not change:
`tileOf` by definition, `regionOf` where the object is left as it is (`regionOf_eq`).  A level
outside the vectors of the object ends the request as a fault.
-/
import Iipsrv.Image.Object
import Iipsrv.Server.Session

namespace Iipsrv

open Lib.Effects Lib.Word

/-- The tile is decoded: the cache does not have it, or has an older one. -/
def Request.decodes (q : Request) (c : Cache) : Bool :=
  match lookupTile q c with
  | .ok none _ => true
  | .ok (some t) _ => decide (t.timestamp < q.image.timestamp)
  | .error _ _ => false

namespace Server

variable (S : Server)

/-! ## 1. Tiles -/

/-- The object behind a request for a tile. -/
def behind (im : Opened) (q : Request) (c : Cache) : Opened :=
  if q.decodes c then
    im.behind S.disk q.xangle.toInt q.yangle.toInt q.resolution.toUInt32.toNat
  else im

/-- The tile is decoded, and its level lies outside a vector of the object. -/
def Overruns (im : Opened) (q : Request) (c : Cache) : Prop :=
  q.decodes c ∧ im.Overruns S.disk q.xangle.toInt q.yangle.toInt q.resolution.toUInt32.toNat

instance (im : Opened) (q : Request) (c : Cache) : Decidable (S.Overruns im q c) :=
  inferInstanceAs (Decidable (_ ∧ _))

/-- The decoder of an open image, with the attributes that the manager finds behind it. -/
def codec (im found : Opened) : Codec where
  info := fun _ _ => found.info
  getTile := fun _ _ => S.getTile im
  getRegion := fun _ _ => S.getRegion im

/-- `TileManager::getTile`. -/
def tileOf (im : Opened) (q : Request) : Manager (Opened × RawTile) := do
  let c ← get
  if S.Overruns im q c then throw (.fault .levelSubscript)
  else do
    let t ← Iipsrv.getTile (S.codec im (S.behind im q c)) S.encoder S.alloc q
    return (S.behind im q c, t)

/-! ## 2. Regions -/

section
variable (res seq ang layers : Int32) (g : Composition)

/-- One turn of the inner loop. -/
def composeTile (i : Nat) (p : Opened × Composed) (j : Nat) : Manager (Opened × Composed) := do
  let (im, rawtile) ← S.tileOf p.1
    (tileRequest (S.image p.1) res seq ang layers (i * g.ntlx + j))
  let st ← .ofExcept (composePart g i j rawtile p.2)
  return (im, st)

/-- One turn of the outer loop: a row of tiles. -/
def composeRow (p : Opened × Composed) (i : Nat) : Manager (Opened × Composed) := do
  let (im, st) ← (List.range' g.cols.start (g.cols.stop - g.cols.start)).foldlM
    (S.composeTile res seq ang layers g i) (p.1, { p.2 with currentWidth := 0 })
  return (im, { st with currentHeight := u32 (st.currentHeight + st.dstTileHeight) })

end

/-- `TileManager::getRegion`. -/
def regionOf (im : Opened) (res seq ang layers : Int32) (x y width height : Nat) :
    Manager (Opened × Region) := do
  let info := im.info
  if info.regionDecoding then
    match S.getRegion im seq ang res layers x y width height with
    | .error m => throw (.thrown m)
    | .ok d => return (im, d.region res seq ang)
  else
    match info.regionLevel res with
    | none => throw (.fault .levelSubscript)
    | some (imWidth, imHeight) =>
      if info.tileWidth = 0 ∨ info.tileHeight = 0 then throw (.fault .divisionByZero)
      else
        let g := info.composition imWidth imHeight x y width height
        let (im, st) ← (List.range' g.rows.start (g.rows.stop - g.rows.start)).foldlM
          (S.composeRow res seq ang layers g) (im, info.allocated width height)
        return (im, info.region res seq ang width height st)

/-! ## 3. What is kept, and an object that stays as it is -/

section
variable {S : Server} {im : Opened} {res seq ang layers : Int32} {g : Composition}

theorem kept_behind (im : Opened) (q : Request) (c : Cache) :
    im.base.Kept (S.behind im q c).base := by
  unfold behind
  split
  · exact im.kept_behind _ _ _ _
  · exact .refl _

/-- The tile manager names the image as before. -/
theorem image_behind (im : Opened) (q : Request) (c : Cache) :
    S.image (S.behind im q c) = S.image im := by
  have hkept := S.kept_behind im q c
  unfold image
  rw [hkept.imagePath, hkept.timestamp]

theorem tileOf_eq_ok {im' : Opened} {q : Request} {t : RawTile} {c c' : Cache}
    (h : S.tileOf im q c = .ok (im', t) c') :
    im' = S.behind im q c ∧
      Iipsrv.getTile (S.codec im (S.behind im q c)) S.encoder S.alloc q c = .ok t c' := by
  have hget : (get : Manager Cache) c = .ok c c := rfl
  unfold tileOf at h
  rw [EState.bind_ok hget] at h
  split at h
  case isTrue => cases h
  case isFalse =>
    obtain ⟨t', c₁, ht, hpure⟩ := EState.bind_eq_ok h
    cases hpure
    exact ⟨rfl, ht⟩

/-- A tile leaves the object as it is, and its level lies inside the vectors. -/
def Settled (S : Server) (im : Opened) (q : Request) : Prop :=
  ∀ c, S.behind im q c = im ∧ ¬ S.Overruns im q c

/-- The tiles of a region do. -/
def Stays (S : Server) (im : Opened) (res seq ang layers : Int32) : Prop :=
  ∀ n, S.Settled im (tileRequest (S.image im) res seq ang layers n)

theorem tileOf_eq {q : Request} (h : S.Settled im q) :
    S.tileOf im q
      = Iipsrv.getTile (S.codec im im) S.encoder S.alloc q >>= fun t => pure (im, t) := by
  funext c
  have hget : (get : Manager Cache) c = .ok c c := rfl
  unfold tileOf
  rw [EState.bind_ok hget, if_neg (h c).2, (h c).1]

theorem composeTile_eq (h : S.Stays im res seq ang layers) (i : Nat) (st : Composed) (j : Nat) :
    S.composeTile res seq ang layers g i (im, st) j
      = Iipsrv.composeTile (S.codec im im) S.encoder S.alloc (S.image im) res seq ang layers g i
          st j >>= fun st => pure (im, st) := by
  unfold composeTile Iipsrv.composeTile
  rw [tileOf_eq (h _)]
  simp only [bind_assoc, pure_bind]

/-- A loop that hands the object on, where every turn leaves it as it is. -/
theorem foldlM_stays {f : Opened × Composed → Nat → Manager (Opened × Composed)}
    {f' : Composed → Nat → Manager Composed}
    (h : ∀ st j, f (im, st) j = f' st j >>= fun st => pure (im, st)) (l : List Nat)
    (st : Composed) :
    l.foldlM f (im, st) = l.foldlM f' st >>= fun st => pure (im, st) := by
  induction l generalizing st with
  | nil => rfl
  | cons j l ih =>
    rw [List.foldlM_cons, List.foldlM_cons, h, bind_assoc, bind_assoc]
    refine bind_congr fun st' => ?_
    rw [pure_bind, ih]

theorem composeRow_eq (h : S.Stays im res seq ang layers) (st : Composed) (i : Nat) :
    S.composeRow res seq ang layers g (im, st) i
      = Iipsrv.composeRow (S.codec im im) S.encoder S.alloc (S.image im) res seq ang layers g st i
          >>= fun st => pure (im, st) := by
  unfold composeRow Iipsrv.composeRow
  rw [foldlM_stays (fun st j => composeTile_eq h i st j)]
  simp only [bind_assoc, pure_bind]

/-- **The region of an object that stays as it is** is the one of the tile manager. -/
theorem regionOf_eq (h : S.Stays im res seq ang layers) (x y width height : Nat) :
    S.regionOf im res seq ang layers x y width height
      = Iipsrv.getRegion (S.codec im im) S.encoder S.alloc (S.image im) res seq ang layers x y
          width height >>= fun r => pure (im, r) := by
  have hinfo : (S.codec im im).info (S.image im).imagePath.chars (S.image im).timestamp = im.info :=
    rfl
  have hregion : (S.codec im im).getRegion (S.image im).imagePath.chars (S.image im).timestamp
      = S.getRegion im := rfl
  unfold regionOf Iipsrv.getRegion
  simp only [hinfo, hregion]
  split
  case isTrue => cases S.getRegion im seq ang res layers x y width height <;> rfl
  case isFalse =>
    cases im.info.regionLevel res with
    | none => rfl
    | some size =>
      dsimp only
      split
      case isTrue => rfl
      case isFalse =>
        rw [foldlM_stays (fun st i => composeRow_eq h st i)]
        simp only [bind_assoc, pure_bind]

end

end Server

end Iipsrv
