/-
# Whole runs of the server

What one request leaves in the caches is what the next one finds.  An exception ends a request in a
`catch` clause and the server goes on, so an operation that is interrupted must leave the caches as
the next request needs them.

* Section 1: the tile manager keeps the invariant of its cache, whatever it is asked for.
* Section 2: the invariants of both caches, in every run (`caches_kept`).
-/
import Iipsrv.Server.Assembly
import Iipsrv.Server.ImageCache
import Iipsrv.Server.Invariant
import Iipsrv.TileManager.Steps

namespace Iipsrv

open Lib.Print (Text)
open Lib.Effects
open DeepZoomExt (oneImageServer)

/-! ## 1. The tile cache -/

/-- A cache with its invariant, within the limits of another one. -/
structure Cache.Within (a : StringAlloc) (limits c : Cache) : Prop where
  repInv : c.RepInv a
  limits : Cache.SameLimits limits c

section

variable {K : Codec} {E : Encoder} {a : StringAlloc} {limits : Cache}

theorem Manager.keeps_cached (i : TileId) : Keeps (Cache.Within a limits) (Manager.cached i) := by
  intro c hc
  obtain ⟨c', out, hs, hinv, hlim⟩ := Cache.step_spec hc.repInv (.getTile i)
  have hcached : Manager.cached i c = .ok out c' := by
    unfold Cache.step at hs
    unfold Manager.cached
    dsimp only at hs
    rw [hs]
  rw [hcached]
  exact ⟨hinv, hc.limits.trans hlim⟩

theorem Manager.keeps_insert (t : RawTile) :
    Keeps (Cache.Within a limits) (Manager.insert a t) := by
  intro c hc
  obtain ⟨c', out, hs, hinv, hlim⟩ := Cache.step_spec hc.repInv (.insert t)
  have hinsert : Manager.insert a t c = .ok () c' := by
    unfold Cache.step at hs
    unfold Manager.insert
    dsimp only at hs
    cases hins : c.insert a t <;> rw [hins] at hs <;> cases hs
    rfl
  rw [hinsert]
  exact ⟨hinv, hc.limits.trans hlim⟩

theorem keeps_lookupTile (q : Request) : Keeps (Cache.Within a limits) (lookupTile q) := by
  unfold lookupTile
  split
  case h_3 => exact Manager.keeps_cached _
  case h_4 => exact .pure none
  all_goals
    refine (Manager.keeps_cached _).bind fun out => ?_
    cases out with
    | some t => exact .pure _
    | none => exact Manager.keeps_cached _

/-- The end of both paths that put a tile into the cache. -/
theorem keeps_file (x : Except Failure RawTile) (f : RawTile → RawTile) :
    Keeps (Cache.Within a limits)
      (do
        let t ← .ofExcept x
        .insert a t
        return f t : Manager RawTile) := by
  cases x with
  | error e => exact .throw e
  | ok t => exact (Manager.keeps_insert t).bind fun _ => .pure _

/-- **Every request keeps the invariant**, whatever it asks for and however it ends. -/
theorem keeps_getTile (q : Request) : Keeps (Cache.Within a limits) (getTile K E a q) := by
  have hnew : Keeps (Cache.Within a limits) (getNewTile K E a q) := by
    rw [getNewTile_eq]
    exact keeps_file _ id
  refine (keeps_lookupTile q).bind fun out => ?_
  cases out with
  | none => exact hnew
  | some t =>
    dsimp only
    split
    case isTrue => exact hnew
    case isFalse =>
      split
      case isTrue hconv =>
        rw [convert_eq hconv]
        exact keeps_file _ RawTile.copy
      case isFalse => exact .pure _

end

/-! ## 2. The caches are kept in every run -/

/-- The caches after a sequence of requests. -/
def Server.reached (S : Server) (σ : ServerState) (hs : List Headers) : ServerState :=
  hs.foldl (fun σ h => (S.serve h σ).2) σ

/-- **What a request keeps, a run keeps.** -/
theorem CacheInvariant.reached {S : Server} {C : CacheProperty} (hC : CacheInvariant S C)
    (hs : List Headers) {σ : ServerState} (hσ : σ.Caches C) : (S.reached σ hs).Caches C := by
  induction hs generalizing σ with
  | nil => exact hσ
  | cons h hs ih => exact ih (hC.serve h hσ)

/-- What is kept of the two caches: the tile cache with the limits of `tiles`, and the image
cache. -/
structure Sane (S : Server) (tiles : Cache) (images : FIF.ImageCache) (c : Cache) : Prop where
  tiles : Cache.Within S.alloc tiles c
  bounded : images.Bounded
  entries : images.Entries

/-- **Nothing a handler does breaks the caches.** -/
theorem cacheInvariant_sane (S : Server) (tiles : Cache) (hfirst : FIF.ImageCache.Begins S.first) :
    CacheInvariant S (Sane S tiles) where
  getTile := fun _ _ q => (keeps_getTile q).frame (fun _ h => h.tiles)
    fun _ _ h htiles => ⟨htiles, h.bounded, h.entries⟩
  openImage := fun _ h => ⟨h.tiles, h.bounded.run hfirst, h.entries.run⟩
  setHistogram := by
    intro images c path histogram h
    refine ⟨h.tiles, h.bounded.setHistogram path histogram, fun p x hx => ?_⟩
    obtain ⟨y, hy, he⟩ := FIF.ImageCache.mem_setHistogram hx
    have hentry := h.entries p y hy
    rw [he]
    exact ⟨⟨hentry.imagePath, hentry.currentX, hentry.currentY⟩, hentry.imageWidths⟩

/-- **The caches of the server are kept in every run.**  Whatever is requested, in whatever order,
and however the requests end, the tile cache satisfies its representation invariant within the
size it was made with, and the image cache has at most `MAXIMAGECACHE` entries, one for a path and
each an image of that path. -/
theorem caches_kept (S : Server) (hfirst : FIF.ImageCache.Begins S.first) (z : Sizeof)
    (maxSize : Nat) (memcached : List (Text × Text)) (hs : List Headers) :
    (S.reached ⟨[], Cache.new z maxSize, memcached⟩ hs).tileCache.RepInv S.alloc ∧
      (S.reached ⟨[], Cache.new z maxSize, memcached⟩ hs).tileCache.maxSize = maxSize ∧
      (S.reached ⟨[], Cache.new z maxSize, memcached⟩ hs).imageCache.Bounded ∧
      ∀ path im,
        (S.reached ⟨[], Cache.new z maxSize, memcached⟩ hs).imageCache.find path = some im →
          im.imagePath = path := by
  have hstart : ServerState.Caches (Sane S (Cache.new z maxSize))
      ⟨[], Cache.new z maxSize, memcached⟩ :=
    ⟨⟨Cache.repInv_new S.alloc z maxSize, .refl _⟩, ⟨List.nodup_nil, Nat.zero_le _⟩,
      fun _ _ hx => absurd hx List.not_mem_nil⟩
  have hrun := (cacheInvariant_sane S (Cache.new z maxSize) hfirst).reached hs hstart
  exact ⟨hrun.tiles.repInv, hrun.tiles.limits.2, hrun.bounded,
    fun path im hfind => (hrun.entries path im (FIF.ImageCache.mem_of_find hfind)).imagePath⟩

/-- A tile of an image, one of another image, and a request that is no command at all. -/
def twoTiles : List Headers :=
  [simpleHeaders (str "FIF=a&JTL=0,0") [], simpleHeaders (str "FIF=b&JTL=0,0") [],
    simpleHeaders (str "x") []]

/-- The caches hold two tiles and two images at the end. -/
theorem caches_kept_twoTiles :
    (oneImageServer.reached freshState twoTiles).tileCache.entries.length = 2 ∧
      (oneImageServer.reached freshState twoTiles).imageCache.length = 2 ∧
      (oneImageServer.reached freshState twoTiles).tileCache.RepInv
        oneImageServer.alloc ∧
      (oneImageServer.reached freshState twoTiles).imageCache.Bounded := by
  have hkept := caches_kept oneImageServer (fun _ hne => List.length_pos_of_ne_nil hne)
    ⟨176, 16, 40, 8⟩ 1000000 [] twoTiles
  exact ⟨by decide +kernel, by decide +kernel, hkept.1, hkept.2.2.1⟩

end Iipsrv
