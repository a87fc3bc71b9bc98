/-
# Levels outside the vectors

Which requests make the server read outside the vectors that an image has for its levels:
`image_widths`, `image_heights` and `subIfdOffsets`.  The level is a number of the client.  The
handlers form `numResolutions - resolution - 1` before a test, behind one for negative numbers
only, or without any.  `getTile` tests `res > numResolutions`, so it lets the level
`numResolutions` through; and for a tile of another view it makes the test on the object as it WAS,
and uses the level on the object as it has been loaded from the file of that view.

Such an access is the fault `levelSubscript`, and the requests are those of the server, with its
tile cache: a tile that is found there is not decoded.

* Section 1: the subscripts of `getTile`, in numbers (`Opened.overruns_iff`);
* section 2: nothing else of the tile manager and the encoders has this fault;
* section 3: what keeps the levels of a request inside, and that it is exact
  (`subscripts_inside_iff`).

What is said of the number of levels holds of the object at that moment.
-/
import Iipsrv.Address.Subscripts
import Iipsrv.Lib.Triple
import Iipsrv.Server.Main
import Iipsrv.TileManager.Steps

namespace Iipsrv

open Lib.Print (Text)
open Lib.Effects Lib.Word

/-! ## 1. `getTile` -/

namespace TPTImage

/-- The offsets behind a tile of the object's own view: those it has, or else those of the
directory that the last tile has left the file at. -/
def offsetsAt (im : TPTImage) (file : TiffPages) : List Nat :=
  if im.subIfdOffsets = [] then (OpenTiff.mk file im.position).directory.subIfds
  else im.subIfdOffsets

/-- **What keeps the level inside the offsets**: a test that fails before, a file that has no
offsets, or a level that there is an offset for.  For a tile of another view these are the offsets
of its file in front of those that the object has had. -/
def LevelInside (files : Sequence) (seq ang : Int) (res : Nat) (im : TPTImage) : Prop :=
  im.numResolutions < res ∨ ∀ file, files seq ang = some file →
    if im.currentX ≠ seq ∨ im.currentY ≠ ang then
      file.first.subIfds ++ im.subIfdOffsets = [] ∨
        res ≤ (file.first.subIfds ++ im.subIfdOffsets).length
    else
      im.offsetsAt file = [] ∨
        (res < im.numResolutions ∧ im.numResolutions ≤ (im.offsetsAt file).length + 1 + res)

variable {files : Sequence} {seq ang : Int} {res : Nat} {im : TPTImage}

/-- The object behind a load has a level for every offset, and the first one. -/
theorem numResolutions_loadImageInfo {f : TiffFile} (h : f.subIfds ++ im.subIfdOffsets ≠ []) :
    (im.loadImageInfo f seq ang).numResolutions = (f.subIfds ++ im.subIfdOffsets).length + 1 := by
  have hlevels : lowerLevels f (f.subIfds ++ im.subIfdOffsets)
      = (f.subIfds ++ im.subIfdOffsets).map f.subDirectory := if_pos h
  change (lowerLevels f (f.subIfds ++ im.subIfdOffsets)).length + 1 = _
  rw [hlevels, List.length_map]

/-- The subscript, where a directory is chosen: with the offsets and the levels found there. -/
theorem overruns_iff_of_locate {t : OpenTiff} {loaded : TPTImage} {offsets : List Nat}
    (hres : res ≤ im.numResolutions)
    (hlocate : (im.reader files).getTile files seq ang res = TPTReader.locate res t loaded)
    (hoffsets : (if loaded.subIfdOffsets = [] then t.directory.subIfds
      else loaded.subIfdOffsets) = offsets) :
    im.Overruns files seq ang res ↔ offsets ≠ [] ∧
      (loaded.numResolutions ≤ res ∨ offsets.length + 1 + res < loaded.numResolutions) := by
  have htiff : (TPTReader.locate res t loaded).tiff.isSome := rfl
  unfold Overruns
  dsimp only
  rw [hlocate, TPTReader.image_locate, hoffsets]
  dsimp only
  constructor
  · rintro ⟨-, -, hne, hlast, hout⟩
    exact ⟨hne, by omega⟩
  · rintro ⟨hne, hout⟩
    exact ⟨hres, htiff, hne, by omega, by omega⟩

theorem overruns_iff_of_elsewhere {file : TiffPages} (hres : res ≤ im.numResolutions)
    (hview : (im.reader files).Elsewhere seq ang) (hfile : files seq ang = some file) :
    im.Overruns files seq ang res ↔ file.first.subIfds ++ im.subIfdOffsets ≠ [] ∧
      (file.first.subIfds ++ im.subIfdOffsets).length < res := by
  have hlocate : (im.reader files).getTile files seq ang res = TPTReader.locate res
      (OpenTiff.start file) (im.loadImageInfo file.first seq ang) :=
    TPTReader.getTile_of_elsewhere (Nat.not_lt.mpr hres) hview hfile
  have hoffsets : (if (im.loadImageInfo file.first seq ang).subIfdOffsets = [] then
      (OpenTiff.start file).directory.subIfds
        else (im.loadImageInfo file.first seq ang).subIfdOffsets)
      = file.first.subIfds ++ im.subIfdOffsets := by
    change (if file.first.subIfds ++ im.subIfdOffsets = [] then file.first.subIfds else _) = _
    split
    case isTrue hnone => rw [hnone, (List.append_eq_nil_iff.mp hnone).1]
    case isFalse => rfl
  rw [overruns_iff_of_locate hres hlocate hoffsets]
  refine and_congr_right fun hne => ?_
  rw [numResolutions_loadImageInfo hne]
  omega

/-- At its own view the object has the file of that view open, if there is one. -/
theorem tiff_reader (hview : ¬ (im.reader files).Elsewhere seq ang) :
    (im.reader files).tiff = (files seq ang).map fun file => ⟨file, im.position⟩ := by
  obtain ⟨hseq, hang⟩ := not_or.mp hview
  rw [← not_not.mp hseq, ← not_not.mp hang]
  rfl

theorem overruns_iff_of_here {file : TiffPages} (hres : res ≤ im.numResolutions)
    (hview : ¬ (im.reader files).Elsewhere seq ang) (hfile : files seq ang = some file) :
    im.Overruns files seq ang res ↔ im.offsetsAt file ≠ [] ∧
      (im.numResolutions ≤ res ∨ (im.offsetsAt file).length + 1 + res < im.numResolutions) := by
  have hhandle : (im.reader files).handle files seq ang = some ⟨file, im.position⟩ := by
    unfold TPTReader.handle
    rw [tiff_reader hview, hfile]
    rfl
  have hlocate := TPTReader.getTile_of_here (Nat.not_lt.mpr hres) hview hhandle
  exact overruns_iff_of_locate hres hlocate rfl

/-- Without a file there is no subscript. -/
theorem not_overruns_of_unopened (hfile : files seq ang = none) :
    ¬ im.Overruns files seq ang res := by
  rintro ⟨hres, hopen, -⟩
  have hlt : ¬ (im.reader files).image.numResolutions < res := Nat.not_lt.mpr hres
  by_cases hview : (im.reader files).Elsewhere seq ang
  · rw [TPTReader.getTile_of_unopened hlt hview hfile] at hopen
    cases hopen
  · have htiff : (im.reader files).tiff = none := by
      rw [tiff_reader hview, hfile]
      rfl
    have hhandle : (im.reader files).handle files seq ang = none := by
      unfold TPTReader.handle
      rw [htiff, hfile]
      rfl
    unfold TPTReader.getTile at hopen
    rw [if_neg hlt, if_neg hview, hhandle, htiff] at hopen
    cases hopen

/-- **The subscript of `getTile` lies outside exactly where nothing keeps it inside.** -/
theorem overruns_iff : im.Overruns files seq ang res ↔ ¬ im.LevelInside files seq ang res := by
  by_cases hres : im.numResolutions < res
  · refine iff_of_false (fun h => ?_) (not_not.mpr (.inl hres))
    exact absurd h.1 (Nat.not_le.mpr hres)
  have hle : res ≤ im.numResolutions := Nat.not_lt.mp hres
  unfold LevelInside
  rw [or_iff_right hres]
  cases hfile : files seq ang with
  | none =>
    exact iff_of_false (not_overruns_of_unopened hfile) (not_not.mpr fun _ hsome => nomatch hsome)
  | some file =>
    simp only [Option.some.injEq, forall_eq']
    by_cases hview : im.currentX ≠ seq ∨ im.currentY ≠ ang
    · rw [overruns_iff_of_elsewhere hle hview hfile, if_pos hview, not_or, Nat.not_le]
    · rw [overruns_iff_of_here hle hview hfile, if_neg hview, not_or, not_and_or, Nat.not_lt,
        Nat.not_le]

/-- Three levels at the first view, and a file with one sub-directory at the others. -/
def unlikeViews : Sequence := fun seq _ =>
  if seq = 0 then some { greyTiff 16 with directories := [(8, 8), (4, 4)] }.pages
  else some { greyTiff 16 with subIfds := [1000] }.pages

-- level 2 is there at the first view, and has no offset at the second
example : (loadImageInfo { greyTiff 16 with directories := [(8, 8), (4, 4)] }
    (ofIIPImage (.new [])) 0 90).Overruns unlikeViews 10 90 2 := by
  decide

/-- **An object at its own view** is a pyramid with these levels and offsets: `getTile` of the
pyramid has the fault exactly if nothing keeps the level inside. -/
theorem pyramid_overruns_iff {P : Pyramid} {file : TiffPages} {level tile : Int32}
    (hclass : P.imageClass = .tpt) (hlevels : P.info.numResolutions = im.numResolutions)
    (hoffsets : P.subIfdOffsets = im.offsetsAt file) (hseq : im.currentX = seq)
    (hang : im.currentY = ang) (hfile : files seq ang = some file) :
    P.getTile level tile = .error (.fault .levelSubscript) ↔
      ¬ im.LevelInside files seq ang level.toUInt32.toNat := by
  have hview : ¬ (im.currentX ≠ seq ∨ im.currentY ≠ ang) := by
    rw [hseq, hang]
    simp
  have hcount := P.length_offsets
  have hpos := P.levels_pos
  have hrange := level.le_toInt
  have hrange' := level.toInt_lt
  have hle := P.levels_le
  rw [Pyramid.getTile_overruns_iff, Pyramid.Unchecked, hclass, toNat_toUInt32]
  unfold LevelInside
  simp only [hfile, Option.some.injEq, forall_eq', if_neg hview, ← hoffsets, ← hlevels,
    toUnsigned, ne_eq, not_true_eq_false, false_or]
  by_cases hnone : P.subIfdOffsets = []
  · simp [hnone]
  · have := hcount hnone
    simp only [hnone, false_or, not_false_eq_true, and_true]
    omega

end TPTImage

/-- The level lies inside both vectors of level sizes, or is refused. -/
def OpenJPEGImage.LevelInside (res : Nat) (im : IIPImage) : Prop :=
  im.numResolutions < res ∨ (res < im.numResolutions ∧
    im.numResolutions ≤ im.imageWidths.length + res ∧
    im.numResolutions ≤ im.imageHeights.length + res)

namespace Opened

/-- What keeps the level of a tile inside the vectors of the object. -/
def LevelInside (disk : Disk) (seq ang : Int) (res : Nat) : Opened → Prop
  | tpt im => im.LevelInside (disk.views im.toIIPImage) seq ang res
  | openJPEG im => OpenJPEGImage.LevelInside res im

theorem overruns_iff {disk : Disk} {seq ang : Int} {res : Nat} {im : Opened} :
    im.Overruns disk seq ang res ↔ ¬ im.LevelInside disk seq ang res := by
  cases im with
  | tpt im => exact TPTImage.overruns_iff
  | openJPEG im =>
    change OpenJPEGImage.Overruns res im ↔ ¬ OpenJPEGImage.LevelInside res im
    unfold OpenJPEGImage.Overruns OpenJPEGImage.LevelInside
    dsimp only
    omega

end Opened

/-! ## 2. The other parts of a request -/

namespace Cache

variable {c : Cache}

theorem deref_ne (it : Nat) : c.deref it ≠ .error .levelSubscript := by
  unfold deref
  split <;> exact nofun

theorem touch_ne (key : Text) : c.touch key ≠ .error .levelSubscript := by
  unfold touch
  split
  case h_1 => exact nofun
  case h_2 => split <;> exact nofun

theorem removeAt_ne (key : Text) (it : Nat) : c.removeAt key it ≠ .error .levelSubscript := by
  unfold removeAt
  split
  case h_1 f hderef =>
    intro h
    cases h
    exact deref_ne it hderef
  case h_2 =>
    split
    case isTrue => exact nofun
    case isFalse => split <;> exact nofun

theorem remove_ne (key : Text) : c.remove key ≠ .error .levelSubscript := by
  unfold remove
  split
  case h_1 => exact nofun
  case h_2 => exact removeAt_ne key _

theorem evict_ne (n : Nat) : evict n c ≠ .error .levelSubscript := by
  induction n generalizing c with
  | zero =>
    unfold evict
    split <;> simp
  | succ n ih =>
    unfold evict
    split
    case isFalse => simp
    case isTrue =>
      split
      case h_1 => simp
      case h_2 =>
        split
        case h_1 f hremove =>
          intro h
          cases h
          exact remove_ne _ hremove
        case h_2 => exact ih

theorem insert_ne (a : StringAlloc) (r : RawTile) : c.insert a r ≠ .error .levelSubscript := by
  unfold insert
  split
  case isTrue => exact nofun
  case isFalse =>
    dsimp only
    split
    case h_1 f htouch =>
      intro h
      cases h
      exact touch_ne _ htouch
    case h_2 => exact evict_ne _
    case h_3 =>
      split
      case h_1 f hderef =>
        intro h
        cases h
        exact deref_ne _ hderef
      case h_2 =>
        split
        case isFalse => exact nofun
        case isTrue =>
          split
          case h_1 f hremove =>
            intro h
            cases h
            exact removeAt_ne _ _ hremove
          case h_2 => exact evict_ne _

theorem getTile_ne (f : Text) (r t h v : Int32) (ct : CompressionType) (q : Int32) :
    c.getTile f r t h v ct q ≠ .error .levelSubscript := by
  unfold getTile
  split
  case isTrue => exact nofun
  case isFalse =>
    dsimp only
    split
    case h_1 => exact nofun
    case h_2 =>
      split
      case h_1 f htouch =>
        intro h
        cases h
        exact touch_ne _ htouch
      case h_2 =>
        split
        case h_1 f hderef =>
          intro h
          cases h
          exact deref_ne _ hderef
        case h_2 => exact nofun

end Cache

/-- The fault of a level outside a vector. -/
abbrev Failure.level : Failure := .fault .levelSubscript

section

variable {K : Codec} {E : Encoder} {q : Request}

theorem decode_ne : decode K q ≠ .error .level := by
  unfold decode
  split <;> exact nofun

theorem cropEdge_ne (im : ImageInfo) (t : RawTile) : cropEdge im t ≠ .error .level := by
  unfold cropEdge
  split
  case isFalse => exact nofun
  case isTrue =>
    unfold crop
    dsimp only
    split
    case isTrue => exact nofun
    case isFalse => split <;> exact nofun

theorem mapError_thrown_ne {α : Type} (x : Except String α) :
    x.mapError Failure.thrown ≠ .error .level := by
  cases x <;> exact nofun

theorem map_ne {α β : Type} {x : Except Failure α} {f : α → β} (hx : x ≠ .error .level) :
    x.map f ≠ .error .level := by
  cases x with
  | ok a => exact nofun
  | error e =>
    intro h
    cases h
    exact hx rfl

theorem compress_ne (ct : CompressionType) (quality : Int32) (t : RawTile) :
    compress E ct quality t ≠ .error .level := by
  unfold compress
  split
  case h_1 =>
    refine map_ne ?_
    unfold jpegBytes
    split
    case isTrue => exact nofun
    case isFalse =>
      split
      case isTrue => exact nofun
      case isFalse => exact mapError_thrown_ne _
  case h_2 =>
    refine map_ne ?_
    unfold pngBytes
    split
    case isTrue => exact nofun
    case isFalse => exact mapError_thrown_ne _
  all_goals exact nofun

theorem bind_ne {α β : Type} {x : Except Failure α} {f : α → Except Failure β}
    (hx : x ≠ .error .level) (hf : ∀ a, f a ≠ .error .level) : (x >>= f) ≠ .error .level := by
  intro h
  rcases bind_eq_error h with herror | ⟨a, -, herror⟩
  · exact hx herror
  · exact hf a herror

theorem newTile_ne : newTile K E q ≠ .error .level := by
  refine bind_ne (bind_ne decode_ne fun t => cropEdge_ne _ t) fun t => ?_
  split
  case isTrue => exact compress_ne _ _ t
  case isFalse => exact nofun

theorem fromCache_ne (t : RawTile) : fromCache K E q t ≠ .error .level := by
  unfold fromCache
  split
  case isTrue => exact bind_ne (cropEdge_ne _ _) fun t => compress_ne _ _ t
  case isFalse => exact nofun

theorem Manager.avoids_cached (i : TileId) (c : Cache) : Avoids .level (Manager.cached i) c := by
  intro c' h
  unfold Manager.cached at h
  split at h
  case h_1 => cases h
  case h_2 f hget =>
    cases h
    exact Cache.getTile_ne _ _ _ _ _ _ _ hget

theorem Manager.avoids_insert (a : StringAlloc) (t : RawTile) (c : Cache) :
    Avoids .level (Manager.insert a t) c := by
  intro c' h
  unfold Manager.insert at h
  split at h
  case h_1 => cases h
  case h_2 f hinsert =>
    cases h
    exact Cache.insert_ne _ _ hinsert

theorem Manager.avoids_ofExcept_iff {α : Type} {x : Except Failure α} {c : Cache} :
    Avoids .level (Manager.ofExcept x) c ↔ x ≠ .error .level := by
  cases x with
  | ok a => exact iff_of_true (Avoids.of_ok rfl) nofun
  | error e =>
    have herror : Manager.ofExcept (.error e : Except Failure α) c = .error e c := rfl
    rw [Avoids.iff_of_error herror, ne_eq, ne_eq, Except.error.injEq]

theorem avoids_lookupTile (c : Cache) : Avoids .level (lookupTile q) c := by
  unfold lookupTile
  split
  case h_3 => exact Manager.avoids_cached _ c
  case h_4 => exact Avoids.pure none
  all_goals
    refine Avoids.bind_iff.mpr ⟨Manager.avoids_cached _ c, fun out c' _ => ?_⟩
    cases out with
    | some t => exact Avoids.pure _
    | none => exact Manager.avoids_cached _ c'

/-- The end of both paths that put a tile into the cache. -/
theorem avoids_file (a : StringAlloc) {x : Except Failure RawTile} (hx : x ≠ .error .level)
    (f : RawTile → RawTile) (c : Cache) :
    Avoids .level
      (do
        let t ← .ofExcept x
        .insert a t
        return f t : Manager RawTile) c := by
  refine Avoids.bind_iff.mpr ⟨Manager.avoids_ofExcept_iff.mpr hx, fun t c' _ => ?_⟩
  exact (Avoids.bind_iff_left fun _ _ => Avoids.pure _).mpr (Manager.avoids_insert a t c')

theorem avoids_getTile (a : StringAlloc) (c : Cache) : Avoids .level (getTile K E a q) c := by
  have hnew (c : Cache) : Avoids .level (getNewTile K E a q) c := by
    rw [getNewTile_eq]
    exact avoids_file a newTile_ne id c
  refine Avoids.bind_iff.mpr ⟨avoids_lookupTile c, fun out c' _ => ?_⟩
  cases out with
  | none => exact hnew c'
  | some t =>
    dsimp only
    split
    case isTrue => exact hnew c'
    case isFalse =>
      split
      case isTrue hconv =>
        rw [convert_eq hconv]
        exact avoids_file a (fromCache_ne t) RawTile.copy c'
      case isFalse => exact Avoids.pure _

end

/-! ## 3. Tasks -/

/-- The task uses no level outside a vector. -/
def Task.LevelsInside {α : Type} (x : Task α) (s : Session) : Prop :=
  Avoids (.fault .levelSubscript) x s

namespace Task

variable {α β : Type} {S : Server} {s : Session}

theorem stop_ne_iff {e : Failure} : stop S e ≠ .fault .levelSubscript ↔ e ≠ .level := by
  cases e with
  | fault f => simp [stop]
  | thrown m => simp [stop]

theorem levelsInside_ofExcept_iff {x : Except Failure α} :
    LevelsInside (ofExcept S x) s ↔ x ≠ .error .level := by
  cases x with
  | ok a => exact iff_of_true (Avoids.of_ok rfl) nofun
  | error e =>
    have hstop : ofExcept S (.error e : Except Failure α) s = .error (stop S e) s := rfl
    rw [LevelsInside, Avoids.iff_of_error hstop, stop_ne_iff, ne_eq, ne_eq, Except.error.injEq]

theorem levelsInside_ofExcept_bind_iff {x : Except Failure α} {f : α → Task β} :
    LevelsInside (ofExcept S x >>= f) s ↔
      x ≠ .error .level ∧ ∀ a, x = .ok a → LevelsInside (f a) s := by
  refine Avoids.bind_iff.trans (and_congr levelsInside_ofExcept_iff ?_)
  constructor
  · rintro h a rfl
    exact h a s rfl
  · intro h a s' heq
    cases x with
    | error e => cases heq
    | ok b =>
      cases heq
      exact h a rfl

theorem levelsInside_manage_iff {m : Manager α} :
    LevelsInside (manage S m) s ↔ Avoids .level m s.tileCache := by
  cases hm : m s.tileCache with
  | ok a c =>
    have hok : manage S m s = .ok a { s with tileCache := c } := by
      unfold manage
      rw [hm]
    exact iff_of_true (Avoids.of_ok hok) (Avoids.of_ok hm)
  | error e c =>
    have hstop : manage S m s = .error (stop S e) { s with tileCache := c } := by
      unfold manage
      rw [hm]
    rw [LevelsInside, Avoids.iff_of_error hstop, Avoids.iff_of_error hm, stop_ne_iff]

end Task

namespace Server

variable (S : Server)

/-- A tile that is decoded has its level inside the vectors of the object. -/
def LevelInside (im : Opened) (q : Request) (c : Cache) : Prop :=
  q.decodes c → im.LevelInside S.disk q.xangle.toInt q.yangle.toInt q.resolution.toUInt32.toNat

variable {S}

/-- **One tile.** -/
theorem levelsInside_tile_iff {im : Opened} {q : Request} {s : Session} :
    Task.LevelsInside (S.tile im q) s ↔ S.LevelInside im q s.tileCache := by
  have hget : (get : Manager Cache) s.tileCache = .ok s.tileCache s.tileCache := rfl
  have hover : S.Overruns im q s.tileCache ↔ ¬ S.LevelInside im q s.tileCache := by
    unfold Overruns LevelInside
    rw [Opened.overruns_iff, Classical.not_imp]
  rw [tile, Task.levelsInside_manage_iff, tileOf, Avoids.bind_iff_of_ok hget]
  split
  case isTrue h => exact iff_of_false (fun ha => Avoids.throw_iff.mp ha rfl) (hover.mp h)
  case isFalse h =>
    refine iff_of_true ?_ (not_not.mp fun hout => h (hover.mpr hout))
    exact (Avoids.bind_iff_left fun _ _ => Avoids.pure _).mpr (avoids_getTile S.alloc _)

end Server

namespace JTL

variable {S : Server} {im : Opened} {s : Session} {resolution tile : Int32}

theorem remap_ne_iff {im : ImageInfo} {v : View} :
    remap im v resolution tile ≠ .error .level ↔ (Turned v → Within im resolution) := by
  by_cases hturned : Turned v
  · rw [imp_iff_right hturned]
    by_cases hin : Within im resolution
    · obtain ⟨size, hsize⟩ := levelSize_of_within hin
      refine iff_of_true ?_ hin
      unfold remap
      dsimp only
      rw [if_pos (show _ = _ from hturned), hsize]
      dsimp only
      split <;> exact nofun
    · exact iff_of_false (fun h => h (remap_of_not_within hturned hin)) hin
  · refine iff_of_true ?_ fun h => absurd h hturned
    rw [remap_of_not_turned hturned]
    exact nofun

theorem deliver_ne (t : RawTile) : deliver S s im t ≠ .error .level := by
  have hoperations : (transforms (S.processor (s.settings im)) im.info s.view im.base.histogram
      t).2 ≠ .error .level := by
    unfold transforms
    dsimp only
    split
    case h_2 => exact nofun
    case h_1 e hops =>
      intro h
      cases h
      unfold floatOps at hops
      split at hops
      case isTrue => cases hops
      case isFalse =>
        split at hops
        case isFalse => cases hops
        case isTrue => split at hops <;> cases hops
  unfold deliver
  dsimp only
  refine bind_ne hoperations fun v => ?_
  split
  case isTrue => exact bind_ne (compress_ne _ _ _) fun _ => nofun
  case isFalse => exact nofun

/-- The numbers that go through the tests of `JTL::send`, with the number of the tile in the
turned image. -/
structure Passes (im : Opened) (v : View) (resolution tile tile' : Int32) : Prop where
  remap : remap im.info v resolution tile = .ok tile'
  resolution : 0 ≤ resolution
  tile : 0 ≤ tile'

/-- **What keeps the levels of `JTL::send` inside.**  In a turned view the level is used before
anything is tested.  The smallest tile is fetched if a histogram is wanted.  The size of the level
is read on the object that this leaves, and the tile is fetched from it. -/
structure Inside (S : Server) (resolution tile : Int32) (im : Opened) (s : Session) : Prop where
  turned : Turned s.view → Within im.info resolution
  histogram : ∀ tile', Passes im s.view resolution tile tile' → s.view.requireHistogram →
    im.base.histogram = [] →
    S.LevelInside im (thumbnailRequest (S.image im) s.view) s.tileCache
  size : ∀ tile' im₁ s₁, Passes im s.view resolution tile tile' →
    S.withHistogram s.view.requireHistogram im s = .ok im₁ s₁ → Within im₁.info resolution
  tile : ∀ tile' im₁ s₁, Passes im s.view resolution tile tile' →
    S.withHistogram s.view.requireHistogram im s = .ok im₁ s₁ →
    S.LevelInside im₁ (sendRequest (S.image im₁) im₁.info s.view s.quality resolution tile')
      s₁.tileCache

theorem levelsInside_withHistogram_iff {wanted : Bool} :
    Task.LevelsInside (S.withHistogram wanted im) s ↔ (wanted → im.base.histogram = [] →
      S.LevelInside im (thumbnailRequest (S.image im) s.view) s.tileCache) := by
  unfold Server.withHistogram
  split
  case isFalse h => exact iff_of_true (Avoids.pure im) fun hw he => absurd ⟨hw, he⟩ h
  case isTrue h =>
    have hget : (get : Task Session) s = .ok s s := rfl
    rw [imp_iff_right h.1, imp_iff_right h.2, Server.addHistogram, Task.LevelsInside,
      Avoids.bind_iff_of_ok hget]
    refine (Avoids.bind_iff_left fun r s' => ?_).trans Server.levelsInside_tile_iff
    exact (Avoids.bind_iff_left fun _ _ => Avoids.pure _).mpr (Avoids.modify _)

/-- The size of the level, then the tile. -/
theorem levelsInside_sized_iff {q : Request} :
    Task.LevelsInside (match levelSize im.info resolution with
      | none => throw (.fault .levelSubscript)
      | some _ => S.tile im q) s ↔ Within im.info resolution ∧ S.LevelInside im q s.tileCache := by
  by_cases hin : Within im.info resolution
  · obtain ⟨size, hsize⟩ := levelSize_of_within hin
    rw [hsize, and_iff_right hin]
    exact Server.levelsInside_tile_iff
  · rw [levelSize_of_not_within hin]
    exact iff_of_false (fun h => Avoids.throw_iff.mp h rfl) fun h => hin h.1

/-- **`JTL::send`, up to the tile.** -/
theorem levelsInside_fetch_iff :
    Task.LevelsInside (fetch S resolution tile im) s ↔ Inside S resolution tile im s := by
  have hget : (get : Task Session) s = .ok s s := rfl
  rw [fetch, Task.LevelsInside, Avoids.bind_iff_of_ok hget]
  refine Task.levelsInside_ofExcept_bind_iff.trans ?_
  rw [remap_ne_iff]
  constructor
  · rintro ⟨hturned, hrest⟩
    have hpassed {tile' : Int32} (hp : Passes im s.view resolution tile tile') := by
      have hbody := hrest tile' hp.remap
      rw [if_neg (not_or.mpr ⟨Int32.not_lt.mpr hp.resolution, Int32.not_lt.mpr hp.tile⟩)] at hbody
      exact Avoids.bind_iff.mp hbody
    refine ⟨hturned, fun tile' hp => ?_, fun tile' im₁ s₁ hp hhist => ?_,
      fun tile' im₁ s₁ hp hhist => ?_⟩
    · exact levelsInside_withHistogram_iff.mp (hpassed hp).1
    · exact (levelsInside_sized_iff.mp ((hpassed hp).2 im₁ s₁ hhist)).1
    · exact (levelsInside_sized_iff.mp ((hpassed hp).2 im₁ s₁ hhist)).2
  · intro h
    refine ⟨h.turned, fun tile' hremap => ?_⟩
    split
    case isTrue => exact Avoids.throw_iff.mpr nofun
    case isFalse hpos =>
      obtain ⟨hres, htile⟩ := not_or.mp hpos
      have hp : Passes im s.view resolution tile tile' :=
        ⟨hremap, Int32.not_lt.mp hres, Int32.not_lt.mp htile⟩
      refine Avoids.bind_iff.mpr ⟨?_, fun im₁ s₁ hhist => ?_⟩
      · exact levelsInside_withHistogram_iff.mpr (h.histogram tile' hp)
      · exact levelsInside_sized_iff.mpr
          ⟨h.size tile' im₁ s₁ hp hhist, h.tile tile' im₁ s₁ hp hhist⟩

/-- What follows the tile has no levels. -/
theorem levelsInside_task_iff :
    Task.LevelsInside (task S resolution tile im) s ↔ Inside S resolution tile im s := by
  have hget (s : Session) : (get : Task Session) s = .ok s s := rfl
  have hreply (r : Opened × RawTile) (s : Session) : Task.LevelsInside (reply S r) s :=
    Avoids.of_ok rfl
  have hdeliver (r : Opened × RawTile) (s : Session) : Task.LevelsInside (do
      let s ← get
      let d ← Task.ofExcept S (deliver S s r.1 r.2)
      Task.modifyView fun _ => d.2
      return (r.1, d.1)) s := by
    rw [Task.LevelsInside, Avoids.bind_iff_of_ok (hget s)]
    refine Task.levelsInside_ofExcept_bind_iff.mpr ⟨deliver_ne r.2, fun d _ => ?_⟩
    exact Avoids.of_ok rfl
  refine (Avoids.bind_iff_left hreply).trans ?_
  exact (Avoids.bind_iff_left hdeliver).trans levelsInside_fetch_iff

end JTL

namespace TIL

variable {S : Server} {im : Opened} {s : Session} {resolution startTile endTile : Int32}

theorem range_ne_iff {im : ImageInfo} :
    range im resolution startTile endTile ≠ .error .level ↔ Within im resolution := by
  unfold range
  by_cases hin : Within im resolution
  · obtain ⟨size, hsize⟩ := levelSize_of_within hin
    rw [hsize]
    refine iff_of_true ?_ hin
    dsimp only
    split <;> exact nofun
  · rw [levelSize_of_not_within hin]
    exact iff_of_false (fun h => h rfl) hin

/-- The session in which the tiles are sent: with the header, unless there are none. -/
def started (S : Server) (s : Session) (im : Opened) (numbers : List Int) : Session :=
  if numbers ≠ [] then s.write (header S s im) else s

/-- **What keeps the levels of `TIL::run` inside**: the level whose size is read, and that of each
tile, on the object that the tiles before it have left. -/
structure Inside (S : Server) (resolution startTile endTile : Int32) (im : Opened)
    (s : Session) : Prop where
  size : Within im.info resolution
  tile : ∀ front n back,
    range im.info resolution startTile endTile = .ok (front ++ n :: back) →
    ∀ im₁ s₁, front.foldlM (sendTile S s resolution) im (started S s im (front ++ n :: back))
        = .ok im₁ s₁ →
      S.LevelInside im₁ (request S s im₁ resolution n) s₁.tileCache

theorem levelsInside_sendTile_iff {s₀ : Session} {n : Int} :
    Task.LevelsInside (sendTile S s₀ resolution im n) s ↔
      S.LevelInside im (request S s₀ im resolution n) s.tileCache :=
  (Avoids.bind_iff_left fun _ _ => Avoids.of_ok rfl).trans Server.levelsInside_tile_iff

/-- The tiles of the range, from the header on. -/
theorem levelsInside_tiles_iff {numbers : List Int} :
    Task.LevelsInside (do
      if numbers ≠ [] then Task.write (header S s im)
      let im ← numbers.foldlM (sendTile S s resolution) im
      Task.modifyResponse .setImageSent
      return im) s ↔
    ∀ front n back, numbers = front ++ n :: back →
      ∀ im₁ s₁, front.foldlM (sendTile S s resolution) im (started S s im numbers) = .ok im₁ s₁ →
        S.LevelInside im₁ (request S s im₁ resolution n) s₁.tileCache := by
  have hloop (s' : Session) : Task.LevelsInside (do
      let im ← numbers.foldlM (sendTile S s resolution) im
      Task.modifyResponse .setImageSent
      return im) s' ↔
      ∀ front n back, numbers = front ++ n :: back →
        ∀ im₁ s₁, front.foldlM (sendTile S s resolution) im s' = .ok im₁ s₁ →
          S.LevelInside im₁ (request S s im₁ resolution n) s₁.tileCache := by
    refine (Avoids.bind_iff_left fun _ _ => Avoids.of_ok rfl).trans (Avoids.foldlM_iff.trans ?_)
    simp only [← levelsInside_sendTile_iff]
    rfl
  unfold started
  dsimp only
  split
  case isTrue =>
    have hwrite : Task.write (header S s im) s = .ok () (s.write (header S s im)) := rfl
    exact (Avoids.bind_iff_of_ok hwrite).trans (hloop _)
  case isFalse => exact hloop s

/-- **`TIL::run`.** -/
theorem levelsInside_task_iff :
    Task.LevelsInside (task S resolution startTile endTile im) s ↔
      Inside S resolution startTile endTile im s := by
  have hget : (get : Task Session) s = .ok s s := rfl
  rw [task, Task.LevelsInside, Avoids.bind_iff_of_ok hget]
  refine Task.levelsInside_ofExcept_bind_iff.trans ?_
  rw [range_ne_iff]
  constructor
  · rintro ⟨hsize, htiles⟩
    refine ⟨hsize, fun front n back hrange => ?_⟩
    exact levelsInside_tiles_iff.mp (htiles _ hrange) front n back rfl
  · rintro ⟨hsize, htile⟩
    refine ⟨hsize, fun numbers hrange => levelsInside_tiles_iff.mpr ?_⟩
    rintro front n back rfl
    exact htile front n back hrange

end TIL

namespace Zoomify

variable {S : Server} {im : Opened} {s : Session} {resolution x y : Int32}

/-- **What keeps the levels of `Zoomify::run` inside**: those it counts, the one it computes the
number of the tile in, and those of `JTL::send`. -/
structure Inside (S : Server) (resolution x y : Int32) (im : Opened) (s : Session) : Prop where
  counts : Counts im.base
  size : Within im.info (level im.info resolution)
  tile : ∀ w h, JTL.levelSize im.info (level im.info resolution) = some (w, h) →
    im.base.tileWidth ≠ 0 →
    JTL.Inside S (level im.info resolution)
      (tileIndex (Iipsrv.numTiles w im.base.tileWidth) x y) im s

theorem levelsInside_count_iff {im : IIPImage} :
    Task.LevelsInside (count im) s ↔ Counts im := by
  unfold count
  split
  case isTrue h => exact iff_of_true (Avoids.pure ()) h
  case isFalse h => exact iff_of_false (fun ha => Avoids.throw_iff.mp ha rfl) h

theorem levelsInside_tileAt_bind_iff {α : Type} {level : Int32} {f : Int32 → Task α} :
    Task.LevelsInside (Task.tileAt im level x y >>= f) s ↔ Within im.info level ∧
      ∀ w h, JTL.levelSize im.info level = some (w, h) → im.base.tileWidth ≠ 0 →
        Task.LevelsInside (f (tileIndex (Iipsrv.numTiles w im.base.tileWidth) x y)) s := by
  unfold Task.tileAt
  by_cases hin : Within im.info level
  · obtain ⟨⟨w, h⟩, hsize⟩ := levelSize_of_within hin
    rw [hsize, and_iff_right hin]
    dsimp only
    by_cases hzero : im.base.tileWidth = 0
    · rw [if_pos hzero]
      refine iff_of_true ?_ fun _ _ _ hne => absurd hzero hne
      exact Avoids.throw_iff.mpr nofun
    · rw [if_neg hzero]
      constructor
      · rintro hf _ _ ⟨⟩ -
        exact hf
      · intro hf
        exact hf w h rfl hzero
  · rw [levelSize_of_not_within hin]
    exact iff_of_false (fun h => Avoids.throw_iff.mp h rfl) fun h => hin h.1

/-- **`Zoomify::run`, behind `FIF`.** -/
theorem levelsInside_send_iff :
    Task.LevelsInside (do
      count im.base
      send S resolution x y im) s ↔ Inside S resolution x y im s := by
  have hsend : Task.LevelsInside (send S resolution x y im) s ↔
      Within im.info (level im.info resolution) ∧ _ := levelsInside_tileAt_bind_iff
  by_cases hcounts : Counts im.base
  · have hcount : count im.base s = .ok () s := by
      unfold count
      rw [if_pos hcounts]
      rfl
    refine (Avoids.bind_iff_of_ok hcount).trans (hsend.trans ?_)
    simp only [JTL.levelsInside_task_iff]
    exact ⟨fun h => ⟨hcounts, h.1, h.2⟩, fun h => ⟨h.size, h.tile⟩⟩
  · refine iff_of_false (fun h => ?_) fun h => hcounts h.counts
    exact hcounts (levelsInside_count_iff.mp (Avoids.bind_iff.mp h).1)

end Zoomify

namespace SPECTRA

variable {S : Server} {s : Session} {resolution tile x y : Int32}

/-- The loop over the bands, each on the object that the tile before has left, up to a tile that
does not have the point. -/
def InsideBands (S : Server) (s₀ : Session) (resolution tile x y : Int32) :
    List Int → Opened → Session → Prop
  | [], _, _ => True
  | n :: views, im, s =>
    S.LevelInside im (request S s₀ im resolution tile n) s.tileCache ∧
      ∀ im₁ t s₁, S.tile im (request S s₀ im resolution tile n) s = .ok (im₁, t) s₁ →
        ¬ (Int32.ofNat t.width ≤ x ∨ Int32.ofNat t.height ≤ y) →
        InsideBands S s₀ resolution tile x y views im₁ (s₁.write (point S n t (index im₁ x y)))

theorem levelsInside_bands_iff {s₀ : Session} {im : Opened} {views : List Int} :
    Task.LevelsInside (bands S s₀ resolution tile x y im views) s ↔
      InsideBands S s₀ resolution tile x y views im s := by
  induction views generalizing im s with
  | nil => exact iff_of_true (Avoids.pure im) trivial
  | cons n views ih =>
    refine Avoids.bind_iff.trans (and_congr Server.levelsInside_tile_iff ?_)
    rw [Prod.forall]
    refine forall_congr' fun im₁ => forall_congr' fun t => forall_congr' fun s₁ => ?_
    refine imp_congr_right fun _ => ?_
    dsimp only
    split
    case isTrue hout => exact iff_of_true (Avoids.pure im₁) fun hin => absurd hout hin
    case isFalse hin =>
      rw [imp_iff_right hin, ← ih]
      have hwrite : Task.write (point S n t (index im₁ x y)) s₁
          = .ok () (s₁.write (point S n t (index im₁ x y))) := rfl
      exact Avoids.bind_iff_of_ok hwrite

/-- The text in front of the bands. -/
def started (S : Server) (s : Session) (im : Opened) : Session :=
  (s.write (s.response.createHTTPHeader S.version (str "xml") (S.timestamp im) 0)).write
    (str "<?xml version=\"1.0\" encoding=\"UTF-8\"?>\n<spectra>\n")

/-- **What keeps the levels of `SPECTRA::run` inside**: a point outside the tile, or the levels of
the bands. -/
def Inside (S : Server) (resolution tile x y : Int32) (im : Opened) (s : Session) : Prop :=
  x < 0 ∨ outside im x y ∨
    InsideBands S s resolution tile x y im.base.horizontalAnglesList im (started S s im)

/-- **`SPECTRA::run`.** -/
theorem levelsInside_task_iff {im : Opened} :
    Task.LevelsInside (if x < 0 then Task.raise rejected else task S resolution tile x y im) s ↔
      Inside S resolution tile x y im s := by
  unfold Inside
  split
  case isTrue hneg => exact iff_of_true (Avoids.throw_iff.mpr nofun) (.inl hneg)
  case isFalse hpos =>
    have hget : (get : Task Session) s = .ok s s := rfl
    rw [or_iff_right hpos, task, Task.LevelsInside, Avoids.bind_iff_of_ok hget]
    split
    case isTrue hout => exact iff_of_true (Avoids.throw_iff.mpr nofun) (.inl hout)
    case isFalse hin =>
      rw [or_iff_right hin]
      have hheader : Task.write (s.response.createHTTPHeader S.version (str "xml")
          (S.timestamp im) 0) s = .ok () (s.write _) := rfl
      refine (Avoids.bind_iff_of_ok hheader).trans ?_
      have hopening : Task.write _ (s.write _) = .ok () (started S s im) := rfl
      refine (Avoids.bind_iff_of_ok hopening).trans ?_
      exact (Avoids.bind_iff_left fun _ _ => Avoids.of_ok rfl).trans levelsInside_bands_iff

end SPECTRA

/-! ## 4. Requests -/

/-- The requests that carry a level, with the numbers of the client. -/
inductive TileRequest
  | jtl (resolution tile : Int32)
  | ptl (resolution tile : Int32)
  | jtls (xangle resolution tile yangle : Int32)
  | til (resolution startTile endTile : Int32)
  | zoomify (resolution x y : Int32)
  | spectra (resolution tile x y : Int32)

namespace TileRequest

/-- What a request does with the open image. -/
def task (S : Server) (im : Opened) : TileRequest → Task Opened
  | jtl r t => JTL.task S r t im
  | ptl r t => do
    Task.modifyView fun v => { v with outputFormat := .png }
    JTL.task S r t im
  | jtls xangle r t yangle => do
    Task.modifyView fun v => { v with xangle := xangle, yangle := yangle }
    JTL.task S r t im
  | til r a b => TIL.task S r a b im
  | zoomify r x y => do
    Zoomify.count im.base
    Zoomify.send S r x y im
  | spectra r t x y =>
    if x < 0 then Task.raise SPECTRA.rejected else SPECTRA.task S r t x y im

/-- What keeps the levels of a request inside. -/
def Inside (S : Server) (im : Opened) (s : Session) : TileRequest → Prop
  | jtl r t => JTL.Inside S r t im s
  | ptl r t => JTL.Inside S r t im { s with view := { s.view with outputFormat := .png } }
  | jtls xangle r t yangle =>
    JTL.Inside S r t im { s with view := { s.view with xangle := xangle, yangle := yangle } }
  | til r a b => TIL.Inside S r a b im s
  | zoomify r x y => Zoomify.Inside S r x y im s
  | spectra r t x y => SPECTRA.Inside S r t x y im s

/-- **No level outside a vector is used** exactly in the requests that are `Inside`. -/
theorem subscripts_inside_iff (S : Server) (im : Opened) (s : Session) (q : TileRequest) :
    (∀ s', q.task S im s ≠ .error (.fault .levelSubscript) s') ↔ q.Inside S im s := by
  cases q with
  | jtl r t => exact JTL.levelsInside_task_iff
  | ptl r t =>
    have hview : Task.modifyView (fun v => { v with outputFormat := .png }) s
        = .ok () { s with view := { s.view with outputFormat := .png } } := rfl
    exact (Avoids.bind_iff_of_ok hview).trans JTL.levelsInside_task_iff
  | jtls xangle r t yangle =>
    have hview : Task.modifyView (fun v => { v with xangle := xangle, yangle := yangle }) s
        = .ok () { s with view := { s.view with xangle := xangle, yangle := yangle } } := rfl
    exact (Avoids.bind_iff_of_ok hview).trans JTL.levelsInside_task_iff
  | til r a b => exact TIL.levelsInside_task_iff
  | zoomify r x y => exact Zoomify.levelsInside_send_iff
  | spectra r t x y => exact SPECTRA.levelsInside_task_iff

/-- A TIFF of one level, opened. -/
def oneLevel : Opened := .tpt (TPTImage.loadImageInfo (greyTiff 4) (.ofIIPImage (.new ['a'])) 0 90)

/-- **`JTL=1,0` on an image of one level.** -/
theorem jtl_overruns :
    oneLevel.base.numResolutions = 1 ∧
      ∃ s', (jtl 1 0).task (smallServer fun _ => none) oneLevel freshSession
        = .error (.fault .levelSubscript) s' :=
  ⟨rfl, _, rfl⟩

end TileRequest

end Iipsrv
