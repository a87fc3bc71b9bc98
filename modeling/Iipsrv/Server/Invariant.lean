/-
# What every command keeps

The two caches outlive a request, and a request can end in the middle of anything.  What the next
one needs of them is therefore not a postcondition of the handlers but an invariant of every step,
whether it ends or fails.

The handlers reach the caches in three ways only: the tile manager, `FIF` and the histogram.  A
property that these keep (`CacheInvariant`) is kept by every task (sections 2 to 4), by every
command (`Command.kept_run`) and by every request (`CacheInvariant.serve`).
-/
import Iipsrv.Lib.Triple
import Iipsrv.Server.Main

namespace Iipsrv

open Lib.Print (Text)
open Lib.Str Lib.Effects

/-! ## 1. Invariants of the caches -/

/-- A property of the two caches. -/
abbrev CacheProperty := FIF.ImageCache → Cache → Prop

/-- The caches of a session have the property. -/
def Session.Caches (C : CacheProperty) (s : Session) : Prop := C s.imageCache s.tileCache

/-- The caches of a connection. -/
def Connection.Caches (C : CacheProperty) (c : Connection) : Prop := c.session.Caches C

/-- The caches of a server between two requests. -/
def ServerState.Caches (C : CacheProperty) (σ : ServerState) : Prop := C σ.imageCache σ.tileCache

/-- A property of the caches that nothing which touches them breaks. -/
structure CacheInvariant (S : Server) (C : CacheProperty) : Prop where
  getTile : ∀ images K q, Keeps (C images) (Iipsrv.getTile K S.encoder S.alloc q)
  openImage : ∀ {images tiles} path, C images tiles →
    C (FIF.run S.disk S.openjpeg S.first path images).2 tiles
  setHistogram : ∀ {images tiles} path histogram, C images tiles →
    C (images.setHistogram path histogram) tiles

/-- The task keeps the property of the caches. -/
abbrev Task.Kept {α : Type} (C : CacheProperty) (x : Task α) : Prop := Keeps (Session.Caches C) x

namespace Task.Kept

variable {α β : Type} {C : CacheProperty} {S : Server}

/-- A change of the session that leaves both caches as they are. -/
theorem apart {f : Session → Session}
    (hf : ∀ s, (f s).imageCache = s.imageCache ∧ (f s).tileCache = s.tileCache) :
    Task.Kept C (modify f) := by
  refine Keeps.modify fun s hs => ?_
  rw [Session.Caches, (hf s).1, (hf s).2]
  exact hs

theorem write (t : Text) : Task.Kept C (Task.write t) := apart fun _ => ⟨rfl, rfl⟩

theorem reply (t : Text) : Task.Kept C (Task.reply t) := apart fun _ => ⟨rfl, rfl⟩

theorem modifyView (f : View → View) : Task.Kept C (Task.modifyView f) := apart fun _ => ⟨rfl, rfl⟩

theorem modifyResponse (f : IIPResponse → IIPResponse) : Task.Kept C (Task.modifyResponse f) :=
  apart fun _ => ⟨rfl, rfl⟩

theorem ofExcept (x : Except Failure α) : Task.Kept C (Task.ofExcept S x) := by
  intro s hs
  cases x with
  | ok a => exact hs
  | error e => exact hs

theorem manage {m : Manager α} (hm : ∀ images, Keeps (C images) m) :
    Task.Kept C (Task.manage S m) := by
  intro s hs
  have hstep := hm s.imageCache s.tileCache hs
  unfold Task.manage
  cases hres : m s.tileCache with
  | ok a c =>
    rw [hres] at hstep
    exact hstep
  | error e c =>
    rw [hres] at hstep
    exact hstep

end Task.Kept

section

variable {S : Server} {C : CacheProperty} (hC : CacheInvariant S C)
include hC

/-! ## 2. Tiles and regions -/

theorem Server.keeps_tileOf (images : FIF.ImageCache) (im : Opened) (q : Request) :
    Keeps (C images) (S.tileOf im q) := by
  refine .get_bind fun c => ?_
  split
  case isTrue => exact .throw _
  case isFalse => exact (hC.getTile images _ q).bind fun t => .pure _

theorem Server.kept_tile (im : Opened) (q : Request) : Task.Kept C (S.tile im q) :=
  .manage fun images => Server.keeps_tileOf hC images im q

theorem Server.keeps_composeTile (images : FIF.ImageCache) (res seq ang layers : Int32)
    (g : Composition) (i : Nat) (p : Opened × Composed) (j : Nat) :
    Keeps (C images) (S.composeTile res seq ang layers g i p j) := by
  refine (Server.keeps_tileOf hC images p.1 _).bind fun r => ?_
  refine Keeps.bind ?_ fun st => .pure _
  cases composePart g i j r.2 p.2 with
  | ok st => exact .pure st
  | error e => exact .throw e

theorem Server.keeps_regionOf (images : FIF.ImageCache) (im : Opened)
    (res seq ang layers : Int32) (x y width height : Nat) :
    Keeps (C images) (S.regionOf im res seq ang layers x y width height) := by
  unfold Server.regionOf
  dsimp only
  split
  case isTrue =>
    split
    case h_1 => exact .throw _
    case h_2 => exact .pure _
  case isFalse =>
    split
    case h_1 => exact .throw _
    case h_2 =>
      split
      case isTrue => exact .throw _
      case isFalse =>
        refine Keeps.bind (.foldlM fun p i => ?_) fun r => .pure _
        refine Keeps.bind (.foldlM fun p j => ?_) fun r => .pure _
        exact Server.keeps_composeTile hC images res seq ang layers _ i p j

theorem Server.kept_region (im : Opened) (res seq ang layers : Int32) (x y w h : Nat) :
    Task.Kept C (S.region im res seq ang layers x y w h) :=
  .manage fun images => Server.keeps_regionOf hC images im res seq ang layers x y w h

theorem Server.kept_withHistogram (wanted : Bool) (im : Opened) :
    Task.Kept C (S.withHistogram wanted im) := by
  unfold Server.withHistogram
  split
  case isFalse => exact .pure im
  case isTrue =>
    refine .get_bind fun s => (Server.kept_tile hC im _).bind fun r => ?_
    refine Keeps.bind (Keeps.modify fun s hs => ?_) fun _ => .pure _
    exact hC.setHistogram _ _ hs

/-! ## 3. Commands that send pixels -/

theorem JTL.kept_task (resolution tile : Int32) (im : Opened) :
    Task.Kept C (JTL.task S resolution tile im) := by
  have hfetch : Task.Kept C (JTL.fetch S resolution tile im) := by
    refine .get_bind fun s => (Task.Kept.ofExcept _).bind fun n => ?_
    split
    case isTrue => exact .throw _
    case isFalse =>
      refine (Server.kept_withHistogram hC _ im).bind fun im => ?_
      split
      case h_1 => exact .throw _
      case h_2 => exact Server.kept_tile hC im _
  have hencoded : Task.Kept C (JTL.encoded S resolution tile im) := by
    refine hfetch.bind fun r => .get_bind fun s => (Task.Kept.ofExcept _).bind fun sent => ?_
    exact (Task.Kept.modifyView _).bind fun _ => .pure _
  exact hencoded.bind fun r => .get_bind fun s => (Task.Kept.reply _).bind fun _ => .pure _

theorem CVT.kept_pixels (ct : CompressionType) (e : CVT.Extraction) (im : Opened) :
    Task.Kept C (CVT.pixels S ct e im) := by
  refine .get_bind fun s => (Server.kept_withHistogram hC _ im).bind fun im => ?_
  refine (Server.kept_region hC im _ _ _ _ _ _ _ _).bind fun r => ?_
  refine (Task.Kept.ofExcept _).bind fun t => (Task.Kept.modifyView _).bind fun _ => ?_
  exact (Task.Kept.ofExcept _).bind fun head => .pure _

theorem CVT.kept_task (im : Opened) : Task.Kept C (CVT.task S im) := by
  refine .get_bind fun s => ?_
  split
  case isTrue => exact .pure im
  case isFalse =>
    refine (Task.Kept.ofExcept _).bind fun p => (Task.Kept.modifyView _).bind fun _ => ?_
    refine (Task.Kept.write _).bind fun _ => (CVT.kept_pixels hC _ _ im).bind fun r => ?_
    refine (Task.Kept.write _).bind fun _ => ?_
    refine (Keeps.forM fun p _ => Task.Kept.write _).bind fun _ => ?_
    exact (Task.Kept.reply _).bind fun _ => .pure _

theorem TIL.kept_task (resolution startTile endTile : Int32) (im : Opened) :
    Task.Kept C (TIL.task S resolution startTile endTile im) := by
  refine .get_bind fun s => (Task.Kept.ofExcept _).bind fun numbers => ?_
  have htile (im : Opened) (n : Int) : Task.Kept C (TIL.sendTile S s resolution im n) :=
    (Server.kept_tile hC im _).bind fun r => (Task.Kept.write _).bind fun _ => .pure _
  have hrest : Task.Kept C (do
      let im ← numbers.foldlM (TIL.sendTile S s resolution) im
      Task.modifyResponse .setImageSent
      return im) :=
    (Keeps.foldlM htile).bind fun im => (Task.Kept.modifyResponse _).bind fun _ => .pure im
  dsimp only
  split
  case isTrue => exact (Task.Kept.write _).bind fun _ => hrest
  case isFalse => exact hrest

theorem SPECTRA.kept_bands (s : Session) (resolution tile x y : Int32) (im : Opened)
    (views : List Int) : Task.Kept C (SPECTRA.bands S s resolution tile x y im views) := by
  induction views generalizing im with
  | nil => exact .pure im
  | cons n views ih =>
    refine (Server.kept_tile hC im _).bind fun r => ?_
    dsimp only
    split
    case isTrue => exact .pure r.1
    case isFalse => exact (Task.Kept.write _).bind fun _ => ih r.1

theorem SPECTRA.kept_task (resolution tile x y : Int32) (im : Opened) :
    Task.Kept C (SPECTRA.task S resolution tile x y im) := by
  refine .get_bind fun s => ?_
  split
  case isTrue => exact .throw _
  case isFalse =>
    refine (Task.Kept.write _).bind fun _ => (Task.Kept.write _).bind fun _ => ?_
    refine (SPECTRA.kept_bands hC s resolution tile x y im _).bind fun im => ?_
    exact (Task.Kept.reply _).bind fun _ => .pure im

theorem PFL.kept_bands (s : Session) (resolution : Int32) (p : PFL.Window) (length : Nat)
    (im : Opened) (views : List Int) :
    Task.Kept C (PFL.bands S s resolution p length im views) := by
  induction views generalizing length im with
  | nil => exact .pure _
  | cons n views ih =>
    refine (Server.kept_region hC im _ _ _ _ _ _ _ _).bind fun r => ?_
    dsimp only
    split
    case h_1 => exact .throw _
    case h_2 => exact (ih _ _).bind fun rest => .pure _

theorem PFL.kept_task (resolution x1 y1 x2 y2 : Int32) (im : Opened) :
    Task.Kept C (PFL.task S resolution x1 y1 x2 y2 im) := by
  unfold PFL.task
  split
  case isTrue => exact .throw _
  case isFalse =>
    split
    case h_1 => exact .throw _
    case h_2 =>
      split
      case isTrue => exact .throw _
      case isFalse =>
        refine .get_bind fun s => (PFL.kept_bands hC s _ _ _ im _).bind fun r => ?_
        exact (Task.Kept.reply _).bind fun _ => .pure _

/-! ## 4. Commands that open an image -/

theorem FIF.kept_lookup (path : Text) : Task.Kept C (FIF.lookup S path) := by
  intro s hs
  have hopened := hC.openImage path hs
  unfold FIF.lookup
  split
  case h_1 hrun | h_2 hrun | h_3 hrun =>
    rw [hrun] at hopened
    exact hopened

variable (h : Headers)

theorem FIF.kept_task (src : Text) : Task.Kept C (FIF.task S h src) := by
  refine (FIF.kept_lookup hC _).bind fun im => (Task.Kept.modifyResponse _).bind fun _ => ?_
  split
  case isTrue => exact .throw _
  case isFalse => exact (Task.Kept.modifyView _).bind fun _ => .pure im

omit hC in
theorem Task.kept_tileAt (im : Opened) (level x y : Int32) :
    Task.Kept C (Task.tileAt im level x y) := by
  unfold Task.tileAt
  split
  case h_1 => exact .throw _
  case h_2 =>
    split
    case isTrue => exact .throw _
    case isFalse => exact .pure _

theorem Zoomify.kept_task (argument : Text) : Task.Kept C (Zoomify.task S h argument) := by
  refine (FIF.kept_task hC h _).bind fun im => ?_
  have hcount : Task.Kept C (Zoomify.count im.base) := by
    unfold Zoomify.count
    split
    case isTrue => exact .pure ()
    case isFalse => exact .throw _
  refine hcount.bind fun _ => ?_
  split
  case isTrue => exact .throw _
  case isFalse =>
    split
    case isTrue => exact .get_bind fun s => (Task.Kept.reply _).bind fun _ => .pure im
    case isFalse => exact (Task.kept_tileAt im _ _ _).bind fun tile => JTL.kept_task hC _ _ im

theorem DeepZoom.kept_task (argument : Text) : Task.Kept C (DeepZoom.task S h argument) := by
  refine (FIF.kept_task hC h _).bind fun im => ?_
  split
  case isTrue => exact .get_bind fun s => (Task.Kept.reply _).bind fun _ => .pure im
  case isFalse =>
    split
    case h_1 => exact .throw _
    case h_2 => exact (Task.kept_tileAt im _ _ _).bind fun tile => JTL.kept_task hC _ _ im

theorem JTLExt.kept_getTile (resolution tile : Int32) (im : Opened) :
    Task.Kept C (JTLExt.getTile S resolution tile im) := by
  unfold JTLExt.getTile
  split
  case isTrue => exact .throw _
  case isFalse =>
    split
    case h_1 => exact .throw _
    case h_2 =>
      refine .get_bind fun s => (Server.kept_tile hC im _).bind fun r => ?_
      exact (Task.Kept.ofExcept _).bind fun sent => .pure _

theorem DeepZoomExt.kept_one (argument : Text) (first : Bool) (path : Text)
    (p : DeepZoomExt.Progress) : Task.Kept C (DeepZoomExt.one S h argument first path p) := by
  unfold DeepZoomExt.one
  split
  case isTrue =>
    refine (FIF.kept_task hC h path).bind fun im => ?_
    split
    case isTrue => exact .get_bind fun s => .pure _
    case isFalse =>
      split
      case h_1 => exact .throw _
      case h_2 =>
        refine (Task.kept_tileAt im _ _ _).bind fun tile => ?_
        exact (JTLExt.kept_getTile hC _ tile im).bind fun t => .pure _
  case isFalse =>
    split
    case isTrue => exact .get_bind fun s => .pure _
    case isFalse => exact .pure _

omit hC in
theorem DeepZoomExt.kept_finish (settings : DeepZoomExt.Settings) (asHeader : Bool)
    (p : DeepZoomExt.Progress) : Task.Kept C (DeepZoomExt.finish S settings asHeader p) := by
  have hsend : Task.Kept C (JTLExt.send S settings p.tiles) := by
    unfold JTLExt.send
    split
    case h_1 => exact .throw _
    case h_2 => exact .get_bind fun s => Task.Kept.reply _
  unfold DeepZoomExt.finish
  split
  case h_1 => exact .throw _
  case h_2 im _ =>
    dsimp only
    split
    case isTrue => exact (Task.Kept.reply _).bind fun _ => .pure im
    case isFalse => exact hsend.bind fun _ => .pure im

theorem DeepZoomExt.kept_respond (settings : DeepZoomExt.Settings) (argument : Text)
    (paths : List Text) (first : Bool) (path : Text) (p : DeepZoomExt.Progress) :
    Task.Kept C (DeepZoomExt.respond S h settings argument first path paths p) := by
  induction paths generalizing first path p with
  | nil =>
    exact (DeepZoomExt.kept_one hC h argument first path p).bind fun p =>
      DeepZoomExt.kept_finish settings _ p
  | cons path' paths ih =>
    exact (DeepZoomExt.kept_one hC h argument first path p).bind fun p => ih false path' p

theorem DeepZoomExt.kept_task (argument : Text) : Task.Kept C (DeepZoomExt.task S h argument) := by
  have himages : Task.Kept C (DeepZoomExt.images S h argument) := by
    unfold DeepZoomExt.images
    split
    case h_1 => exact .throw _
    case h_2 =>
      exact (Task.Kept.modifyView _).bind fun _ => DeepZoomExt.kept_respond hC h _ _ _ _ _ _
  unfold DeepZoomExt.task
  dsimp only
  split
  case isTrue => exact (Task.Kept.modifyView _).bind fun _ => himages
  case isFalse => exact himages

omit hC in
theorem IIIF.kept_negotiate : Task.Kept C (IIIF.negotiate S h) := by
  unfold IIIF.negotiate
  split
  case h_1 => exact .throw _
  case h_2 => exact .pure _
  case h_3 v _ =>
    dsimp only
    split
    case isTrue => exact (Task.Kept.modifyResponse _).bind fun _ => .pure v
    case isFalse => exact .pure v

omit hC in
theorem IIIF.kept_info (version : Int) (im : Opened) :
    Task.Kept C (IIIF.info S h version im) := by
  unfold IIIF.info
  split
  case h_1 => exact .throw _
  case h_2 =>
    exact .get_bind fun s => (Task.Kept.reply _).bind fun _ => Task.Kept.modifyResponse _

omit h in
theorem IIIF.kept_image (version : Int) (width height : Nat) (params : Text) (im : Opened) :
    Task.Kept C (IIIF.image S version width height params im) := by
  have hinvalid {α : Type} (x : Except Failure α) : Task.Kept C (IIIF.invalid x) := by
    unfold IIIF.invalid
    split
    case h_1 => exact .pure _
    case h_2 => exact .throw _
    case h_3 => exact .throw _
  refine .get_bind fun s => (hinvalid _).bind fun p => (Task.Kept.ofExcept _).bind fun d => ?_
  refine (Task.Kept.modifyView _).bind fun _ => ?_
  split
  case h_1 => exact JTL.kept_task hC _ _ im
  case h_2 => exact CVT.kept_task hC im

theorem IIIF.kept_task (argument : Text) (pos : Nat) :
    Task.Kept C (IIIF.task S h argument pos) := by
  unfold IIIF.task
  split
  case h_1 => exact .throw _
  case h_2 =>
    refine (FIF.kept_task hC h _).bind fun im => ?_
    split
    case h_2 => exact .throw _
    case h_1 =>
      refine (Task.Kept.modifyView _).bind fun _ => (IIIF.kept_negotiate h).bind fun version => ?_
      split
      case isTrue => exact (IIIF.kept_info h version im).bind fun _ => .pure im
      case isFalse => exact IIIF.kept_image hC version _ _ _ im

end

/-! ## 5. Handlers -/

/-- The step keeps the property of the caches. -/
def Action.Kept (C : CacheProperty) : Action → Prop
  | update f => ∀ s, (f s).imageCache = s.imageCache ∧ (f s).tileCache = s.tileCache
  | refuse _ => True
  | opening t => Task.Kept C t
  | guarded _ t => ∀ im, Task.Kept C (t im)
  | follow t => ∀ im, Task.Kept C (t im)

/-- All steps of the handler do. -/
def Handler.Kept (C : CacheProperty) (l : Handler) : Prop := ∀ a ∈ l, a.Kept C

namespace Action

variable {C : CacheProperty}

theorem keeps_withImage {t : Opened → Task Opened} (ht : ∀ im, Task.Kept C (t im)) :
    Keeps (Connection.Caches C) (withImage t) := by
  intro c hc
  unfold withImage
  cases c.image with
  | none => exact hc
  | some im =>
    have hstep := ht im c.session hc
    dsimp only
    cases hres : t im c.session with
    | ok im s =>
      rw [hres] at hstep
      exact hstep
    | error e s =>
      rw [hres] at hstep
      exact hstep

theorem keeps_setImage {t : Task Opened} (ht : Task.Kept C t) :
    Keeps (Connection.Caches C) (setImage t) := by
  intro c hc
  have hstep := ht c.session hc
  unfold setImage
  cases hres : t c.session with
  | ok im s =>
    rw [hres] at hstep
    exact hstep
  | error e s =>
    rw [hres] at hstep
    exact hstep

theorem keeps_checkImage (argument : Text) : Keeps (Connection.Caches C) (checkImage argument) := by
  intro c hc
  unfold checkImage
  split
  case isTrue => exact hc
  case isFalse => exact hc

/-- **A step** keeps what it is made of. -/
theorem Kept.exec {a : Action} (ha : a.Kept C) : Keeps (Connection.Caches C) a.exec := by
  cases a with
  | update f =>
    refine Keeps.modify fun c hc => ?_
    rw [Connection.Caches, Session.Caches, (ha c.session).1, (ha c.session).2]
    exact hc
  | refuse t => exact .throw _
  | opening t => exact keeps_setImage ha
  | guarded argument t => exact (keeps_checkImage argument).bind fun _ => keeps_withImage ha
  | follow t => exact keeps_withImage ha

end Action

namespace Handler

variable {C : CacheProperty}

theorem Kept.exec {l : Handler} (hl : l.Kept C) : Keeps (Connection.Caches C) (Handler.exec l) :=
  .forM fun a ha => (hl a ha).exec

theorem kept_nil : Handler.Kept C [] := fun _ ha => absurd ha List.not_mem_nil

theorem kept_cons {a : Action} {l : Handler} (ha : a.Kept C) (hl : l.Kept C) :
    Handler.Kept C (a :: l) :=
  List.forall_mem_cons.mpr ⟨ha, hl⟩

theorem kept_single {a : Action} (ha : a.Kept C) : Handler.Kept C [a] := kept_cons ha kept_nil

theorem kept_refuse (t : Thrown) : Handler.Kept C [.refuse t] :=
  kept_single (a := .refuse t) trivial

theorem Kept.append {l l' : Handler} (hl : l.Kept C) (hl' : l'.Kept C) :
    Handler.Kept C (l ++ l') :=
  List.forall_mem_append.mpr ⟨hl, hl'⟩

/-- A change of the session that leaves both caches as they are. -/
theorem kept_update {f : Session → Session}
    (hf : ∀ s, (f s).imageCache = s.imageCache ∧ (f s).tileCache = s.tileCache) :
    Handler.Kept C [.update f] :=
  kept_single hf

theorem kept_onView (f : View → View) : Handler.Kept C (onView f) :=
  kept_update fun _ => ⟨rfl, rfl⟩

end Handler

/-! ## 6. Commands -/

namespace OBJ

variable {C : CacheProperty}

theorem kept_query (argument : Text) (f : View → Opened → IIPResponse → IIPResponse) :
    (query argument f).Kept C :=
  fun im => (Task.Kept.apart fun _ => ⟨rfl, rfl⟩).bind fun _ => .pure im

theorem kept_answer (f : IIPResponse → IIPResponse) : (answer f).Kept C := fun _ => ⟨rfl, rfl⟩

theorem kept_run (S : Server) (argument : Text) : Handler.Kept C (run S argument) := by
  unfold run
  split
  case h_2 => exact Handler.kept_single (kept_answer _)
  case h_1 q _ =>
    cases q with
    | iip | iipServer | optComm | optObj => exact Handler.kept_single (kept_answer _)
    | basicInfo =>
      refine Handler.kept_cons (kept_answer _) (Handler.kept_cons (kept_query _ _) ?_)
      exact Handler.kept_cons (kept_query _ _) (Handler.kept_single (kept_query _ _))
    | summaryInfo =>
      intro a ha
      obtain ⟨field, -, rfl⟩ := List.mem_map.mp ha
      exact kept_query _ _
    | _ => exact Handler.kept_single (kept_query _ _)

end OBJ

section

variable {S : Server} {C : CacheProperty} (hC : CacheInvariant S C) (h : Headers)

theorem MINMAX.kept_run (argument : Text) : Handler.Kept C (MINMAX.run S argument) := by
  unfold MINMAX.run
  dsimp only
  split
  case isTrue => exact Handler.kept_nil
  case isFalse =>
    refine Handler.kept_single fun im => ?_
    dsimp only
    split
    case isTrue => exact .pure im
    case isFalse =>
      split
      case isTrue => exact .throw _
      case isFalse => exact .pure _

include hC

theorem JTLS.kept_run (argument : Text) : Handler.Kept C (JTLS.run S argument) := by
  unfold JTLS.run
  split
  case h_2 => exact Handler.kept_nil
  case h_1 =>
    exact (Handler.kept_onView _).append (Handler.kept_single fun im => JTL.kept_task hC _ _ im)

theorem IIIF.kept_command (argument : Text) : Handler.Kept C (IIIF.command S h argument) := by
  unfold IIIF.command
  split
  case h_1 => exact Handler.kept_update fun _ => ⟨rfl, rfl⟩
  case h_2 => exact Handler.kept_single (IIIF.kept_task hC h _ _)

/-- **What every command keeps.** -/
theorem Command.kept_run (argument : Text) (c : Command) :
    Handler.Kept C (c.run S h argument) := by
  cases c with
  | obj => exact OBJ.kept_run S argument
  | minmax => exact MINMAX.kept_run argument
  | jtls => exact JTLS.kept_run hC argument
  | iiif => exact IIIF.kept_command hC h argument
  | fif => exact Handler.kept_single (FIF.kept_task hC h argument)
  | zoomify => exact Handler.kept_single (Zoomify.kept_task hC h argument)
  | deepZoom => exact Handler.kept_single (DeepZoom.kept_task hC h argument)
  | deepZoomExt => exact Handler.kept_single (DeepZoomExt.kept_task hC h argument)
  | til => exact Handler.kept_single fun im => TIL.kept_task hC _ _ _ im
  | jtl => exact Handler.kept_single fun im => JTL.kept_task hC _ _ im
  | ptl =>
    exact (Handler.kept_onView _).append (Handler.kept_single fun im => JTL.kept_task hC _ _ im)
  | cvt => exact (Handler.kept_onView _).append (Handler.kept_single fun im => CVT.kept_task hC im)
  | spectra =>
    change Handler.Kept C (SPECTRA.run S argument)
    unfold SPECTRA.run
    dsimp only
    split
    case isTrue => exact Handler.kept_refuse _
    case isFalse => exact Handler.kept_single fun im => SPECTRA.kept_task hC _ _ _ _ im
  | pfl =>
    change Handler.Kept C (PFL.run S argument)
    unfold PFL.run
    dsimp only
    split
    case isTrue => exact Handler.kept_refuse _
    case isFalse => exact Handler.kept_single fun im => PFL.kept_task hC _ _ _ _ _ im
  | icc => exact Handler.kept_nil
  | qlt =>
    change Handler.Kept C (QLT.run argument)
    unfold QLT.run
    split
    case isTrue => exact Handler.kept_nil
    case isFalse => exact Handler.kept_update fun _ => ⟨rfl, rfl⟩
  | lyr =>
    change Handler.Kept C (LYR.run argument)
    unfold LYR.run
    split
    case isTrue => exact Handler.kept_nil
    case isFalse => exact Handler.kept_onView _
  | shd =>
    change Handler.Kept C (SHD.run argument)
    unfold SHD.run
    split
    case h_1 => exact Handler.kept_update fun _ => ⟨rfl, rfl⟩
    case h_2 => exact Handler.kept_nil
  | cmp =>
    change Handler.Kept C (CMP.run argument)
    unfold CMP.run
    split
    case h_1 => exact Handler.kept_update fun _ => ⟨rfl, rfl⟩
    case h_2 => exact Handler.kept_onView _
  | _ => exact Handler.kept_update fun _ => ⟨rfl, rfl⟩

/-! ## 7. Requests -/

theorem Server.kept_steps (p : Order) : Handler.Kept C (S.steps h p) := by
  unfold Server.steps
  split
  case h_1 => exact Command.kept_run hC h p.2 _
  case h_2 => exact Handler.kept_update fun _ => ⟨rfl, rfl⟩

/-- The `try` block. -/
theorem Server.keeps_handle : Keeps (Connection.Caches C) (S.handle h) := by
  unfold Server.handle
  split
  case isTrue =>
    refine Handler.Kept.exec (Handler.kept_cons ?_ (Handler.kept_refuse _))
    exact fun _ => ⟨rfl, rfl⟩
  case isFalse =>
    refine (Keeps.forM fun p _ => (Server.kept_steps hC h p).exec).bind fun _ => ?_
    refine Handler.Kept.exec (Handler.kept_cons (fun s => ?_) (Handler.kept_update fun s => ?_))
    · unfold Server.malformed
      split <;> exact ⟨rfl, rfl⟩
    · unfold Server.sendResponse
      split <;> exact ⟨rfl, rfl⟩

/-- **What every request keeps**, however it ends. -/
theorem CacheInvariant.serve {σ : ServerState} (hσ : σ.Caches C) : (S.serve h σ).2.Caches C := by
  have hstep := Server.keeps_handle hC h (S.start σ.imageCache σ.tileCache) hσ
  have hafter : (S.after h σ (S.process h σ)).Caches C := by
    unfold Server.process
    cases hres : S.handle h (S.start σ.imageCache σ.tileCache) with
    | ok _ c =>
      rw [hres] at hstep
      exact hstep
    | error e c =>
      rw [hres] at hstep
      rcases e with _ | (_ | _ | _) <;> exact hstep
  unfold Server.serve
  split
  case h_1 => exact hσ
  case h_2 => exact hafter

end

end Iipsrv
