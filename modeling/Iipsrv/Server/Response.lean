/-
# What a command leaves in the response

The response object is shared by all commands of a request.  At the end three things about it
matter (`Mark`): whether it carries an error, whether anything has been sent or added to it, and
whether it may be cached.

`Task.Leads m m' x`: if `x` ends, it leads from a response with mark `m` to one with mark `m'`.
Nothing is said about a task that stops.  The view is carried along because `CVT` sends nothing
for an output format that it does not know; no command asks for one.

`Server.effect_execute` sums up all commands.
-/
import Iipsrv.JTL.Raw
import Iipsrv.Lib.Triple
import Iipsrv.Server.Main

namespace Iipsrv

open Lib.Print (Text)
open Lib.Str Lib.Effects

/-! ## 1. Marks -/

/-- What matters of a response at the end of the request. -/
structure Mark where
  error : Bool
  answered : Bool
  cachable : Bool
  deriving DecidableEq

namespace Mark

/-- Something has been sent or added. -/
def sent (m : Mark) : Mark := { m with answered := true }

/-- An error has been set. -/
def failed (m : Mark) : Mark := { m with error := true }

/-- The response may not be cached any more. -/
def uncachable (m : Mark) : Mark := { m with cachable := false }

end Mark

namespace IIPResponse

variable (r : IIPResponse)

/-- What matters of a response. -/
def mark : Mark :=
  ⟨r.errorIsSet, r.sent || decide (r.responseBody ≠ [] ∨ r.protocol ≠ []), r.cachable⟩

@[simp] theorem mark_addResponse (line : Text) : (r.addResponse line).mark = r.mark.sent := by
  simp [mark, addResponse, Mark.sent, errorIsSet, eof]

@[simp] theorem mark_addNumber (c : Text) (a : Int) : (r.addNumber c a).mark = r.mark.sent :=
  mark_addResponse r _

@[simp] theorem mark_addNumbers (c : Text) (a b : Int) :
    (r.addNumbers c a b).mark = r.mark.sent :=
  mark_addResponse r _

@[simp] theorem mark_addText (arg s : Text) : (r.addText arg s).mark = r.mark.sent :=
  mark_addResponse r _

@[simp] theorem mark_setError (code arg : Text) : (r.setError code arg).mark = r.mark.failed := by
  simp [mark, setError, Mark.failed, errorIsSet, eof]

theorem mark_setProtocol {p : Text} (hp : p ≠ []) : (r.setProtocol p).mark = r.mark.sent := by
  have hset : decide ((r.setProtocol p).responseBody ≠ [] ∨ (r.setProtocol p).protocol ≠ []) :=
    decide_eq_true (.inr hp)
  rw [mark, hset, Bool.or_true]
  rfl

end IIPResponse

/-! ## 2. The output format -/

/-- The output format is one that `CVT` sends. -/
def View.Encodable (v : View) : Prop := v.outputFormat = .jpeg ∨ v.outputFormat = .png

namespace View

/-- It is then the one that is encoded in. -/
theorem encoding_eq {v : View} (hview : v.Encodable) : v.encoding = v.outputFormat := by
  unfold View.encoding
  rcases hview with hjpeg | hpng
  · rw [hjpeg]
    rfl
  · rw [hpng]
    rfl

variable (v : View)

theorem outputFormat_shrink (resolution dimension : Nat) :
    (shrink resolution dimension v).outputFormat = v.outputFormat := by
  induction resolution generalizing dimension v with
  | zero => rfl
  | succ r ih =>
    rw [shrink]
    split
    case isTrue => exact ih _ _
    case isFalse => rfl

theorem outputFormat_limitResolution : v.limitResolution.outputFormat = v.outputFormat := by
  unfold limitResolution
  dsimp only
  split
  case isTrue => exact outputFormat_shrink v _ _
  case isFalse => rfl

theorem outputFormat_requestResolution : v.requestResolution.outputFormat = v.outputFormat := by
  unfold requestResolution
  dsimp only
  split <;> split <;> rfl

theorem outputFormat_getResolution : v.getResolution.outputFormat = v.outputFormat := by
  rw [getResolution, outputFormat_limitResolution]
  exact outputFormat_requestResolution v

end View

theorem CVT.outputFormat_extract {im : ImageInfo} {v v' : View} {e : CVT.Extraction}
    (h : CVT.extract im v = .ok (v', e)) : v'.outputFormat = v.outputFormat := by
  unfold CVT.extract at h
  split at h
  case h_2 => cases h
  case h_1 =>
    dsimp only at h
    split at h
    case h_2 => cases h
    case h_1 =>
      cases h
      exact View.outputFormat_getResolution _

theorem JTL.outputFormat_floatOps {v v' : View} {histogram : List Nat} {t : RawTile}
    {ops : List JTL.Op} (h : JTL.floatOps v histogram t = .ok (v', ops)) :
    v'.outputFormat = v.outputFormat := by
  rcases JTL.floatOps_cases h with ⟨-, rfl, -⟩ | ⟨_, -, rfl, -⟩ | ⟨-, rfl, -⟩ <;> rfl

theorem JTL.outputFormat_deliver {S : Server} {s : Session} {im : Opened} {t t' : RawTile}
    {v : View} (h : JTL.deliver S s im t = .ok (t', v)) :
    v.outputFormat = s.view.outputFormat := by
  unfold JTL.deliver JTL.transforms at h
  dsimp only at h
  split at h
  case h_1 => cases h
  case h_2 v' ops hops =>
    obtain ⟨v₁, hv₁, h⟩ := bind_eq_ok h
    cases hv₁
    split at h
    case isTrue =>
      obtain ⟨t₁, -, h⟩ := bind_eq_ok h
      cases h
      exact JTL.outputFormat_floatOps hops
    case isFalse =>
      cases h
      exact JTL.outputFormat_floatOps hops

theorem CVT.outputFormat_transforms {S : Server} {s : Session} {im : Opened} {e : CVT.Extraction}
    {t t' : RawTile} {v : View} (h : CVT.transforms S s im e t = .ok (t', v)) :
    v.outputFormat = s.view.outputFormat := by
  unfold CVT.transforms at h
  obtain ⟨⟨v', ops⟩, hops, h⟩ := bind_eq_ok h
  cases h
  exact JTL.outputFormat_floatOps hops

/-! ## 3. Tasks -/

/-- A session whose response has this mark, and whose view can be encoded. -/
structure Session.At (m : Mark) (s : Session) : Prop where
  mark : s.response.mark = m
  view : s.view.Encodable

namespace Task

variable {α β : Type} {m m' m'' : Mark} {S : Server}

/-- If the task ends, it leads from one mark to the other. -/
def Leads (m m' : Mark) (x : Task α) : Prop :=
  Triple (Session.At m) x (fun _ => Session.At m') (fun _ _ => True)

namespace Leads

theorem pure (a : α) : Leads m m (Pure.pure a : Task α) := Triple.pure fun _ hs => hs

theorem throw (e : Stop) : Leads m m' (MonadExcept.throw e : Task α) := fun _ _ => trivial

theorem bind {x : Task α} {f : α → Task β} (hx : Leads m m' x) (hf : ∀ a, Leads m' m'' (f a)) :
    Leads m m'' (x >>= f) :=
  Triple.bind hx hf

theorem get_bind {f : Session → Task β} (hf : ∀ s, s.At m → Leads m m' (f s)) :
    Leads m m' (get >>= f) :=
  Triple.get_bind hf

theorem ofExcept_bind {x : Except Failure α} {f : α → Task β}
    (hf : ∀ a, x = .ok a → Leads m m' (f a)) : Leads m m' (ofExcept S x >>= f) := by
  intro s hs
  cases x with
  | ok a => exact hf a rfl s hs
  | error e => trivial

theorem manage (x : Manager α) : Leads m m (Task.manage S x) := by
  intro s hs
  unfold Task.manage
  split
  case h_1 => exact ⟨hs.mark, hs.view⟩
  case h_2 => trivial

theorem modifyView {f : View → View} (hf : ∀ v, v.Encodable → (f v).Encodable) :
    Leads m m (Task.modifyView f) :=
  Triple.modify fun s hs => ⟨hs.mark, hf s.view hs.view⟩

theorem modifyResponse {f : IIPResponse → IIPResponse}
    (hf : ∀ r : IIPResponse, r.mark = m → (f r).mark = m') : Leads m m' (Task.modifyResponse f) :=
  Triple.modify fun s hs => ⟨hf s.response hs.mark, hs.view⟩

theorem write (t : Text) : Leads m m (Task.write t) :=
  Triple.modify fun _ hs => ⟨hs.mark, hs.view⟩

theorem reply (t : Text) : Leads m m.sent (Task.reply t) :=
  Triple.modify fun _ hs => ⟨congrArg Mark.sent hs.mark, hs.view⟩

theorem forM {l : List α} {g : α → Task PUnit} (h : ∀ a ∈ l, Leads m m (g a)) :
    Leads m m (l.forM g) :=
  Triple.forM h

theorem foldlM {l : List α} {g : β → α → Task β} {b : β}
    (h : ∀ b, ∀ a ∈ l, Leads m m (g b a)) : Leads m m (l.foldlM g b) :=
  Triple.foldlM h

/-- The end of a task that hands the image back. -/
theorem andReturn {x : Task PUnit} (hx : Leads m m' x) (im : α) :
    Leads m m' (x >>= fun _ => Pure.pure im) :=
  hx.bind fun _ => .pure im

end Leads

end Task

section

variable {S : Server} {m : Mark}

theorem Server.leads_tile (im : Opened) (q : Request) : Task.Leads m m (S.tile im q) := .manage _

theorem Server.leads_addHistogram (im : Opened) : Task.Leads m m (S.addHistogram im) := by
  refine .get_bind fun s _ => ?_
  refine (Server.leads_tile im _).bind fun t => ?_
  refine Triple.bind (Q := fun _ s => Session.At m s) ?_ fun _ => Triple.pure fun _ hs => hs
  exact Triple.modify fun s hs => ⟨hs.mark, hs.view⟩

theorem Server.leads_withHistogram (wanted : Bool) (im : Opened) :
    Task.Leads m m (S.withHistogram wanted im) := by
  unfold Server.withHistogram
  split
  case isTrue => exact Server.leads_addHistogram im
  case isFalse => exact .pure im

theorem JTL.leads_fetch (resolution tile : Int32) (im : Opened) :
    Task.Leads m m (JTL.fetch S resolution tile im) := by
  refine .get_bind fun s _ => ?_
  refine .ofExcept_bind fun n _ => ?_
  split
  case isTrue => exact .throw _
  case isFalse =>
    refine (Server.leads_withHistogram _ im).bind fun im => ?_
    split
    case h_1 => exact .throw _
    case h_2 => exact Server.leads_tile im _

theorem JTL.leads_encoded (resolution tile : Int32) (im : Opened) :
    Task.Leads m m (JTL.encoded S resolution tile im) := by
  refine (JTL.leads_fetch resolution tile im).bind fun r => ?_
  refine .get_bind fun s hs => ?_
  refine .ofExcept_bind fun ⟨sent, v⟩ hdeliver => ?_
  have hv : v.Encodable := by
    rw [View.Encodable, JTL.outputFormat_deliver hdeliver]
    exact hs.view
  exact (Task.Leads.modifyView fun _ _ => hv).andReturn _

theorem JTL.leads_task (resolution tile : Int32) (im : Opened) :
    Task.Leads m m.sent (JTL.task S resolution tile im) := by
  refine (JTL.leads_encoded resolution tile im).bind fun r => ?_
  exact .get_bind fun s _ => (Task.Leads.reply _).andReturn r.1

theorem CVT.leads_pixels (ct : CompressionType) (e : CVT.Extraction) (im : Opened) :
    Task.Leads m m (CVT.pixels S ct e im) := by
  refine .get_bind fun s hs => ?_
  refine (Server.leads_withHistogram _ im).bind fun im => ?_
  refine (Task.Leads.manage _).bind fun r => ?_
  refine .ofExcept_bind fun ⟨t, v⟩ htransforms => ?_
  have hv : v.Encodable := by
    rw [View.Encodable, CVT.outputFormat_transforms htransforms]
    exact hs.view
  refine (Task.Leads.modifyView fun _ _ => hv).bind fun _ => ?_
  exact .ofExcept_bind fun head _ => .pure _

theorem CVT.leads_task (im : Opened) : Task.Leads m m.sent (CVT.task S im) := by
  refine .get_bind fun s hs => ?_
  split
  case isTrue h => exact absurd hs.view h
  case isFalse =>
    refine .ofExcept_bind fun ⟨v, e⟩ hextract => ?_
    have hv : v.Encodable := by
      rw [View.Encodable, CVT.outputFormat_extract hextract]
      exact hs.view
    refine (Task.Leads.modifyView fun _ _ => hv).bind fun _ => ?_
    refine (Task.Leads.write _).bind fun _ => ?_
    refine (CVT.leads_pixels _ e im).bind fun ⟨im, t, head⟩ => ?_
    refine (Task.Leads.write _).bind fun _ => ?_
    refine (Task.Leads.forM fun p _ => Task.Leads.write _).bind fun _ => ?_
    exact (Task.Leads.reply _).andReturn im

theorem TIL.leads_task (resolution startTile endTile : Int32) (im : Opened) :
    Task.Leads m m.sent (TIL.task S resolution startTile endTile im) := by
  refine .get_bind fun s _ => ?_
  refine .ofExcept_bind fun numbers _ => ?_
  have hsent : Task.Leads m m.sent (Task.modifyResponse .setImageSent) :=
    .modifyResponse fun r hr => congrArg Mark.sent hr
  have htile (im : Opened) (n : Int) : Task.Leads m m (TIL.sendTile S s resolution im n) :=
    (Server.leads_tile im _).bind fun r => (Task.Leads.write _).andReturn r.1
  have htiles : Task.Leads m m (numbers.foldlM (TIL.sendTile S s resolution) im) :=
    .foldlM fun im n _ => htile im n
  have hrest := htiles.bind fun im => hsent.andReturn im
  dsimp only
  split
  case isTrue => exact (Task.Leads.write _).bind fun _ => hrest
  case isFalse => exact hrest

theorem SPECTRA.leads_bands (s : Session) (resolution tile x y : Int32) (im : Opened)
    (views : List Int) : Task.Leads m m (SPECTRA.bands S s resolution tile x y im views) := by
  induction views generalizing im with
  | nil => exact .pure im
  | cons n views ih =>
    refine (Server.leads_tile im _).bind fun r => ?_
    dsimp only
    split
    case isTrue => exact .pure r.1
    case isFalse => exact (Task.Leads.write _).bind fun _ => ih r.1

theorem SPECTRA.leads_task (resolution tile x y : Int32) (im : Opened) :
    Task.Leads m m.sent (SPECTRA.task S resolution tile x y im) := by
  refine .get_bind fun s _ => ?_
  split
  case isTrue => exact .throw _
  case isFalse =>
    refine (Task.Leads.write _).bind fun _ => (Task.Leads.write _).bind fun _ => ?_
    refine (SPECTRA.leads_bands s resolution tile x y im _).bind fun im => ?_
    exact (Task.Leads.reply _).andReturn im

theorem PFL.leads_bands (s : Session) (resolution : Int32) (p : PFL.Window) (length : Nat)
    (im : Opened) (views : List Int) :
    Task.Leads m m (PFL.bands S s resolution p length im views) := by
  induction views generalizing length im with
  | nil => exact .pure _
  | cons n views ih =>
    refine (Task.Leads.manage _).bind fun r => ?_
    dsimp only
    split
    case h_1 => exact .throw _
    case h_2 => exact (ih _ _).bind fun rest => .pure _

theorem PFL.leads_task (resolution x1 y1 x2 y2 : Int32) (im : Opened) :
    Task.Leads m m.sent (PFL.task S resolution x1 y1 x2 y2 im) := by
  unfold PFL.task
  split
  case isTrue => exact .throw _
  case isFalse =>
    split
    case h_1 => exact .throw _
    case h_2 =>
      split
      case isTrue => exact .throw _
      case isFalse =>
        refine .get_bind fun s _ => ?_
        exact (PFL.leads_bands s _ _ _ im _).bind fun r => (Task.Leads.reply _).andReturn r.1

/-! ## 4. Tasks that open an image -/

theorem FIF.leads_lookup (path : Text) : Task.Leads m m (FIF.lookup S path) := by
  intro s hs
  unfold FIF.lookup
  split
  case h_1 => exact ⟨hs.mark, hs.view⟩
  case h_2 => trivial
  case h_3 => trivial

variable {h : Headers}

theorem FIF.leads_task (src : Text) : Task.Leads m m (FIF.task S h src) := by
  refine (FIF.leads_lookup _).bind fun im => ?_
  have hmodified : Task.Leads m m
      (Task.modifyResponse fun r => r.setLastModified (S.timestamp im)) :=
    .modifyResponse fun _ hr => hr
  refine hmodified.bind fun _ => ?_
  split
  case isTrue => exact .throw _
  case isFalse =>
    refine (Task.Leads.modifyView ?_).andReturn im
    exact fun _ hv => hv

theorem Task.leads_tileAt (im : Opened) (level x y : Int32) :
    Task.Leads m m (Task.tileAt im level x y) := by
  unfold Task.tileAt
  split
  case h_1 => exact .throw _
  case h_2 =>
    split
    case isTrue => exact .throw _
    case isFalse => exact .pure _

theorem Zoomify.leads_task (argument : Text) :
    Task.Leads m m.sent (Zoomify.task S h argument) := by
  refine (FIF.leads_task _).bind fun im => ?_
  have hcount : Task.Leads m m (Zoomify.count im.base) := by
    unfold Zoomify.count
    split
    case isTrue => exact .pure ()
    case isFalse => exact .throw _
  refine hcount.bind fun _ => ?_
  split
  case isTrue => exact .throw _
  case isFalse =>
    split
    case isTrue => exact .get_bind fun s _ => (Task.Leads.reply _).andReturn im
    case isFalse => exact (Task.leads_tileAt im _ _ _).bind fun tile => JTL.leads_task _ _ im

theorem DeepZoom.leads_task (argument : Text) :
    Task.Leads m m.sent (DeepZoom.task S h argument) := by
  refine (FIF.leads_task _).bind fun im => ?_
  split
  case isTrue => exact .get_bind fun s _ => (Task.Leads.reply _).andReturn im
  case isFalse =>
    split
    case h_1 => exact .throw _
    case h_2 => exact (Task.leads_tileAt im _ _ _).bind fun tile => JTL.leads_task _ _ im

theorem JTLExt.leads_getTile (resolution tile : Int32) (im : Opened) :
    Task.Leads m m (JTLExt.getTile S resolution tile im) := by
  unfold JTLExt.getTile
  split
  case isTrue => exact .throw _
  case isFalse =>
    split
    case h_1 => exact .throw _
    case h_2 =>
      refine .get_bind fun s _ => (Server.leads_tile im _).bind fun r => ?_
      exact .ofExcept_bind fun sent _ => .pure _

theorem JTLExt.leads_send (settings : DeepZoomExt.Settings) (tiles : List (Option RawTile)) :
    Task.Leads m m.sent (JTLExt.send S settings tiles) := by
  unfold JTLExt.send
  split
  case h_1 => exact .throw _
  case h_2 => exact .get_bind fun s _ => .reply _

theorem DeepZoomExt.leads_one (argument : Text) (first : Bool) (path : Text)
    (p : DeepZoomExt.Progress) :
    Task.Leads m m (DeepZoomExt.one S h argument first path p) := by
  unfold DeepZoomExt.one
  split
  case isTrue =>
    refine (FIF.leads_task path).bind fun im => ?_
    split
    case isTrue => exact .get_bind fun s _ => .pure _
    case isFalse =>
      split
      case h_1 => exact .throw _
      case h_2 =>
        refine (Task.leads_tileAt im _ _ _).bind fun tile => ?_
        exact (JTLExt.leads_getTile _ tile im).bind fun t => .pure _
  case isFalse =>
    split
    case isTrue => exact .get_bind fun s _ => .pure _
    case isFalse => exact .pure _

theorem DeepZoomExt.leads_finish (settings : DeepZoomExt.Settings) (asHeader : Bool)
    (p : DeepZoomExt.Progress) :
    Task.Leads m m.sent (DeepZoomExt.finish S settings asHeader p) := by
  unfold DeepZoomExt.finish
  split
  case h_1 => exact .throw _
  case h_2 im _ =>
    dsimp only
    split
    case isTrue => exact (Task.Leads.reply _).andReturn im
    case isFalse => exact (JTLExt.leads_send settings _).andReturn im

theorem DeepZoomExt.leads_respond (settings : DeepZoomExt.Settings) (argument : Text)
    (paths : List Text) (first : Bool) (path : Text) (p : DeepZoomExt.Progress) :
    Task.Leads m m.sent (DeepZoomExt.respond S h settings argument first path paths p) := by
  induction paths generalizing first path p with
  | nil =>
    exact (DeepZoomExt.leads_one argument first path p).bind fun p =>
      DeepZoomExt.leads_finish settings _ p
  | cons path' paths ih =>
    exact (DeepZoomExt.leads_one argument first path p).bind fun p => ih false path' p

theorem DeepZoomExt.encodable_compressor (format : Text) {v : View} (hv : v.Encodable) :
    View.Encodable
      { v with outputFormat := (DeepZoomExt.compressor format).1.getD v.outputFormat } := by
  unfold DeepZoomExt.compressor
  split
  case isTrue => exact .inl rfl
  case isFalse =>
    split
    case isTrue => exact .inr rfl
    case isFalse =>
      split
      case isTrue => exact .inr rfl
      case isFalse => exact hv

/-- Only the formats that can be encoded are taken over. -/
theorem DeepZoomExt.encodable_parse {argument : Text} {parsed : DeepZoomExt.Parsed}
    (hparse : DeepZoomExt.parse argument = .ok parsed) {v : View} (hv : v.Encodable) :
    View.Encodable { v with outputFormat := parsed.settings.outputFormat.getD v.outputFormat } := by
  unfold DeepZoomExt.parse at hparse
  obtain ⟨suffix, -, hparse⟩ := bind_eq_ok hparse
  obtain ⟨format, -, hparse⟩ := bind_eq_ok hparse
  have hformat := DeepZoomExt.encodable_compressor format hv
  rcases hc : DeepZoomExt.compressor format with ⟨outputFormat, isZip⟩
  rw [hc] at hparse hformat
  cases hparse
  exact hformat

theorem DeepZoomExt.leads_images (argument : Text) :
    Task.Leads m m.sent (DeepZoomExt.images S h argument) := by
  unfold DeepZoomExt.images
  split
  case h_1 => exact .throw _
  case h_2 parsed hparse =>
    refine (Task.Leads.modifyView ?_).bind fun _ => DeepZoomExt.leads_respond _ _ _ _ _ _
    exact fun v hv => DeepZoomExt.encodable_parse hparse hv

theorem DeepZoomExt.leads_task (argument : Text) :
    Task.Leads m m.sent (DeepZoomExt.task S h argument) := by
  unfold DeepZoomExt.task
  dsimp only
  split
  case isTrue =>
    refine (Task.Leads.modifyView ?_).bind fun _ => DeepZoomExt.leads_images argument
    exact fun _ hv => hv
  case isFalse => exact DeepZoomExt.leads_images argument

/-! ## 5. IIIF -/

namespace IIIF

theorem ifGiven_eq_ok {α : Type} {token : Option Text} {default a : α}
    {f : Text → Except Failure α} (h : ifGiven token default f = .ok a) :
    a = default ∨ ∃ t, f t = .ok a := by
  cases token with
  | none => exact .inl (Except.ok.inj h).symm
  | some t => exact .inr ⟨t, h⟩

theorem outputFormat_setRegion {width height : Nat} {v v' : View} {p : RegionParam}
    (h : setRegion width height v p = .ok v') : v'.outputFormat = v.outputFormat := by
  unfold setRegion at h
  split at h
  case h_1 =>
    cases h
    rfl
  case h_2 =>
    split at h
    case isTrue =>
      cases h
      rfl
    case isFalse =>
      split at h
      all_goals
        cases h
        rfl
  case h_3 =>
    dsimp only at h
    split at h
    case isTrue => cases h
    case isFalse =>
      cases h
      rfl

theorem outputFormat_setSize {version : Int} {width height : Nat} {v v' : View} {c : Bool}
    {size : SizeParam} {w h : Int} (hs : setSize version width height v c size = .ok (v', w, h)) :
    v'.outputFormat = v.outputFormat := by
  unfold setSize at hs
  dsimp only at hs
  generalize hv₁ : (if 3 ≤ version ∧ ¬ c = true then { v with allowUpscaling := false } else v) = v₁
    at hs
  have hformat : v₁.outputFormat = v.outputFormat := by
    rw [← hv₁]
    split <;> rfl
  obtain ⟨⟨aspect, w', h'⟩, -, hs⟩ := bind_eq_ok hs
  dsimp only at hs
  split at hs
  case isTrue => cases hs
  case isFalse =>
    split at hs
    case isTrue => cases hs
    case isFalse =>
      cases hs
      exact hformat

theorem outputFormat_setRotation {v v' : View} {mirror : Bool} {angle : Option ℚ}
    (h : setRotation v mirror angle = .ok v') : v'.outputFormat = v.outputFormat := by
  unfold setRotation at h
  split at h
  case h_1 => cases h
  case h_2 =>
    dsimp only at h
    generalize hv₁ : (if mirror = true then { v with flip := 1 } else v) = v₁ at h
    have hformat : v₁.outputFormat = v.outputFormat := by
      rw [← hv₁]
      split <;> rfl
    split at h
    case isTrue => cases h
    case isFalse =>
      split at h
      all_goals
        cases h
        exact hformat

theorem encodable_setQuality {v v' : View} {format : Option Format} {quality : Quality}
    (h : setQuality v format quality = .ok v') (hv : v.Encodable) : v'.Encodable := by
  unfold setQuality at h
  rcases format with _ | (_ | _ | _) <;> cases quality <;> cases h
  all_goals first
    | exact hv
    | exact .inl rfl
    | exact .inr rfl

theorem encodable_setParams {version : Int} {width height : Nat} {v v' : View} {tokens : List Text}
    {w h : Int} (hp : setParams S version width height v tokens = .ok (v', w, h))
    (hv : v.Encodable) : v'.Encodable := by
  unfold setParams at hp
  obtain ⟨v₁, hregion, hp⟩ := bind_eq_ok hp
  obtain ⟨⟨v₂, w', h'⟩, hsize, hp⟩ := bind_eq_ok hp
  obtain ⟨v₃, hrotation, hp⟩ := bind_eq_ok hp
  obtain ⟨v₄, hquality, hp⟩ := bind_eq_ok hp
  have hv₁ : v₁.outputFormat = v.outputFormat := by
    rcases ifGiven_eq_ok hregion with rfl | ⟨t, ht⟩
    · rfl
    · exact outputFormat_setRegion ht
  have hv₂ : v₂.outputFormat = v₁.outputFormat := by
    rcases ifGiven_eq_ok hsize with heq | ⟨t, ht⟩
    · cases heq
      rfl
    · exact outputFormat_setSize ht
  have hv₃ : v₃.outputFormat = v₂.outputFormat := by
    rcases ifGiven_eq_ok hrotation with rfl | ⟨t, ht⟩
    · rfl
    · exact outputFormat_setRotation ht
  have hv₃' : v₃.Encodable := by
    rw [View.Encodable, hv₃, hv₂, hv₁]
    exact hv
  have hv₄ : v₄.Encodable := by
    rcases ifGiven_eq_ok hquality with rfl | ⟨t, ht⟩
    · exact hv₃'
    · exact encodable_setQuality ht hv₃'
  split at hp
  case isTrue => cases hp
  case isFalse =>
    split at hp
    case isTrue => cases hp
    case isFalse =>
      cases hp
      exact hv₄

theorem outputFormat_dispatch {im : ImageInfo} {v v' : View} {w h : Int} {target : Target}
    (hd : dispatch im v w h = .ok (v', target)) : v'.outputFormat = v.outputFormat := by
  unfold dispatch at hd
  dsimp only at hd
  split at hd
  case h_2 => cases hd
  case h_1 =>
    split at hd
    all_goals
      split at hd
      all_goals
        cases hd
        exact View.outputFormat_getResolution v

theorem leads_invalid_bind {α β : Type} {m' : Mark} {x : Except Failure α} {f : α → Task β}
    (hf : ∀ a, x = .ok a → Task.Leads m m' (f a)) : Task.Leads m m' (invalid x >>= f) := by
  rcases x with (_ | _) | a
  · exact fun _ _ => trivial
  · exact fun _ _ => trivial
  · exact fun s hs => hf a rfl s hs

theorem leads_negotiate : Task.Leads m m (negotiate S h) := by
  unfold negotiate
  split
  case h_1 => exact .throw _
  case h_2 => exact .pure _
  case h_3 v _ =>
    dsimp only
    split
    case isTrue =>
      have hprivate : Task.Leads m m
          (Task.modifyResponse fun r => r.setCacheControl (str "private")) :=
        .modifyResponse fun _ hr => hr
      exact hprivate.andReturn v
    case isFalse => exact .pure v

theorem leads_info (version : Int) (im : Opened) :
    Task.Leads m m.sent.uncachable (info S h version im) := by
  unfold info
  split
  case h_1 => exact .throw _
  case h_2 =>
    refine .get_bind fun s _ => ?_
    refine (Task.Leads.reply _).bind fun _ => ?_
    exact .modifyResponse fun r hr => congrArg Mark.uncachable hr

theorem leads_image (version : Int) (width height : Nat) (params : Text) (im : Opened) :
    Task.Leads m m.sent (image S version width height params im) := by
  refine .get_bind fun s hs => ?_
  refine leads_invalid_bind fun ⟨v, w, h⟩ hparams => ?_
  refine .ofExcept_bind fun ⟨v', target⟩ hdispatch => ?_
  have hv' : v'.Encodable := by
    rw [View.Encodable, outputFormat_dispatch hdispatch]
    exact encodable_setParams hparams hs.view
  refine (Task.Leads.modifyView fun _ _ => hv').bind fun _ => ?_
  split
  case h_1 => exact JTL.leads_task _ _ im
  case h_2 => exact CVT.leads_task im

/-- Only `info.json` makes the response uncachable. -/
theorem leads_task (argument : Text) (pos : Nat) :
    Task.Leads m (if isInfo argument pos then m.sent.uncachable else m.sent)
      (task S h argument pos) := by
  generalize hm' : (if isInfo argument pos then m.sent.uncachable else m.sent) = m'
  unfold task
  split
  case h_1 => exact .throw _
  case h_2 =>
    refine (FIF.leads_task _).bind fun im => ?_
    split
    case h_2 => exact .throw _
    case h_1 =>
      refine (Task.Leads.modifyView ?_).bind fun _ => leads_negotiate.bind fun version => ?_
      · exact fun _ hv => hv
      split
      case isTrue hinfo =>
        rw [← hm', if_pos hinfo]
        exact (leads_info version im).andReturn im
      case isFalse hinfo =>
        rw [← hm', if_neg hinfo]
        exact leads_image version _ _ _ im

end IIIF

end

end Iipsrv
