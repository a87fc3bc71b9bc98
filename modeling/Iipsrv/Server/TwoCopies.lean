/-
# One image, two protocols

`DeepZoom` hands a tile request to `JTL::send`, `DeepZoomExt` to `JTL_Ext::getTile`, a copy of it
with parts of the pipeline left out: the turned view, the histogram, the float pipeline, and the
operations behind greyscale.  The test for raw pixels still asks for all of them.

* `DeepZoom.encoded`, `DeepZoomExt.encoded`: both requests up to the point where a tile is sent,
  each with a theorem that the task is this and the sending;
* `Light`: the tiles and views for which the two copies apply the same operations
  (`sameOperations_iff`);
* `sameTile_of_agrees`: then both protocols deliver the same tile.

Two lists of operations may have the same effect on a tile, a black one for instance, so that
`Light` is exact for the operations and only sufficient for the bytes.
-/
import Iipsrv.Address.Grid
import Iipsrv.DeepZoomExt.RoundTrip
import Iipsrv.JTL.Raw
import Iipsrv.Server.Conditional
import Iipsrv.Server.Response
import Iipsrv.Transform.Model

namespace Iipsrv

open Lib.Print (Text)
open Lib.Str Lib.Effects

/-! ## 1. Up to the sending -/

/-- `DeepZoom::run` for a tile, up to the sending. -/
def DeepZoom.encoded (S : Server) (h : Headers) (argument path : Text) :
    Task (Opened × RawTile) := do
  let im ← FIF.task S h path
  match DeepZoomExt.coordinates argument with
  | .error e => Task.raise e
  | .ok ((resolution, x, y), _) => do
    let level := DeepZoom.level im.info resolution
    let tile ← Task.tileAt im level x y
    JTL.encoded S level tile im

/-- A view with JPEG output. -/
def View.asJPEG (v : View) : View := { v with outputFormat := .jpeg }

namespace DeepZoomExt

/-- `DeepZoomExt::run` for a JPEG tile of one image, up to the sending. -/
def encoded (S : Server) (h : Headers) (argument path : Text) : Task (Opened × RawTile) := do
  Task.modifyView View.asJPEG
  let r ← tileFor S h argument path
  return (r.1, r.2.1)

/-- A request for a JPEG tile that names this path alone. -/
def Requests (argument path : Text) : Prop :=
  parse argument = .ok ⟨⟨false, some .jpeg, false⟩, argument, jpg, [path]⟩

section

variable {S : Server} {h : Headers} {argument path : Text}

/-- What the request says. -/
theorem Requests.reads (hr : Requests argument path) :
    find greyscaleOption argument = none ∧
      argument.drop (next (rfind ['.'] argument)) = jpg ∧
      upTo argument (rfind filesMarker argument) = path ∧ ',' ∉ path := by
  obtain ⟨suffix, hsuffix, hrest⟩ := bind_eq_ok hr
  obtain ⟨format, -, hrest⟩ := bind_eq_ok hrest
  have hparsed := Except.ok.inj hrest
  injection hparsed with hsettings hstripped hjpg hpaths
  injection hsettings with hgrey _ _
  have hnone : find greyscaleOption argument = none := by
    cases hfind : find greyscaleOption argument with
    | none => rfl
    | some n =>
      rw [hfind] at hgrey
      cases hgrey
  subst hjpg
  rw [hstripped] at hsuffix hpaths
  refine ⟨hnone, ?_, ?_⟩
  · unfold cut substr at hsuffix
    split at hsuffix
    · cases hsuffix
    case h_2 rest hsubstr =>
      split at hsubstr
      · cases hsubstr
        exact Except.ok.inj hsuffix
      · cases hsubstr
  · rw [if_neg (by decide)] at hpaths
    have hjoined := congrArg (List.intercalate [',']) hpaths
    rw [intercalate_split, List.intercalate_singleton] at hjoined
    exact ⟨hjoined, hjoined ▸ not_mem_of_split_singleton hpaths⟩

/-- **The same request to `DeepZoom`.** -/
theorem Requests.deepZoom (hr : Requests argument path) :
    DeepZoom.task S h argument = DeepZoom.encoded S h argument path >>= JTL.reply S := by
  obtain ⟨-, hsuffix, hpath, -⟩ := hr.reads
  have hdzi : jpg ≠ dzi := by decide
  unfold DeepZoom.task DeepZoom.encoded
  dsimp only
  rw [hsuffix, DeepZoom.path, if_neg hdzi, hpath, bind_assoc]
  refine bind_congr fun im => ?_
  rw [if_neg hdzi]
  cases coordinates argument with
  | error e => rfl
  | ok c =>
    dsimp only
    rw [bind_assoc]
    rfl

/-- **The request, if the image exists.** -/
theorem Requests.deepZoomExt (hr : Requests argument path) (hexists : S.pathExists path) :
    task S h argument = encoded S h argument path >>= fun r => do
      JTLExt.send S ⟨false, some .jpeg, false⟩ [some r.2]
      return r.1 := by
  obtain ⟨hgrey, -⟩ := hr.reads
  have hjpg : jpg ≠ dzi := by decide
  have hgather : gather S h ⟨⟨false, some .jpeg, false⟩, argument, jpg, [path]⟩
      = tileFor S h argument path >>= fun r =>
        pure (⟨some r.1, r.2.2, [], [r.2.1], []⟩, .tiles [r.2.1] []) := by
    unfold gather
    dsimp only [List.headD_cons, List.tail_cons, List.length_singleton]
    rw [loop, turn_of_tile hexists (by decide) hjpg, bind_assoc]
    rfl
  have htask : task S h argument = images S h argument := by
    unfold task
    rw [hgrey]
    rfl
  rw [htask, images_eq S h hr, hgather, encoded]
  simp only [bind_assoc, pure_bind]
  rfl

end

end DeepZoomExt

/-! ## 2. The operations of the two copies -/

/-- A rotation that `Transform::rotate` carries out: by a multiple of 90 degrees, but not by a whole
turn.  It leaves the tile alone for every other angle. -/
def QuarterTurn (a : ℚ) : Prop :=
  Int.tmod (if 0 ≤ a then ⌊a⌋ else ⌈a⌉) 90 = 0 ∧ Int.tmod (if 0 ≤ a then ⌊a⌋ else ⌈a⌉) 360 ≠ 0

instance (a : ℚ) : Decidable (QuarterTurn a) := inferInstanceAs (Decidable (_ ∧ _))

theorem quarterTurn_of_turned {v : View} (hturned : Turned v) : QuarterTurn v.rotation := by
  unfold Turned at hturned
  unfold QuarterTurn
  generalize (if 0 ≤ v.rotation then ⌊v.rotation⌋ else ⌈v.rotation⌉) = a at hturned ⊢
  have hdiv := Int.mul_tdiv_add_tmod a 360
  rw [hturned] at hdiv ⊢
  refine ⟨Int.tmod_eq_zero_of_dvd ⟨4 * a.tdiv 360 + 2, by omega⟩, by decide⟩

/-- The end of both copies: the encoder, if that has not been done. -/
def Server.sealed (S : Server) (s : Session) (ct : CompressionType) (t : RawTile) :
    Except Failure RawTile :=
  if t.compressionType = .uncompressed then compress S.encoder ct (s.quality ct) t else .ok t

namespace JTL

variable {P : Processor} {im : ImageInfo} {v v' : View} {histogram : List Nat} {t : RawTile}
  {ops : List Op}

theorem Work.applyAll_append (P : Processor) (w : Work) (ops ops' : List Op) :
    w.applyAll P (ops ++ ops') = (w.applyAll P ops).applyAll P ops' :=
  List.foldl_append

/-- The operations, once it is known what the float pipeline is. -/
theorem transforms_of_floatOps
    (hfloat : floatOps v histogram (Work.applyAll P ⟨t, []⟩ (labOps im)).tile = .ok (v', ops)) :
    transforms P im v histogram t =
      (((Work.applyAll P ⟨t, []⟩ (labOps im)).applyAll P ops).applyAll P
        (flattenOps v' ((Work.applyAll P ⟨t, []⟩ (labOps im)).applyAll P ops).tile ++
          viewOps P im v' histogram), .ok v') := by
  unfold transforms
  dsimp only
  rw [hfloat]

theorem deliver_of_transforms {S : Server} {s : Session} {im : Opened} {w : Work}
    (hw : transforms (S.processor (s.settings im)) im.info s.view im.base.histogram t
      = (w, .ok v)) :
    deliver S s im t = (S.sealed s v.encoding w.tile).map fun t' => (t', v) := by
  unfold deliver Server.sealed
  rw [hw]
  change (if w.tile.compressionType = .uncompressed then _ else _) = _
  split
  · cases compress S.encoder v.encoding (s.quality v.encoding) w.tile <;> rfl
  · rfl

/-- An operation that is carried out: all but rotations by other angles. -/
def Op.Acts : Op → Prop
  | .rotate a => QuarterTurn a
  | _ => True

instance : DecidablePred Op.Acts
  | .rotate a => inferInstanceAs (Decidable (QuarterTurn a))
  | .lab2sRGB | .normalize _ | .shade | .twist _ | .log | .gamma _ | .inv | .cmap | .contrast _
  | .flatten _ | .greyscale | .binary _ | .equalize _ | .flip _ => .isTrue trivial

/-- The operations that have been carried out. -/
def Work.carriedOut (w : Work) : List Op := (w.applied.map Prod.fst).filter fun op => op.Acts

theorem Work.carriedOut_applyAll (P : Processor) (w : Work) (ops : List Op) :
    (w.applyAll P ops).carriedOut = w.carriedOut ++ ops.filter fun op => op.Acts := by
  unfold carriedOut
  rw [(w.applyAll_spec P ops).2, List.map_append, List.filter_append, List.map_map]
  congr 2
  exact List.map_id _

theorem mem_carriedOut {w : Work} {ops : List Op} {op : Op} :
    op ∈ (w.applyAll P ops).carriedOut ↔ op ∈ w.carriedOut ∨ op ∈ ops ∧ op.Acts := by
  rw [Work.carriedOut_applyAll, List.mem_append, List.mem_filter, decide_eq_true_iff]

end JTL

/-- The operations of the second copy. -/
def JTLExt.work (P : JTL.Processor) (im : ImageInfo) (v : View) (t : RawTile) : JTL.Work :=
  let w := JTL.Work.applyAll P ⟨t, []⟩ (JTL.labOps im)
  w.applyAll P (JTL.flattenOps v w.tile ++
    JTL.opIf (im.colourspace = .sRGB ∧ v.colourspace = .greyscale) .greyscale)

theorem JTLExt.deliver_eq_sealed (S : Server) (s : Session) (im : Opened) (t : RawTile) :
    deliver S s im t = S.sealed s s.view.encoding
      (work (S.processor (s.settings im)) im.info s.view t).tile := rfl

/-- Nothing is asked for that the second copy leaves out: the tile has 8 bits behind the conversion
from CIELAB, and the view leaves the float pipeline, the binary conversion, the equalization, the
flip and the rotation alone.  A binary view of a binary image is nothing to do. -/
structure Light (P : JTL.Processor) (im : ImageInfo) (v : View) (t : RawTile) : Prop where
  bpc : (JTL.Work.applyAll P ⟨t, []⟩ (JTL.labOps im)).tile.bpc ≤ 8
  floatProcessing : v.floatProcessing = false
  binary : v.colourspace = .binary → im.colourspace = .binary
  equalization : v.equalization = false
  flip : v.flip = 0
  rotation : ¬ QuarterTurn v.rotation

section

variable {P : JTL.Processor} {im : ImageInfo} {v : View} {histogram : List Nat} {t : RawTile}

/-- Of the operations behind greyscale, a rotation is left. -/
theorem Light.viewOps (h : Light P im v t) :
    JTL.viewOps P im v histogram
      = JTL.opIf (im.colourspace = .sRGB ∧ v.colourspace = .greyscale) .greyscale ++
        JTL.opIf (v.rotation ≠ 0) (.rotate v.rotation) := by
  have hbinary : ¬ (im.colourspace ≠ .binary ∧ v.colourspace = .binary) :=
    fun hboth => hboth.1 (h.binary hboth.2)
  have hops : JTL.opIf (im.colourspace ≠ .binary ∧ v.colourspace = .binary)
      (.binary (P.threshold histogram)) = [] := if_neg hbinary
  unfold JTL.viewOps
  rw [hops]
  simp [JTL.opIf, h.equalization, h.flip]

/-- **What the first copy does then**: the operations of the second, and a rotation that is not
carried out. -/
theorem Light.transforms_eq (h : Light P im v t) (histogram : List Nat) :
    JTL.transforms P im v histogram t
      = ((JTLExt.work P im v t).applyAll P
          (JTL.opIf (v.rotation ≠ 0) (.rotate v.rotation)), .ok v) := by
  have hfloat : JTL.floatOps v histogram (JTL.Work.applyAll P ⟨t, []⟩ (JTL.labOps im)).tile
      = .ok (v, []) := by
    refine if_pos ?_
    rintro (hdeep | hview)
    · have hbpc := h.bpc
      omega
    · rw [h.floatProcessing] at hview
      cases hview
  rw [JTL.transforms_of_floatOps hfloat, h.viewOps, ← List.append_assoc,
    JTL.Work.applyAll_append P _ (_ ++ _)]
  rfl

/-- The operations that the second copy has as well. -/
def JTL.Op.Shared : JTL.Op → Prop
  | .lab2sRGB | .flatten _ | .greyscale => True
  | _ => False

theorem JTLExt.shared_of_mem {op : JTL.Op} (h : op ∈ (work P im v t).carriedOut) : op.Shared := by
  rcases JTL.mem_carriedOut.1 h with hop | ⟨hop, -⟩
  · rcases JTL.mem_carriedOut.1 hop with hop | ⟨hop, -⟩
    · cases hop
    · rw [(JTL.mem_opIf.1 hop).2]
      trivial
  · rcases List.mem_append.1 hop with hop | hop <;> rw [(JTL.mem_opIf.1 hop).2] <;> trivial

/-- The float pipeline starts with an operation that the second copy does not have. -/
theorem JTL.floatOps_of_shared {v' : View}
    (hshared : ∀ op ∈ (transforms P im v histogram t).1.carriedOut, op.Shared)
    (hok : (transforms P im v histogram t).2 = .ok v') :
    floatOps v histogram (Work.applyAll P ⟨t, []⟩ (labOps im)).tile = .ok (v, []) ∧
      ¬ (8 < (Work.applyAll P ⟨t, []⟩ (labOps im)).tile.bpc ∨ v.floatProcessing = true) := by
  cases hops : floatOps v histogram (Work.applyAll P ⟨t, []⟩ (labOps im)).tile with
  | error e =>
    unfold transforms at hok
    dsimp only at hok
    rw [hops] at hok
    cases hok
  | ok r =>
    obtain ⟨v₁, ops⟩ := r
    have hin : ∀ op ∈ ops, op.Acts → op.Shared := by
      intro op hop hacts
      refine hshared op ?_
      rw [transforms_of_floatOps hops]
      exact mem_carriedOut.2 (.inl (mem_carriedOut.2 (.inr ⟨hop, hacts⟩)))
    rcases floatOps_cases hops with ⟨hno, rfl, rfl⟩ | ⟨range, -, -, rfl⟩ | ⟨-, -, rfl⟩
    · exact ⟨rfl, hno⟩
    · exact (hin (.normalize (some range)) List.mem_cons_self trivial).elim
    · exact (hin (.normalize none) List.mem_cons_self trivial).elim

/-- Work of shared operations only is light: each field of the view that is set calls for another
one. -/
theorem Light.of_shared {v' : View}
    (hshared : ∀ op ∈ (JTL.transforms P im v histogram t).1.carriedOut, op.Shared)
    (hok : (JTL.transforms P im v histogram t).2 = .ok v') : Light P im v t := by
  obtain ⟨hfloat, hlight⟩ := JTL.floatOps_of_shared hshared hok
  have hview : ∀ op ∈ JTL.viewOps P im v histogram, op.Acts → op.Shared := by
    intro op hop hacts
    refine hshared op ?_
    rw [JTL.transforms_of_floatOps hfloat]
    exact JTL.mem_carriedOut.2 (.inr ⟨List.mem_append_right _ hop, hacts⟩)
  constructor
  · exact not_lt.1 fun h => hlight (.inl h)
  · exact Bool.eq_false_iff.2 fun h => hlight (.inr h)
  · intro hbinary
    by_contra hother
    exact hview _ (JTL.mem_viewOps.2 (.inr (.inl ⟨⟨hother, hbinary⟩, rfl⟩))) trivial
  · refine Bool.eq_false_iff.2 fun hset => ?_
    exact hview _ (JTL.mem_viewOps.2 (.inr (.inr (.inl ⟨hset, rfl⟩)))) trivial
  · by_contra hset
    exact hview _ (JTL.mem_viewOps.2 (.inr (.inr (.inr (.inl ⟨hset, rfl⟩))))) trivial
  · intro hturn
    have hset : v.rotation ≠ 0 := by
      rintro hzero
      rw [hzero] at hturn
      exact absurd hturn (by decide)
    exact hview _ (JTL.mem_viewOps.2 (.inr (.inr (.inr (.inr ⟨hset, rfl⟩))))) hturn

/-- **The two copies carry out the same operations** on a tile exactly if it is light work. -/
theorem sameOperations_iff :
    ((JTL.transforms P im v histogram t).1.carriedOut = (JTLExt.work P im v t).carriedOut ∧
        ∃ v', (JTL.transforms P im v histogram t).2 = .ok v') ↔ Light P im v t := by
  constructor
  · rintro ⟨hsame, v', hok⟩
    exact Light.of_shared (fun op hop => JTLExt.shared_of_mem (hsame ▸ hop)) hok
  · intro h
    rw [h.transforms_eq histogram]
    refine ⟨?_, v, rfl⟩
    rw [JTL.Work.carriedOut_applyAll]
    have hidle : (JTL.opIf (v.rotation ≠ 0) (.rotate v.rotation)).filter (fun op => op.Acts)
        = [] := by
      refine List.filter_eq_nil_iff.2 fun op hop hacts => ?_
      rw [(JTL.mem_opIf.1 hop).2] at hacts
      exact h.rotation (of_decide_eq_true hacts)
    rw [hidle, List.append_nil]

end

/-! ## 3. The tile that is delivered -/

/-- What is taken for granted of `Transform`: only quarter turns are carried out. -/
def Server.Turns (S : Server) : Prop :=
  ∀ settings a t, ¬ QuarterTurn a → (S.processor settings).apply (.rotate a) t = t

/-- What both copies ask the tile manager for, once the numbers have been checked. -/
def JTL.asked (S : Server) (s : Session) (resolution tile : Int32) (im : Opened) :
    Task (Opened × RawTile) :=
  match JTL.levelSize im.info resolution with
  | none => throw (.fault .levelSubscript)
  | some _ => S.tile im (JTL.sendRequest (S.image im) im.info s.view s.quality resolution tile)

/-- Two answers of the tile manager: the same tile, of images with the same colour space and the
same sample range, or none. -/
def Alike : (x y : EStateM.Result Stop Session (Opened × RawTile)) → Prop
  | .ok (im, t) _, .ok (im', t') _ =>
    t = t' ∧ im.base.colourspace = im'.base.colourspace ∧ im.base.min = im'.base.min ∧
      im.base.max = im'.base.max
  | .error _ _, .error _ _ => True
  | _, _ => False

/-- **What the two copies have in common**: what the tile manager returns is light work, and if the
first copy calculates a histogram, for a binary view, then it can, and is answered as before. -/
structure Agrees (S : Server) (s : Session) (level tile : Int32) (im : Opened) : Prop where
  rotation : ¬ QuarterTurn s.view.rotation
  light : ∀ im' t s', JTL.asked S s level tile im s = .ok (im', t) s' →
    Light (S.processor (s.settings im')) im'.info s.view t
  histogram : s.view.requireHistogram = true → im.base.histogram = [] →
    ∃ im₁ s₁, S.addHistogram im s = .ok im₁ s₁ ∧
      Alike (JTL.asked S s level tile im₁ s₁) (JTL.asked S s level tile im s)

section

variable {S : Server} {s s₁ s' : Session} {im im' im₁ : Opened} {level tile : Int32} {t : RawTile}

/-- A computation of the tile manager that has ended. -/
theorem Task.manage_eq_ok {α : Type} {m : Manager α} {a : α} (h : Task.manage S m s = .ok a s') :
    ∃ c, m s.tileCache = .ok a c ∧ s' = { s with tileCache := c } := by
  unfold Task.manage at h
  cases hm : m s.tileCache with
  | ok b c =>
    rw [hm] at h
    cases h
    exact ⟨c, rfl, rfl⟩
  | error e c =>
    rw [hm] at h
    cases h

/-- Only the caches change on the way to the tile. -/
theorem JTL.asked_eq_ok {r : Opened × RawTile} (h : JTL.asked S s level tile im s₁ = .ok r s') :
    ∃ c, s' = { s₁ with tileCache := c } := by
  unfold JTL.asked at h
  cases hsize : JTL.levelSize im.info level with
  | none =>
    rw [hsize] at h
    cases h
  | some size =>
    rw [hsize] at h
    obtain ⟨c, -, hs'⟩ := Task.manage_eq_ok h
    exact ⟨c, hs'⟩

theorem Server.addHistogram_eq_ok (h : S.addHistogram im s = .ok im₁ s₁) :
    ∃ c c', s₁ = { s with tileCache := c, imageCache := c' } := by
  have hget : (get : Task Session) s = .ok s s := rfl
  unfold Server.addHistogram at h
  rw [EState.bind_ok hget] at h
  obtain ⟨r, s₂, htile, h⟩ := EState.bind_eq_ok h
  obtain ⟨c, -, rfl⟩ := Task.manage_eq_ok htile
  cases h
  exact ⟨c, _, rfl⟩

/-- A rotation that is not carried out does nothing. -/
theorem Server.Turns.idle (hturns : S.Turns) {settings : Settings} {a : ℚ} (ha : ¬ QuarterTurn a)
    (w : JTL.Work) :
    (w.applyAll (S.processor settings) (JTL.opIf (a ≠ 0) (.rotate a))).tile = w.tile := by
  unfold JTL.opIf
  split
  case isTrue => exact hturns settings a w.tile ha
  case isFalse => rfl

/-- **The same end**, for images with the same colour space and sample range. -/
theorem Light.deliver (hturns : S.Turns) (h : Light (S.processor (s.settings im)) im.info s.view t)
    (hspace : im'.base.colourspace = im.base.colourspace)
    (hsettings : s.settings im' = s.settings im) :
    JTL.deliver S s im' t = (JTLExt.deliver S s im t).map fun t' => (t', s.view) := by
  have hinfo : im'.info.colourspace = im.info.colourspace := hspace
  have hlab : JTL.labOps im'.info = JTL.labOps im.info := by
    unfold JTL.labOps
    rw [hinfo]
  have hwork : JTLExt.work (S.processor (s.settings im)) im'.info s.view t
      = JTLExt.work (S.processor (s.settings im)) im.info s.view t := by
    unfold JTLExt.work
    rw [hlab, hinfo]
  have hlight : Light (S.processor (s.settings im)) im'.info s.view t :=
    ⟨hlab ▸ h.bpc, h.floatProcessing, fun hb => hinfo.trans (h.binary hb), h.equalization, h.flip,
      h.rotation⟩
  have htransforms := hlight.transforms_eq im'.base.histogram
  rw [hwork, ← hsettings] at htransforms
  rw [JTL.deliver_of_transforms htransforms, JTLExt.deliver_eq_sealed, hsettings,
    hturns.idle h.rotation]

/-- **The histogram of the first copy** is no difference. -/
theorem Agrees.withHistogram (hagrees : Agrees S s level tile im) :
    ∃ im₁ s₁ c c', S.withHistogram s.view.requireHistogram im s = .ok im₁ s₁ ∧
      s₁ = { s with tileCache := c, imageCache := c' } ∧
      Alike (JTL.asked S s level tile im₁ s₁) (JTL.asked S s level tile im s) := by
  unfold Server.withHistogram
  split
  case isTrue hwanted =>
    obtain ⟨im₁, s₁, hadd, halike⟩ := hagrees.histogram hwanted.1 hwanted.2
    obtain ⟨c, c', hs₁⟩ := Server.addHistogram_eq_ok hadd
    exact ⟨im₁, s₁, c, c', hadd, hs₁, halike⟩
  case isFalse =>
    refine ⟨im, s, s.tileCache, s.imageCache, rfl, rfl, ?_⟩
    cases JTL.asked S s level tile im s with
    | ok r s' => exact ⟨rfl, rfl, rfl, rfl⟩
    | error e s' => trivial

/-- The number of the tile is the one that is asked for. -/
theorem Agrees.remap (hagrees : Agrees S s level tile im) :
    Task.ofExcept S (JTL.remap im.info s.view level tile) s = .ok tile s := by
  rw [remap_of_not_turned fun hturned => hagrees.rotation (quarterTurn_of_turned hturned)]
  rfl

/-- Both copies reject negative numbers. -/
theorem Agrees.rejected (hagrees : Agrees S s level tile im) (hneg : level < 0 ∨ tile < 0) :
    ∃ e, JTL.encoded S level tile im s = .error e s := by
  have hget : (get : Task Session) s = .ok s s := rfl
  have hfetch : ∃ e, JTL.fetch S level tile im s = .error e s := by
    unfold JTL.fetch
    rw [EState.bind_ok hget, EState.bind_ok hagrees.remap, if_pos hneg]
    exact ⟨_, rfl⟩
  obtain ⟨e, hfetch⟩ := hfetch
  exact ⟨e, EState.bind_error hfetch⟩

/-- The first copy asks for the tile behind the histogram ... -/
theorem Agrees.fetch_eq (hagrees : Agrees S s level tile im) (hneg : ¬ (level < 0 ∨ tile < 0)) :
    ∃ im₁ s₁ c c', JTL.fetch S level tile im s = JTL.asked S s level tile im₁ s₁ ∧
      s₁ = { s with tileCache := c, imageCache := c' } ∧
      Alike (JTL.asked S s level tile im₁ s₁) (JTL.asked S s level tile im s) := by
  have hget : (get : Task Session) s = .ok s s := rfl
  obtain ⟨im₁, s₁, c, c', hhistogram, hs₁, halike⟩ := hagrees.withHistogram
  refine ⟨im₁, s₁, c, c', ?_, hs₁, halike⟩
  unfold JTL.fetch
  rw [EState.bind_ok hget, EState.bind_ok hagrees.remap, if_neg hneg, EState.bind_ok hhistogram]
  rfl

/-- ... and the second at once. -/
theorem JTLExt.getTile_eq (hneg : ¬ (level < 0 ∨ tile < 0)) :
    JTLExt.getTile S level tile im s
      = (JTL.asked S s level tile im >>= fun r =>
          Task.ofExcept S (JTLExt.deliver S s r.1 r.2) >>= fun sent => pure (r.1, sent)) s := by
  unfold JTLExt.getTile JTL.asked
  rw [if_neg hneg]
  cases JTL.levelSize im.info level <;> rfl

/-- What is done with the tile does not depend on the caches. -/
theorem Agrees.deliver (hturns : S.Turns) (hagrees : Agrees S s level tile im) (c : Cache)
    (images : FIF.ImageCache) {r r' : Opened × RawTile}
    (hasked : JTL.asked S s level tile im s = .ok r' s') (ht : r.2 = r'.2)
    (hspace : r.1.base.colourspace = r'.1.base.colourspace) (hmin : r.1.base.min = r'.1.base.min)
    (hmax : r.1.base.max = r'.1.base.max) :
    JTL.deliver S { s with tileCache := c, imageCache := images } r.1 r.2
      = (JTLExt.deliver S s r'.1 r'.2).map fun t => (t, s.view) := by
  have hsettings : s.settings r.1 = s.settings r'.1 := by
    unfold Session.settings
    rw [hmin, hmax]
  rw [ht]
  change JTL.deliver S s r.1 r'.2 = _
  exact (hagrees.light _ _ _ hasked).deliver hturns hspace hsettings

/-- **The two copies deliver the same tile**, or fail both. -/
theorem Agrees.getTile (hturns : S.Turns) (hagrees : Agrees S s level tile im) :
    (∃ t im₁ s₁ im₂ s₂, JTL.encoded S level tile im s = .ok (im₁, t) s₁ ∧
        JTLExt.getTile S level tile im s = .ok (im₂, t) s₂) ∨
      ∃ e s₁ e' s₂, JTL.encoded S level tile im s = .error e s₁ ∧
        JTLExt.getTile S level tile im s = .error e' s₂ := by
  by_cases hneg : level < 0 ∨ tile < 0
  · obtain ⟨e, hrejected⟩ := hagrees.rejected hneg
    exact .inr ⟨_, _, _, _, hrejected, congrFun (if_pos hneg) s⟩
  obtain ⟨im₁, s₁, c, c', hfetch, hs₁, halike⟩ := hagrees.fetch_eq hneg
  rw [JTLExt.getTile_eq hneg]
  unfold JTL.encoded
  cases hx : JTL.asked S s level tile im₁ s₁ with
  | error e s₂ =>
    cases hy : JTL.asked S s level tile im s with
    | ok r s₃ =>
      rw [hx, hy] at halike
      exact halike.elim
    | error e' s₃ =>
      exact .inr ⟨_, _, _, _, EState.bind_error (hfetch.trans hx), EState.bind_error hy⟩
  | ok r s₂ =>
    cases hy : JTL.asked S s level tile im s with
    | error e' s₃ =>
      rw [hx, hy] at halike
      exact halike.elim
    | ok r' s₃ =>
      rw [hx, hy] at halike
      obtain ⟨ht, hspace, hmin, hmax⟩ := halike
      obtain ⟨c₂, rfl⟩ := JTL.asked_eq_ok hx
      subst hs₁
      have hdeliver := hagrees.deliver hturns c₂ c' hy ht hspace hmin hmax
      have hget (s : Session) : (get : Task Session) s = .ok s s := rfl
      rw [EState.bind_ok (hfetch.trans hx), EState.bind_ok hy]
      dsimp only
      rw [EState.bind_ok (hget _), hdeliver]
      cases JTLExt.deliver S s r'.1 r'.2 with
      | error e => exact .inr ⟨_, _, _, _, rfl, rfl⟩
      | ok t => exact .inl ⟨t, _, _, _, _, rfl, rfl⟩

end

/-! ## 4. The two requests -/

/-- The two deliver the same bytes, or fail both. -/
def SameOutcome (x y : Task (Opened × RawTile)) (s : Session) : Prop :=
  (∃ r s₁ r' s₂, x s = .ok r s₁ ∧ y s = .ok r' s₂ ∧ r.2.payload = r'.2.payload) ∨
    ∃ e s₁ e' s₂, x s = .error e s₁ ∧ y s = .error e' s₂

/-- What is done with an image that has been opened: the tile is found, and fetched. -/
def DeepZoom.located (fetch : Int32 → Int32 → Opened → Task (Opened × RawTile)) (argument : Text)
    (im : Opened) : Task (Opened × RawTile) :=
  match DeepZoomExt.coordinates argument with
  | .error e => Task.raise e
  | .ok ((resolution, x, y), _) => do
    let tile ← Task.tileAt im (DeepZoom.level im.info resolution) x y
    fetch (DeepZoom.level im.info resolution) tile im

/-- The tile that is asked for, and the session in which its image has been opened. -/
def Asks (S : Server) (h : Headers) (argument path : Text) (s : Session) (im : Opened)
    (level tile : Int32) (s₁ : Session) : Prop :=
  FIF.task S h path s = .ok im s₁ ∧
    ∃ resolution x y suffix,
      DeepZoomExt.coordinates argument = .ok ((resolution, x, y), suffix) ∧
      level = DeepZoom.level im.info resolution ∧ Task.tileAt im level x y s₁ = .ok tile s₁

section

variable {S : Server} {h : Headers} {argument path : Text} {s : Session}

theorem DeepZoom.encoded_eq : DeepZoom.encoded S h argument path
    = FIF.task S h path >>= DeepZoom.located (JTL.encoded S) argument := rfl

/-- Both begin in the same session if the view is for JPEG. -/
theorem DeepZoomExt.encoded_eq (hformat : s.view.outputFormat = .jpeg) :
    DeepZoomExt.encoded S h argument path s
      = (FIF.task S h path >>= DeepZoom.located (JTLExt.getTile S) argument) s := by
  have hview : Task.modifyView View.asJPEG s = .ok () s := by
    have hsame : s.view.asJPEG = s.view := by
      unfold View.asJPEG
      rw [← hformat]
    change EStateM.Result.ok () { s with view := s.view.asJPEG } = _
    rw [hsame]
  unfold DeepZoomExt.encoded DeepZoomExt.tileFor
  rw [EState.bind_ok hview, bind_assoc]
  refine congrFun (bind_congr fun im => ?_) s
  unfold DeepZoom.located
  cases DeepZoomExt.coordinates argument with
  | error e => rfl
  | ok place =>
    dsimp only
    rw [JTLExt.tileOf, bind_assoc, bind_assoc]
    refine bind_congr fun tile => ?_
    simp only [pure_bind, Prod.mk.eta, bind_pure]

theorem Task.tileAt_eq_ok {im : Opened} {level x y tile : Int32} {s' : Session}
    (h : Task.tileAt im level x y s = .ok tile s') : s' = s := by
  unfold Task.tileAt at h
  cases hsize : JTL.levelSize im.info level with
  | none =>
    rw [hsize] at h
    cases h
  | some size =>
    rw [hsize] at h
    dsimp only at h
    split at h <;> cases h
    rfl

/-- **The two requests, side by side.** -/
theorem sameOutcome_of_agrees (hturns : S.Turns) (hformat : s.view.outputFormat = .jpeg)
    (hagrees : ∀ im level tile s₁, Asks S h argument path s im level tile s₁ →
      Agrees S s₁ level tile im) :
    SameOutcome (DeepZoom.encoded S h argument path) (DeepZoomExt.encoded S h argument path) s := by
  unfold SameOutcome
  rw [DeepZoom.encoded_eq, DeepZoomExt.encoded_eq hformat]
  cases hopen : FIF.task S h path s with
  | error e s₁ => exact .inr ⟨_, _, _, _, EState.bind_error hopen, EState.bind_error hopen⟩
  | ok im s₁ =>
    rw [EState.bind_ok hopen, EState.bind_ok hopen]
    unfold DeepZoom.located
    cases hplace : DeepZoomExt.coordinates argument with
    | error e => exact .inr ⟨_, _, _, _, rfl, rfl⟩
    | ok place =>
      obtain ⟨⟨resolution, x, y⟩, suffix⟩ := place
      dsimp only
      cases htile : Task.tileAt im (DeepZoom.level im.info resolution) x y s₁ with
      | error e s₂ => exact .inr ⟨_, _, _, _, EState.bind_error htile, EState.bind_error htile⟩
      | ok tile s₂ =>
        cases Task.tileAt_eq_ok htile
        rw [EState.bind_ok htile, EState.bind_ok htile]
        rcases (hagrees im _ tile s₁ ⟨hopen, _, x, y, suffix, hplace, rfl, htile⟩).getTile hturns
          with ⟨t, im₁, s₃, im₂, s₄, hjtl, hext⟩ | hfail
        · exact .inl ⟨_, _, _, _, hjtl, hext, rfl⟩
        · exact .inr hfail

end

open DeepZoomExt (oneImageServer oneImageSession)

/-- `a_files/0/0_0.jpg` names the image `a` alone. -/
theorem requests_first : DeepZoomExt.Requests (str "a_files/0/0_0.jpg") ['a'] := by
  have hsplit : split ',' [] ['a'] = [['a']] :=
    split_intercalate (List.cons_ne_nil ['a'] []) (by decide)
  unfold DeepZoomExt.Requests
  rw [← hsplit]
  rfl

/-- A server whose image has 1 bit, in tiles of 8. -/
def bilevelServer : Server :=
  { oneImageServer with
    disk := fun _ => some (FIF.singleFile .tif 0 (.tiff { greyTiff 4 with bitsPerSample := 1 })) }

/-- A session with a binary view. -/
def binarySession : Session :=
  { oneImageSession with view := { oneImageSession.view with colourspace := .binary } }

/-- A server whose image has 16 bits.  The contrast is what makes 8 of them. -/
def deepServer : Server :=
  { oneImageServer with
    disk := fun _ => some (FIF.singleFile .tif 0 (.tiff { greyTiff 4 with bitsPerSample := 16 }))
    getTile := fun _ _ _ _ _ _ => .ok ⟨4, 4, 1, 16, .fixedPoint, [7, 7], 2, false⟩
    processor := fun _ =>
      Transform.Pixels.processor ⟨fun _ t => t.data, fun _ => [], fun _ => 0, false⟩
    exception := .string }

end Iipsrv
