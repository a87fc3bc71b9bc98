/-
# The sample range of a channel

An image has a smallest and a largest sample for each channel, in the vectors `min` and `max`.  The
image classes fill them with an entry for each channel or more.  Three places subscript them:

* `MINMAX` writes the entry of a channel that the client names.  It refuses a number below 1, and
  one that is LARGER THAN the number of channels after 1 has been taken off.  So the number behind
  the last channel passes, and the write is one past the end.
* `normalize` reads an entry for every channel of the tile.  It gets the image's own vectors, or,
  for a contrast stretch, new ones, of which `send` makes as many entries as the tile has BITS.
  That is enough up to 8 channels at 8 bits, 16 at 16 and 32 at 32, and not for more.
* `histogram` normalizes a deep thumbnail, with the image's own vectors.

§1 lists the subscripts as the source applies them, §2 ties the commands to the handlers, §3 gives
the exact condition under which every subscript is in range.
-/
import Iipsrv.Transform.Model
import Iipsrv.Server.Commands
import Iipsrv.Server.TwoCopies

namespace Iipsrv

open Lib.Print (Text)
open Lib.Steps Lib.Effects

/-! ## 1. Subscripts -/

/-- A subscript applied to a vector of this length. -/
structure Subscript where
  index : Nat
  length : Nat
  deriving DecidableEq, Repr

/-- All of them are smaller than the lengths. -/
def Subscript.AllInside (l : List Subscript) : Prop := ∀ x ∈ l, x.index < x.length

instance (l : List Subscript) : Decidable (Subscript.AllInside l) :=
  inferInstanceAs (Decidable (∀ x ∈ l, _))

/-- `normalize`: a minimum and a maximum for each channel of the tile. -/
def Transform.normalizeSubscripts (channels : Nat) (min max : List ℚ) : List Subscript :=
  (List.range channels).flatMap fun c => [⟨c, min.length⟩, ⟨c, max.length⟩]

/-- `MINMAX::run`: the entries of the channel, if it is not refused. -/
def MINMAX.subscripts (argument : Text) (b : IIPImage) : List Subscript :=
  let nchan := channel argument
  if nchan < 0 ∨ b.channels < nchan.toInt.toNat then []
  else [⟨nchan.toInt.toNat, b.min.length⟩, ⟨nchan.toInt.toNat, b.max.length⟩]

/-- The vectors that `normalize` is given: the image's own, or those of a contrast stretch. -/
def JTL.rangeVectors (b : IIPImage) (t : RawTile) : Option (Nat × Nat) → List ℚ × List ℚ
  | none => (b.min, b.max)
  | some (n0, n1) => (List.replicate t.bpc (n0 : ℚ), List.replicate t.bpc (n1 : ℚ))

/-- The subscripts of an operation on a tile. -/
def JTL.Op.subscripts (b : IIPImage) (t : RawTile) : JTL.Op → List Subscript
  | .normalize range =>
    Transform.normalizeSubscripts t.channels (rangeVectors b t range).1 (rangeVectors b t range).2
  | _ => []

/-- A tile or a region that is sent: the thumbnail, the histogram that is calculated from it, and
the pixels. -/
structure Export where
  region : Bool
  thumbnail : RawTile
  counted : List Nat
  tile : RawTile

namespace Export

/-- The histogram is calculated first: for a region not if the image is binary. -/
def Counts (x : Export) (b : IIPImage) (v : View) : Prop :=
  v.requireHistogram ∧ b.histogram = [] ∧ (x.region = true → b.colourspace ≠ .binary)

instance (x : Export) (b : IIPImage) (v : View) : Decidable (x.Counts b v) :=
  inferInstanceAs (Decidable (_ ∧ _))

/-- The histogram that `send` goes on with. -/
def histogram (x : Export) (b : IIPImage) (v : View) : List Nat :=
  if x.Counts b v then x.counted else b.histogram

/-- `Transform::histogram`: a thumbnail of more than 8 bits is normalized. -/
def thumbnailSubscripts (x : Export) (b : IIPImage) (v : View) : List Subscript :=
  if x.Counts b v ∧ 8 < x.thumbnail.bpc then
    Transform.normalizeSubscripts x.thumbnail.channels b.min b.max
  else []

/-- The operations of the float pipeline. -/
def tileSubscripts (x : Export) (b : IIPImage) (v : View) : List Subscript :=
  match JTL.floatOps v (x.histogram b v) x.tile with
  | .error _ => []
  | .ok (_, ops) => ops.flatMap (JTL.Op.subscripts b x.tile)

/-- The subscripts of `send`. -/
def subscripts (x : Export) (b : IIPImage) (v : View) : List Subscript :=
  x.thumbnailSubscripts b v ++ x.tileSubscripts b v

end Export

/-- The commands that have to do with ranges. -/
inductive RangeCommand
  | minmax (argument : Text)
  | stretch
  deriving DecidableEq

namespace RangeCommand

def handler (S : Server) : RangeCommand → Handler
  | .minmax argument => MINMAX.run S argument
  | .stretch => CNT.run S (str "stretch")

def subscripts : RangeCommand → IIPImage → List Subscript
  | .minmax argument, b => MINMAX.subscripts argument b
  | .stretch, _ => []

/-- The image and the view behind a command. -/
def apply (S : Server) : RangeCommand → Opened × View → Opened × View
  | .minmax argument, (im, v) =>
    if MINMAX.subscripts argument im.base = [] then (im, v)
    else
      let n := (MINMAX.channel argument).toInt.toNat
      let (min, arg3) := cutAt ',' (cutAt ':' argument).2
      let max := (cutAt ',' arg3).1
      (im.update fun b =>
        { b with min := b.min.set n (S.atof min), max := b.max.set n (S.atof max) }, v)
  | .stretch, (im, v) => (im, { v with contrast := -1 })

/-- Every subscript of the command is in range. -/
def Inside (k : RangeCommand) (im : Opened) : Prop := Subscript.AllInside (k.subscripts im.base)

instance (k : RangeCommand) (im : Opened) : Decidable (k.Inside im) :=
  inferInstanceAs (Decidable (Subscript.AllInside _))

end RangeCommand

/-- **Every subscript is in range**: of each command of the sequence, and of the export behind
it. -/
def SubscriptsInside (S : Server) (commands : List RangeCommand) (x : Export) (im : Opened)
    (v : View) : Prop :=
  Along (RangeCommand.apply S) (fun k st => k.Inside st.1) commands (im, v) ∧
    Subscript.AllInside (x.subscripts (run (RangeCommand.apply S) commands (im, v)).1.base
      (run (RangeCommand.apply S) commands (im, v)).2)

instance (S : Server) (commands : List RangeCommand) (x : Export) (im : Opened) (v : View) :
    Decidable (SubscriptsInside S commands x im v) :=
  inferInstanceAs (Decidable (_ ∧ _))

/-! ## 2. The handlers -/

theorem Opened.base_update (f : IIPImage → IIPImage) : ∀ im : Opened, (im.update f).base = f im.base
  | .tpt _ => rfl
  | .openJPEG _ => rfl

/-- A list of one step. -/
theorem Handler.exec_single (a : Action) : Handler.exec [a] = a.exec := by
  funext c
  cases ha : a.exec c with
  | ok u c' => exact (Handler.exec_ok ha).trans rfl
  | error e c' => exact Handler.exec_error ha

theorem Handler.exec_append (l l' : Handler) :
    Handler.exec (l ++ l') = Handler.exec l >>= fun _ => Handler.exec l' := by
  unfold Handler.exec
  simp [List.forM_eq_forM]

namespace RangeCommand

variable {S : Server} {im : Opened} {v : View}

/-- **A command does what its handler does**: it goes on behind subscripts that are in range, and
does something undefined behind one that is not. -/
theorem exec_handler (S : Server) (k : RangeCommand) (im : Opened) (s : Session) :
    (k.handler S).exec ⟨some im, s⟩
      = if k.Inside im then
          .ok () ⟨some (k.apply S (im, s.view)).1, { s with view := (k.apply S (im, s.view)).2 }⟩
        else .error (.stop (.fault .outOfBounds)) ⟨some im, s⟩ := by
  cases k with
  | stretch =>
    rw [if_pos (by simp [Inside, subscripts, Subscript.AllInside])]
    rfl
  | minmax argument =>
    by_cases hneg : MINMAX.channel argument < 0
    · have hnone : MINMAX.subscripts argument im.base = [] := if_pos (.inl hneg)
      simp only [handler, MINMAX.run, Inside, subscripts, apply, hneg, hnone, if_true,
        Subscript.AllInside, List.not_mem_nil, false_imp_iff, implies_true]
      rfl
    · have hhandler : handler S (.minmax argument) = MINMAX.run S argument := rfl
      rw [hhandler, MINMAX.run, if_neg hneg, Handler.exec_single]
      dsimp only [Action.exec, Action.withImage]
      by_cases hlarge : im.base.channels < (MINMAX.channel argument).toInt.toNat
      · have hnone : MINMAX.subscripts argument im.base = [] := if_pos (.inr hlarge)
        simp only [Inside, subscripts, apply, hlarge, hnone, if_true, Subscript.AllInside,
          List.not_mem_nil, false_imp_iff, implies_true]
        rfl
      · have hboth : MINMAX.subscripts argument im.base
            = [⟨(MINMAX.channel argument).toInt.toNat, im.base.min.length⟩,
              ⟨(MINMAX.channel argument).toInt.toNat, im.base.max.length⟩] :=
          if_neg (not_or.2 ⟨hneg, hlarge⟩)
        simp only [Inside, subscripts, apply, hlarge, hboth, if_false, Subscript.AllInside,
          List.forall_mem_cons, List.not_mem_nil, false_imp_iff, implies_true, and_true,
          reduceCtorEq]
        by_cases hout : im.base.min.length ≤ (MINMAX.channel argument).toInt.toNat ∨
            im.base.max.length ≤ (MINMAX.channel argument).toInt.toNat
        · rw [if_pos hout, if_neg (by omega)]
          rfl
        · rw [if_neg hout, if_pos (by omega)]
          rfl

/-- **A sequence of commands ends exactly if every subscript is in range.** -/
theorem exec_commands_iff (S : Server) (commands : List RangeCommand) (im : Opened) (s : Session) :
    (∃ c, Handler.exec (commands.flatMap (handler S)) ⟨some im, s⟩ = .ok () c) ↔
      Along (apply S) (fun k st => k.Inside st.1) commands (im, s.view) := by
  induction commands generalizing im s with
  | nil => exact ⟨fun _ => trivial, fun _ => ⟨_, rfl⟩⟩
  | cons k commands ih =>
    have hk := exec_handler S k im s
    rw [List.flatMap_cons, Handler.exec_append, along_cons]
    by_cases hinside : k.Inside im
    · rw [if_pos hinside] at hk
      rw [EState.bind_ok hk, ih]
      exact ⟨fun hrest => ⟨hinside, hrest⟩, fun hboth => hboth.2⟩
    · rw [if_neg hinside] at hk
      rw [EState.bind_error hk]
      constructor
      · rintro ⟨c, hc⟩
        cases hc
      · rintro ⟨hk, -⟩
        exact absurd hk hinside

end RangeCommand

/-! ## 3. The exact condition -/

/-- What the commands leave of an image: everything that the subscripts depend on. -/
structure SameRanges (b b' : IIPImage) : Prop where
  channels : b'.channels = b.channels
  min : b'.min.length = b.min.length
  max : b'.max.length = b.max.length
  histogram : b'.histogram = b.histogram
  colourspace : b'.colourspace = b.colourspace

theorem SameRanges.refl (b : IIPImage) : SameRanges b b := ⟨rfl, rfl, rfl, rfl, rfl⟩

theorem SameRanges.trans {b b' b'' : IIPImage} (h : SameRanges b b') (h' : SameRanges b' b'') :
    SameRanges b b'' :=
  ⟨h'.channels.trans h.channels, h'.min.trans h.min, h'.max.trans h.max,
    h'.histogram.trans h.histogram, h'.colourspace.trans h.colourspace⟩

/-- There is an entry for each channel. -/
structure IIPImage.Ranged (b : IIPImage) : Prop where
  min : b.min.length = b.channels
  max : b.max.length = b.channels

theorem SameRanges.ranged {b b' : IIPImage} (h : SameRanges b b') (hb : b.Ranged) : b'.Ranged :=
  ⟨by rw [h.min, h.channels, hb.min], by rw [h.max, h.channels, hb.max]⟩

section

variable {S : Server} {im : Opened} {v : View} {b : IIPImage} {t : RawTile} {x : Export}

/-- Reading an entry for each channel. -/
theorem allInside_normalize_iff (channels : Nat) (min max : List ℚ) :
    Subscript.AllInside (Transform.normalizeSubscripts channels min max) ↔
      channels ≤ min.length ∧ channels ≤ max.length := by
  have hmem : ∀ y, y ∈ Transform.normalizeSubscripts channels min max ↔
      ∃ c < channels, y = ⟨c, min.length⟩ ∨ y = ⟨c, max.length⟩ := by
    simp [Transform.normalizeSubscripts]
  constructor
  · intro h
    rcases Nat.eq_zero_or_pos channels with rfl | hpos
    · exact ⟨Nat.zero_le _, Nat.zero_le _⟩
    · have hlast : channels - 1 < channels := by omega
      have hmin : channels - 1 < min.length := h _ ((hmem _).2 ⟨_, hlast, .inl rfl⟩)
      have hmax : channels - 1 < max.length := h _ ((hmem _).2 ⟨_, hlast, .inr rfl⟩)
      omega
  · rintro ⟨hmin, hmax⟩ y hy
    obtain ⟨c, hc, rfl | rfl⟩ := (hmem y).1 hy
    · exact hc.trans_le hmin
    · exact hc.trans_le hmax

/-- **The channel that `MINMAX` lets pass.**  Counted from 0 it is the number of channels. -/
theorem inside_minmax_iff (argument : Text) (him : im.base.Ranged) :
    (RangeCommand.minmax argument).Inside im ↔
      (MINMAX.channel argument).toInt ≠ im.base.channels := by
  have hneg : MINMAX.channel argument < 0 ↔ (MINMAX.channel argument).toInt < 0 :=
    Int32.lt_iff_toInt_lt
  change Subscript.AllInside (if _ then [] else _) ↔ _
  split
  case isTrue hrefused =>
    refine ⟨fun _ heq => ?_, fun _ => by simp [Subscript.AllInside]⟩
    rw [hneg] at hrefused
    omega
  case isFalse hpassed =>
    rw [hneg] at hpassed
    simp only [Subscript.AllInside, List.forall_mem_cons, List.not_mem_nil, false_imp_iff,
      implies_true, and_true, him.min, him.max]
    omega

/-- In the float pipeline only the first operation reads the vectors. -/
theorem allInside_pipeline_iff (range : Option (Nat × Nat)) (c : ℚ) :
    Subscript.AllInside ((JTL.Op.normalize range :: JTL.middleOps v ++
        [JTL.Op.contrast c]).flatMap (JTL.Op.subscripts b t)) ↔
      t.channels ≤ (JTL.rangeVectors b t range).1.length ∧
        t.channels ≤ (JTL.rangeVectors b t range).2.length := by
  have hmiddle : (JTL.middleOps v).flatMap (JTL.Op.subscripts b t) = [] := by
    refine List.flatMap_eq_nil_iff.2 fun op hop => ?_
    rcases JTL.mem_middleOps.1 hop with ⟨-, rfl⟩ | ⟨-, rfl⟩ | ⟨-, rfl⟩ | ⟨-, rfl⟩ | ⟨-, rfl⟩
    · rfl
    · rfl
    · split <;> rfl
    · rfl
    · rfl
  have hlast : [JTL.Op.contrast c].flatMap (JTL.Op.subscripts b t) = [] := rfl
  rw [List.flatMap_append, List.flatMap_cons, hmiddle, hlast, List.append_nil, List.append_nil]
  exact allInside_normalize_iff _ _ _

/-- **The tile.**  A stretch makes as many entries as the tile has bits. -/
theorem allInside_tile_iff (hb : b.Ranged) (htile : x.tile.channels = b.channels) :
    Subscript.AllInside (x.tileSubscripts b v) ↔
      (v.contrast = -1 → (∃ n ∈ x.histogram b v, n ≠ 0) → b.channels ≤ x.tile.bpc) := by
  unfold Export.tileSubscripts JTL.floatOps
  by_cases hfloat : 8 < x.tile.bpc ∨ v.floatProcessing = true
  · rw [if_neg (not_not.2 hfloat)]
    by_cases hcontrast : v.contrast = -1
    · rw [if_pos hcontrast]
      have hrange := JTL.exists_stretchRange_iff (x.histogram b v) x.tile
      cases hstretch : JTL.stretchRange (x.histogram b v) x.tile with
      | none =>
        rw [hstretch] at hrange
        refine ⟨fun _ _ hbin => ?_, fun _ => by simp [Subscript.AllInside]⟩
        obtain ⟨range, hsome⟩ := hrange.2 hbin
        cases hsome
      | some range =>
        have hbin := hrange.1 ⟨range, hstretch⟩
        have hlengths : (JTL.rangeVectors b x.tile (some range)).1.length = x.tile.bpc ∧
            (JTL.rangeVectors b x.tile (some range)).2.length = x.tile.bpc :=
          ⟨List.length_replicate, List.length_replicate⟩
        dsimp only
        rw [allInside_pipeline_iff, hlengths.1, hlengths.2, and_self_iff, htile]
        exact ⟨fun hle _ _ => hle, fun hle => hle hcontrast hbin⟩
    · rw [if_neg hcontrast]
      dsimp only
      rw [allInside_pipeline_iff]
      refine ⟨fun _ heq => absurd heq hcontrast, fun _ => ?_⟩
      exact ⟨(htile.trans hb.min.symm).le, (htile.trans hb.max.symm).le⟩
  · rw [if_pos hfloat]
    have hcontrast : v.contrast ≠ -1 := by
      intro heq
      have hne : (-1 : ℚ) ≠ 1 := by norm_num
      exact hfloat (.inr (by simp [View.floatProcessing, heq, hne]))
    exact ⟨fun _ heq => absurd heq hcontrast, fun _ => by simp [Subscript.AllInside]⟩

/-- The histogram that is used depends on what the commands leave. -/
theorem SameRanges.histogram_eq {b' : IIPImage} (h : SameRanges b b') (x : Export) (v : View) :
    x.histogram b' v = x.histogram b v := by
  have hcounts : x.Counts b' v ↔ x.Counts b v := by
    unfold Export.Counts
    rw [h.histogram, h.colourspace]
  unfold Export.histogram
  simp only [hcounts, h.histogram]

/-- **The thumbnail.**  It is normalized with the image's own vectors. -/
theorem allInside_thumbnail (hb : b.Ranged) (hthumbnail : x.thumbnail.channels = b.channels) :
    Subscript.AllInside (x.thumbnailSubscripts b v) := by
  unfold Export.thumbnailSubscripts
  split
  · rw [allInside_normalize_iff]
    exact ⟨(hthumbnail.trans hb.min.symm).le, (hthumbnail.trans hb.max.symm).le⟩
  · simp [Subscript.AllInside]

/-- One command. -/
theorem RangeCommand.sameRanges_apply (S : Server) (k : RangeCommand) (st : Opened × View) :
    SameRanges st.1.base (k.apply S st).1.base := by
  cases k with
  | stretch => exact .refl _
  | minmax argument =>
    unfold apply
    dsimp only
    split
    · exact .refl _
    · constructor <;> simp [Opened.base_update]

/-- Any number of commands. -/
theorem RangeCommand.sameRanges_run (S : Server) (commands : List RangeCommand)
    (st : Opened × View) : SameRanges st.1.base (run (apply S) commands st).1.base := by
  induction commands generalizing st with
  | nil => exact .refl _
  | cons k commands ih => exact (k.sameRanges_apply S st).trans (ih _)

/-- The view is the old one, with a contrast stretch if one has been asked for. -/
theorem RangeCommand.view_run (S : Server) (commands : List RangeCommand) (st : Opened × View) :
    (run (apply S) commands st).2
      = if .stretch ∈ commands then { st.2 with contrast := -1 } else st.2 := by
  induction commands generalizing st with
  | nil => rfl
  | cons k commands ih =>
    rw [run_cons, ih]
    cases k with
    | stretch =>
      simp only [List.mem_cons_self, if_true]
      split <;> rfl
    | minmax argument =>
      have hview : (apply S (.minmax argument) st).2 = st.2 := by
        unfold apply
        dsimp only
        split <;> rfl
      simp only [hview, List.mem_cons, reduceCtorEq, false_or]

/-- The commands of a sequence are inside exactly if none of them names the channel that
passes. -/
theorem RangeCommand.along_inside_iff (S : Server) (commands : List RangeCommand)
    (st : Opened × View) (hst : st.1.base.Ranged) :
    Along (apply S) (fun k st => k.Inside st.1) commands st ↔
      ∀ argument, .minmax argument ∈ commands →
        (MINMAX.channel argument).toInt ≠ st.1.base.channels := by
  induction commands generalizing st with
  | nil => simp
  | cons k commands ih =>
    have hsame := k.sameRanges_apply S st
    rw [along_cons, ih _ (hsame.ranged hst), hsame.channels]
    cases k with
    | stretch => simp [Inside, subscripts, Subscript.AllInside]
    | minmax argument =>
      rw [inside_minmax_iff argument hst]
      simp only [List.mem_cons, minmax.injEq]
      constructor
      · rintro ⟨hfirst, hrest⟩ argument' (rfl | hmem)
        · exact hfirst
        · exact hrest argument' hmem
      · intro hall
        exact ⟨hall argument (.inl rfl), fun argument' hmem => hall argument' (.inr hmem)⟩

end

/-- **When every subscript is in range.**  For an image with an entry for each of its channels, any
sequence of `MINMAX` and `CNT=stretch`, and any tile or region that is sent behind it: exactly if no
`MINMAX` names the channel behind the last one, and, once a stretch has been asked for and the
histogram gives it a range, the tile has at least as many bits as channels. -/
theorem rangeSubscripts_inside_iff (S : Server) (commands : List RangeCommand) (x : Export)
    (im : Opened) (v : View) (him : im.base.Ranged)
    (hthumbnail : x.thumbnail.channels = im.base.channels)
    (htile : x.tile.channels = im.base.channels) :
    SubscriptsInside S commands x im v ↔
      (∀ argument, .minmax argument ∈ commands →
        (MINMAX.channel argument).toInt ≠ im.base.channels) ∧
      (v.contrast = -1 ∨ .stretch ∈ commands →
        (∃ n ∈ x.histogram im.base { v with contrast := -1 }, n ≠ 0) →
          im.base.channels ≤ x.tile.bpc) := by
  have hsame := RangeCommand.sameRanges_run S commands (im, v)
  have hview := RangeCommand.view_run S commands (im, v)
  unfold SubscriptsInside
  rw [RangeCommand.along_inside_iff S commands (im, v) him]
  refine and_congr Iff.rfl ?_
  generalize run (RangeCommand.apply S) commands (im, v) = st at hsame hview
  have hexport : Subscript.AllInside (x.subscripts st.1.base st.2) ↔
      Subscript.AllInside (x.tileSubscripts st.1.base st.2) := by
    unfold Subscript.AllInside Export.subscripts
    rw [List.forall_mem_append]
    exact and_iff_right
      (allInside_thumbnail (hsame.ranged him) (hthumbnail.trans hsame.channels.symm))
  rw [hexport, allInside_tile_iff (hsame.ranged him) (htile.trans hsame.channels.symm),
    hsame.histogram_eq, hsame.channels, hview]
  by_cases hstretch : .stretch ∈ commands
  · simp only [hstretch, if_true, or_true, true_imp_iff]
  · simp only [hstretch, if_false, or_false]
    refine imp_congr_right fun hcontrast => ?_
    rw [← hcontrast]

/-- An image with this many channels of 8 bits. -/
def bandImage (channels : Nat) : Opened :=
  .openJPEG
    { IIPImage.new [] with
      channels := channels
      bpc := 8
      min := List.replicate channels 0
      max := List.replicate channels 255 }

/-- A pixel of it that is sent, with a histogram that has counted something. -/
def bandExport (channels : Nat) : Export :=
  ⟨false, Transform.onePixel channels 8, [1], Transform.onePixel channels 8⟩

/-- Eight channels of 8 bits, the range of the last one set, and a stretch. -/
theorem eight_bands_inside :
    SubscriptsInside (smallServer fun _ => none) [.minmax (str "8:0,100"), .stretch]
      (bandExport 8) (bandImage 8) View.new := by
  refine (rangeSubscripts_inside_iff _ _ _ (bandImage 8) _ ⟨rfl, rfl⟩ rfl rfl).2 ⟨?_, fun _ _ => ?_⟩
  · intro argument hmem
    obtain rfl : argument = str "8:0,100" := by simpa using hmem
    decide
  · decide

/-- **One channel too many.**  `MINMAX=2:0,255` on an image of one channel writes the second entry
of two vectors of one.  A stretch of nine channels of 8 bits makes vectors of eight entries, and the
ninth is read. -/
theorem one_past_the_end :
    MINMAX.subscripts (str "2:0,255") (bandImage 1).base = [⟨1, 1⟩, ⟨1, 1⟩] ∧
      ¬ SubscriptsInside (smallServer fun _ => none) [.minmax (str "2:0,255")] (bandExport 1)
        (bandImage 1) View.new ∧
      ⟨8, 8⟩ ∈ (bandExport 9).tileSubscripts (bandImage 9).base
        { View.new with contrast := -1 } ∧
      ¬ SubscriptsInside (smallServer fun _ => none) [.stretch] (bandExport 9) (bandImage 9)
        View.new := by
  decide +kernel

end Iipsrv
