/-
# Errors and the response cache

Errors travel in two ways.  An exception skips the end of the `try` block, and nothing is stored.
`setError` leaves its line in the response and lets the loop run on; the end of the block then
asks whether the response may be cached and whether there is a server to cache it, and nothing
else.

`effect_execute` says what each command does to the mark of the response, `loop_effect` what a
list of commands does.  An error is left by an unsupported command, by an unsupported argument of
`OBJ`, and at the end if no command has sent or added anything.
-/
import Iipsrv.Server.Response

namespace Iipsrv

open Lib.Print (Text)
open Lib.Str Lib.Effects

/-! ## 1. What a command does to the mark -/

/-- Whether the image has something in this field of its metadata. -/
def OBJ.present (image : Option Opened) (field : Text) : Bool :=
  image.any fun im => decide ((im.base.metadata field).getD [] ≠ [])

/-- Whether a query adds something to the response.  A field of the metadata may be missing. -/
def OBJ.Query.answers (argument : Text) (image : Option Opened) : Query → Bool
  | summaryInfo => OBJ.summary.any fun field => OBJ.present image (str field)
  | field => OBJ.present image argument
  | _ => true

namespace Command

/-- Whether a command that comes to its end has sent something or added it to the response. -/
def answers (argument : Text) (image : Option Opened) : Command → Bool
  | obj => (OBJ.query? (tolower argument)).any fun q => q.answers (tolower argument) image
  | jtls => decide (((Tokenizer.tokens ',' argument).take 4).length = 4)
  | til | ptl | jtl | cvt | spectra | pfl | zoomify | deepZoom | deepZoomExt | iiif => true
  | _ => false

/-- An unsupported argument of `OBJ`. -/
def unsupported (argument : Text) : Command → Bool
  | obj => (OBJ.query? (tolower argument)).isNone
  | _ => false

/-- A request for `info.json`. -/
def isInfo (argument : Text) : Command → Bool
  | iiif =>
    (rfind ['/'] (URL.decode argument)).any fun pos => IIIF.isInfo (URL.decode argument) pos
  | _ => false

/-- The mark behind the command. -/
def effect (argument : Text) (image : Option Opened) (m : Mark) (c : Command) : Mark :=
  ⟨m.error || c.unsupported argument, m.answered || c.answers argument image,
    m.cachable && !c.isInfo argument⟩

end Command

namespace Order

variable (p : Order)

/-- Whether the command sends something or adds it to the response. -/
def answers (image : Option Opened) : Bool :=
  match Command.factory p.1 with
  | none => false
  | some c => c.answers p.2 image

/-- An unsupported command, or an unsupported argument of `OBJ`. -/
def unsupported : Bool :=
  match Command.factory p.1 with
  | none => true
  | some c => c.unsupported p.2

/-- A request for `info.json`. -/
def isInfo : Bool :=
  match Command.factory p.1 with
  | none => false
  | some c => c.isInfo p.2

/-- The mark behind the command. -/
def effect (image : Option Opened) (m : Mark) : Mark :=
  ⟨m.error || p.unsupported, m.answered || p.answers image, m.cachable && !p.isInfo⟩

end Order

/-! ## 2. Steps -/

namespace Run

variable {image : Option Opened} {m m' m'' : Mark}

/-- If the computation ends, it leads from one mark to the other. -/
def Effect (image : Option Opened) (m m' : Mark) (x : Run Unit) : Prop :=
  Triple (fun c => c.image = image ∧ c.session.At m) x (fun _ c => c.session.At m')
    (fun _ _ => True)

/-- The image is left as it is. -/
def Asks (image : Option Opened) (m m' : Mark) (x : Run Unit) : Prop :=
  Triple (fun c => c.image = image ∧ c.session.At m) x
    (fun _ c => c.image = image ∧ c.session.At m') (fun _ _ => True)

theorem asks_nil : Asks image m m (Handler.exec []) := Triple.pure fun _ hc => hc

theorem effect_nil : Effect image m m (Handler.exec []) := Triple.pure fun _ hc => hc.2

theorem Asks.cons {a : Action} {l : Handler} (ha : Asks image m m' a.exec)
    (hl : Asks image m' m'' l.exec) : Asks image m m'' (Handler.exec (a :: l)) := by
  rw [Handler.exec_cons]
  exact Triple.bind ha fun _ => hl

theorem Asks.effect {x : Run Unit} (h : Asks image m m' x) : Effect image m m' x :=
  Triple.consequence h (fun _ hc => hc) (fun _ _ hc => hc.2) (fun _ _ _ => trivial)

theorem Asks.cons_effect {a : Action} {l : Handler} (ha : Asks image m m' a.exec)
    (hl : Effect image m' m'' l.exec) : Effect image m m'' (Handler.exec (a :: l)) := by
  rw [Handler.exec_cons]
  exact Triple.bind ha fun _ => hl

/-- A handler of one step. -/
theorem Effect.single {a : Action} (ha : Effect image m m' a.exec) :
    Effect image m m' (Handler.exec [a]) := by
  rw [Handler.exec_cons]
  exact Triple.bind ha fun _ => Triple.pure fun _ hc => hc

theorem asks_update {f : Session → Session} (hf : ∀ s, s.At m → (f s).At m') :
    Asks image m m' (Action.update f).exec :=
  Triple.modify fun c hc => ⟨hc.1, hf c.session hc.2⟩

theorem effect_refuse (t : Thrown) : Effect image m m' (Action.refuse t).exec :=
  Triple.throw fun _ _ => trivial

theorem effect_opening {t : Task Opened} (ht : t.Leads m m') :
    Effect image m m' (Action.opening t).exec := by
  intro c hc
  have hend := ht c.session hc.2
  change Ends _ _ (Action.setImage t c)
  unfold Action.setImage
  cases hres : t c.session with
  | ok im s =>
    rw [hres] at hend
    exact hend
  | error e s => trivial

theorem effect_follow {t : Opened → Task Opened} (ht : ∀ im, (t im).Leads m m') :
    Effect image m m' (Action.follow t).exec := by
  intro c hc
  change Ends _ _ (Action.withImage t c)
  unfold Action.withImage
  cases c.image with
  | none => trivial
  | some im =>
    have hend := ht im c.session hc.2
    dsimp only
    cases hres : t im c.session with
    | ok im s =>
      rw [hres] at hend
      exact hend
    | error e s => trivial

theorem checkImage_keeps (argument : Text) (P : Connection → Prop) :
    Triple P (Action.checkImage argument) (fun _ => P) (fun _ _ => True) := by
  intro c hc
  unfold Action.checkImage
  split
  case isTrue => trivial
  case isFalse => exact hc

theorem effect_guarded {argument : Text} {t : Opened → Task Opened}
    (ht : ∀ im, (t im).Leads m m') : Effect image m m' (Action.guarded argument t).exec :=
  Triple.bind (checkImage_keeps argument _) fun _ => effect_follow ht

end Run

/-! ## 3. Commands -/

open Run

section

variable {S : Server} {h : Headers} {image : Option Opened} {m : Mark}

/-- A change of the session that touches neither the response nor the output format. -/
theorem Run.effect_update {f : Session → Session}
    (hf : ∀ s, (f s).response = s.response ∧ (f s).view.outputFormat = s.view.outputFormat) :
    Run.Effect image m m (Handler.exec [.update f]) := by
  refine ((asks_update fun s hs => ?_).cons asks_nil).effect
  obtain ⟨hresponse, hformat⟩ := hf s
  refine ⟨hresponse ▸ hs.mark, ?_⟩
  rw [View.Encodable, hformat]
  exact hs.view

theorem Run.effect_onView {f : View → View} (hf : ∀ v, (f v).outputFormat = v.outputFormat) :
    Run.Effect image m m (Handler.exec (onView f)) :=
  effect_update fun s => ⟨rfl, hf s.view⟩

/-- A change of the view in front of another step. -/
theorem Run.Effect.afterView {m' : Mark} {f : View → View} {a : Action}
    (ha : Run.Effect image m m' a.exec) (hf : ∀ v, v.Encodable → (f v).Encodable) :
    Run.Effect image m m' (Handler.exec (onView f ++ [a])) := by
  refine (asks_update fun s hs => ?_).cons_effect ha.single
  exact ⟨hs.mark, hf s.view hs.view⟩

namespace OBJ

theorem asks_answer {m' : Mark} {f : IIPResponse → IIPResponse}
    (hf : ∀ r : IIPResponse, r.mark = m → (f r).mark = m') :
    Run.Asks image m m' (answer f).exec :=
  asks_update fun s hs => ⟨hf s.response hs.mark, hs.view⟩

theorem asks_query {m' : Mark} {argument : Text} {f : View → Opened → IIPResponse → IIPResponse}
    (hf : ∀ v im (r : IIPResponse), image = some im → r.mark = m → (f v im r).mark = m') :
    Run.Asks image m m' (query argument f).exec := by
  refine Triple.bind (checkImage_keeps argument _) fun _ c hc => ?_
  unfold Action.withImage
  cases himage : c.image with
  | none => trivial
  | some im =>
    have him : image = some im := hc.1.symm.trans himage
    exact ⟨him.symm, hf _ im _ him hc.2.mark, hc.2.view⟩

/-- A query that always adds a line. -/
theorem asks_adding {argument : Text} {f : View → Opened → IIPResponse → IIPResponse}
    (hf : ∀ v im r, (f v im r).mark = r.mark.sent) :
    Run.Asks image m m.sent (query argument f).exec :=
  asks_query fun v im r _ hr => (hf v im r).trans (congrArg Mark.sent hr)

theorem asks_maxSize (argument : Text) : Run.Asks image m m.sent (maxSize argument).exec := by
  refine asks_adding fun v im r => ?_
  unfold IIPResponse.addNumbers
  dsimp only
  rw [← apply_ite r.addResponse]
  exact IIPResponse.mark_addResponse r _

theorem asks_resolutionNumber (argument : Text) :
    Run.Asks image m m.sent (resolutionNumber argument).exec :=
  asks_adding fun _ _ r => IIPResponse.mark_addNumber r _ _

theorem asks_colorspace (argument : Text) : Run.Asks image m m.sent (colorspace argument).exec :=
  asks_adding fun _ _ r => IIPResponse.mark_addResponse r _

theorem asks_metadata (argument field : Text) :
    Run.Asks image m (if present image field then m.sent else m)
      (metadata argument field).exec := by
  refine asks_query fun v im r him hr => ?_
  subst him
  change IIPResponse.mark (if (im.base.metadata field).getD [] ≠ [] then _ else _) = _
  by_cases hdata : (im.base.metadata field).getD [] ≠ []
  · rw [if_pos hdata, if_pos (by simpa [present] using hdata), IIPResponse.mark_addText, hr]
  · rw [if_neg hdata, if_neg (by simpa [present] using hdata), hr]

/-- Several fields answer if one of them does. -/
theorem asks_summary (argument : Text) (fields : List String) :
    Run.Asks image m (if fields.any fun field => present image (str field) then m.sent else m)
      (Handler.exec (fields.map fun field => metadata argument (str field))) := by
  induction fields generalizing m with
  | nil => exact asks_nil
  | cons field fields ih =>
    have hfirst : Run.Asks image m (if present image (str field) then m.sent else m)
        (metadata argument (str field)).exec := asks_metadata argument (str field)
    cases hpresent : present image (str field) with
    | true =>
      rw [hpresent] at hfirst
      rw [List.any_cons, hpresent]
      refine hfirst.cons ?_
      have hrest := ih (m := m.sent)
      rwa [show m.sent.sent = m.sent from rfl, ite_self] at hrest
    | false =>
      rw [hpresent] at hfirst
      rw [List.any_cons, hpresent]
      exact hfirst.cons ih

/-- A known query leaves no error. -/
theorem asks_answerQuery (argument : Text) (q : Query) :
    Run.Asks image m (if q.answers argument image then m.sent else m)
      (Handler.exec (answerQuery S argument q)) := by
  cases q with
  | iip =>
    refine (asks_answer fun r hr => ?_).cons asks_nil
    exact hr ▸ IIPResponse.mark_setProtocol r (by decide)
  | iipServer | optComm | optObj =>
    refine (asks_answer fun r hr => ?_).cons asks_nil
    exact hr ▸ IIPResponse.mark_addResponse r _
  | basicInfo =>
    have hserver : Run.Asks image m m.sent iipServer.exec :=
      asks_answer fun r hr => hr ▸ IIPResponse.mark_addResponse r _
    exact hserver.cons ((asks_maxSize argument).cons
      ((asks_resolutionNumber argument).cons ((asks_colorspace argument).cons asks_nil)))
  | maxSize => exact (asks_maxSize argument).cons asks_nil
  | resolutionNumber => exact (asks_resolutionNumber argument).cons asks_nil
  | colorspace => exact (asks_colorspace argument).cons asks_nil
  | bitsPerChannel =>
    exact (asks_adding fun v im r => IIPResponse.mark_addNumber r _ _).cons asks_nil
  | tileSize => exact (asks_adding fun v im r => IIPResponse.mark_addNumbers r _ _ _).cons asks_nil
  | verticalViews | horizontalViews | minMax | resolutions =>
    exact (asks_adding fun v im r => IIPResponse.mark_addResponse r _).cons asks_nil
  | summaryInfo => exact asks_summary argument summary
  | field => exact (asks_metadata argument argument).cons asks_nil

end OBJ

theorem Run.Effect.silent {x : Run Unit} (hx : Run.Effect image m m x) :
    Run.Effect image m ⟨m.error || false, m.answered || false, m.cachable && !false⟩ x := by
  simpa using hx

theorem Run.Effect.answering {x : Run Unit} (hx : Run.Effect image m m.sent x) :
    Run.Effect image m ⟨m.error || false, m.answered || true, m.cachable && !false⟩ x := by
  simpa [Mark.sent] using hx

/-- A command that tests a number before it looks at the image. -/
theorem Run.effect_tested {c : Prop} [Decidable c] {m' : Mark} (e : Thrown)
    {t : Opened → Task Opened} (ht : ∀ im, (t im).Leads m m') :
    Run.Effect image m m' (Handler.exec (if c then [.refuse e] else [.follow t])) := by
  split
  case isTrue => exact (effect_refuse e).single
  case isFalse => exact (effect_follow ht).single

theorem Run.effect_failing {f : Session → Session}
    (hf : ∀ s, (f s).response.mark = s.response.mark.failed ∧ (f s).view = s.view) :
    Run.Effect image m ⟨m.error || true, m.answered || false, m.cachable && !false⟩
      (Handler.exec [.update f]) := by
  refine ((asks_update fun s hs => ?_).cons asks_nil).effect
  refine ⟨?_, (hf s).2 ▸ hs.view⟩
  rw [(hf s).1, hs.mark]
  simp [Mark.failed]

theorem OBJ.effect_run (argument : Text) :
    Run.Effect image m (Command.effect argument image m .obj)
      (Handler.exec (OBJ.run S argument)) := by
  unfold OBJ.run Command.effect Command.unsupported Command.answers Command.isInfo
  cases OBJ.query? (tolower argument) with
  | none => exact effect_failing fun s => ⟨IIPResponse.mark_setError _ _ _, rfl⟩
  | some q =>
    have hq : Run.Effect image m (if q.answers (tolower argument) image then m.sent else m)
        (Handler.exec (OBJ.answerQuery S (tolower argument) q)) :=
      (OBJ.asks_answerQuery (tolower argument) q).effect
    dsimp only [Option.isNone_some, Option.any_some]
    cases hanswers : q.answers (tolower argument) image with
    | true =>
      rw [hanswers] at hq
      exact hq.answering
    | false =>
      rw [hanswers] at hq
      exact hq.silent

theorem IIIF.effect_command (argument : Text) :
    Run.Effect image m (Command.effect argument image m .iiif)
      (Handler.exec (IIIF.command S h argument)) := by
  unfold IIIF.command Command.effect Command.unsupported Command.answers Command.isInfo
  cases rfind ['/'] (URL.decode argument) with
  | none =>
    refine Run.Effect.answering ((asks_update fun s hs => ?_).cons asks_nil).effect
    exact ⟨congrArg Mark.sent hs.mark, hs.view⟩
  | some pos =>
    refine Run.Effect.single (effect_opening ?_)
    have htask := IIIF.leads_task (S := S) (h := h) (m := m) (URL.decode argument) pos
    dsimp only [Option.any_some]
    by_cases hinfo : IIIF.isInfo (URL.decode argument) pos
    · rw [if_pos hinfo] at htask
      simpa [hinfo, Mark.sent, Mark.uncachable] using htask
    · rw [if_neg hinfo] at htask
      simpa [hinfo, Mark.sent] using htask

theorem JTLS.effect_run (argument : Text) :
    Run.Effect image m (Command.effect argument image m .jtls)
      (Handler.exec (JTLS.run S argument)) := by
  unfold JTLS.run Command.effect Command.unsupported Command.answers Command.isInfo
  rcases (Tokenizer.tokens ',' argument).take 4 with _ | ⟨_, _ | ⟨_, _ | ⟨_, _ | ⟨_, _ | _⟩⟩⟩⟩
  case cons.cons.cons.cons.nil =>
    refine Run.Effect.answering (Run.Effect.afterView ?_ fun _ hv => hv)
    exact effect_guarded fun im => JTL.leads_task _ _ im
  all_goals exact Run.Effect.silent effect_nil

theorem MINMAX.leads_follow (argument : Text) :
    Run.Effect image m m (Handler.exec (MINMAX.run S argument)) := by
  unfold MINMAX.run
  dsimp only
  split
  case isTrue => exact effect_nil
  case isFalse =>
    refine Run.Effect.single (effect_follow fun im => ?_)
    split
    case isTrue => exact .pure im
    case isFalse =>
      split
      case isTrue => exact .throw _
      case isFalse => exact .pure _

/-- **What each command does to the mark of the response.** -/
theorem Command.effect_run (argument : Text) (c : Command) :
    Run.Effect image m (c.effect argument image m) (Handler.exec (c.run S h argument)) := by
  cases c with
  | obj => exact OBJ.effect_run argument
  | iiif => exact IIIF.effect_command argument
  | jtls => exact JTLS.effect_run argument
  | fif => exact Run.Effect.silent (Run.Effect.single (effect_opening (FIF.leads_task argument)))
  | zoomify =>
    exact Run.Effect.answering (Run.Effect.single (effect_opening (Zoomify.leads_task argument)))
  | deepZoom =>
    exact Run.Effect.answering (Run.Effect.single (effect_opening (DeepZoom.leads_task argument)))
  | deepZoomExt =>
    exact Run.Effect.answering
      (Run.Effect.single (effect_opening (DeepZoomExt.leads_task argument)))
  | til =>
    exact Run.Effect.answering
      (Run.Effect.single (effect_guarded fun im => TIL.leads_task _ _ _ im))
  | jtl =>
    exact Run.Effect.answering (Run.Effect.single (effect_guarded fun im => JTL.leads_task _ _ im))
  | ptl =>
    refine Run.Effect.answering (Run.Effect.afterView ?_ fun _ _ => .inr rfl)
    exact effect_guarded fun im => JTL.leads_task _ _ im
  | cvt =>
    refine Run.Effect.answering (Run.Effect.afterView ?_ fun v _ => ?_)
    · exact effect_guarded fun im => CVT.leads_task im
    · change View.outputFormat _ = _ ∨ View.outputFormat _ = _
      dsimp only
      split
      case isTrue => exact .inr rfl
      case isFalse => exact .inl rfl
  | spectra =>
    exact Run.Effect.answering (effect_tested _ fun im => SPECTRA.leads_task _ _ _ _ im)
  | pfl => exact Run.Effect.answering (effect_tested _ fun im => PFL.leads_task _ _ _ _ _ im)
  | minmax => exact Run.Effect.silent (MINMAX.leads_follow argument)
  | icc => exact Run.Effect.silent effect_nil
  | qlt =>
    refine Run.Effect.silent ?_
    change Run.Effect image m m (Handler.exec (QLT.run argument))
    unfold QLT.run
    split
    case isTrue => exact effect_nil
    case isFalse => exact effect_update fun _ => ⟨rfl, rfl⟩
  | lyr =>
    refine Run.Effect.silent ?_
    change Run.Effect image m m (Handler.exec (LYR.run argument))
    unfold LYR.run
    split
    case isTrue => exact effect_nil
    case isFalse => exact effect_onView fun _ => rfl
  | shd =>
    refine Run.Effect.silent ?_
    change Run.Effect image m m (Handler.exec (SHD.run argument))
    unfold SHD.run
    split
    case h_1 => exact effect_update fun _ => ⟨rfl, rfl⟩
    case h_2 => exact effect_nil
  | cmp =>
    refine Run.Effect.silent ?_
    change Run.Effect image m m (Handler.exec (CMP.run argument))
    unfold CMP.run
    split
    case h_1 => exact effect_update fun _ => ⟨rfl, rfl⟩
    case h_2 => exact effect_onView fun _ => rfl
  | sds | wid | hei | inv | ctw => exact Run.Effect.silent (effect_update fun _ => ⟨rfl, rfl⟩)
  | cnt | col =>
    refine Run.Effect.silent (effect_update fun s => ⟨rfl, ?_⟩)
    dsimp only
    split
    case isTrue => rfl
    case isFalse => split <;> rfl
  | gam =>
    refine Run.Effect.silent (effect_update fun s => ⟨rfl, ?_⟩)
    dsimp only
    split <;> rfl
  | rot =>
    refine Run.Effect.silent (effect_update fun s => ⟨rfl, ?_⟩)
    dsimp only
    split <;> split <;> rfl
  | rgn =>
    refine Run.Effect.silent (effect_update fun s => ⟨rfl, ?_⟩)
    dsimp only
    unfold RGN.run
    split
    case h_1 => split <;> rfl
    case h_2 => rfl

theorem Server.effect_execute (p : Order) :
    Run.Effect image m (p.effect image m) (S.execute h p) := by
  change Run.Effect image m _ (Handler.exec (S.steps h p))
  unfold Server.steps Order.effect Order.unsupported Order.answers Order.isInfo
  cases Command.factory p.1 with
  | none => exact effect_failing fun s => ⟨IIPResponse.mark_setError _ _ _, rfl⟩
  | some c => exact c.effect_run p.2

end

/-! ## 4. A whole request -/

namespace Server

variable {S : Server} {h : Headers} {σ : ServerState} {m : Mark}

/-- One of the commands answers, with the image that the commands before it have left. -/
def AnsweredIn (S : Server) (h : Headers) (c : Connection) (l : List Order) : Prop :=
  ∃ front p rest c₁, l = front ++ p :: rest ∧ S.loop h front c = .ok () c₁ ∧ p.answers c₁.image

theorem answeredIn_cons {p : Order} {l : List Order} {c c₁ : Connection}
    (hexec : S.execute h p c = .ok () c₁) :
    AnsweredIn S h c (p :: l) ↔ p.answers c.image ∨ AnsweredIn S h c₁ l := by
  constructor
  · rintro ⟨front, q, rest, c₂, hl, hfront, hq⟩
    cases front with
    | nil =>
      cases hl
      cases hfront
      exact .inl hq
    | cons p' front =>
      cases hl
      rw [loop_cons, EState.bind_ok hexec] at hfront
      exact .inr ⟨front, q, rest, c₂, rfl, hfront, hq⟩
  · rintro (hp | ⟨front, q, rest, c₂, rfl, hfront, hq⟩)
    · exact ⟨[], p, l, c, rfl, rfl, hp⟩
    · refine ⟨p :: front, q, rest, c₂, rfl, ?_, hq⟩
      rw [loop_cons, EState.bind_ok hexec]
      exact hfront

/-- **What a list of commands does to the mark.** -/
theorem loop_effect {l : List Order} {c c' : Connection} (hc : c.session.At m)
    (hloop : S.loop h l c = .ok () c') :
    ∃ m', c'.session.At m' ∧ (m'.error ↔ m.error ∨ ∃ p ∈ l, p.unsupported) ∧
      (m'.answered ↔ m.answered ∨ AnsweredIn S h c l) ∧
      (m'.cachable ↔ m.cachable ∧ ∀ p ∈ l, ¬ p.isInfo) := by
  induction l generalizing c m with
  | nil =>
    cases hloop
    refine ⟨m, hc, by simp, ?_, by simp⟩
    refine ⟨.inl, ?_⟩
    rintro (hm | ⟨front, p, rest, c₁, hl, -, -⟩)
    · exact hm
    · cases front <;> cases hl
  | cons p l ih =>
    rw [loop_cons] at hloop
    obtain ⟨_, c₁, hexec, hrest⟩ := EState.bind_eq_ok hloop
    have heffect : Run.Effect c.image m (p.effect c.image m) (S.execute h p) := effect_execute p
    have hstep := heffect c ⟨rfl, hc⟩
    rw [hexec] at hstep
    obtain ⟨m', hm', herror, hanswered, hcachable⟩ := ih hstep hrest
    refine ⟨m', hm', ?_, ?_, ?_⟩
    · rw [herror]
      simp [Order.effect, or_assoc]
    · rw [hanswered, answeredIn_cons hexec]
      simp [Order.effect, or_assoc]
    · rw [hcachable]
      simp [Order.effect, and_assoc]

/-- A new request has no error and no answer, and may be cached. -/
theorem at_start (images : FIF.ImageCache) (tiles : Cache) :
    (S.start images tiles).session.At ⟨false, false, true⟩ := by
  constructor
  · change S.response.mark = _
    unfold Server.response IIPResponse.setCORS
    split <;> rfl
  · left
    change S.view.outputFormat = _
    unfold Server.view
    dsimp only
    split <;> split <;> rfl

end Server

/-- The error that is left at the end if there is nothing to reply. -/
theorem Server.errorIsSet_malformed (q : Text) (s : Session) :
    (malformed q s).response.errorIsSet ↔
      s.response.mark.error ∨ ¬ s.response.mark.answered := by
  unfold malformed
  split
  case isTrue hsilent =>
    have hanswered : ¬ s.response.mark.answered := by
      simp [IIPResponse.mark, IIPResponse.isSet] at hsilent ⊢
      exact ⟨hsilent.1, hsilent.2.2⟩
    exact ⟨fun _ => .inr hanswered, fun _ => IIPResponse.errorIsSet_setError _ _ _⟩
  case isFalse hnot =>
    change s.response.errorIsSet ↔ s.response.errorIsSet ∨ _
    refine ⟨.inl, ?_⟩
    rintro (herror | hanswered)
    · exact herror
    · by_contra herror
      refine hnot ?_
      simp [IIPResponse.mark, IIPResponse.isSet, IIPResponse.errorIsSet] at hanswered herror ⊢
      exact ⟨hanswered.1, herror, hanswered.2⟩

/-- All commands of the request come to their end. -/
def CommandsEnd (S : Server) (h : Headers) (σ : ServerState) : Prop :=
  h.queryString ≠ [] ∧
    ∃ c, S.loop h (orders h.queryString) (S.start σ.imageCache σ.tileCache) = .ok () c

/-- **A response that carries an error is not stored.** -/
def ErrorNotStored (S : Server) (o : Outcome) : Prop :=
  o.connection.session.response.errorIsSet → S.stored o = none

/-- Only a request that has come to its end is stored. -/
theorem Server.stored_of_not_commandsEnd {S : Server} {h : Headers} {σ : ServerState}
    (hend : ¬ CommandsEnd S h σ) : S.stored (S.process h σ) = none := by
  by_cases hne : h.queryString = []
  · rw [Server.process, Server.handle, if_pos hne]
    rfl
  · cases hres : S.loop h (orders h.queryString) (S.start σ.imageCache σ.tileCache) with
    | ok _ c => exact absurd ⟨hne, c, hres⟩ hend
    | error e c =>
      rw [Server.process_of_loop_error hne hres]
      rcases e with _ | (_ | _ | _) <;> rfl

/-- What is stored of a request that has come to its end. -/
theorem Server.stored_ended_eq_none_iff {S : Server} {q : Text} {c : Connection} :
    S.stored (.ended { c with session := S.sendResponse (malformed q c.session) }) = none ↔
      ¬ (c.session.response.mark.cachable ∧ S.connected) := by
  have hcachable : (S.sendResponse (malformed q c.session)).response.cachable =
      c.session.response.cachable := by
    unfold Server.sendResponse malformed
    split <;> split <;> rfl
  simp [Server.stored, hcachable, IIPResponse.mark]

theorem Server.errorIsSet_sendResponse {S : Server} (s : Session) :
    (S.sendResponse s).response.errorIsSet = s.response.errorIsSet := by
  unfold Server.sendResponse
  split <;> rfl

/-- **Errors are kept out of the response cache exactly if** a command throws, or there is no
cache, or there is a request for `info.json`, or everything is supported and something is
answered. -/
theorem errorNotStored_iff (S : Server) (h : Headers) (σ : ServerState) :
    ErrorNotStored S (S.process h σ) ↔
      ¬ CommandsEnd S h σ ∨ S.connected = false ∨ (∃ p ∈ orders h.queryString, p.isInfo) ∨
        ((∀ p ∈ orders h.queryString, ¬ p.unsupported) ∧
          Server.AnsweredIn S h (S.start σ.imageCache σ.tileCache) (orders h.queryString)) := by
  by_cases hend : CommandsEnd S h σ
  · obtain ⟨hne, c, hloop⟩ := hend
    obtain ⟨m, hm, herror, hanswered, hcachable⟩ := Server.loop_effect (S.at_start _ _) hloop
    have hset : (S.process h σ).connection.session.response.errorIsSet ↔
        (∃ p ∈ orders h.queryString, p.unsupported) ∨
          ¬ Server.AnsweredIn S h (S.start σ.imageCache σ.tileCache) (orders h.queryString) := by
      rw [Server.process_of_loop_ok hne hloop]
      change (S.sendResponse _).response.errorIsSet ↔ _
      rw [Server.errorIsSet_sendResponse, Server.errorIsSet_malformed, hm.mark, herror, hanswered]
      simp
    have hstored : S.stored (S.process h σ) = none ↔
        (∃ p ∈ orders h.queryString, p.isInfo) ∨ S.connected = false := by
      rw [Server.process_of_loop_ok hne hloop, Server.stored_ended_eq_none_iff, hm.mark, hcachable]
      simp only [true_and, not_and_or, not_forall, not_not, exists_prop]
      rw [Bool.not_eq_true]
    have hsupported : (∀ p ∈ orders h.queryString, ¬ p.unsupported) ↔
        ¬ ∃ p ∈ orders h.queryString, p.unsupported := by
      simp
    have hends : CommandsEnd S h σ := ⟨hne, c, hloop⟩
    rw [ErrorNotStored, hset, hstored, hsupported]
    constructor
    · intro hsafe
      by_cases hok : (¬ ∃ p ∈ orders h.queryString, p.unsupported) ∧
          Server.AnsweredIn S h (S.start σ.imageCache σ.tileCache) (orders h.queryString)
      · exact .inr (.inr (.inr hok))
      · rw [not_and_or, not_not] at hok
        rcases hsafe hok with hinfo | hoff
        · exact .inr (.inr (.inl hinfo))
        · exact .inr (.inl hoff)
    · rintro (hnot | hoff | hinfo | ⟨hnone, hans⟩) hbad
      · exact absurd hends hnot
      · exact .inr hoff
      · exact .inl hinfo
      · exact (hbad.elim hnone fun hsilent => hsilent hans).elim
  · refine ⟨fun _ => .inl hend, fun _ _ => Server.stored_of_not_commandsEnd hend⟩

/-- A request for a command that does not exist. -/
def unsupportedRequest : Headers := simpleHeaders (str "FOO=bar") []

theorem orders_unsupportedRequest :
    orders unsupportedRequest.queryString = [(str "FOO", str "bar")] := by
  have htokens : Tokenizer.tokens '&' unsupportedRequest.queryString = [str "FOO=bar"] :=
    Tokenizer.tokens_of_not_mem (by decide) (by decide)
  rw [orders, htokens]
  decide

/-- The response carries the error, and it is stored. -/
theorem unsupported_is_stored :
    ∃ c, (smallServer fun _ => none).process unsupportedRequest freshState = .ended c ∧
      c.session.response.errorIsSet ∧
      (smallServer fun _ => none).stored (.ended c) = some c.session.out := by
  have hloop : (smallServer fun _ => none).loop unsupportedRequest
      (orders unsupportedRequest.queryString)
      ((smallServer fun _ => none).start freshState.imageCache freshState.tileCache) =
      .ok () ⟨none, { ((smallServer fun _ => none).start freshState.imageCache
        freshState.tileCache).session with
          response := (smallServer fun _ => none).response.setError (str "2 2") (str "FOO") }⟩ := by
    rw [orders_unsupportedRequest]
    rfl
  refine ⟨_, Server.process_of_loop_ok (by decide) hloop, ?_, ?_⟩
  · decide
  · rfl

end Iipsrv
