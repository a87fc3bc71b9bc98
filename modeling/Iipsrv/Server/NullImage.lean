/-
# The image pointer

The pointer to the image is null when a request begins.  `FIF` and the commands of the other
protocols set it, and everything else finds it as the commands before have left it.

What a command does with the pointer depends on its name and its argument only (`Need`).  As long
as nothing has set it, a command that wants the image either tests the pointer, and the request
ends with an error response, or follows it.  Three commands follow it: `MINMAX`, `SPECTRA` and
`PFL`, each behind a test of its own argument that comes first.
-/
import Iipsrv.Lib.Triple
import Iipsrv.Server.Main

namespace Iipsrv

open Lib.Print (Text cString)
open Lib.Str Lib.Effects

/-! ## 1. What a command does with the pointer -/

/-- What a command does with the pointer: leave it alone, set it, end without looking at it, test
it, or follow it without a test. -/
inductive Need
  | nothing | opens | refused | guarded | unguarded
  deriving DecidableEq

/-- The first step that is not a change of the session decides. -/
def Handler.need : Handler → Need
  | [] => .nothing
  | .update _ :: l => Handler.need l
  | .refuse _ :: _ => .refused
  | .opening _ :: _ => .opens
  | .guarded _ _ :: _ => .guarded
  | .follow _ :: _ => .unguarded

/-- The queries that read the image. -/
def OBJ.Query.readsImage : Query → Bool
  | iip | iipServer | optComm | optObj => false
  | _ => true

/-- A query that is not known only leaves an error. -/
def OBJ.need (argument : Text) : Need :=
  match OBJ.query? (tolower argument) with
  | some q => if q.readsImage then .guarded else .nothing
  | none => .nothing

/-- A redirect does without the image. -/
def IIIF.need (argument : Text) : Need :=
  match rfind ['/'] (URL.decode argument) with
  | none => .nothing
  | some _ => .opens

/-- Without four values nothing is sent. -/
def JTLS.need (argument : Text) : Need :=
  match (Tokenizer.tokens ',' argument).take 4 with
  | [_, _, _, _] => .guarded
  | _ => .nothing

/-- What a command does with the pointer, by its argument. -/
def Command.need (argument : Text) : Command → Need
  | obj => OBJ.need argument
  | fif | zoomify | deepZoom | deepZoomExt => .opens
  | iiif => IIIF.need argument
  | til | ptl | jtl | cvt => .guarded
  | jtls => JTLS.need argument
  | minmax => if MINMAX.channel argument < 0 then .nothing else .unguarded
  | spectra => if (SPECTRA.numbers argument).x < 0 then .refused else .unguarded
  | pfl => if PFL.resolution argument < 0 then .refused else .unguarded
  | _ => .nothing

/-- An unsupported command only leaves an error. -/
def Order.need (p : Order) : Need :=
  match Command.factory p.1 with
  | some c => c.need p.2
  | none => .nothing

theorem OBJ.need_run (S : Server) (argument : Text) :
    Handler.need (OBJ.run S argument) = OBJ.need argument := by
  unfold OBJ.run OBJ.need
  cases OBJ.query? (tolower argument) with
  | none => rfl
  | some q => cases q <;> rfl

theorem IIIF.need_command (S : Server) (h : Headers) (argument : Text) :
    Handler.need (IIIF.command S h argument) = IIIF.need argument := by
  unfold IIIF.command IIIF.need
  cases rfind ['/'] (URL.decode argument) <;> rfl

theorem JTLS.need_run (S : Server) (argument : Text) :
    Handler.need (JTLS.run S argument) = JTLS.need argument := by
  unfold JTLS.run JTLS.need
  rcases (Tokenizer.tokens ',' argument).take 4 with _ | ⟨_, _ | ⟨_, _ | ⟨_, _ | ⟨_, _ | _⟩⟩⟩⟩ <;>
    rfl

theorem Handler.need_ite {c : Prop} [Decidable c] {l l' : Handler} :
    Handler.need (if c then l else l') = if c then l.need else l'.need := by
  split <;> rfl

/-- **The steps of a command do what its name and its argument say.** -/
theorem Command.need_run (S : Server) (h : Headers) (argument : Text) (c : Command) :
    (c.run S h argument).need = c.need argument := by
  cases c with
  | obj => exact OBJ.need_run S argument
  | iiif => exact IIIF.need_command S h argument
  | jtls => exact JTLS.need_run S argument
  | minmax | spectra | pfl => exact Handler.need_ite
  | qlt | lyr => exact Handler.need_ite.trans (ite_self Need.nothing)
  | shd =>
    change Handler.need (SHD.run argument) = _
    unfold SHD.run
    split <;> rfl
  | cmp =>
    change Handler.need (CMP.run argument) = _
    unfold CMP.run
    split <;> rfl
  | fif | zoomify | deepZoom | deepZoomExt | til | ptl | jtl | cvt | sds | cnt | gam | wid | hei
  | rgn | rot | icc | inv | ctw | col => rfl

theorem Server.need_steps (S : Server) (h : Headers) (p : Order) :
    (S.steps h p).need = p.need := by
  unfold Server.steps Order.need
  cases Command.factory p.1 with
  | none => rfl
  | some c => exact c.need_run S h p.2

/-! ## 2. With an image -/

/-- Once there is an image there is one at the end, and the null pointer is not followed. -/
def KeepsImage (x : Run Unit) : Prop :=
  Triple (fun c => c.image.isSome) x (fun _ c => c.image.isSome) (fun e _ => e ≠ .nullImage)

theorem keepsImage_withImage (t : Opened → Task Opened) : KeepsImage (Action.withImage t) := by
  intro c hc
  obtain ⟨im, him⟩ := Option.isSome_iff_exists.mp hc
  rw [Action.withImage, him]
  dsimp only
  split
  case h_1 => rfl
  case h_2 => exact Ending.noConfusion

theorem keepsImage_checkImage (argument : Text) : KeepsImage (Action.checkImage argument) := by
  intro c hc
  rw [Action.checkImage, Option.isNone_eq_false_iff.mpr hc]
  exact hc

theorem keepsImage_setImage (t : Task Opened) : KeepsImage (Action.setImage t) := by
  intro c hc
  unfold Action.setImage
  split
  case h_1 => rfl
  case h_2 => exact Ending.noConfusion

theorem Action.keepsImage (a : Action) : KeepsImage a.exec := by
  cases a with
  | update f => exact Triple.modify fun _ hc => hc
  | refuse t => exact Triple.throw fun _ _ => Ending.noConfusion
  | opening t => exact keepsImage_setImage t
  | guarded argument t =>
    exact Triple.bind (keepsImage_checkImage argument) fun _ => keepsImage_withImage t
  | follow t => exact keepsImage_withImage t

theorem Handler.keepsImage (l : Handler) : KeepsImage l.exec :=
  Triple.forM fun a _ => a.keepsImage

/-- **The loop over the commands keeps an image.** -/
theorem Server.loop_keepsImage (S : Server) (h : Headers) (l : List Order) :
    KeepsImage (S.loop h l) :=
  Triple.forM fun p _ => Handler.keepsImage (S.steps h p)

/-! ## 3. Without an image -/

/-- What comes of each need when there is no image. -/
def Need.Meets : Need → EStateM.Result Ending Connection Unit → Prop
  | nothing, .ok _ c => c.image = none
  | opens, .ok _ c => c.image.isSome
  | opens, .error (.stop _) _ => True
  | refused, .error (.stop _) _ => True
  | guarded, .error (.stop (.thrown (.string _))) c => c.session.response.errorIsSet
  | unguarded, .error .nullImage _ => True
  | _, _ => False

namespace Need

variable {r : EStateM.Result Ending Connection Unit}

theorem Meets.of_nothing (h : nothing.Meets r) : ∃ c, r = .ok () c ∧ c.image = none := by
  cases r with
  | ok _ c => exact ⟨c, rfl, h⟩
  | error _ _ => exact h.elim

theorem Meets.of_unguarded (h : unguarded.Meets r) : ∃ c, r = .error .nullImage c := by
  cases r with
  | ok _ _ => exact h.elim
  | error e c =>
    cases e with
    | nullImage => exact ⟨c, rfl⟩
    | stop _ => exact h.elim

theorem Meets.of_guarded (h : guarded.Meets r) :
    ∃ m c, r = .error (.stop (.thrown (.string m))) c ∧ c.session.response.errorIsSet := by
  cases r with
  | ok _ _ => exact h.elim
  | error e c =>
    rcases e with _ | ((_ | _ | m | _ | _) | _ | _)
    case stop.thrown.string => exact ⟨m, c, rfl, h⟩
    all_goals exact h.elim

end Need

theorem Action.checkImage_none (argument : Text) {c : Connection} (hc : c.image = none) :
    ∃ c', checkImage argument c = .error (.stop (.thrown (.string "image not set"))) c' ∧
      c'.session.response.errorIsSet := by
  rw [checkImage, hc]
  exact ⟨_, rfl, IIPResponse.errorIsSet_setError _ _ _⟩

theorem Action.withImage_none {t : Opened → Task Opened} {c : Connection} (hc : c.image = none) :
    withImage t c = .error .nullImage c := by
  rw [withImage, hc]

/-- **Without an image, a handler does what it needs.** -/
theorem Handler.meets (l : Handler) {c : Connection} (hc : c.image = none) :
    l.need.Meets (l.exec c) := by
  induction l generalizing c with
  | nil => exact hc
  | cons a l ih =>
    cases a with
    | update f =>
      have hstep : (Action.update f).exec c = .ok () { c with session := f c.session } := rfl
      rw [exec_ok hstep]
      exact ih hc
    | refuse t =>
      have hstep : (Action.refuse t).exec c = .error (.stop (.thrown t)) c := rfl
      rw [exec_error hstep]
      trivial
    | opening t =>
      cases ht : t c.session with
      | error e s =>
        have hstep : (Action.opening t).exec c = .error (.stop e) { c with session := s } := by
          rw [Action.exec, Action.setImage, ht]
        rw [exec_error hstep]
        trivial
      | ok im s =>
        have hstep : (Action.opening t).exec c = .ok () ⟨some im, s⟩ := by
          rw [Action.exec, Action.setImage, ht]
        rw [exec_ok hstep]
        -- from here on there is an image, and the rest keeps it
        have hrest := Handler.keepsImage l ⟨some im, s⟩ rfl
        cases hres : Handler.exec l ⟨some im, s⟩ with
        | ok _ c' =>
          rw [hres] at hrest
          exact hrest
        | error e c' =>
          rw [hres] at hrest
          cases e with
          | nullImage => exact absurd rfl hrest
          | stop _ => trivial
    | guarded argument t =>
      obtain ⟨c', hcheck, hset⟩ := Action.checkImage_none argument hc
      have hstep : (Action.guarded argument t).exec c = _ := EState.bind_error hcheck
      rw [exec_error hstep]
      exact hset
    | follow t =>
      have hstep : (Action.follow t).exec c = _ := Action.withImage_none hc
      rw [exec_error hstep]
      trivial

theorem Server.execute_meets (S : Server) (h : Headers) (p : Order) {c : Connection}
    (hc : c.image = none) : p.need.Meets (S.execute h p c) := by
  rw [← S.need_steps h p]
  exact Handler.meets _ hc

/-! ## 4. A whole request -/

/-- The commands in front of this one leave the pointer alone. -/
def ReachedBare (l : List Order) (p : Order) : Prop :=
  ∃ front rest, l = front ++ p :: rest ∧ ∀ o ∈ front, o.need = .nothing

/-- A request ends with the error response of the main loop. -/
def ErrorResponse (S : Server) (o : Outcome) : Prop :=
  ∃ m c, o = .caught (.string m) c ∧ c.session.response.errorIsSet ∧
    o.reply S = some (c.session.out ++ cString (c.session.response.formatResponse S.version))

/-- **No command follows the null pointer**, and one that wants the image before it has been set
leads to an error response. -/
structure NullSafe (S : Server) (h : Headers) (σ : ServerState) : Prop where
  notFollowed : ∀ c, S.process h σ ≠ .undefined .nullImage c
  answered : ∀ p, ReachedBare (orders h.queryString) p →
    p.need = .guarded ∨ p.need = .unguarded → ErrorResponse S (S.process h σ)

namespace Server

variable {S : Server} {h : Headers} {σ : ServerState}

/-- Commands that leave the pointer alone come to their end. -/
theorem loop_front {front : List Order} (hfront : ∀ o ∈ front, o.need = .nothing) (c : Connection)
    (hc : c.image = none) :
    ∃ c', c'.image = none ∧ ∀ l, S.loop h (front ++ l) c = S.loop h l c' := by
  induction front generalizing c with
  | nil => exact ⟨c, hc, fun _ => rfl⟩
  | cons p front ih =>
    have hmeets := S.execute_meets h p hc
    rw [hfront p List.mem_cons_self] at hmeets
    obtain ⟨c₁, hres, hc₁⟩ := hmeets.of_nothing
    obtain ⟨c', hc', hrest⟩ := ih (fun o ho => hfront o (List.mem_cons_of_mem p ho)) c₁ hc₁
    refine ⟨c', hc', fun l => ?_⟩
    rw [List.cons_append, loop_cons, EState.bind_ok hres]
    exact hrest l

/-- A command that is reached with the null pointer decides how the request goes on. -/
theorem execute_of_reachedBare {p : Order} (hp : ReachedBare (orders h.queryString) p) :
    h.queryString ≠ [] ∧ ∃ c rest, c.image = none ∧
      S.loop h (orders h.queryString) (S.start σ.imageCache σ.tileCache) =
        (S.execute h p >>= fun _ => S.loop h rest) c := by
  obtain ⟨front, rest, horders, hfront⟩ := hp
  refine ⟨fun hq => ?_, ?_⟩
  · rw [hq, orders_nil] at horders
    exact absurd horders.symm (by simp)
  · obtain ⟨c, hc, hloop⟩ := loop_front (S := S) (h := h) hfront
      (S.start σ.imageCache σ.tileCache) rfl
    refine ⟨c, rest, hc, ?_⟩
    rw [horders, hloop, loop_cons]

/-- Either all commands leave the pointer alone, or one of them is the first that does not. -/
theorem exists_first (l : List Order) :
    (∀ o ∈ l, o.need = .nothing) ∨ ∃ p, ReachedBare l p ∧ p.need ≠ .nothing := by
  cases hfind : l.find? fun o => decide (o.need ≠ .nothing) with
  | none => exact .inl fun o ho => by simpa using List.find?_eq_none.mp hfind o ho
  | some p =>
    obtain ⟨hp, front, rest, hl, hfront⟩ := List.find?_eq_some_iff_append.mp hfind
    exact .inr ⟨p, ⟨front, rest, hl, fun o ho => by simpa using hfront o ho⟩, by simpa using hp⟩

theorem process_unguarded {p : Order} (hp : ReachedBare (orders h.queryString) p)
    (hneed : p.need = .unguarded) : ∃ c, S.process h σ = .undefined .nullImage c := by
  obtain ⟨hne, c, rest, hc, hloop⟩ := execute_of_reachedBare (S := S) (σ := σ) hp
  have hmeets := S.execute_meets h p hc
  rw [hneed] at hmeets
  obtain ⟨c', hres⟩ := hmeets.of_unguarded
  rw [EState.bind_error hres] at hloop
  exact ⟨c', process_of_loop_error hne hloop⟩

theorem process_guarded {p : Order} (hp : ReachedBare (orders h.queryString) p)
    (hneed : p.need = .guarded) : ErrorResponse S (S.process h σ) := by
  obtain ⟨hne, c, rest, hc, hloop⟩ := execute_of_reachedBare (S := S) (σ := σ) hp
  have hmeets := S.execute_meets h p hc
  rw [hneed] at hmeets
  obtain ⟨m, c', hres, hset⟩ := hmeets.of_guarded
  rw [EState.bind_error hres] at hloop
  have hprocess : S.process h σ = .caught (.string m) c' := process_of_loop_error hne hloop
  refine ⟨m, c', hprocess, hset, ?_⟩
  rw [hprocess, Outcome.reply, errorText, if_pos hset]

/-- A loop that does not follow the null pointer. -/
theorem process_ne_nullImage
    (hloop : ∀ c, S.loop h (orders h.queryString) (S.start σ.imageCache σ.tileCache) ≠
      .error .nullImage c) (c : Connection) : S.process h σ ≠ .undefined .nullImage c := by
  intro hprocess
  by_cases hne : h.queryString = []
  · rw [process, handle, if_pos hne] at hprocess
    cases hprocess
  · cases hres : S.loop h (orders h.queryString) (S.start σ.imageCache σ.tileCache) with
    | ok _ c' =>
      rw [process_of_loop_ok hne hres] at hprocess
      cases hprocess
    | error e c' =>
      rw [process_of_loop_error hne hres] at hprocess
      rcases e with _ | (_ | _ | _)
      · exact hloop c' hres
      all_goals cases hprocess

theorem loop_ne_nullImage
    (hall : ∀ p, ReachedBare (orders h.queryString) p → p.need ≠ .unguarded) (c : Connection) :
    S.loop h (orders h.queryString) (S.start σ.imageCache σ.tileCache) ≠ .error .nullImage c := by
  rcases exists_first (orders h.queryString) with hnothing | ⟨p, hp, hfirst⟩
  · obtain ⟨c', -, hloop⟩ := loop_front (S := S) (h := h) hnothing
      (S.start σ.imageCache σ.tileCache) rfl
    have hend := hloop []
    rw [List.append_nil] at hend
    rw [hend]
    rintro ⟨⟩
  · obtain ⟨-, c₁, rest, hc₁, hloop⟩ := execute_of_reachedBare (S := S) (σ := σ) hp
    rw [hloop]
    have hmeets := S.execute_meets h p hc₁
    cases hres : S.execute h p c₁ with
    | error e c' =>
      rw [EState.bind_error hres]
      rintro ⟨⟩
      -- only a command that is not guarded leads here
      rw [hres] at hmeets
      cases hneed : p.need with
      | unguarded => exact hall p hp hneed
      | nothing | opens | refused | guarded =>
        rw [hneed] at hmeets
        exact hmeets
    | ok _ c' =>
      rw [EState.bind_ok hres]
      rw [hres] at hmeets
      have himage : c'.image.isSome := by
        cases hneed : p.need with
        | opens =>
          rw [hneed] at hmeets
          exact hmeets
        | nothing => exact absurd hneed hfirst
        | refused | guarded | unguarded =>
          rw [hneed] at hmeets
          exact hmeets.elim
      intro herror
      have hkeeps := S.loop_keepsImage h rest c' himage
      rw [herror] at hkeeps
      exact hkeeps rfl

end Server

/-- **The null pointer is followed exactly where `MINMAX`, `SPECTRA` or `PFL` stands before
anything has opened an image.** -/
theorem nullSafe_iff (S : Server) (h : Headers) (σ : ServerState) :
    NullSafe S h σ ↔ ∀ p, ReachedBare (orders h.queryString) p → p.need ≠ .unguarded := by
  constructor
  · intro hsafe p hp hneed
    obtain ⟨c, hprocess⟩ := Server.process_unguarded (S := S) (σ := σ) hp hneed
    exact hsafe.notFollowed c hprocess
  · intro hall
    refine ⟨Server.process_ne_nullImage (Server.loop_ne_nullImage hall), ?_⟩
    rintro p hp (hneed | hneed)
    · exact Server.process_guarded hp hneed
    · exact absurd hneed (hall p hp)

/-- A request that sets the range of the samples without an image. -/
def minmaxRequest : Headers := simpleHeaders (str "MINMAX=1:0,255") []

/-- `MINMAX` asks the image for the number of its channels. -/
theorem minmax_follows_null :
    ∃ c, (smallServer fun _ => none).process minmaxRequest freshState
      = .undefined .nullImage c := by
  have horders : orders minmaxRequest.queryString = [(str "MINMAX", str "1:0,255")] := by
    have htokens : Tokenizer.tokens '&' minmaxRequest.queryString = [str "MINMAX=1:0,255"] :=
      Tokenizer.tokens_of_not_mem (by decide) (by decide)
    rw [orders, htokens]
    decide
  refine Server.process_unguarded (p := (str "MINMAX", str "1:0,255")) ?_ (by decide)
  exact ⟨[], [], horders, by simp⟩

end Iipsrv
