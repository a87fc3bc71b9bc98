/-
# Replayed replies

The response cache is filed under the request string, and the request has other headers as well.
Three things read them: a conditional request (`If-Modified-Since`), which is not answered from
the cache, the redirect of `IIIF`, which repeats the address, and the version of the `IIIF`
protocol, which is read off the `Accept` header.

Where two sets of headers agree in these, a request that succeeds with one succeeds with the
other, step by step, with the same output.  `info.json` repeats headers too, and is never stored.

The second request finds the image and tile caches as the first has left them, and those are not
transparent themselves.  So what remains where the headers agree is that the second request is
answered there as it is in front of the first one (`transparent_iff_of_agrees`).  For a redirect,
which touches neither cache, the address alone decides (`transparent_redirect_iff`).
-/
import Iipsrv.Server.Assembly
import Iipsrv.Server.Errors

namespace Iipsrv

open Lib.Print (Text)
open Lib.Str Lib.Effects
open Lib.Effects.EState (Carries)
open DeepZoomExt (oneImageServer)

/-! ## 1. What the commands read off the headers -/

/-- The version of the protocol that is used for a request. -/
def IIIF.version (S : Server) (h : Headers) : Except Thrown Int :=
  (IIIF.acceptVersion h.accept).map fun v => v.getD S.iiifVersion

/-- **The headers agree** in what an `IIIF` request reads off them: a redirect the address, an
image request the version. -/
def IIIF.Agrees (S : Server) (h₁ h₂ : Headers) (argument : Text) : Prop :=
  match rfind ['/'] (URL.decode argument) with
  | none => IIIF.location S h₁ = IIIF.location S h₂
  | some pos => IIIF.isInfo (URL.decode argument) pos ∨ IIIF.version S h₁ = IIIF.version S h₂

/-- No other command reads these headers. -/
def Order.Agrees (S : Server) (h₁ h₂ : Headers) (p : Order) : Prop :=
  Command.factory p.1 = some .iiif → IIIF.Agrees S h₁ h₂ p.2

/-! ## 2. The commands that open an image -/

section

variable {S : Server} {h₁ h₂ : Headers}

/-- Without the header, an image is never unmodified. -/
theorem FIF.carries_task (hnone : h₂.ifModifiedSince = none) (src : Text) :
    Carries (FIF.task S h₁ src) (FIF.task S h₂ src) := by
  refine (Carries.refl _).bind fun im => (Carries.refl _).bind fun _ => ?_
  have hmodified : ¬ FIF.unmodified S h₂ im := by
    rintro ⟨t, ht, -⟩
    rw [hnone] at ht
    cases ht
  rw [if_neg hmodified]
  split
  case isTrue => exact fun _ _ _ hres => (nomatch hres)
  case isFalse => exact Carries.refl _

theorem Zoomify.carries_task (hnone : h₂.ifModifiedSince = none) (argument : Text) :
    Carries (Zoomify.task S h₁ argument) (Zoomify.task S h₂ argument) :=
  (FIF.carries_task hnone _).bind fun _ => Carries.refl _

theorem DeepZoom.carries_task (hnone : h₂.ifModifiedSince = none) (argument : Text) :
    Carries (DeepZoom.task S h₁ argument) (DeepZoom.task S h₂ argument) :=
  (FIF.carries_task hnone _).bind fun _ => Carries.refl _

namespace DeepZoomExt

theorem carries_one (hnone : h₂.ifModifiedSince = none) (argument : Text) (first : Bool)
    (path : Text) (p : Progress) :
    Carries (one S h₁ argument first path p) (one S h₂ argument first path p) := by
  unfold one
  split
  case isTrue => exact (FIF.carries_task hnone _).bind fun _ => Carries.refl _
  case isFalse => exact Carries.refl _

theorem carries_respond (hnone : h₂.ifModifiedSince = none) (settings : Settings)
    (argument : Text) (first : Bool) (path : Text) (paths : List Text) (p : Progress) :
    Carries (respond S h₁ settings argument first path paths p)
      (respond S h₂ settings argument first path paths p) := by
  induction paths generalizing first path p with
  | nil => exact (carries_one hnone _ _ _ _).bind fun _ => Carries.refl _
  | cons path' paths ih => exact (carries_one hnone _ _ _ _).bind fun p' => ih false path' p'

theorem carries_images (hnone : h₂.ifModifiedSince = none) (argument : Text) :
    Carries (images S h₁ argument) (images S h₂ argument) := by
  unfold images
  split
  case h_1 => exact Carries.refl _
  case h_2 =>
    exact (Carries.refl _).bind fun _ => carries_respond hnone _ _ _ _ _ _

theorem carries_task (hnone : h₂.ifModifiedSince = none) (argument : Text) :
    Carries (task S h₁ argument) (task S h₂ argument) := by
  unfold task
  split
  case isTrue => exact (Carries.refl _).bind fun _ => carries_images hnone argument
  case isFalse => exact carries_images hnone argument

end DeepZoomExt

namespace IIIF

/-- The negotiation only depends on the version. -/
theorem carries_negotiate (hversion : version S h₁ = version S h₂) :
    Carries (negotiate S h₁) (negotiate S h₂) := by
  unfold version at hversion
  unfold negotiate
  -- the default version and the same version asked for come to the same
  cases h1 : acceptVersion h₁.accept with
  | error e => exact fun _ _ _ hres => (nomatch hres)
  | ok v₁ =>
    cases h2 : acceptVersion h₂.accept with
    | error e =>
      rw [h1, h2] at hversion
      cases hversion
    | ok v₂ =>
      rw [h1, h2] at hversion
      have hv : v₁.getD S.iiifVersion = v₂.getD S.iiifVersion := Except.ok.inj hversion
      cases v₁ with
      | none =>
        cases v₂ with
        | none => exact Carries.refl _
        | some v₂ =>
          change S.iiifVersion = v₂ at hv
          subst hv
          simp only [ne_eq, not_true_eq_false, if_false]
          exact Carries.refl _
      | some v₁ =>
        cases v₂ with
        | none =>
          change v₁ = S.iiifVersion at hv
          subst hv
          simp only [ne_eq, not_true_eq_false, if_false]
          exact Carries.refl _
        | some v₂ =>
          change v₁ = v₂ at hv
          subst hv
          exact Carries.refl _

theorem carries_task (hnone : h₂.ifModifiedSince = none)
    (hversion : version S h₁ = version S h₂) {argument : Text} {pos : Nat}
    (himage : ¬ isInfo argument pos) :
    Carries (task S h₁ argument pos) (task S h₂ argument pos) := by
  unfold task
  split
  case h_1 => exact Carries.refl _
  case h_2 =>
    refine (FIF.carries_task hnone _).bind fun im => ?_
    split
    case h_1 =>
      refine (Carries.refl _).bind fun _ => (carries_negotiate hversion).bind fun v => ?_
      rw [if_neg himage, if_neg himage]
      exact Carries.refl _
    case h_2 => exact Carries.refl _

/-- A redirect only repeats the address. -/
theorem redirect_congr (h : location S h₁ = location S h₂) : redirect S h₁ = redirect S h₂ := by
  unfold redirect
  rw [h]

end IIIF

/-! ## 3. A request -/

theorem Action.carries_opening {t₁ t₂ : Task Opened} (ht : Carries t₁ t₂) :
    Carries (Handler.exec [.opening t₁]) (Handler.exec [.opening t₂]) := by
  refine EState.Carries.bind (fun c u c' hres => ?_) fun _ => Carries.refl _
  cases hres₁ : t₁ c.session with
  | error e s =>
    have hfail : Action.setImage t₁ c = .error (.stop e) { c with session := s } := by
      rw [Action.setImage, hres₁]
    change Action.setImage t₁ c = _ at hres
    rw [hfail] at hres
    cases hres
  | ok im s =>
    have hset : Action.setImage t₁ c = .ok () ⟨some im, s⟩ := by
      rw [Action.setImage, hres₁]
    change Action.setImage t₁ c = _ at hres
    rw [← hres, hset]
    change Action.setImage t₂ c = _
    rw [Action.setImage, ht _ _ _ hres₁]

/-- **A command succeeds with other headers as well.** -/
theorem Command.carries_run (hnone : h₂.ifModifiedSince = none) {argument : Text} {c : Command}
    (hagrees : c = .iiif → IIIF.Agrees S h₁ h₂ argument) (hinfo : ¬ c.isInfo argument) :
    Carries (c.run S h₁ argument).exec (c.run S h₂ argument).exec := by
  cases c with
  | fif => exact Action.carries_opening (FIF.carries_task hnone _)
  | zoomify => exact Action.carries_opening (Zoomify.carries_task hnone _)
  | deepZoom => exact Action.carries_opening (DeepZoom.carries_task hnone _)
  | deepZoomExt => exact Action.carries_opening (DeepZoomExt.carries_task hnone _)
  | iiif =>
    have hiiif := hagrees rfl
    change Carries (IIIF.command S h₁ argument).exec (IIIF.command S h₂ argument).exec
    unfold IIIF.command
    unfold IIIF.Agrees at hiiif
    unfold Command.isInfo at hinfo
    cases hpos : rfind ['/'] (URL.decode argument) with
    | none =>
      rw [hpos] at hiiif
      rw [IIIF.redirect_congr hiiif]
      exact Carries.refl _
    | some pos =>
      rw [hpos] at hiiif hinfo
      have himage : ¬ IIIF.isInfo (URL.decode argument) pos := by simpa using hinfo
      exact Action.carries_opening
        (IIIF.carries_task hnone (hiiif.resolve_left himage) himage)
  | _ => exact Carries.refl _

theorem Server.carries_loop (hnone : h₂.ifModifiedSince = none) {l : List Order}
    (hagrees : ∀ p ∈ l, p.Agrees S h₁ h₂) (hinfo : ∀ p ∈ l, ¬ p.isInfo) :
    Carries (S.loop h₁ l) (S.loop h₂ l) := by
  refine Carries.forM fun p hp => ?_
  have hp₁ := hagrees p hp
  have hp₂ := hinfo p hp
  unfold Server.execute Server.steps
  unfold Order.Agrees at hp₁
  unfold Order.isInfo at hp₂
  cases hc : Command.factory p.1 with
  | none => exact Carries.refl _
  | some c =>
    rw [hc] at hp₁ hp₂
    exact Command.carries_run hnone (fun hiiif => hp₁ (congrArg some hiiif)) hp₂

end

/-- **A stored reply may be replayed**: what the second request is sent from the response cache,
after the first has been stored there, is what its own commands would have sent. -/
def Transparent (S : Server) (h₁ h₂ : Headers) (σ : ServerState) : Prop :=
  ∀ b, S.stored (S.process h₁ σ) = some b →
    S.retrieve h₂ (S.after h₁ σ (S.process h₁ σ)) = some b →
    (S.process h₂ (S.after h₁ σ (S.process h₁ σ))).reply S = some b

section

variable {S : Server} {h₁ h₂ : Headers} {σ : ServerState} {b : Text}

/-- A reply that is stored is the reply of a request that has come to its end. -/
theorem Server.commandsEnd_of_stored {h : Headers} (hstored : S.stored (S.process h σ) = some b) :
    CommandsEnd S h σ := by
  by_contra hnot
  rw [stored_of_not_commandsEnd hnot] at hstored
  cases hstored

theorem Server.connected_of_stored {o : Outcome} (hstored : S.stored o = some b) :
    S.connected := by
  by_contra hnot
  cases o with
  | ended c =>
    have hnone : S.stored (.ended c) = none := if_neg fun h => hnot h.2
    cases hnone.symm.trans hstored
  | caught t c => cases hstored
  | undefined e c => cases hstored

/-- What has been stored is found by a request with the same string, unless it has an
`If-Modified-Since`. -/
theorem Server.retrieve_after_iff (hquery : h₁.queryString = h₂.queryString)
    (hstored : S.stored (S.process h₁ σ) = some b) :
    S.retrieve h₂ (S.after h₁ σ (S.process h₁ σ)) = some b ↔ h₂.ifModifiedSince.getD [] = [] := by
  have hconnected := connected_of_stored hstored
  have hne : h₂.queryString ≠ [] := hquery ▸ (commandsEnd_of_stored hstored).1
  have hlookup : (S.after h₁ σ (S.process h₁ σ)).memcached.lookup (key h₂.queryString)
      = some b := by
    unfold after
    rw [hstored, hquery]
    exact List.lookup_cons_self
  unfold retrieve
  by_cases hempty : h₂.ifModifiedSince.getD [] = []
  · rw [if_pos ⟨hconnected, hempty, hne⟩]
    exact iff_of_true hlookup hempty
  · rw [if_neg fun h => hempty h.2.1]
    exact iff_of_false nofun hempty

/-- **In the first one's place** the second request is answered by what is stored: it has no
`If-Modified-Since`, each redirect has the same address with both requests, and each `IIIF` image
request the same version. -/
theorem Server.reply_of_stored (hquery : h₁.queryString = h₂.queryString)
    (hnone : h₂.ifModifiedSince = none) (hagrees : ∀ p ∈ orders h₁.queryString, p.Agrees S h₁ h₂)
    (hstored : S.stored (S.process h₁ σ) = some b) : (S.process h₂ σ).reply S = some b := by
  obtain ⟨hne, c, hloop⟩ := Server.commandsEnd_of_stored hstored
  obtain ⟨m, hm, -, -, hcachable⟩ := Server.loop_effect (S.at_start _ _) hloop
  rw [Server.process_of_loop_ok hne hloop] at hstored
  -- nothing is stored behind a request for info.json
  have hinfo : ∀ p ∈ orders h₁.queryString, ¬ p.isInfo := by
    have hkept : c.session.response.mark.cachable ∧ S.connected := by
      by_contra hnot
      rw [Server.stored_ended_eq_none_iff.2 hnot] at hstored
      cases hstored
    rw [hm.mark] at hkept
    exact (hcachable.1 hkept.1).2
  have hloop₂ := Server.carries_loop hnone hagrees hinfo _ _ _ hloop
  rw [hquery] at hne hloop₂ hstored
  rw [Server.process_of_loop_ok hne hloop₂]
  change (if _ then some _ else none) = some b at hstored
  split at hstored
  case isTrue => exact hstored
  case isFalse => cases hstored

end

/-- A request for a tile. -/
def tileHeaders (host : Text) : Headers := simpleHeaders (str "FIF=a&JTL=0,0") host

section

variable {S : Server} {σ : ServerState}

/-- The reply of a redirect. -/
def IIIF.redirectText (S : Server) (h : Headers) : Text :=
  str "Status: 303 See Other" ++ eof ++ str "Location: " ++ IIIF.location S h ++
    str "/info.json" ++ eof ++ IIIF.serverLines S ++ eof

theorem IIIF.redirectText_inj {h₁ h₂ : Headers} :
    redirectText S h₁ = redirectText S h₂ ↔ location S h₁ = location S h₂ := by
  unfold redirectText
  simp only [List.append_assoc, List.append_cancel_left_eq, List.append_cancel_right_eq]

/-- A request string that is a single `IIIF` command without a `/`. -/
def Headers.Redirects (h : Headers) : Prop :=
  ∃ p, orders h.queryString = [p] ∧ Command.factory p.1 = some .iiif ∧
    rfind ['/'] (URL.decode p.2) = none

/-- The session behind a redirect is at the end of the request. -/
theorem Server.sendResponse_redirect (h : Headers) (q : Text) :
    S.sendResponse (malformed q (IIIF.redirect S h (S.start σ.imageCache σ.tileCache).session)) =
      IIIF.redirect S h (S.start σ.imageCache σ.tileCache).session := by
  have hsent : (IIIF.redirect S h (S.start σ.imageCache σ.tileCache).session).response.sent
      = true := rfl
  have hset : (IIIF.redirect S h (S.start σ.imageCache σ.tileCache).session).response.isSet
      = false := by
    change S.response.setImageSent.isSet = false
    unfold Server.response IIPResponse.setCORS
    split <;> rfl
  unfold malformed
  rw [if_neg fun hsilent => absurd (hsent.symm.trans hsilent.1) (by decide)]
  unfold sendResponse
  rw [hset]
  rfl

/-- A redirect is answered at once, may be cached, and leaves the caches as they are. -/
theorem Server.process_redirect {h : Headers} (hredirect : h.Redirects) (σ : ServerState) :
    S.process h σ =
      .ended ⟨none, IIIF.redirect S h (S.start σ.imageCache σ.tileCache).session⟩ := by
  obtain ⟨p, horders, hfactory, hslash⟩ := hredirect
  have hne : h.queryString ≠ [] := by
    intro hempty
    rw [hempty, orders_nil] at horders
    cases horders
  have hsteps : S.steps h p = [.update (IIIF.redirect S h)] := by
    unfold Server.steps
    rw [hfactory]
    change IIIF.command S h p.2 = _
    unfold IIIF.command
    rw [hslash]
  have hloop : S.loop h (orders h.queryString) (S.start σ.imageCache σ.tileCache) =
      .ok () ⟨none, IIIF.redirect S h (S.start σ.imageCache σ.tileCache).session⟩ := by
    rw [horders, Server.loop_cons, Server.execute, hsteps]
    rfl
  rw [Server.process_of_loop_ok hne hloop, sendResponse_redirect]

theorem Server.reply_redirect {h : Headers} (hredirect : h.Redirects) (σ : ServerState) :
    (S.process h σ).reply S = some (IIIF.redirectText S h) := by
  rw [process_redirect hredirect]
  rfl

theorem Server.stored_redirect {h : Headers} (hredirect : h.Redirects) (σ : ServerState) :
    S.stored (S.process h σ) = if S.connected then some (IIIF.redirectText S h) else none := by
  have hcachable : S.response.setImageSent.cachable = true := by
    unfold Server.response IIPResponse.setCORS
    split <;> rfl
  rw [process_redirect hredirect]
  change (if S.response.setImageSent.cachable = true ∧ S.connected = true then _ else none) = _
  rw [hcachable]
  simp only [true_and]
  rfl

end

/-- **A redirect is replayed rightly exactly for the same address**, unless the cache is not there
or not asked. -/
theorem transparent_redirect_iff (S : Server) (h₁ h₂ : Headers) (σ : ServerState)
    (hquery : h₁.queryString = h₂.queryString) (hredirect : h₁.Redirects) :
    Transparent S h₁ h₂ σ ↔ S.connected = false ∨ h₂.ifModifiedSince.getD [] ≠ [] ∨
      IIIF.location S h₁ = IIIF.location S h₂ := by
  have hredirect₂ : h₂.Redirects := by
    unfold Headers.Redirects
    rw [← hquery]
    exact hredirect
  unfold Transparent
  rw [Server.reply_redirect hredirect₂]
  cases hconnected : S.connected with
  | false =>
    refine iff_of_true (fun b hstored => ?_) (.inl rfl)
    rw [Server.stored_redirect hredirect, hconnected] at hstored
    cases hstored
  | true =>
    have hstored : S.stored (S.process h₁ σ) = some (IIIF.redirectText S h₁) := by
      rw [Server.stored_redirect hredirect, hconnected]
      rfl
    simp only [hstored, Option.some.injEq, forall_eq', reduceCtorEq, false_or]
    rw [Server.retrieve_after_iff hquery hstored, IIIF.redirectText_inj, imp_iff_not_or,
      eq_comm (a := IIIF.location S h₂)]

/-- A request for an `IIIF` image without parameters. -/
def redirectRequest (host accept : Text) : Headers :=
  { simpleHeaders (str "IIIF=x") host with accept := accept }

theorem redirects_redirectRequest (host accept : Text) :
    (redirectRequest host accept).Redirects := by
  have htokens : Tokenizer.tokens '&' (str "IIIF=x") = [str "IIIF=x"] :=
    Tokenizer.tokens_of_not_mem (by decide) (by decide)
  refine ⟨(str "IIIF", str "x"), ?_, by decide, by decide⟩
  change orders (str "IIIF=x") = _
  rw [orders, htokens]
  decide

end Iipsrv
