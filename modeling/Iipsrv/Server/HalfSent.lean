/-
# Half-sent replies

The commands that send pixels differ in what they have written when a tile cannot be had.  `JTL`
and `PFL` write when everything is there.  `CVT`, `TIL` and `SPECTRA` write a header first, and
an exception from then on is answered behind it.

`Task.Silent`: nothing is written.  `Task.Clean`: nothing has been written if the task stops.
-/
import Iipsrv.Lib.Triple
import Iipsrv.Server.Main

namespace Iipsrv

open Lib.Print (Text)
open Lib.Str Lib.Effects

/-! ## 1. Silent and clean tasks -/

namespace Task

variable {α β : Type} {S : Server}

/-- Nothing is written. -/
def Silent (x : Task α) : Prop :=
  ∀ o, Triple (fun s => s.out = o) x (fun _ s => s.out = o) (fun _ s => s.out = o)

/-- Nothing has been written if the task stops. -/
def Clean (x : Task α) : Prop :=
  ∀ o, Triple (fun s => s.out = o) x (fun _ _ => True) (fun _ s => s.out = o)

namespace Silent

theorem pure (a : α) : Silent (Pure.pure a : Task α) := fun _ => Triple.pure fun _ hs => hs

theorem throw (e : Stop) : Silent (MonadExcept.throw e : Task α) :=
  fun _ => Triple.throw fun _ hs => hs

theorem bind {x : Task α} {f : α → Task β} (hx : Silent x) (hf : ∀ a, Silent (f a)) :
    Silent (x >>= f) :=
  fun o => Triple.bind (hx o) fun a => hf a o

theorem get_bind {f : Session → Task β} (hf : ∀ s, Silent (f s)) : Silent (get >>= f) :=
  fun o => Triple.get_bind fun s _ => hf s o

theorem ofExcept (x : Except Failure α) : Silent (Task.ofExcept S x) := by
  intro o s hs
  unfold Task.ofExcept
  split <;> exact hs

theorem manage (x : Manager α) : Silent (Task.manage S x) := by
  intro o s hs
  unfold Task.manage
  split <;> exact hs

theorem modifyView (f : View → View) : Silent (Task.modifyView f) :=
  fun _ => Triple.modify fun _ hs => hs

theorem clean {x : Task α} (hx : Silent x) : Clean x :=
  fun o => (hx o).consequence (fun _ hs => hs) (fun _ _ _ => trivial) (fun _ _ hs => hs)

/-- What is silent may stand in front. -/
theorem bind_clean {x : Task α} {f : α → Task β} (hx : Silent x) (hf : ∀ a, Clean (f a)) :
    Clean (x >>= f) :=
  fun o => Triple.bind (hx o) fun a => hf a o

theorem get_bind_clean {f : Session → Task β} (hf : ∀ s, Clean (f s)) : Clean (get >>= f) :=
  fun o => Triple.get_bind fun s _ => hf s o

end Silent

/-- A reply does not stop. -/
theorem clean_reply (t : Text) (a : α) : Clean (Task.reply t >>= fun _ => Pure.pure a) :=
  fun _ _ _ => trivial

end Task

section

variable {S : Server}

theorem Server.silent_tile (im : Opened) (q : Request) : (S.tile im q).Silent := .manage _

theorem Server.silent_withHistogram (wanted : Bool) (im : Opened) :
    (S.withHistogram wanted im).Silent := by
  unfold Server.withHistogram
  split
  case isTrue =>
    refine .get_bind fun s => (Server.silent_tile im _).bind fun t => ?_
    exact Task.Silent.bind (fun _ => Triple.modify fun _ hs => hs) fun _ => .pure _
  case isFalse => exact .pure im

theorem JTL.silent_fetch (resolution tile : Int32) (im : Opened) :
    (JTL.fetch S resolution tile im).Silent := by
  refine .get_bind fun s => (Task.Silent.ofExcept _).bind fun n => ?_
  split
  case isTrue => exact .throw _
  case isFalse =>
    refine (Server.silent_withHistogram _ im).bind fun im => ?_
    split
    case h_1 => exact .throw _
    case h_2 => exact Server.silent_tile im _

/-- **A tile is sent when it is there.** -/
theorem JTL.clean_task (resolution tile : Int32) (im : Opened) :
    (JTL.task S resolution tile im).Clean := by
  have hencoded : (JTL.encoded S resolution tile im).Silent := by
    refine (JTL.silent_fetch resolution tile im).bind fun r => ?_
    refine .get_bind fun s => (Task.Silent.ofExcept _).bind fun d => ?_
    exact (Task.Silent.modifyView _).bind fun _ => .pure _
  exact hencoded.bind_clean fun r => Task.Silent.get_bind_clean fun s => Task.clean_reply _ r.1

theorem PFL.silent_bands (s : Session) (resolution : Int32) (p : PFL.Window) (length : Nat)
    (im : Opened) (views : List Int) :
    (PFL.bands S s resolution p length im views).Silent := by
  induction views generalizing length im with
  | nil => exact .pure _
  | cons n views ih =>
    refine Task.Silent.bind (.manage _) fun r => ?_
    dsimp only
    split
    case h_1 => exact .throw _
    case h_2 => exact (ih _ _).bind fun rest => .pure _

/-- **A profile is sent when all bands are there.** -/
theorem PFL.clean_task (resolution x1 y1 x2 y2 : Int32) (im : Opened) :
    (PFL.task S resolution x1 y1 x2 y2 im).Clean := by
  unfold PFL.task
  split
  case isTrue => exact (Task.Silent.throw _).clean
  case isFalse =>
    split
    case h_1 => exact (Task.Silent.throw _).clean
    case h_2 =>
      split
      case isTrue => exact (Task.Silent.throw _).clean
      case isFalse =>
        refine Task.Silent.get_bind_clean fun s => ?_
        exact (PFL.silent_bands s _ _ _ im _).bind_clean fun r => Task.clean_reply _ r.1

end

/-! ## 2. Behind a header -/

/-- Nothing has been written if the task ends in an exception. -/
def Task.NothingBefore {α : Type} (x : Task α) (s : Session) : Prop :=
  ∀ t s', x s = .error (.thrown t) s' → s'.out = s.out

/-- The calls end in an exception. -/
def Raises {α : Type} (x : Manager α) (k : Cache) : Prop := ∃ m k', x k = .error (.thrown m) k'

/-- The task stops exactly where the calls stop, and takes nothing back that has been written. -/
structure Task.StopsAs {α β : Type} (S : Server) (y : Task α) (s : Session) (x : Manager β) :
    Prop where
  ok : ∀ b k, x s.tileCache = .ok b k → ∃ a s', y s = .ok a s'
  error : ∀ e k, x s.tileCache = .error e k →
    ∃ s', y s = .error (Task.stop S e) s' ∧ s.out <+: s'.out

namespace Task

variable {α β γ δ : Type} {S : Server} {s s' : Session}

theorem Clean.nothingBefore {x : Task α} (hx : Clean x) (s : Session) : NothingBefore x s := by
  intro t s' hres
  have hend := hx s.out s rfl
  rw [hres] at hend
  exact hend

theorem nothingBefore_of_ok {x : Task α} {a : α} (h : x s = .ok a s') : NothingBefore x s := by
  intro t s₁ h₁
  rw [h] at h₁
  cases h₁

theorem nothingBefore_of_error {x : Task α} {e : Stop} (h : x s = .error e s')
    (hout : s'.out = s.out) : NothingBefore x s := by
  intro t s₁ h₁
  rw [h] at h₁
  cases h₁
  exact hout

theorem manage_ok {x : Manager α} {a : α} {k : Cache} (h : x s.tileCache = .ok a k) :
    manage S x s = .ok a { s with tileCache := k } := by
  rw [manage, h]

theorem manage_error {x : Manager α} {e : Failure} {k : Cache} (h : x s.tileCache = .error e k) :
    manage S x s = .error (stop S e) { s with tileCache := k } := by
  rw [manage, h]

namespace StopsAs

theorem pure (a : α) (b : β) : StopsAs S (Pure.pure a : Task α) s (Pure.pure b : Manager β) :=
  ⟨fun _ _ _ => ⟨a, s, rfl⟩, fun _ _ h => by cases h⟩

/-- A call of the tile manager. -/
theorem manage_bind {x : Manager γ} {f : γ → Task α} {g : γ → Manager β}
    (h : ∀ c k, StopsAs S (f c) { s with tileCache := k } (g c)) :
    StopsAs S (manage S x >>= f) s (x >>= g) := by
  cases hx : x s.tileCache with
  | ok c k =>
    constructor
    · intro b k' hok
      rw [EState.bind_ok hx] at hok
      rw [EState.bind_ok (manage_ok hx)]
      exact (h c k).ok b k' hok
    · intro e k' herr
      rw [EState.bind_ok hx] at herr
      rw [EState.bind_ok (manage_ok hx)]
      exact (h c k).error e k' herr
  | error e k =>
    constructor
    · intro b k' hok
      rw [EState.bind_error hx] at hok
      cases hok
    · intro e' k' herr
      rw [EState.bind_error hx] at herr
      cases herr
      exact ⟨_, EState.bind_error (manage_error hx), List.prefix_rfl⟩

/-- A computation that does not touch the session. -/
theorem ofExcept_bind {x : Except Failure γ} {f : γ → Task α} {g : γ → Manager β}
    (h : ∀ c, StopsAs S (f c) s (g c)) :
    StopsAs S (ofExcept S x >>= f) s (Manager.ofExcept x >>= g) := by
  cases x with
  | ok c => exact h c
  | error e =>
    refine ⟨fun _ _ hok => (nomatch hok), fun e' k herr => ?_⟩
    cases herr
    exact ⟨s, rfl, List.prefix_rfl⟩

/-- What is done to the session in between, as long as the output grows. -/
theorem modify_bind {u : Session → Session} {f : Unit → Task α} {x : Manager β}
    (hcache : (u s).tileCache = s.tileCache) (hout : s.out <+: (u s).out)
    (h : StopsAs S (f ()) (u s) x) : StopsAs S (modify u >>= f) s x := by
  constructor
  · intro b k hok
    exact h.ok b k (hcache ▸ hok)
  · intro e k herr
    obtain ⟨s', hs', hpre⟩ := h.error e k (hcache ▸ herr)
    exact ⟨s', hs', hout.trans hpre⟩

theorem get_bind {f : Session → Task α} {x : Manager β} (h : StopsAs S (f s) s x) :
    StopsAs S (get >>= f) s x :=
  ⟨h.ok, h.error⟩

/-- What comes behind does not stop. -/
theorem bind_ok {y : Task α} {f : α → Task γ} {x : Manager β} (h : StopsAs S y s x)
    (hf : ∀ a s, ∃ c s', f a s = .ok c s') : StopsAs S (y >>= f) s x := by
  constructor
  · intro b k hok
    obtain ⟨a, s', hs'⟩ := h.ok b k hok
    rw [EState.bind_ok hs']
    exact hf a s'
  · intro e k herr
    obtain ⟨s', hs', hpre⟩ := h.error e k herr
    exact ⟨s', EState.bind_error hs', hpre⟩

/-- **Behind a header an exception leaves half a reply.** -/
theorem nothingBefore_iff {y : Task α} {x : Manager β} (h : StopsAs S y s' x)
    (hcache : s'.tileCache = s.tileCache) (hpre : s.out <+: s'.out) (hne : s'.out ≠ s.out) :
    (∀ t s₁, y s' = .error (.thrown t) s₁ → s₁.out = s.out) ↔ ¬ Raises x s.tileCache := by
  rw [← hcache]
  constructor
  · rintro hnothing ⟨m, k, hx⟩
    obtain ⟨s₁, hs₁, hpre₁⟩ := h.error _ k hx
    have hout := hnothing _ _ hs₁
    rw [hout] at hpre₁
    exact hne (hpre₁.sublist.antisymm hpre.sublist)
  · intro hraises t s₁ hy
    cases hx : x s'.tileCache with
    | ok b k =>
      obtain ⟨a, s₂, hs₂⟩ := h.ok b k hx
      rw [hs₂] at hy
      cases hy
    | error e k =>
      obtain ⟨s₂, hs₂, -⟩ := h.error e k hx
      rw [hs₂] at hy
      cases e with
      | fault f => cases hy
      | thrown m => exact absurd ⟨m, k, hx⟩ hraises

end StopsAs

end Task

/-! ## 3. The calls of the commands -/

/-- A buffer holds the beginning of a text that is not empty. -/
theorem snprintf_ne_nil {n : Nat} {t : Text} (hn : 1 < n) (ht : t ≠ []) :
    Lib.Print.snprintf n t ≠ [] := by
  intro h
  rcases List.take_eq_nil_iff.1 h with h | h
  · omega
  · exact ht h

theorem Session.write_ne {t : Text} (h : t ≠ []) (s : Session) : (s.write t).out ≠ s.out := by
  intro heq
  exact h (List.append_right_eq_self.1 heq)

namespace TIL

variable {S : Server} {im : Opened} {resolution : Int32} {s s₀ : Session}

/-- The calls of the tile manager that `TIL` makes. -/
def calls (S : Server) (s : Session) (resolution : Int32) : Opened → List Int → Manager Opened
  | im, [] => pure im
  | im, n :: numbers => do
    let (im, _) ← S.tileOf im (request S s im resolution n)
    calls S s resolution im numbers

/-- No tile of the range raises an exception. -/
def Steady (S : Server) (resolution startTile endTile : Int32) (im : Opened) (s : Session) :
    Prop :=
  ∀ numbers, range im.info resolution startTile endTile = .ok numbers →
    ¬ Raises (calls S s resolution im numbers) s.tileCache

theorem sendTiles_stopsAs (S : Server) (s₀ : Session) (resolution : Int32) (im : Opened)
    (numbers : List Int) (s : Session) :
    Task.StopsAs S (numbers.foldlM (sendTile S s₀ resolution) im) s
      (calls S s₀ resolution im numbers) := by
  induction numbers generalizing im s with
  | nil => exact .pure _ _
  | cons n numbers ih =>
    rw [List.foldlM_cons, calls, sendTile, bind_assoc]
    refine .manage_bind fun r k => ?_
    change Task.StopsAs S (Task.write _ >>= fun _ => numbers.foldlM (sendTile S s₀ resolution) r.1)
      _ _
    exact .modify_bind rfl (List.prefix_append _ _) (ih r.1 _)

theorem header_ne_nil (s : Session) (im : Opened) : header S s im ≠ [] :=
  snprintf_ne_nil (by decide) (by simp [eof])

/-- **`TIL` leaves half a reply exactly if a tile of the range raises an exception.** -/
theorem nothingBefore_task {startTile endTile : Int32} :
    (task S resolution startTile endTile im).NothingBefore s ↔
      Steady S resolution startTile endTile im s := by
  unfold Steady
  cases hrange : range im.info resolution startTile endTile with
  | error e =>
    have hres : task S resolution startTile endTile im s = .error (Task.stop S e) s := by
      rw [task, hrange]
      rfl
    exact ⟨fun _ numbers h => (nomatch h), fun _ => Task.nothingBefore_of_error hres rfl⟩
  | ok numbers =>
    simp only [Except.ok.injEq, forall_eq']
    cases numbers with
    | nil =>
      have hres : task S resolution startTile endTile im s =
          .ok im { s with response := s.response.setImageSent } := by
        rw [task, hrange]
        rfl
      exact ⟨fun _ ⟨_, _, h⟩ => (nomatch h), fun _ => Task.nothingBefore_of_ok hres⟩
    | cons n numbers =>
      have hres : task S resolution startTile endTile im s =
          ((n :: numbers).foldlM (sendTile S s resolution) im >>= fun im =>
            Task.modifyResponse .setImageSent >>= fun _ => pure im) (s.write (header S s im)) := by
        rw [task, hrange]
        rfl
      unfold Task.NothingBefore
      rw [hres]
      refine Task.StopsAs.nothingBefore_iff (S := S) ?_ rfl (List.prefix_append _ _)
        (s.write_ne (header_ne_nil s im))
      exact (sendTiles_stopsAs S s resolution im _ _).bind_ok fun im' s' => ⟨im', _, rfl⟩

end TIL

namespace SPECTRA

variable {S : Server} {im : Opened} {resolution tile x y : Int32} {s : Session}

/-- The calls of the tile manager that `SPECTRA` makes, up to a tile that does not have the
point. -/
def calls (S : Server) (s : Session) (resolution tile x y : Int32) :
    Opened → List Int → Manager Opened
  | im, [] => pure im
  | im, n :: views => do
    let (im, t) ← S.tileOf im (request S s im resolution tile n)
    if Int32.ofNat t.width ≤ x ∨ Int32.ofNat t.height ≤ y then return im
    else calls S s resolution tile x y im views

/-- The point is outside, or no band raises an exception. -/
def Steady (S : Server) (resolution tile x y : Int32) (im : Opened) (s : Session) : Prop :=
  outside im x y ∨
    ¬ Raises (calls S s resolution tile x y im im.base.horizontalAnglesList) s.tileCache

theorem bands_stopsAs (S : Server) (s₀ : Session) (resolution tile x y : Int32) (im : Opened)
    (views : List Int) (s : Session) :
    Task.StopsAs S (bands S s₀ resolution tile x y im views) s
      (calls S s₀ resolution tile x y im views) := by
  induction views generalizing im s with
  | nil => exact .pure _ _
  | cons n views ih =>
    rw [bands, calls]
    refine .manage_bind fun r k => ?_
    dsimp only
    split
    case isTrue => exact .pure _ _
    case isFalse => exact .modify_bind rfl (List.prefix_append _ _) (ih r.1 _)

/-- **`SPECTRA` leaves half a reply exactly if a band raises an exception.** -/
theorem nothingBefore_task :
    (task S resolution tile x y im).NothingBefore s ↔ Steady S resolution tile x y im s := by
  unfold Steady
  by_cases hout : outside im x y
  case pos =>
    have hres : task S resolution tile x y im s = .error (.thrown rejected) s := by
      change (if outside im x y then _ else _ : Task Opened) s = _
      rw [if_pos hout]
      rfl
    exact ⟨fun _ => .inl hout, fun _ => Task.nothingBefore_of_error hres rfl⟩
  case neg =>
    let started := (s.write
      (s.response.createHTTPHeader S.version (str "xml") (S.timestamp im) 0)).write
      (str "<?xml version=\"1.0\" encoding=\"UTF-8\"?>\n<spectra>\n")
    have hres : task S resolution tile x y im s =
        (bands S s resolution tile x y im im.base.horizontalAnglesList >>= fun im =>
          Task.reply (str "</spectra>") >>= fun _ => pure im) started := by
      change (if outside im x y then _ else _ : Task Opened) s = _
      rw [if_neg hout]
      rfl
    have hpre : s.out <+: started.out :=
      (List.prefix_append _ _).trans (List.prefix_append _ _)
    have hne : started.out ≠ s.out := by
      intro h
      have hlength := congrArg List.length h
      simp [started, Session.write, str] at hlength
    unfold Task.NothingBefore
    rw [hres, or_iff_right hout]
    refine Task.StopsAs.nothingBefore_iff (S := S) ?_ rfl hpre hne
    exact (bands_stopsAs S s resolution tile x y im _ _).bind_ok fun im' s' => ⟨im', _, rfl⟩

end SPECTRA

namespace CVT

variable {S : Server} {im : Opened} {s : Session}

/-- The tile for the histogram. -/
def histogramCall (S : Server) (s : Session) (im : Opened) : Manager Opened :=
  if (s.view.requireHistogram && im.info.colourspace ≠ .binary) ∧ im.base.histogram = [] then do
    let (im, thumbnail) ← S.tileOf im (JTL.thumbnailRequest (S.image im) s.view)
    return im.update fun b =>
      { b with histogram := (S.processor (s.settings im)).histogram thumbnail }
  else pure im

/-- The calls that `CVT` makes of the tile manager, the operations and the encoder. -/
def calls (S : Server) (s : Session) (ct : CompressionType) (e : Extraction) (im : Opened) :
    Manager Unit := do
  let im ← histogramCall S s im
  let (im, r) ← S.regionOf im (Int32.ofNat e.resolution) s.view.xangle s.view.yangle
    s.view.getLayers e.viewLeft e.viewTop e.viewWidth e.viewHeight
  let (t, _) ← Manager.ofExcept (transforms S s im e (complete S im r))
  let height := if s.view.rotation ≠ 0 then t.height else e.resampledHeight
  let _ ← Manager.ofExcept (initCompression S ct (s.quality ct) t height)
  return ()

/-- The region is refused, or no call behind the header raises an exception. -/
def Steady (S : Server) (im : Opened) (s : Session) : Prop :=
  ∀ v e, extract im.info s.view = .ok (v, e) →
    ¬ Raises (calls S { s with view := v } s.view.outputFormat e im) s.tileCache

theorem withHistogram_stopsAs {α β : Type} {f : Opened → Task α} {g : Opened → Manager β}
    (h : ∀ im' s', Task.StopsAs S (f im') s' (g im')) :
    Task.StopsAs S
      (S.withHistogram (s.view.requireHistogram && im.info.colourspace ≠ .binary) im >>= f) s
      (histogramCall S s im >>= g) := by
  unfold Server.withHistogram histogramCall
  split
  case isTrue =>
    unfold Server.addHistogram
    simp only [bind_assoc, pure_bind]
    refine .get_bind (.manage_bind fun thumbnail k => ?_)
    exact .modify_bind rfl List.prefix_rfl (h _ _)
  case isFalse => exact h im s

theorem pixels_stopsAs (S : Server) (ct : CompressionType) (e : Extraction) (im : Opened)
    (s : Session) : Task.StopsAs S (pixels S ct e im) s (calls S s ct e im) := by
  unfold pixels calls
  refine .get_bind (withHistogram_stopsAs fun im' s₁ => ?_)
  refine .manage_bind fun r k => ?_
  refine .ofExcept_bind fun ⟨t, v⟩ => ?_
  refine .modify_bind rfl List.prefix_rfl ?_
  exact .ofExcept_bind fun head => .pure _ _

theorem header_ne_nil (s : Session) (im : Opened) (ct : CompressionType) :
    header S s im ct ≠ [] :=
  snprintf_ne_nil (by decide) (by simp [eof])

/-- What `send` does behind the pixels. -/
def finish (S : Server) (s : Session) (v : View) (ct : CompressionType) (e : Extraction)
    (p : Opened × RawTile × List UInt8) : Task Opened := do
  let height := if v.rotation ≠ 0 then p.2.1.height else e.resampledHeight
  Task.write (bytes p.2.2)
  (stripRows height).forM fun q =>
    Task.write (bytes (S.strips.strip ct (s.quality ct) p.2.1 q.1 q.2))
  Task.reply (bytes (S.strips.finish ct (s.quality ct) p.2.1))
  return p.1

theorem forM_write_ok {α : Type} (l : List α) (t : α → Text) (s : Session) :
    ∃ s', l.forM (fun a => Task.write (t a)) s = .ok () s' := by
  induction l generalizing s with
  | nil => exact ⟨s, rfl⟩
  | cons a l ih => exact ih (s.write (t a))

theorem finish_ok (v : View) (ct : CompressionType) (e : Extraction)
    (p : Opened × RawTile × List UInt8) (s₀ s : Session) :
    ∃ im s', finish S s₀ v ct e p s = .ok im s' := by
  obtain ⟨s₁, hs₁⟩ := forM_write_ok
    (stripRows (if v.rotation ≠ 0 then p.2.1.height else e.resampledHeight))
    (fun q => bytes (S.strips.strip ct (s₀.quality ct) p.2.1 q.1 q.2)) (s.write (bytes p.2.2))
  refine ⟨p.1, s₁.reply (bytes (S.strips.finish ct (s₀.quality ct) p.2.1)), ?_⟩
  have hwrite : Task.write (bytes p.2.2) s = .ok () (s.write (bytes p.2.2)) := rfl
  rw [finish, EState.bind_ok hwrite, EState.bind_ok hs₁]
  rfl

/-- **`CVT` leaves half a reply exactly if a call behind the header raises an exception.** -/
theorem nothingBefore_task (hformat : s.view.outputFormat = .jpeg ∨ s.view.outputFormat = .png) :
    (task S im).NothingBefore s ↔ Steady S im s := by
  unfold Steady
  have htask : task S im s = (Task.ofExcept S (extract im.info s.view) >>= fun p =>
      Task.modifyView (fun _ => p.1) >>= fun _ =>
      Task.write (header S s im s.view.outputFormat) >>= fun _ =>
      pixels S s.view.outputFormat p.2 im >>= finish S s p.1 s.view.outputFormat p.2) s := by
    change (if ¬ (s.view.outputFormat = .jpeg ∨ s.view.outputFormat = .png) then _ else _ :
      Task Opened) s = _
    rw [if_neg (not_not_intro hformat)]
    rfl
  cases hextract : extract im.info s.view with
  | error e =>
    rw [hextract] at htask
    exact ⟨fun _ v e h => (nomatch h), fun _ => Task.nothingBefore_of_error htask rfl⟩
  | ok p =>
    obtain ⟨v, e⟩ := p
    rw [hextract] at htask
    have hres : task S im s = (pixels S s.view.outputFormat e im >>=
        finish S s v s.view.outputFormat e)
        (Session.write (header S s im s.view.outputFormat) { s with view := v }) := htask
    have hiff : (task S im).NothingBefore s ↔
        ¬ Raises (calls S { s with view := v } s.view.outputFormat e im) s.tileCache := by
      unfold Task.NothingBefore
      rw [hres]
      refine Task.StopsAs.nothingBefore_iff (S := S) ?_ rfl (List.prefix_append _ _)
        (Session.write_ne (header_ne_nil s im _) { s with view := v })
      exact (pixels_stopsAs S _ e im _).bind_ok fun p s' => finish_ok v _ e p s s'
    rw [hiff]
    constructor
    · intro h v' e' heq
      cases heq
      exact h
    · intro h
      exact h v e rfl

end CVT

/-! ## 4. The output commands -/

/-- The commands that send pixels. -/
inductive Output
  | cvt | jtl | til | spectra | pfl

namespace Output

variable {S : Server} {argument : Text} {c : Connection}

/-- The handler of an output command. -/
def run (S : Server) (argument : Text) : Output → Handler
  | cvt => CVT.run S argument
  | jtl => JTL.run S argument
  | til => TIL.run S argument
  | spectra => SPECTRA.run S argument
  | pfl => PFL.run S argument

/-- Nothing has been written if the handler ends in an exception. -/
def NothingBefore (l : Handler) (c : Connection) : Prop :=
  ∀ t c', l.exec c = .error (.stop (.thrown t)) c' → c'.session.out = c.session.out

/-- The tiles that `TIL` is asked for: the level, and the first and the last number. -/
def tilRange (argument : Text) : Int32 × Int32 × Int32 :=
  let range := (cutAt ',' argument).2
  let start := atoi (cutAt '-' range).1
  let stop := (cutAt '-' range).2
  (atoi (cutAt ',' argument).1, start, if stop = [] then start else atoi stop)

/-- The session of `CVT`, with its output format. -/
def cvtSession (argument : Text) (s : Session) : Session :=
  let format := if tolower argument = str "png" then CompressionType.png else .jpeg
  { s with view := { s.view with outputFormat := format } }

/-- **When an error comes first**: the command writes at its end, there is no image, the request
is refused in front of the header, or no call behind the header raises an exception. -/
def Steady (S : Server) (argument : Text) (c : Connection) : Output → Prop
  | jtl | pfl => True
  | cvt => ∀ im, c.image = some im → CVT.Steady S im (cvtSession argument c.session)
  | til => ∀ im, c.image = some im →
    TIL.Steady S (tilRange argument).1 (tilRange argument).2.1 (tilRange argument).2.2 im c.session
  | spectra => (SPECTRA.numbers argument).x < 0 ∨ ∀ im, c.image = some im →
    SPECTRA.Steady S (SPECTRA.numbers argument).resolution (SPECTRA.numbers argument).tile
      (SPECTRA.numbers argument).x (SPECTRA.numbers argument).y im c.session

theorem exec_singleton (a : Action) : Handler.exec [a] c = a.exec c := by
  cases h : a.exec c with
  | ok u c' => exact Handler.exec_ok h
  | error e c' => exact Handler.exec_error h

theorem withImage_iff (t : Opened → Task Opened) (im : Opened) (s : Session) :
    (∀ e c', Action.withImage t ⟨some im, s⟩ = .error (.stop (.thrown e)) c' →
      c'.session.out = s.out) ↔ (t im).NothingBefore s := by
  unfold Action.withImage Task.NothingBefore
  cases hres : t im s with
  | ok im' s' =>
    refine ⟨fun _ e s₁ h => (nomatch h), fun _ e c' h => ?_⟩
    simp only [hres] at h
    cases h
  | error stop s' =>
    constructor
    · intro h e s₁ heq
      cases heq
      exact h e ⟨some im, s'⟩ (by simp only [hres])
    · intro h e c' heq
      simp only [hres] at heq
      cases heq
      exact h e s' rfl

/-- Without an image nothing is written. -/
theorem nothingBefore_guarded (argument : Text) (t : Opened → Task Opened) :
    NothingBefore [.guarded argument t] c ↔
      ∀ im, c.image = some im → (t im).NothingBefore c.session := by
  unfold NothingBefore
  rw [exec_singleton]
  obtain ⟨_ | im, s⟩ := c
  · refine ⟨fun _ im h => (nomatch h), fun _ e c' h => ?_⟩
    cases h
    rfl
  · simp only [Option.some.injEq, forall_eq']
    exact withImage_iff t im s

/-- Without an image there is no exception. -/
theorem nothingBefore_follow (t : Opened → Task Opened) :
    NothingBefore [.follow t] c ↔ ∀ im, c.image = some im → (t im).NothingBefore c.session := by
  unfold NothingBefore
  rw [exec_singleton]
  obtain ⟨_ | im, s⟩ := c
  · exact ⟨fun _ im h => (nomatch h), fun _ e c' h => (nomatch h)⟩
  · simp only [Option.some.injEq, forall_eq']
    exact withImage_iff t im s

theorem nothingBefore_refuse (t : Thrown) : NothingBefore [.refuse t] c := by
  intro e c' h
  rw [exec_singleton] at h
  cases h
  rfl

/-- **When an output command leaves half a reply.**  If it ends in an exception nothing has been
written, exactly if it is `JTL` or `PFL`, or no call behind its header raises one. -/
theorem nothingBefore_iff_steady (S : Server) (o : Output) (argument : Text) (c : Connection) :
    NothingBefore (o.run S argument) c ↔ o.Steady S argument c := by
  cases o with
  | jtl =>
    refine iff_of_true ?_ trivial
    exact (nothingBefore_guarded _ _).2 fun im _ => (JTL.clean_task _ _ im).nothingBefore _
  | pfl =>
    refine iff_of_true ?_ trivial
    change NothingBefore (PFL.run S argument) c
    unfold PFL.run
    split
    case isTrue => exact nothingBefore_refuse _
    case isFalse =>
      exact (nothingBefore_follow _).2 fun im _ => (PFL.clean_task _ _ _ _ _ im).nothingBefore _
  | til =>
    refine (nothingBefore_guarded _ _).trans (forall₂_congr fun im _ => ?_)
    exact TIL.nothingBefore_task
  | spectra =>
    unfold run SPECTRA.run Steady
    by_cases hx : (SPECTRA.numbers argument).x < 0
    case pos =>
      rw [if_pos hx]
      exact iff_of_true (nothingBefore_refuse _) (.inl hx)
    case neg =>
      rw [if_neg hx, or_iff_right hx]
      refine (nothingBefore_follow _).trans (forall₂_congr fun im _ => ?_)
      exact SPECTRA.nothingBefore_task
  | cvt =>
    have hupdate : NothingBefore (CVT.run S argument) c ↔
        NothingBefore [.guarded [] (CVT.task S)]
          { c with session := cvtSession argument c.session } :=
      Iff.rfl
    refine hupdate.trans ((nothingBefore_guarded _ _).trans (forall₂_congr fun im _ => ?_))
    refine CVT.nothingBefore_task ?_
    unfold cvtSession
    split
    case isTrue => exact .inr rfl
    case isFalse => exact .inl rfl

end Output

/-- An image of one tile. -/
def singleTile : Opened :=
  .openJPEG { IIPImage.new (str "a.jp2") with
    imageWidths := [256], imageHeights := [256], tileWidth := 256, tileHeight := 256,
    numResolutions := 1, bpc := 8, channels := 1, isSet := true }

/-- The connection of a request that has opened it. -/
def singleTileConnection : Connection :=
  { (smallServer fun _ => none).start freshState.imageCache freshState.tileCache with
    image := some singleTile }

/-- **A header without a tile.**  The decoder fails, and `TIL` has written its header. -/
theorem til_header_then_error :
    ∃ c, (TIL.run (smallServer fun _ => none) (str "0,0")).exec singleTileConnection =
        .error (.stop (.thrown (.fileError "decoder"))) c ∧
      singleTileConnection.session.out = [] ∧ c.session.out ≠ [] := by
  refine ⟨_, rfl, rfl, ?_⟩
  decide

end Iipsrv
