/-
# Pre- and postconditions

Rules for computations in `EStateM` that can end or fail.  `Triple P x Q E` says what holds when
`x` is started in a state with `P`: `Q` if it ends, `E` if it fails.  A failure ends the whole
computation, so `E` is the same along a sequence of steps.  `Keeps` is the case of an invariant;
`Avoids` is about one error and one state, and exact.
-/
import Iipsrv.Lib.Effects

namespace Lib.Effects

variable {ε σ α β : Type}

/-- What holds of a result. -/
def Ends (Q : α → σ → Prop) (E : ε → σ → Prop) : EStateM.Result ε σ α → Prop
  | .ok a s => Q a s
  | .error e s => E e s

/-- From `P`, the computation ends with `Q` or fails with `E`. -/
def Triple (P : σ → Prop) (x : EStateM ε σ α) (Q : α → σ → Prop) (E : ε → σ → Prop) : Prop :=
  ∀ s, P s → Ends Q E (x s)

variable {P P' : σ → Prop} {Q Q' : α → σ → Prop} {R : β → σ → Prop} {E E' : ε → σ → Prop}
variable {x : EStateM ε σ α} {f : α → EStateM ε σ β}

namespace Triple

theorem of_ok {s s' : σ} {a : α} (h : Triple P x Q E) (hs : P s) (hx : x s = .ok a s') :
    Q a s' := by
  have hstep := h s hs
  rw [hx] at hstep
  exact hstep

theorem of_error {s s' : σ} {e : ε} (h : Triple P x Q E) (hs : P s) (hx : x s = .error e s') :
    E e s' := by
  have hstep := h s hs
  rw [hx] at hstep
  exact hstep

theorem pure {a : α} (h : ∀ s, P s → Q a s) : Triple P (Pure.pure a : EStateM ε σ α) Q E :=
  fun s hs => h s hs

theorem throw {e : ε} (h : ∀ s, P s → E e s) :
    Triple P (MonadExcept.throw e : EStateM ε σ α) Q E :=
  fun s hs => h s hs

theorem modify {g : σ → σ} {Q : PUnit → σ → Prop} (h : ∀ s, P s → Q ⟨⟩ (g s)) :
    Triple P (modify g : EStateM ε σ PUnit) Q E :=
  fun s hs => h s hs

/-- What holds of the state holds of the state that is read. -/
theorem get_bind {f : σ → EStateM ε σ β} (h : ∀ s, P s → Triple P (f s) R E) :
    Triple P (get >>= f) R E :=
  fun s hs => h s hs s hs

theorem bind (hx : Triple P x Q E) (hf : ∀ a, Triple (Q a) (f a) R E) :
    Triple P (x >>= f) R E := by
  intro s hs
  have hstep := hx s hs
  cases hres : x s with
  | ok a s₁ =>
    rw [hres] at hstep
    rw [EState.bind_ok hres]
    exact hf a s₁ hstep
  | error e s₁ =>
    rw [hres] at hstep
    rw [EState.bind_error hres]
    exact hstep

theorem consequence (h : Triple P x Q E) (hP : ∀ s, P' s → P s) (hQ : ∀ a s, Q a s → Q' a s)
    (hE : ∀ e s, E e s → E' e s) : Triple P' x Q' E' := by
  intro s hs
  have hstep := h s (hP s hs)
  cases hres : x s with
  | ok a s₁ => exact hQ a s₁ (by rw [hres] at hstep; exact hstep)
  | error e s₁ => exact hE e s₁ (by rw [hres] at hstep; exact hstep)

/-- A loop keeps what each turn keeps. -/
theorem forM {I : σ → Prop} {l : List α} {g : α → EStateM ε σ PUnit}
    (h : ∀ a ∈ l, Triple I (g a) (fun _ => I) E) : Triple I (l.forM g) (fun _ => I) E := by
  induction l with
  | nil => exact pure fun _ hs => hs
  | cons a l ih =>
    rw [List.forM_eq_forM, List.forM_cons]
    exact bind (h a List.mem_cons_self) fun _ => ih fun b hb => h b (List.mem_cons_of_mem a hb)

/-- So does a loop that hands a value on. -/
theorem foldlM {I : σ → Prop} {l : List α} {g : β → α → EStateM ε σ β} {b : β}
    (h : ∀ b, ∀ a ∈ l, Triple I (g b a) (fun _ => I) E) :
    Triple I (l.foldlM g b) (fun _ => I) E := by
  induction l generalizing b with
  | nil => exact pure fun _ hs => hs
  | cons a l ih =>
    rw [List.foldlM_cons]
    refine bind (h b a List.mem_cons_self) fun b => ih fun b c hc => ?_
    exact h b c (List.mem_cons_of_mem a hc)

end Triple

/-! ## Invariants -/

/-- However the computation ends, it keeps the invariant. -/
def Keeps (I : σ → Prop) (x : EStateM ε σ α) : Prop := Triple I x (fun _ => I) fun _ => I

namespace Keeps

variable {I : σ → Prop}

theorem pure (a : α) : Keeps I (Pure.pure a : EStateM ε σ α) := Triple.pure fun _ hs => hs

theorem throw (e : ε) : Keeps I (MonadExcept.throw e : EStateM ε σ α) :=
  Triple.throw fun _ hs => hs

theorem bind (hx : Keeps I x) (hf : ∀ a, Keeps I (f a)) : Keeps I (x >>= f) := Triple.bind hx hf

theorem get_bind {f : σ → EStateM ε σ β} (hf : ∀ s, Keeps I (f s)) : Keeps I (get >>= f) :=
  Triple.get_bind fun s _ => hf s

theorem modify {g : σ → σ} (h : ∀ s, I s → I (g s)) :
    Keeps I (modify g : EStateM ε σ PUnit) :=
  Triple.modify h

theorem forM {l : List α} {g : α → EStateM ε σ PUnit} (h : ∀ a ∈ l, Keeps I (g a)) :
    Keeps I (l.forM g) :=
  Triple.forM h

theorem foldlM {l : List α} {g : β → α → EStateM ε σ β} {b : β} (h : ∀ b a, Keeps I (g b a)) :
    Keeps I (l.foldlM g b) :=
  Triple.foldlM fun b a _ => h b a

/-- An invariant that rests on `I` and on what does not change. -/
theorem frame {J : σ → Prop} (hx : Keeps I x) (hI : ∀ s, J s → I s)
    (hJ : ∀ s s', J s → I s' → J s') : Keeps J x := by
  intro s hs
  have hstart : ∀ s₀, s₀ = s → I s₀ := fun _ h => h ▸ hI s hs
  exact Triple.consequence hx hstart (fun _ s' hs' => hJ s s' hs hs')
    (fun _ s' hs' => hJ s s' hs hs') s rfl

end Keeps

/-! ## One error -/

/-- From this state, the computation does not end in this error. -/
def Avoids (e : ε) (x : EStateM ε σ α) (s : σ) : Prop := ∀ s', x s ≠ .error e s'

namespace Avoids

variable {e e' : ε} {s : σ}

theorem of_ok {a : α} {s' : σ} (hx : x s = .ok a s') : Avoids e x s := by
  intro s₁ heq
  cases hx.symm.trans heq

theorem iff_of_error {s' : σ} (hx : x s = .error e' s') : Avoids e x s ↔ e' ≠ e := by
  refine ⟨fun h heq => h s' (heq ▸ hx), fun hne s₁ heq => hne ?_⟩
  cases hx.symm.trans heq
  rfl

theorem pure (a : α) : Avoids e (Pure.pure a : EStateM ε σ α) s := of_ok rfl

theorem throw_iff : Avoids e (MonadExcept.throw e' : EStateM ε σ α) s ↔ e' ≠ e := iff_of_error rfl

theorem modify (g : σ → σ) : Avoids e (modify g : EStateM ε σ PUnit) s := of_ok rfl

/-- Exactly if no step of the sequence does, in the state that it is reached in. -/
theorem bind_iff :
    Avoids e (x >>= f) s ↔ Avoids e x s ∧ ∀ a s', x s = .ok a s' → Avoids e (f a) s' := by
  constructor
  · intro h
    refine ⟨fun s' hx => h s' (EState.bind_error hx), fun a s' hx s₁ hf => h s₁ ?_⟩
    rw [EState.bind_ok hx]
    exact hf
  · rintro ⟨hx, hf⟩ s' heq
    rcases EState.bind_eq_error heq with herror | ⟨a, s₁, hok, herror⟩
    · exact hx s' herror
    · exact hf a s₁ hok s' herror

/-- Only the first step matters. -/
theorem bind_iff_left (hf : ∀ a s', Avoids e (f a) s') : Avoids e (x >>= f) s ↔ Avoids e x s := by
  rw [bind_iff]
  exact and_iff_left fun a s' _ => hf a s'

/-- A step that ends in one way only. -/
theorem bind_iff_of_ok {a : α} {s' : σ} (hx : x s = .ok a s') :
    Avoids e (x >>= f) s ↔ Avoids e (f a) s' := by
  unfold Avoids
  rw [EState.bind_ok hx]

/-- A loop, with the state that the turns before have left. -/
theorem foldlM_iff {g : β → α → EStateM ε σ β} {l : List α} {b : β} :
    Avoids e (l.foldlM g b) s ↔
      ∀ front a back, l = front ++ a :: back → ∀ b' s', front.foldlM g b s = .ok b' s' →
        Avoids e (g b' a) s' := by
  induction l generalizing b s with
  | nil =>
    refine iff_of_true (pure b) fun front a back heq => ?_
    exact absurd heq.symm (List.append_ne_nil_of_right_ne_nil _ (List.cons_ne_nil a back))
  | cons a l ih =>
    rw [List.foldlM_cons, bind_iff]
    constructor
    · rintro ⟨hfirst, hrest⟩ front a' back heq b' s' hfront
      cases front with
      | nil =>
        cases heq
        cases hfront
        exact hfirst
      | cons c front =>
        cases heq
        rw [List.foldlM_cons] at hfront
        obtain ⟨b₁, s₁, hc, hfront⟩ := EState.bind_eq_ok hfront
        exact ih.mp (hrest b₁ s₁ hc) front a' back rfl b' s' hfront
    · intro h
      refine ⟨h [] a l rfl b s rfl, fun b₁ s₁ hb₁ => ih.mpr ?_⟩
      intro front a' back heq b' s' hfront
      refine h (a :: front) a' back (by rw [heq]; rfl) b' s' ?_
      rw [List.foldlM_cons, EState.bind_ok hb₁]
      exact hfront

end Avoids

end Lib.Effects
