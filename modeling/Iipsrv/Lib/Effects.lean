/-
# Computations that can fail

Taking apart a computation that has ended: with `Except`, and with `EStateM`, where a failure
leaves a state as well.
-/
import Mathlib.Init

namespace Lib.Effects

variable {ε σ α β : Type}

/-- A step that has succeeded. -/
theorem ok_bind (a : α) (f : α → Except ε β) : (.ok a >>= f) = f a := rfl

/-- From a computation that has succeeded, the results on the way. -/
theorem bind_eq_ok {x : Except ε α} {f : α → Except ε β} {r : β} (h : (x >>= f) = .ok r) :
    ∃ t, x = .ok t ∧ f t = .ok r := by
  cases x with
  | error e => cases h
  | ok t => exact ⟨t, rfl, h⟩

/-- A computation that has failed has failed in its first step or in the rest. -/
theorem bind_eq_error {x : Except ε α} {f : α → Except ε β} {e : ε} (h : (x >>= f) = .error e) :
    x = .error e ∨ ∃ t, x = .ok t ∧ f t = .error e := by
  cases x with
  | error e' =>
    cases h
    exact .inl rfl
  | ok t => exact .inr ⟨t, rfl, h⟩

theorem map_eq_ok {x : Except ε α} {f : α → β} {r : β} (h : x.map f = .ok r) :
    ∃ t, x = .ok t ∧ r = f t := by
  cases x with
  | error e => cases h
  | ok t => exact ⟨t, rfl, (Except.ok.inj h).symm⟩

/-- What an evaluation shows of a result: there is one, and it has this. -/
theorem of_toOption_map {x : Except ε α} {f : α → β} {b : β} (h : x.toOption.map f = some b) :
    ∃ t, x = .ok t ∧ f t = b := by
  cases x with
  | error e => cases h
  | ok t => exact ⟨t, rfl, Option.some.inj h⟩

namespace EState

variable {x : EStateM ε σ α} {f : α → EStateM ε σ β} {s s' : σ}

/-- A step that has succeeded. -/
theorem bind_ok {r : α} (h : x s = .ok r s') : (x >>= f) s = f r s' := by
  change EStateM.bind x f s = _
  rw [EStateM.bind, h]

/-- A step that has failed ends the computation. -/
theorem bind_error {e : ε} (h : x s = .error e s') : (x >>= f) s = .error e s' := by
  change EStateM.bind x f s = _
  rw [EStateM.bind, h]

/-- From a computation that has succeeded, the results and the states on the way. -/
theorem bind_eq_ok {r : β} (h : (x >>= f) s = .ok r s') :
    ∃ t s₁, x s = .ok t s₁ ∧ f t s₁ = .ok r s' := by
  cases hx : x s with
  | error e s₁ =>
    rw [bind_error hx] at h
    cases h
  | ok t s₁ =>
    rw [bind_ok hx] at h
    exact ⟨t, s₁, rfl, h⟩

/-- A computation that has failed has failed in its first step or in the rest. -/
theorem bind_eq_error {e : ε} (h : (x >>= f) s = .error e s') :
    x s = .error e s' ∨ ∃ t s₁, x s = .ok t s₁ ∧ f t s₁ = .error e s' := by
  cases hx : x s with
  | error e₁ s₁ =>
    rw [bind_error hx] at h
    cases h
    exact .inl rfl
  | ok t s₁ =>
    rw [bind_ok hx] at h
    exact .inr ⟨t, s₁, rfl, h⟩

/-- **A loop that is followed.**  If every turn that succeeds keeps two values related, so does a
loop that succeeds. -/
theorem foldlM_follows {τ υ ι : Type} {f : τ → ι → EStateM ε σ τ} {g : υ → ι → υ}
    {R : υ → τ → Prop} (step : ∀ u t x s t' s', R u t → f t x s = .ok t' s' → R (g u x) t') :
    ∀ (l : List ι) {u : υ} {t t' : τ} {s s' : σ}, R u t → l.foldlM f t s = .ok t' s' →
      R (l.foldl g u) t'
  | [], _, _, _, _, _, h, hrun => by
    cases hrun
    exact h
  | x :: l, _, _, _, _, _, h, hrun => by
    rw [List.foldlM_cons] at hrun
    obtain ⟨t₁, s₁, hfirst, hrest⟩ := bind_eq_ok hrun
    exact foldlM_follows step l (step _ _ _ _ _ _ h hfirst) hrest

/-- What every turn keeps is kept by the loop. -/
theorem foldlM_keeps {τ ι ρ : Type} {f : τ → ι → EStateM ε σ τ} (m : τ → ρ)
    (step : ∀ t x s t' s', f t x s = .ok t' s' → m t' = m t) {l : List ι} {t t' : τ}
    (h : l.foldlM f t s = .ok t' s') : m t' = m t :=
  foldlM_follows (R := fun (_ : Unit) t₁ => m t₁ = m t) (g := fun u _ => u)
    (fun _ _ _ _ _ _ hm hstep => (step _ _ _ _ _ hstep).trans hm) l (u := ()) rfl h

/-- From a loop that collects results, the first turn and the others. -/
theorem mapM_cons_eq_ok {a : α} {l : List α} {g : α → EStateM ε σ β} {bs : List β}
    (h : (a :: l).mapM g s = .ok bs s') :
    ∃ b s₁ rest, g a s = .ok b s₁ ∧ l.mapM g s₁ = .ok rest s' ∧ bs = b :: rest := by
  rw [List.mapM_cons] at h
  obtain ⟨b, s₁, hfirst, h⟩ := bind_eq_ok h
  obtain ⟨rest, s₂, hrest, h⟩ := bind_eq_ok h
  cases h
  exact ⟨b, s₁, rest, hfirst, hrest, rfl⟩

/-- A loop that collects results has one for each turn. -/
theorem length_of_mapM {l : List α} {g : α → EStateM ε σ β} {bs : List β}
    (h : l.mapM g s = .ok bs s') : bs.length = l.length := by
  induction l generalizing s bs with
  | nil =>
    cases h
    rfl
  | cons a l ih =>
    obtain ⟨b, s₁, rest, -, hrest, rfl⟩ := mapM_cons_eq_ok h
    rw [List.length_cons, List.length_cons, ih hrest]

/-- A loop that hands a value on, and collects it with what every turn returns. -/
def collect {γ : Type} (g : β → α → EStateM ε σ (β × γ)) : β → List α → EStateM ε σ (List (β × γ))
  | _, [] => pure []
  | b, a :: l => do
    let r ← g b a
    let rest ← collect g r.1 l
    return r :: rest

/-- From such a loop, the first turn and the others. -/
theorem collect_cons_eq_ok {γ : Type} {g : β → α → EStateM ε σ (β × γ)} {b : β} {a : α}
    {l : List α} {rs : List (β × γ)} (h : collect g b (a :: l) s = .ok rs s') :
    ∃ r s₁ rest, g b a s = .ok r s₁ ∧ collect g r.1 l s₁ = .ok rest s' ∧ rs = r :: rest := by
  unfold collect at h
  obtain ⟨r, s₁, hfirst, h⟩ := bind_eq_ok h
  obtain ⟨rest, s₂, hrest, h⟩ := bind_eq_ok h
  cases h
  exact ⟨r, s₁, rest, hfirst, hrest, rfl⟩

/-- Where `x` succeeds, `y` does the same. -/
def Carries (x y : EStateM ε σ α) : Prop := ∀ s a s', x s = .ok a s' → y s = .ok a s'

namespace Carries

theorem refl (x : EStateM ε σ α) : Carries x x := fun _ _ _ h => h

theorem bind {x y : EStateM ε σ α} {f g : α → EStateM ε σ β} (hxy : Carries x y)
    (hfg : ∀ a, Carries (f a) (g a)) : Carries (x >>= f) (y >>= g) := by
  intro s b s' h
  obtain ⟨a, s₁, hx, hf⟩ := bind_eq_ok h
  rw [bind_ok (hxy s a s₁ hx)]
  exact hfg a s₁ b s' hf

theorem forM {l : List α} {g g' : α → EStateM ε σ PUnit} (h : ∀ a ∈ l, Carries (g a) (g' a)) :
    Carries (l.forM g) (l.forM g') := by
  induction l with
  | nil => exact refl _
  | cons a l ih =>
    rw [List.forM_eq_forM, List.forM_cons, List.forM_cons]
    exact bind (h a List.mem_cons_self) fun _ => ih fun b hb => h b (List.mem_cons_of_mem a hb)

end Carries

end EState

end Lib.Effects
