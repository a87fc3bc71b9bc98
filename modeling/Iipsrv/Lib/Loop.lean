/-
# Counting loops and their invariants

A C loop `for( i=m; i<m+n; i++ )` is a monadic fold over `List.range' m n`.  The rules here
say that an invariant which every turn re-establishes holds after the last one, and that the
loop then ends normally: one rule for computations that can fail (`Option`), one for
computations that also carry a state (`EStateM`), and one for loops that only count.

`strided` is for a loop that does not count by ones.
-/
import Mathlib.Data.List.Range

namespace Lib.Loop

/-- What `n` is in the turns of `for( n=start; n<stop; n+=step )`. -/
def strided (start stop step : Nat) : List Nat :=
  List.range' start ((stop - start + (step - 1)) / step) step

theorem nodup_strided {step : Nat} (start stop : Nat) (hstep : 0 < step) :
    (strided start stop step).Nodup :=
  List.nodup_range' step hstep

/-- From a start below the step, the loop goes through one residue class. -/
theorem mem_strided {start stop step n : Nat} (hstart : start < step) :
    n ∈ strided start stop step ↔ n < stop ∧ n % step = start := by
  have hstep : 0 < step := by omega
  have hturns : ∀ i, i < (stop - start + (step - 1)) / step ↔ start + step * i < stop := by
    intro i
    rw [Nat.lt_iff_add_one_le, Nat.le_div_iff_mul_le hstep, Nat.add_mul, Nat.one_mul,
      Nat.mul_comm i]
    omega
  unfold strided
  rw [List.mem_range']
  constructor
  · rintro ⟨i, hi, rfl⟩
    refine ⟨(hturns i).mp hi, ?_⟩
    rw [Nat.add_mul_mod_self_left, Nat.mod_eq_of_lt hstart]
  · rintro ⟨hn, rfl⟩
    have hnum : n % step + step * (n / step) = n := Nat.mod_add_div n step
    exact ⟨n / step, (hturns _).mpr (by rwa [hnum]), hnum.symm⟩

/-- A loop over a multiple of its step takes every multiple below it. -/
theorem strided_mul {step : Nat} (m : Nat) (hstep : 0 < step) :
    strided 0 (m * step) step = (List.range m).map (· * step) := by
  have hturns : (m * step - 0 + (step - 1)) / step = m := by
    rw [Nat.sub_zero, Nat.mul_comm, Nat.mul_add_div hstep, Nat.div_eq_of_lt (by omega),
      Nat.add_zero]
  unfold strided
  rw [hturns]
  refine List.ext_getElem (by simp) fun i _ _ => ?_
  simp [Nat.mul_comm]

/-- **The invariant rule for a loop that cannot fail.** -/
theorem foldl_invariant {σ : Type*} {f : σ → Nat → σ} (I : Nat → σ → Prop) :
    ∀ (n m : Nat) (s : σ), I m s →
      (∀ i s, m ≤ i → i < m + n → I i s → I (i + 1) (f s i)) →
      I (m + n) ((List.range' m n).foldl f s)
  | 0, _, _, h, _ => h
  | n + 1, m, s, h, step => by
    have h₁ := step m s (Nat.le_refl m) (by omega) h
    have h₂ := foldl_invariant I n (m + 1) (f s m) h₁ fun i s hi hin =>
      step i s (by omega) (by omega)
    rwa [Nat.add_right_comm, Nat.add_assoc] at h₂

/-- **The invariant rule for a loop that can fail.** -/
theorem foldlM_some {σ : Type*} {f : σ → Nat → Option σ} (I : Nat → σ → Prop) :
    ∀ (n m : Nat) (s : σ), I m s →
      (∀ i s, m ≤ i → i < m + n → I i s → ∃ s', f s i = some s' ∧ I (i + 1) s') →
      ∃ s', (List.range' m n).foldlM f s = some s' ∧ I (m + n) s'
  | 0, _, s, h, _ => ⟨s, rfl, h⟩
  | n + 1, m, s, h, step => by
    obtain ⟨s₁, hs₁, h₁⟩ := step m s (Nat.le_refl m) (by omega) h
    obtain ⟨s₂, hs₂, h₂⟩ := foldlM_some I n (m + 1) s₁ h₁
      fun i s hi hin => step i s (by omega) (by omega)
    refine ⟨s₂, ?_, by rwa [show m + (n + 1) = m + 1 + n by omega]⟩
    rw [List.range'_succ, List.foldlM_cons, hs₁]
    exact hs₂

/-- Loops whose bodies agree on every turn agree. -/
theorem foldlM_congr {σ : Type*} {f g : σ → Nat → Option σ} :
    ∀ (n m : Nat) (s : σ), (∀ i s, m ≤ i → i < m + n → f s i = g s i) →
      (List.range' m n).foldlM f s = (List.range' m n).foldlM g s
  | 0, _, _, _ => rfl
  | n + 1, m, s, h => by
    rw [List.range'_succ, List.foldlM_cons, List.foldlM_cons, h m s (Nat.le_refl m) (by omega)]
    refine bind_congr fun s' => ?_
    exact foldlM_congr n (m + 1) s' fun i s hi hin => h i s (by omega) (by omega)

/-- **The invariant rule for a loop over a state**, which speaks of the loop's own variables and
of the state together. -/
theorem foldlM_ok {ε σ τ : Type} {f : τ → Nat → EStateM ε σ τ} (I : Nat → τ → σ → Prop) :
    ∀ (n m : Nat) (t : τ) (s : σ), I m t s →
      (∀ i t s, m ≤ i → i < m + n → I i t s → ∃ t' s', f t i s = .ok t' s' ∧ I (i + 1) t' s') →
      ∃ t' s', (List.range' m n).foldlM f t s = .ok t' s' ∧ I (m + n) t' s'
  | 0, _, t, s, h, _ => ⟨t, s, rfl, h⟩
  | n + 1, m, t, s, h, step => by
    obtain ⟨t₁, s₁, hs₁, h₁⟩ := step m t s (Nat.le_refl m) (by omega) h
    obtain ⟨t₂, s₂, hs₂, h₂⟩ := foldlM_ok I n (m + 1) t₁ s₁ h₁
      fun i t s hi hin => step i t s (by omega) (by omega)
    refine ⟨t₂, s₂, ?_, by rwa [show m + (n + 1) = m + 1 + n by omega]⟩
    rw [List.range'_succ, List.foldlM_cons]
    change EStateM.bind (f t m) _ s = _
    rw [EStateM.bind, hs₁]
    exact hs₂

/-- Loops whose turns do nothing. -/
theorem foldlM_idle {σ ι : Type*} {body : σ → ι → Option σ} (h : ∀ s x, body s x = some s)
    (l : List ι) (s : σ) : l.foldlM body s = some s := by
  induction l with
  | nil => rfl
  | cons x l ih =>
    rw [List.foldlM_cons, h]
    exact ih

/-- What every turn keeps is kept by the loop. -/
theorem foldlM_keeps {σ ι ρ : Type*} {body : σ → ι → Option σ} (f : σ → ρ)
    (h : ∀ s x s', body s x = some s' → f s' = f s) {l : List ι} {s s' : σ}
    (hrun : l.foldlM body s = some s') : f s' = f s := by
  induction l generalizing s with
  | nil => rw [Option.some.inj hrun]
  | cons x l ih =>
    rw [List.foldlM_cons] at hrun
    obtain ⟨s₁, hfirst, hrest⟩ := Option.bind_eq_some_iff.mp hrun
    rw [ih hrest, h s x s₁ hfirst]

/-- A loop with a turn that fails. -/
theorem foldlM_eq_none {σ ι : Type*} (body : σ → ι → Option σ) {l : List ι} {x : ι} (hx : x ∈ l)
    (h : ∀ s, body s x = none) (s : σ) : l.foldlM body s = none := by
  induction l generalizing s with
  | nil => cases hx
  | cons y l ih =>
    rw [List.foldlM_cons]
    rcases List.mem_cons.mp hx with rfl | hx
    · rw [h]
      rfl
    · cases hy : body s y with
      | none => rfl
      | some s' => exact ih hx s'

theorem foldlM_range_congr {σ : Type*} {f g : σ → Nat → Option σ} {n : Nat} (s : σ)
    (h : ∀ i < n, ∀ s, f s i = g s i) :
    (List.range n).foldlM f s = (List.range n).foldlM g s := by
  rw [List.range_eq_range']
  exact foldlM_congr n 0 s fun i s _ hi => h i (by omega) s

/-- A loop and its last turn. -/
theorem foldlM_range_succ {σ : Type*} (f : σ → Nat → Option σ) (s : σ) (n : Nat) :
    (List.range (n + 1)).foldlM f s = ((List.range n).foldlM f s).bind fun s => f s n := by
  rw [List.range_succ, List.foldlM_append]
  refine Option.bind_congr fun s' _ => ?_
  rw [List.foldlM_cons]
  cases f s' n <;> rfl

/-- **Running variables.**  If every turn `i` begins with the values `place i`, the loop is one
without them. -/
theorem foldlM_running {σ τ : Type*} (body : σ × τ → Nat → Option (σ × τ))
    (f : σ → Nat → Option σ) (place : Nat → τ) {n : Nat}
    (h : ∀ i < n, ∀ s, body (s, place i) i = (f s i).map (·, place (i + 1))) (s : σ) :
    (List.range n).foldlM body (s, place 0)
      = ((List.range n).foldlM f s).map (·, place n) := by
  induction n with
  | zero => rfl
  | succ n ih =>
    rw [foldlM_range_succ, foldlM_range_succ, ih fun i hi => h i (by omega)]
    cases (List.range n).foldlM f s with
    | none => rfl
    | some s' => exact h n (Nat.lt_succ_self n) s'

/-- **Two loops are one.** -/
theorem foldlM_range_mul {σ : Type*} (f : σ → Nat → Nat → Option σ) (s : σ) (m n : Nat) :
    (List.range m).foldlM (fun s i => (List.range n).foldlM (fun s j => f s i j) s) s
      = (List.range (m * n)).foldlM (fun s k => f s (k / n) (k % n)) s := by
  rcases Nat.eq_zero_or_pos n with rfl | hn
  · exact foldlM_idle (fun _ _ => rfl) _ s
  induction m generalizing s with
  | zero =>
    rw [Nat.zero_mul]
    rfl
  | succ m ih =>
    rw [foldlM_range_succ, ih, Nat.succ_mul, List.range_add, List.foldlM_append]
    refine Option.bind_congr fun s' _ => ?_
    rw [List.foldlM_map]
    refine foldlM_range_congr s' fun j hj s'' => ?_
    rw [Nat.mul_add_mod_of_lt hj, Nat.mul_comm, Nat.mul_add_div hn, Nat.div_eq_of_lt hj,
      Nat.add_zero]

/-- What every turn keeps is kept by the loop. -/
theorem foldlM_preserves {σ ι : Type*} {f : σ → ι → Option σ} {P : σ → Prop} :
    ∀ (l : List ι) {s s' : σ}, (∀ x ∈ l, ∀ s s', P s → f s x = some s' → P s') → P s →
      l.foldlM f s = some s' → P s'
  | [], _, _, _, hs, hrun => Option.some.inj hrun ▸ hs
  | x :: l, s, s', h, hs, hrun => by
    rw [List.foldlM_cons] at hrun
    obtain ⟨s₁, hs₁, hrest⟩ := Option.bind_eq_some_iff.mp hrun
    refine foldlM_preserves l (fun y hy => h y (List.mem_cons_of_mem x hy)) ?_ hrest
    exact h x List.mem_cons_self s s₁ hs hs₁

/-- If a loop ends normally, every turn of it has been taken. -/
theorem foldlM_turn {σ ι : Type*} {f : σ → ι → Option σ} {P : σ → Prop} :
    ∀ {l : List ι} {s s' : σ}, (∀ x ∈ l, ∀ s s', P s → f s x = some s' → P s') → P s →
      l.foldlM f s = some s' → ∀ x ∈ l, ∃ t t', P t ∧ f t x = some t'
  | y :: l, s, s', h, hs, hrun, x, hx => by
    rw [List.foldlM_cons] at hrun
    obtain ⟨s₁, hs₁, hrest⟩ := Option.bind_eq_some_iff.mp hrun
    rcases List.mem_cons.mp hx with rfl | hx
    · exact ⟨s, s₁, hs, hs₁⟩
    · have hs₁ : P s₁ := h y List.mem_cons_self s s₁ hs hs₁
      exact foldlM_turn (fun z hz => h z (List.mem_cons_of_mem y hz)) hs₁ hrest x hx

end Lib.Loop
