/-
# Lists of steps

A list of steps is carried out from the left, each step a function of the state.  `run` is the
state at the end.  `Along` says that a condition holds at EVERY step, of the step and the state it
starts from.  `Triple` puts both together: from `A` the condition holds along the list, and `B` at
its end.  A loop that is left at the first element that fails a test takes the steps of `takeWhile`.
-/
import Mathlib.Data.List.Basic

namespace Lib.Steps

variable {α σ : Type*} {step : α → σ → σ}

/-! ## 1. Runs -/

/-- The state behind the last step. -/
def run (step : α → σ → σ) (l : List α) (s : σ) : σ := l.foldl (fun s a => step a s) s

@[simp] theorem run_nil (s : σ) : run step [] s = s := rfl

@[simp] theorem run_cons (a : α) (l : List α) (s : σ) :
    run step (a :: l) s = run step l (step a s) := rfl

@[simp] theorem run_append (l l' : List α) (s : σ) :
    run step (l ++ l') s = run step l' (run step l s) :=
  List.foldl_append

/-- The condition holds at every step. -/
def Along (step : α → σ → σ) (P : α → σ → Prop) : List α → σ → Prop
  | [], _ => True
  | a :: l, s => P a s ∧ Along step P l (step a s)

variable {P K : α → σ → Prop} {I A B C : σ → Prop}

@[simp] theorem along_nil (s : σ) : Along step P [] s := trivial

@[simp] theorem along_cons (a : α) (l : List α) (s : σ) :
    Along step P (a :: l) s ↔ P a s ∧ Along step P l (step a s) := Iff.rfl

@[simp] theorem along_append (l l' : List α) (s : σ) :
    Along step P (l ++ l') s ↔ Along step P l s ∧ Along step P l' (run step l s) := by
  induction l generalizing s with
  | nil => simp
  | cons a l ih => simp [ih, and_assoc]

instance decidableAlong [∀ a s, Decidable (P a s)] : ∀ l s, Decidable (Along step P l s)
  | [], _ => .isTrue trivial
  | a :: l, s =>
    have := decidableAlong l (step a s)
    inferInstanceAs (Decidable (_ ∧ _))

/-- **The exact rule for an invariant.**  If a step that is allowed keeps the invariant exactly
under `K`, the invariant holds after every step of a run exactly if `K` holds at every step. -/
theorem along_invariant_iff (hstep : ∀ a s, I s → P a s → (I (step a s) ↔ K a s)) {l : List α}
    {s : σ} (hI : I s) (hP : Along step P l s) :
    Along step (fun a s => I (step a s)) l s ↔ Along step K l s := by
  induction l generalizing s with
  | nil => simp
  | cons a l ih =>
    have hone := hstep a s hI hP.1
    constructor
    · rintro ⟨hnext, hrest⟩
      exact ⟨hone.1 hnext, (ih hnext hP.2).1 hrest⟩
    · rintro ⟨hkeep, hrest⟩
      exact ⟨hone.2 hkeep, (ih (hone.2 hkeep) hP.2).2 hrest⟩

/-! ## 2. Pre- and postconditions -/

/-- From `A`, the condition holds along the list, and `B` at its end. -/
def Triple (step : α → σ → σ) (P : α → σ → Prop) (A : σ → Prop) (l : List α) (B : σ → Prop) :
    Prop :=
  ∀ s, A s → Along step P l s ∧ B (run step l s)

namespace Triple

theorem nil (h : ∀ s, A s → B s) : Triple step P A [] B := fun s hs => ⟨trivial, h s hs⟩

theorem single {a : α} (h : ∀ s, A s → P a s ∧ B (step a s)) : Triple step P A [a] B :=
  fun s hs => ⟨⟨(h s hs).1, trivial⟩, (h s hs).2⟩

theorem append {l l' : List α} (h : Triple step P A l B) (h' : Triple step P B l' C) :
    Triple step P A (l ++ l') C := by
  intro s hs
  obtain ⟨halong, hmid⟩ := h s hs
  obtain ⟨halong', hend⟩ := h' _ hmid
  exact ⟨(along_append l l' s).2 ⟨halong, halong'⟩, by simpa using hend⟩

/-- Steps that all keep `A` keep it together. -/
theorem of_forall {l : List α} (h : ∀ a ∈ l, ∀ s, A s → P a s ∧ A (step a s)) :
    Triple step P A l A := by
  induction l with
  | nil => exact nil fun _ hs => hs
  | cons a l ih =>
    intro s hs
    obtain ⟨hP, hA⟩ := h a List.mem_cons_self s hs
    obtain ⟨halong, hend⟩ := ih (fun b hb => h b (List.mem_cons_of_mem a hb)) _ hA
    exact ⟨⟨hP, halong⟩, hend⟩

end Triple

/-! ## 3. Loops that are left -/

/-- **What `takeWhile` keeps**: an element that the condition holds for, and for all in front of
it. -/
theorem mem_takeWhile_iff {p : α → Bool} {l : List α} {a : α} :
    a ∈ l.takeWhile p ↔ ∃ front back, l = front ++ a :: back ∧ ∀ b ∈ front ++ [a], p b := by
  induction l with
  | nil => simp
  | cons b l ih =>
    by_cases hb : p b
    · rw [List.takeWhile_cons_of_pos hb, List.mem_cons, ih]
      constructor
      · rintro (rfl | ⟨front, back, rfl, hfront⟩)
        · exact ⟨[], l, rfl, by simpa using hb⟩
        · exact ⟨b :: front, back, rfl, List.forall_mem_cons.mpr ⟨hb, hfront⟩⟩
      · rintro ⟨_ | ⟨c, front⟩, back, hl, hfront⟩
        · exact Or.inl (List.cons.inj hl).1.symm
        · obtain ⟨rfl, rfl⟩ := List.cons.inj hl
          exact Or.inr ⟨front, back, rfl, (List.forall_mem_cons.mp hfront).2⟩
    · rw [List.takeWhile_cons_of_neg hb]
      refine iff_of_false List.not_mem_nil ?_
      rintro ⟨_ | ⟨c, front⟩, back, hl, hfront⟩
      · obtain ⟨rfl, -⟩ := List.cons.inj hl
        exact hb (hfront b List.mem_cons_self)
      · obtain ⟨rfl, -⟩ := List.cons.inj hl
        exact hb (hfront b List.mem_cons_self)

end Lib.Steps
