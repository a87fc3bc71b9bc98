/-
# Loops that need not end

A `while` loop is its turn: a function that goes on with another state or leaves the loop with a
result.  `Ends` says that the loop ends and what with, so a loop that runs for ever has no result
at all, and `iterate` carries out a number of turns.

* `ends_of_variant`: the rule for total correctness, by an invariant and a variant;
* `not_ends`: a loop that always goes on does not end.

The library names nothing of the server.
-/
import Mathlib.Init

namespace Lib.While

/-- What a turn comes to. -/
inductive Turn (σ ρ : Type*)
  | next (s : σ)
  | leave (r : ρ)

variable {σ ρ : Type*} {turn : σ → Turn σ ρ} {s : σ} {r r' : ρ}

/-- From the state `s` the loop ends, with the result `r`. -/
inductive Ends (turn : σ → Turn σ ρ) : σ → ρ → Prop
  | leave {s : σ} {r : ρ} (h : turn s = .leave r) : Ends turn s r
  | next {s s' : σ} {r : ρ} (h : turn s = .next s') (hrest : Ends turn s' r) : Ends turn s r

/-- A number of turns. -/
def iterate (turn : σ → Turn σ ρ) : Nat → σ → Option ρ
  | 0, _ => none
  | n + 1, s =>
    match turn s with
    | .next s' => iterate turn n s'
    | .leave r => some r

/-- A loop has one result. -/
theorem Ends.unique (h : Ends turn s r) (h' : Ends turn s r') : r = r' := by
  induction h with
  | leave h =>
    cases h' with
    | leave h' =>
      rw [h] at h'
      cases h'
      rfl
    | next h' _ =>
      rw [h] at h'
      cases h'
  | next h _ ih =>
    cases h' with
    | leave h' =>
      rw [h] at h'
      cases h'
    | next h' hrest' =>
      rw [h] at h'
      cases h'
      exact ih hrest'

/-- What a number of turns comes to is what the loop ends with. -/
theorem Ends.of_iterate {n : Nat} (h : iterate turn n s = some r) : Ends turn s r := by
  induction n generalizing s with
  | zero => cases h
  | succ n ih =>
    rw [iterate] at h
    split at h
    case h_1 s' hturn => exact .next hturn (ih h)
    case h_2 r' hturn =>
      cases h
      exact .leave hturn

/-- **The rule for total correctness.**  Every turn leaves the loop with a result that is right,
or keeps the invariant and makes the variant smaller. -/
theorem ends_of_variant {Q : ρ → Prop} (I : σ → Prop) (variant : σ → Nat)
    (hturn : ∀ s, I s → (∃ r, turn s = .leave r ∧ Q r) ∨
      ∃ s', turn s = .next s' ∧ I s' ∧ variant s' < variant s) (h : I s) :
    ∃ r, Ends turn s r ∧ Q r := by
  induction hn : variant s using Nat.strongRecOn generalizing s with
  | ind n ih =>
    rcases hturn s h with ⟨r, hleave, hr⟩ | ⟨s', hnext, hs', hlt⟩
    · exact ⟨r, .leave hleave, hr⟩
    · obtain ⟨r, hends, hr⟩ := ih (variant s') (hn ▸ hlt) hs' rfl
      exact ⟨r, .next hnext hends, hr⟩

/-- **A loop that always goes on does not end.** -/
theorem not_ends (I : σ → Prop) (hturn : ∀ s, I s → ∃ s', turn s = .next s' ∧ I s') (h : I s) :
    ¬ Ends turn s r := by
  intro hends
  induction hends with
  | leave hleave =>
    obtain ⟨s', hnext, -⟩ := hturn _ h
    rw [hleave] at hnext
    cases hnext
  | next hfirst _ ih =>
    obtain ⟨s', hnext, hs'⟩ := hturn _ h
    rw [hfirst] at hnext
    cases hnext
    exact ih hs'

end Lib.While
