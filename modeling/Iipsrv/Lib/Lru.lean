/-
# Least-recently-used lists with weights

A list of entries, most recently used first.  Each entry has a key and a weight, and the list
may hold at most a given total weight.  Four operations are enough for a cache:

* `remove`: drop the entries with a key;
* `touch`: move the entry with a key to the front, the others keeping their order;
* `fit`: keep the longest prefix whose total weight is at most a bound;
* `put`: put a new entry in front of the others and `fit` the result.

`fit` is defined from the front.  An implementation usually evicts from the BACK, one entry at
a time, until the rest is light enough; `fit_eq_self` and `fit_concat` are the two steps of
that loop, so an eviction loop refines `fit` by induction on its iterations.
-/
import Mathlib.Data.List.Basic
import Mathlib.Data.List.Infix
import Mathlib.Algebra.BigOperators.Group.List.Basic
import Mathlib.Tactic

namespace Lib.Lru

variable {ε κ : Type} [DecidableEq κ]

/-! ## 1. Weights and longest fitting prefixes -/

/-- The total weight of a list of entries. -/
def total (weight : ε → Nat) (l : List ε) : Nat := (l.map weight).sum

@[simp] theorem total_nil (weight : ε → Nat) : total weight [] = 0 := rfl

@[simp] theorem total_cons (weight : ε → Nat) (e : ε) (l : List ε) :
    total weight (e :: l) = weight e + total weight l := by simp [total]

@[simp] theorem total_append (weight : ε → Nat) (l m : List ε) :
    total weight (l ++ m) = total weight l + total weight m := by simp [total]

/-- An entry weighs no more than a list that holds it. -/
theorem weight_le_total (weight : ε → Nat) {e : ε} {l : List ε} (h : e ∈ l) :
    weight e ≤ total weight l := by
  obtain ⟨pre, post, rfl⟩ := List.append_of_mem h
  simp only [total_append, total_cons]
  omega

/-- The longest prefix of total weight at most `max`, computed from the front. -/
def fit (weight : ε → Nat) : Nat → List ε → List ε
  | _, [] => []
  | max, e :: l => if weight e ≤ max then e :: fit weight (max - weight e) l else []

/-- `p` is the longest prefix of `l` of total weight at most `max`. -/
structure IsLongestFit (weight : ε → Nat) (max : Nat) (l p : List ε) : Prop where
  isPrefix : p <+: l
  total_le : total weight p ≤ max
  longest : ∀ q, q <+: l → total weight q ≤ max → q <+: p

theorem fit_isLongestFit (weight : ε → Nat) :
    ∀ (max : Nat) (l : List ε), IsLongestFit weight max l (fit weight max l)
  | max, [] => ⟨List.nil_prefix, Nat.zero_le _, fun q hq _ => by simpa [fit] using hq⟩
  | max, e :: l => by
    have ih := fit_isLongestFit weight (max - weight e) l
    by_cases he : weight e ≤ max
    · rw [fit, if_pos he]
      refine ⟨(List.prefix_cons_inj e).mpr ih.isPrefix, ?_, ?_⟩
      · have := ih.total_le
        simp only [total_cons]
        omega
      · intro q hq hw
        cases q with
        | nil => exact List.nil_prefix
        | cons a q =>
          obtain ⟨rfl, hq'⟩ := List.cons_prefix_cons.mp hq
          simp only [total_cons] at hw
          exact (List.prefix_cons_inj a).mpr (ih.longest q hq' (by omega))
    · rw [fit, if_neg he]
      refine ⟨List.nil_prefix, Nat.zero_le _, ?_⟩
      intro q hq hw
      cases q with
      | nil => exact List.nil_prefix
      | cons a q =>
        obtain ⟨rfl, -⟩ := List.cons_prefix_cons.mp hq
        simp only [total_cons] at hw
        omega

/-- **The eviction loop stops.**  A list that is light enough is its own longest fit. -/
theorem fit_eq_self {weight : ε → Nat} :
    ∀ {max : Nat} {l : List ε}, total weight l ≤ max → fit weight max l = l
  | _, [], _ => rfl
  | max, e :: l, h => by
    simp only [total_cons] at h
    rw [fit, if_pos (by omega), fit_eq_self (by omega)]

/-- **The eviction loop steps.**  Dropping the last entry of a list that is too heavy does not
change its longest fit. -/
theorem fit_concat {weight : ε → Nat} :
    ∀ {max : Nat} {l : List ε} {e : ε}, max < total weight (l ++ [e]) →
      fit weight max (l ++ [e]) = fit weight max l
  | max, [], e, h => by
    simp only [List.nil_append, total_cons, total_nil, Nat.add_zero] at h
    simp only [List.nil_append, fit]
    rw [if_neg (by omega)]
  | max, a :: l, e, h => by
    simp only [List.cons_append, total_cons] at h
    simp only [List.cons_append, fit]
    by_cases ha : weight a ≤ max
    · rw [if_pos ha, if_pos ha, fit_concat (by omega)]
    · rw [if_neg ha, if_neg ha]

/-- Entries that each weigh more than nothing do not fit into no room. -/
theorem fit_zero {weight : ε → Nat} (hpos : ∀ e, 0 < weight e) (l : List ε) :
    fit weight 0 l = [] := by
  cases l with
  | nil => rfl
  | cons e l =>
    have := hpos e
    rw [fit, if_neg (by omega)]

/-! ## 2. Removing and touching a key -/

/-- The entries whose key is not `k`. -/
def remove (key : ε → κ) (k : κ) (l : List ε) : List ε := l.filter (fun e => key e ≠ k)

/-- The entry with key `k`, if there is one. -/
def lookup (key : ε → κ) (k : κ) (l : List ε) : Option ε := l.find? (fun e => key e = k)

/-- Move the entry with key `k` to the front. -/
def touch (key : ε → κ) (k : κ) (l : List ε) : List ε :=
  match lookup key k l with
  | some e => e :: remove key k l
  | none => l

/-- Put a new entry in front of the entries with other keys, and keep what fits. -/
def put (key : ε → κ) (weight : ε → Nat) (max : Nat) (e : ε) (l : List ε) : List ε :=
  fit weight max (e :: remove key (key e) l)

variable {key : ε → κ} {k : κ} {l : List ε} {e : ε}

theorem mem_remove : e ∈ remove key k l ↔ e ∈ l ∧ key e ≠ k := by
  simp [remove]

/-- Removing an absent key changes nothing. -/
theorem remove_eq_self (h : ∀ e ∈ l, key e ≠ k) : remove key k l = l := by
  simp only [remove]
  exact List.filter_eq_self.mpr (fun e he => by simpa using h e he)

theorem lookup_eq_none : lookup key k l = none ↔ ∀ e ∈ l, key e ≠ k := by
  simp [lookup]

theorem lookup_mem (h : lookup key k l = some e) : e ∈ l ∧ key e = k := by
  refine ⟨List.mem_of_find?_eq_some h, ?_⟩
  simpa using List.find?_some h

/-- With distinct keys, an entry of the list is the one its key finds. -/
theorem lookup_eq_some (hnd : (l.map key).Nodup) (he : e ∈ l) : lookup key (key e) l = some e := by
  cases hl : lookup key (key e) l with
  | none => exact absurd rfl (lookup_eq_none.mp hl e he)
  | some a =>
    obtain ⟨ha, hk⟩ := lookup_mem hl
    rw [List.inj_on_of_nodup_map hnd ha he hk]

/-- **Touching reorders.**  With distinct keys the entry found moves to the front and the
others keep their order. -/
theorem touch_eq_of_split {pre post : List ε} (hnd : (l.map key).Nodup)
    (hl : l = pre ++ e :: post) (hk : key e = k) : touch key k l = e :: (pre ++ post) := by
  have he : e ∈ l := by simp [hl]
  have hfind : lookup key k l = some e := hk ▸ lookup_eq_some hnd he
  have hne : ∀ a ∈ pre ++ post, key a ≠ k := by
    intro a ha hak
    rw [hl] at hnd
    have hperm : (pre ++ e :: post).Perm (e :: (pre ++ post)) := List.perm_middle
    have hnd' := (hperm.map key).nodup_iff.mp hnd
    rw [List.map_cons, List.nodup_cons] at hnd'
    exact hnd'.1 (List.mem_map.mpr ⟨a, ha, hak.trans hk.symm⟩)
  have hrem : remove key k l = pre ++ post := by
    have hpost : remove key k (e :: post) = remove key k post := by simp [remove, hk]
    calc remove key k l = remove key k pre ++ remove key k (e :: post) := by
          rw [hl]; exact List.filter_append ..
      _ = remove key k pre ++ remove key k post := by rw [hpost]
      _ = remove key k (pre ++ post) := (List.filter_append ..).symm
      _ = pre ++ post := remove_eq_self hne
  rw [touch, hfind, hrem]

theorem touch_eq_self (h : lookup key k l = none) : touch key k l = l := by
  rw [touch, h]

theorem touch_of_lookup (h : lookup key k l = some e) : touch key k l = e :: remove key k l := by
  rw [touch, h]

/-- Touching a key does not change what it finds. -/
theorem lookup_touch : lookup key k (touch key k l) = lookup key k l := by
  cases hl : lookup key k l with
  | none => rw [touch_eq_self hl, hl]
  | some e =>
    rw [touch_of_lookup hl]
    simp [lookup, (lookup_mem hl).2]

/-- Removing a key after touching it is removing it. -/
theorem remove_touch : remove key k (touch key k l) = remove key k l := by
  cases hl : lookup key k l with
  | none => rw [touch_eq_self hl]
  | some e =>
    rw [touch_of_lookup hl]
    simp [remove, (lookup_mem hl).2]

/-- With distinct keys, removing a key takes away exactly the weight of its entry. -/
theorem total_remove (weight : ε → Nat) (hnd : (l.map key).Nodup) (he : e ∈ l) :
    weight e + total weight (remove key (key e) l) = total weight l := by
  obtain ⟨pre, post, hl⟩ := List.append_of_mem he
  have htouch := touch_eq_of_split hnd hl rfl
  rw [touch_of_lookup (lookup_eq_some hnd he), List.cons.injEq] at htouch
  rw [htouch.2, hl]
  simp only [total_append, total_cons]
  omega

/-- Touching a key changes no total. -/
theorem total_touch {weight : ε → Nat} (hnd : (l.map key).Nodup) :
    total weight (touch key k l) = total weight l := by
  cases hl : lookup key k l with
  | none => rw [touch_eq_self hl]
  | some a =>
    obtain ⟨ha, rfl⟩ := lookup_mem hl
    rw [touch_of_lookup hl, total_cons, total_remove weight hnd ha]

end Lib.Lru
