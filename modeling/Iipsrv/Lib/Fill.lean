/-
# Filling a block from front to back

Loops of the form `buffer[n++] = value`: a block and a running place in it.  `Writes m vals` says
that a computation `m` writes the values `vals` one after the other, wherever it starts, as long as
there is room.  Single stores write one value, and a loop writes what its turns write, in their
order; so what nested loops write is read off their bodies.

`foldlM_rows` is for a loop whose turns begin at a place of their own, each where the one before
has ended.  `foldlM_pointwise` is for a loop over places in any order, each of which looks at
nothing but the cell it is about to write.
-/
import Iipsrv.Lib.Buffer
import Iipsrv.Lib.Loop

namespace Lib.Fill

open Lib.Buffer Lib.Loop

variable {α ι : Type*}

/-! ## 1. Writing over a block -/

/-- The block with `vals` written over it from place `n` on. -/
def splice (dst : List α) (n : Nat) (vals : List α) : List α :=
  dst.take n ++ vals ++ dst.drop (n + vals.length)

theorem splice_nil (dst : List α) (n : Nat) : splice dst n [] = dst := by
  simp [splice]

theorem length_splice {dst vals : List α} {n : Nat} (h : n + vals.length ≤ dst.length) :
    (splice dst n vals).length = dst.length := by
  unfold splice
  simp only [List.length_append, List.length_take, List.length_drop]
  omega

/-- A block that is written over from front to end. -/
theorem splice_all {dst vals : List α} (h : vals.length = dst.length) :
    splice dst 0 vals = vals := by
  unfold splice
  rw [List.drop_eq_nil_of_le (by omega)]
  simp

/-- Writing on where the last writing has ended. -/
theorem splice_splice {dst u v : List α} {n : Nat} (h : n + u.length ≤ dst.length) :
    splice (splice dst n u) (n + u.length) v = splice dst n (u ++ v) := by
  have hfront : (dst.take n ++ u).length = n + u.length := by
    rw [List.length_append, List.length_take]
    omega
  have htake : (splice dst n u).take (n + u.length) = dst.take n ++ u := by
    unfold splice
    rw [← hfront, List.take_left]
  have hdrop : (splice dst n u).drop (n + u.length + v.length)
      = dst.drop (n + (u ++ v).length) := by
    unfold splice
    rw [← hfront, List.drop_append, List.drop_eq_nil_of_le (by omega), hfront, List.nil_append,
      List.drop_drop, List.length_append]
    congr 1
    omega
  rw [splice, htake, hdrop, splice, ← List.append_assoc]

theorem splice_singleton {dst : List α} {n : Nat} (a : α) (h : n < dst.length) :
    splice dst n [a] = dst.set n a := by
  rw [List.set_eq_take_append_cons_drop, if_pos h]
  simp [splice]

/-! ## 2. Computations that write -/

/-- `buffer[n++] = a`, for a value that may not be there to be read. -/
def push (a : Option α) (st : List α × Nat) : Option (List α × Nat) :=
  a.bind fun a => (store st.1 st.2 a).map fun dst => (dst, st.2 + 1)

/-- The computation writes these values from the running place on. -/
def Writes (m : List α × Nat → Option (List α × Nat)) (vals : List α) : Prop :=
  ∀ dst n, n + vals.length ≤ dst.length →
    m (dst, n) = some (splice dst n vals, n + vals.length)

theorem writes_push (a : α) : Writes (push (some a)) [a] := by
  intro dst n h
  have hlt : n < dst.length := by
    rw [List.length_singleton] at h
    omega
  simp only [push, Option.bind_some, store_of_lt a hlt, Option.map_some, splice_singleton a hlt,
    List.length_singleton]

/-- A block of the right length holds them afterwards, and nothing else. -/
theorem Writes.fills {m : List α × Nat → Option (List α × Nat)} {vals dst : List α}
    (h : Writes m vals) (hlen : vals.length = dst.length) :
    (m (dst, 0)).map Prod.fst = some vals := by
  rw [h dst 0 (by omega), Option.map_some, splice_all hlen]

/-- **A loop writes what its turns write.** -/
theorem writes_foldlM {body : List α × Nat → ι → Option (List α × Nat)} {f : ι → List α}
    {l : List ι} (h : ∀ x ∈ l, Writes (body · x) (f x)) :
    Writes (fun st => l.foldlM body st) (l.flatMap f) := by
  induction l with
  | nil =>
    intro dst n _
    simp [splice_nil]
  | cons x l ih =>
    intro dst n hfit
    rw [List.flatMap_cons, List.length_append] at hfit
    have hx : body (dst, n) x = _ := h x List.mem_cons_self dst n (by omega)
    have hl := ih fun y hy => h y (List.mem_cons_of_mem x hy)
    have hrun : (x :: l).foldlM body (dst, n)
        = l.foldlM body (splice dst n (f x), n + (f x).length) := by
      rw [List.foldlM_cons, hx]
      rfl
    refine (hrun.trans (hl (splice dst n (f x)) (n + (f x).length) ?_)).trans ?_
    · rw [length_splice (by omega)]
      omega
    · rw [splice_splice (by omega), List.flatMap_cons, List.length_append, Nat.add_assoc]

/-- **A loop over rows.**  Every turn begins at a place of its own, where the turn before has
ended. -/
theorem foldlM_rows {row : ι → List α × Nat → Option (List α × Nat)} {f : ι → List α}
    (start : ι → Nat) (dst : List α) {k : Nat} :
    ∀ {l : List ι} {m : Nat} (vals : List α), (∀ x ∈ l, Writes (row x) (f x)) →
      (∀ x ∈ l, (f x).length = k) → (∀ i x, l[i]? = some x → start x = (m + i) * k) →
      vals.length = m * k → (m + l.length) * k ≤ dst.length →
      l.foldlM (fun dst x => (row x (dst, start x)).map Prod.fst) (splice dst 0 vals)
        = some (splice dst 0 (vals ++ l.flatMap f))
  | [], _, vals, _, _, _, _, _ => by simp
  | x :: l, m, vals, hrow, hlen, hstart, hvals, hfit => by
    have hx := hlen x List.mem_cons_self
    rw [List.length_cons] at hfit
    have hroom : (m + 1) * k ≤ dst.length :=
      Nat.le_trans (Nat.mul_le_mul_right k (by omega)) hfit
    rw [Nat.succ_mul] at hroom
    have hbegin : start x = 0 + vals.length := by
      rw [hstart 0 x rfl, Nat.add_zero, hvals, Nat.zero_add]
    have hone : (row x (splice dst 0 vals, start x)).map Prod.fst
        = some (splice dst 0 (vals ++ f x)) := by
      rw [hbegin, hrow x List.mem_cons_self _ _ (by rw [length_splice (by omega)]; omega),
        Option.map_some, splice_splice (by omega)]
    rw [List.foldlM_cons, hone]
    refine (foldlM_rows start dst (l := l) (m := m + 1) _
      (fun y hy => hrow y (List.mem_cons_of_mem x hy))
      (fun y hy => hlen y (List.mem_cons_of_mem x hy)) (fun i y hy => ?_) ?_ ?_).trans ?_
    · rw [hstart (i + 1) y hy]
      congr 1
      omega
    · rw [List.length_append, hx, hvals, Nat.succ_mul]
    · rwa [Nat.add_right_comm, Nat.add_assoc]
    · rw [List.flatMap_cons, List.append_assoc]

/-! ## 3. Cell by cell -/

/-- `for( k=0; k<n; k++ ) buffer[k] = g(k)`, over a fresh block. -/
def tabulate (n : Nat) (g : Nat → Option α) : Option (List (Option α)) :=
  (List.range n).foldlM (fun buffer k => (g k).bind fun a => store buffer k (some a)) (fresh n)

/-- **A loop over places, none of them twice.**  If a turn only depends on the cell it is about to
write, it finds that cell as it was at the beginning. -/
theorem foldlM_pointwise (body : List α → Nat → Option (List α)) (g : Nat → α) (buffer : List α)
    {l : List Nat} (hnodup : l.Nodup) (hbody : ∀ b, ∀ n ∈ l, b.length = buffer.length →
      b[n]? = buffer[n]? → n < buffer.length ∧ body b n = some (b.set n (g n))) :
    ∃ out, l.foldlM body buffer = some out ∧ out.length = buffer.length ∧
      ∀ n, out[n]? = if n ∈ l then some (g n) else buffer[n]? := by
  induction l generalizing buffer with
  | nil => exact ⟨buffer, rfl, rfl, fun n => rfl⟩
  | cons m l ih =>
    obtain ⟨hm, hnodup⟩ := List.nodup_cons.mp hnodup
    obtain ⟨hlt, hfirst⟩ := hbody buffer m List.mem_cons_self rfl rfl
    -- the cells of the other turns have not changed
    have hothers : ∀ n ∈ l, (buffer.set m (g m))[n]? = buffer[n]? := by
      intro n hn
      have hne : m ≠ n := by
        rintro rfl
        exact hm hn
      exact List.getElem?_set_ne hne
    obtain ⟨out, hout, hlen, hcell⟩ := ih (buffer.set m (g m)) hnodup fun b n hn hb hbn => by
      rw [List.length_set] at hb ⊢
      exact hbody b n (List.mem_cons_of_mem m hn) hb (hbn.trans (hothers n hn))
    refine ⟨out, ?_, hlen.trans List.length_set, fun n => ?_⟩
    · rw [List.foldlM_cons, hfirst]
      exact hout
    · rw [hcell n]
      by_cases hn : n ∈ l
      · rw [if_pos hn, if_pos (List.mem_cons_of_mem m hn)]
      · rw [if_neg hn]
        by_cases hnm : n = m
        · subst hnm
          rw [if_pos List.mem_cons_self, List.getElem?_set_self hlt]
        · rw [if_neg fun h => (List.mem_cons.mp h).elim hnm hn,
            List.getElem?_set_ne (Ne.symm hnm)]

/-- **A loop that replaces the cells one by one.**  It goes through exactly if every cell can be
replaced. -/
theorem foldlM_replace_iff (f : α → Option α) (block : List α) {n : Nat} (hn : n ≤ block.length)
    {out : List α} :
    (List.range n).foldlM (fun b i => b[i]?.bind fun a => (f a).bind fun a => store b i a) block
        = some out ↔
      ∃ vals : List α, (block.take n).map f = vals.map some ∧ out = vals ++ block.drop n := by
  induction n generalizing out with
  | zero =>
    constructor
    · intro h
      exact ⟨[], rfl, (Option.some.inj h).symm⟩
    · rintro ⟨vals, hvals, rfl⟩
      rw [List.map_eq_nil_iff.mp hvals.symm]
      rfl
  | succ n ih =>
    have hlt : n < block.length := by omega
    -- the turn finds the cell as it was, and replaces it
    have hturn {vals : List α} (hvals : (block.take n).map f = vals.map some) :
        ((vals ++ block.drop n)[n]?.bind fun a =>
            (f a).bind fun a => store (vals ++ block.drop n) n a)
          = (f block[n]).map fun a => vals ++ [a] ++ block.drop (n + 1) := by
      have hlen : vals.length = n := by
        have := congrArg List.length hvals
        simp only [List.length_map, List.length_take] at this
        omega
      rw [List.drop_eq_getElem_cons hlt, List.getElem?_append_right (by omega), hlen,
        Nat.sub_self, List.getElem?_cons_zero, Option.bind_some]
      cases f block[n] with
      | none => rfl
      | some a =>
        rw [Option.bind_some, store_of_lt _ (by simp; omega), Option.map_some,
          List.set_append_right _ _ (by omega), hlen, Nat.sub_self, List.set_cons_zero,
          List.append_assoc]
        rfl
    rw [foldlM_range_succ, List.take_succ_eq_append_getElem hlt, List.map_append]
    constructor
    · intro h
      obtain ⟨b, hb, hlast⟩ := Option.bind_eq_some_iff.mp h
      obtain ⟨vals, hvals, rfl⟩ := (ih (by omega)).mp hb
      rw [hturn hvals, Option.map_eq_some_iff] at hlast
      obtain ⟨a, ha, rfl⟩ := hlast
      exact ⟨vals ++ [a], by simp [hvals, ha], rfl⟩
    · rintro ⟨vals', hvals', rfl⟩
      obtain ⟨vals, last, rfl, hvals, hlast⟩ := List.append_eq_map_iff.mp hvals'
      obtain ⟨a, rfl, ha⟩ : ∃ a, last = [a] ∧ f block[n] = some a := by
        simpa [eq_comm] using hlast
      rw [(ih (by omega)).mpr ⟨vals, hvals.symm, rfl⟩, Option.bind_some, hturn hvals.symm, ha]
      rfl

/-- The same for a whole block, whose cells can be replaced under a condition. -/
theorem foldlM_replace_all_iff {β : Type*} (c : β → α) {f : α → Option α} {g : β → β}
    {P : β → Prop} [DecidablePred P] {xs : List β}
    (hf : ∀ x ∈ xs, f (c x) = if P x then some (c (g x)) else none) {out : List α} :
    (List.range (xs.map c).length).foldlM
        (fun b i => b[i]?.bind fun a => (f a).bind fun a => store b i a) (xs.map c) = some out ↔
      (∀ x ∈ xs, P x) ∧ out = (xs.map g).map c := by
  have hmap (hall : ∀ x ∈ xs, P x) : (xs.map c).map f = ((xs.map g).map c).map some := by
    simp only [List.map_map]
    refine List.map_congr_left fun x hx => ?_
    rw [Function.comp_apply, hf x hx, if_pos (hall x hx)]
    rfl
  rw [foldlM_replace_iff f _ (Nat.le_refl _), List.take_length, List.drop_length]
  constructor
  · rintro ⟨vals, hvals, hout⟩
    have hall : ∀ x ∈ xs, P x := by
      intro x hx
      by_contra hnot
      have hmem : none ∈ vals.map some := by
        rw [← hvals]
        exact List.mem_map.mpr ⟨c x, List.mem_map_of_mem hx, by rw [hf x hx, if_neg hnot]⟩
      simp at hmem
    refine ⟨hall, ?_⟩
    rw [hout, List.append_nil]
    exact List.map_injective_iff.mpr (fun _ _ => Option.some.inj) (hvals.symm.trans (hmap hall))
  · rintro ⟨hall, rfl⟩
    exact ⟨_, hmap hall, (List.append_nil _).symm⟩

/-- Every cell is written. -/
theorem tabulate_eq {n : Nat} {g : Nat → Option α} (h : ∀ k < n, (g k).isSome) :
    tabulate n g = some ((List.range n).map g) := by
  obtain ⟨out, hout, hlen, hcell⟩ := foldlM_pointwise
    (fun buffer k => (g k).bind fun a => store buffer k (some a)) g (fresh n)
    (List.nodup_range (n := n)) fun b k hk hb _ => by
      have hk' := List.mem_range.mp hk
      obtain ⟨a, ha⟩ := Option.isSome_iff_exists.mp (h k hk')
      rw [length_fresh] at hb ⊢
      refine ⟨hk', ?_⟩
      rw [ha]
      exact store_of_lt _ (by omega)
  refine hout.trans (congrArg some (List.ext_getElem? fun k => ?_))
  rw [hcell k, List.getElem?_map]
  by_cases hk : k < n
  · rw [if_pos (List.mem_range.mpr hk), List.getElem?_range hk, Option.map_some]
  · rw [if_neg (mt List.mem_range.mp hk), List.getElem?_eq_none (by rw [length_fresh]; omega),
      List.getElem?_eq_none (by rw [List.length_range]; omega), Option.map_none]

/-- If all cells can be computed, the block holds a value in each of them. -/
theorem exists_tabulate {n : Nat} {g : Nat → Option α} (h : ∀ k < n, (g k).isSome) :
    ∃ vals : List α, vals.length = n ∧ tabulate n g = some (vals.map some) := by
  refine ⟨(List.range n).attach.map fun k => (g k.1).get (h k.1 (List.mem_range.mp k.2)),
    by simp, ?_⟩
  rw [tabulate_eq h, List.map_map]
  simp [Function.comp_def]

/-- **A block can be computed if all its cells can.** -/
theorem tabulate_isSome_iff {n : Nat} {g : Nat → Option α} :
    (tabulate n g).isSome ↔ ∀ k < n, (g k).isSome := by
  constructor
  · intro h k hk
    by_contra hnone
    have hfail := foldlM_eq_none (fun buffer k => (g k).bind fun a => store buffer k (some a))
      (List.mem_range.mpr hk) (fun s => by
        rw [Option.not_isSome_iff_eq_none.mp hnone]
        rfl) (fresh n)
    rw [tabulate, hfail] at h
    cases h
  · intro h
    rw [tabulate_eq h]
    rfl

end Lib.Fill
