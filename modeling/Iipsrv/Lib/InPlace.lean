/-
# Copying within one block

The loop `for( m=0; m<n; m++ ) block[m] = block[q(m)]`, which reads from the block it writes to.  A
turn that reads ahead of the loop finds the cell as it was; one that reads behind it finds what an
earlier turn has put there.  So the value that ends up in cell `m` comes from the cell `origin q m`,
which is found by following `q` as long as it leads backwards.

`origin_eq_iff` says when this is the cell it should be, for all cells at once: whenever `q` leads
backwards, it leads to a cell that is its own image (`Undisturbed`).  If cells move in groups of the
same size, it is enough to look at the groups (`undisturbed_spread_iff`).

The library names nothing of the server.
-/
import Iipsrv.Lib.Raster

namespace Lib.InPlace

open Lib.Buffer Lib.Loop Lib.Raster

variable {α : Type*} {q : Nat → Nat}

/-- `for( m=0; m<n; m++ ) block[m] = block[q(m)]`. -/
def gather (q : Nat → Nat) (block : List α) (n : Nat) : Option (List α) :=
  (List.range n).foldlM (fun b m => b[q m]?.bind fun a => store b m a) block

/-- Where the value comes from that ends up in cell `m`. -/
def origin (q : Nat → Nat) (m : Nat) : Nat := if q m < m then origin q (q m) else q m
termination_by m

theorem origin_of_lt {m : Nat} (h : q m < m) : origin q m = origin q (q m) := by
  rw [origin, if_pos h]

theorem origin_of_le {m : Nat} (h : m ≤ q m) : origin q m = q m := by
  rw [origin, if_neg (by omega)]

/-- **What the loop does.** -/
theorem gather_eq {block : List α} {n : Nat} (hn : n ≤ block.length)
    (hq : ∀ m < n, q m < block.length) :
    ∃ out, gather q block n = some out ∧ out.length = block.length ∧
      ∀ m, out[m]? = if m < n then block[origin q m]? else block[m]? := by
  induction n with
  | zero => exact ⟨block, rfl, rfl, fun m => by rw [if_neg (by omega)]⟩
  | succ n ih =>
    obtain ⟨out, hout, hlen, hcell⟩ := ih (by omega) fun m hm => hq m (by omega)
    -- the turn finds the value it is to find
    have hread : out[q n]? = block[origin q n]? := by
      rw [hcell (q n)]
      rcases Nat.lt_or_ge (q n) n with hback | hahead
      · rw [if_pos hback, origin_of_lt hback]
      · rw [if_neg (by omega), origin_of_le hahead]
    have hin : q n < out.length := by
      rw [hlen]
      exact hq n (by omega)
    have hroom : n < out.length := by omega
    refine ⟨out.set n out[q n], ?_, List.length_set.trans hlen, fun m => ?_⟩
    · unfold gather at hout ⊢
      rw [foldlM_range_succ, hout, Option.bind_some, List.getElem?_eq_getElem hin,
        Option.bind_some, store_of_lt _ hroom]
    · by_cases hm : m = n
      · subst hm
        rw [if_pos (by omega), List.getElem?_set_self hroom, ← hread,
          List.getElem?_eq_getElem hin]
      · rw [List.getElem?_set_ne (Ne.symm hm), hcell m]
        by_cases hlt : m < n
        · rw [if_pos hlt, if_pos (by omega)]
        · rw [if_neg hlt, if_neg (by omega)]

/-- Whenever a turn reads behind the loop, it reads a cell that has been left as it was. -/
def Undisturbed (q : Nat → Nat) (n : Nat) : Prop := ∀ m < n, m ≤ q m ∨ q (q m) = q m

instance (q : Nat → Nat) (n : Nat) : Decidable (Undisturbed q n) :=
  inferInstanceAs (Decidable (∀ m < n, _))

/-- **When every value comes from where it should.** -/
theorem origin_eq_iff {n : Nat} : (∀ m < n, origin q m = q m) ↔ Undisturbed q n := by
  constructor
  · intro h m hm
    rcases Nat.lt_or_ge (q m) m with hback | hahead
    · right
      rw [← h (q m) (by omega), ← origin_of_lt hback, h m hm]
    · exact .inl hahead
  · intro h m
    induction m using Nat.strongRecOn with
    | ind m ih =>
      intro hm
      rcases Nat.lt_or_ge (q m) m with hback | hahead
      · rw [origin_of_lt hback, ih (q m) hback (by omega)]
        exact (h m hm).resolve_left (by omega)
      · exact origin_of_le hahead

/-- Groups of `c` cells that move as `q` says. -/
def spread (c : Nat) (q : Nat → Nat) (m : Nat) : Nat := q (m / c) * c + m % c

/-- Cell `k` of group `p`. -/
theorem spread_apply {c k : Nat} (p : Nat) (hk : k < c) :
    spread c q (p * c + k) = q p * c + k := by
  unfold spread
  rw [number_div hk, Nat.mul_add_mod_of_lt hk]

theorem undisturbed_spread_iff {c n : Nat} (hc : 0 < c) :
    Undisturbed (spread c q) (n * c) ↔ Undisturbed q n := by
  constructor
  · intro h p hp
    have hin : p * c + 0 < n * c := (Nat.mul_lt_mul_right hc).mpr hp
    have hgroup := h (p * c + 0) hin
    rw [spread_apply p hc, spread_apply (q p) hc] at hgroup
    rcases hgroup with hahead | hfixed
    · exact .inl (Nat.le_of_mul_le_mul_right (by omega : p * c ≤ q p * c) hc)
    · exact .inr (Nat.eq_of_mul_eq_mul_right hc (by omega))
  · intro h m hm
    have hp : m / c < n := Nat.div_lt_of_lt_mul (by rwa [Nat.mul_comm])
    have hk := Nat.mod_lt m hc
    have hnum := Nat.div_add_mod' m c
    have hto : spread c q m = q (m / c) * c + m % c := rfl
    rw [hto, spread_apply (q (m / c)) hk]
    rcases h (m / c) hp with hahead | hfixed
    · left
      have := Nat.mul_le_mul_right c hahead
      omega
    · right
      rw [hfixed]

end Lib.InPlace
