/-
# A linked list reached through an index

The usual layout of a cache: a linked list holds the entries in some order, and a map from keys
to list iterators finds an entry without walking the list.  An iterator is the ADDRESS of a
node.  It stays valid when the node moves inside the list, and dangles once the node is erased.

* `IndexedList`: the nodes in list order, the index, and the next address to allocate;
* `deref`, `splice`, `erase`: the operations on an iterator, `none` when it dangles;
* `pushFront`, `setKey`, `eraseKey`: the operations that cannot fail;
* `Wf`: the list and the index hold the same entries.

Each operation keeps `Wf` and does to the list of entries what the operation of `Lib.Lru` with
the same purpose does.  A program that always changes the list and the index together can
therefore be read as a program on plain lists.
-/
import Iipsrv.Lib.Lru
import Mathlib.Logic.Function.Basic

namespace Lib.Linked

open Lib.Lru

/-- A node of the list: where it lives and what it holds. -/
structure Node (ε : Type) where
  addr : Nat
  entry : ε

/-- A linked list together with an index from keys to iterators into it. -/
structure IndexedList (ε κ : Type) where
  nodes : List (Node ε)
  index : κ → Option Nat
  next : Nat

variable {ε κ : Type}

namespace IndexedList

/-! ## 1. The operations -/

def empty : IndexedList ε κ := ⟨[], fun _ => none, 0⟩

/-- Erase every node and every key; addresses are not handed out again. -/
def clear (s : IndexedList ε κ) : IndexedList ε κ := ⟨[], fun _ => none, s.next⟩

/-- The entries in list order. -/
def entries (s : IndexedList ε κ) : List ε := s.nodes.map Node.entry

def find? (s : IndexedList ε κ) (it : Nat) : Option (Node ε) := s.nodes.find? (fun n => n.addr = it)

/-- What the iterator points to. -/
def deref (s : IndexedList ε κ) (it : Nat) : Option ε := (s.find? it).map Node.entry

/-- Move the node behind the iterator to the front of the list. -/
def splice (s : IndexedList ε κ) (it : Nat) : Option (IndexedList ε κ) :=
  (s.find? it).map fun n => { s with nodes := n :: s.nodes.filter (fun m => m.addr ≠ it) }

/-- Erase the node behind the iterator. -/
def erase (s : IndexedList ε κ) (it : Nat) : Option (IndexedList ε κ) :=
  (s.find? it).map fun _ => { s with nodes := s.nodes.filter (fun m => m.addr ≠ it) }

def eraseKey [DecidableEq κ] (s : IndexedList ε κ) (k : κ) : IndexedList ε κ :=
  { s with index := Function.update s.index k none }

def setKey [DecidableEq κ] (s : IndexedList ε κ) (k : κ) (it : Nat) : IndexedList ε κ :=
  { s with index := Function.update s.index k (some it) }

/-- Put a new node in front.  Its address is `s.next`. -/
def pushFront (s : IndexedList ε κ) (e : ε) : IndexedList ε κ :=
  { s with nodes := ⟨s.next, e⟩ :: s.nodes, next := s.next + 1 }

/-- The entry of the last node: `--end()`, which an empty list does not have. -/
def back? (s : IndexedList ε κ) : Option ε := s.entries.getLast?

/-! ## 2. The list and the index agree -/

/-- Every key is in exactly one node, the index maps it to that node and holds nothing else,
and addresses are unique and already allocated. -/
structure Wf (key : ε → κ) (s : IndexedList ε κ) : Prop where
  keys : (s.entries.map key).Nodup
  addrs : (s.nodes.map Node.addr).Nodup
  index_iff : ∀ k it, s.index k = some it ↔ ∃ n ∈ s.nodes, n.addr = it ∧ key n.entry = k
  alloc : ∀ n ∈ s.nodes, n.addr < s.next

variable {key : ε → κ} {s : IndexedList ε κ} {k : κ} {it : Nat}

theorem wf_empty (key : ε → κ) : Wf key (empty : IndexedList ε κ) :=
  ⟨by simp [empty, entries], by simp [empty], by simp [empty], by simp [empty]⟩

theorem wf_clear (key : ε → κ) (s : IndexedList ε κ) : Wf key s.clear :=
  ⟨by simp [clear, entries], by simp [clear], by simp [clear], by simp [clear]⟩

/-- At an iterator that the index holds for `k`, selecting by address and selecting by key
are the same. -/
theorem Wf.addr_iff_key (h : Wf key s) (hk : s.index k = some it) {n : Node ε}
    (hn : n ∈ s.nodes) : n.addr = it ↔ key n.entry = k := by
  obtain ⟨m, hm, ha, hmk⟩ := (h.index_iff k it).mp hk
  constructor
  · intro hna
    rw [List.inj_on_of_nodup_map h.addrs hn hm (hna.trans ha.symm), hmk]
  · intro hnk
    have hinj : (s.nodes.map (fun n => key n.entry)).Nodup := by
      simpa [entries, Function.comp_def] using h.keys
    rw [List.inj_on_of_nodup_map hinj hn hm (hnk.trans hmk.symm), ha]

variable [DecidableEq κ]

theorem Wf.index_eq_none (h : Wf key s) : s.index k = none ↔ lookup key k s.entries = none := by
  rw [lookup_eq_none]
  constructor
  · intro hk e he hek
    obtain ⟨n, hn, rfl⟩ := List.mem_map.mp he
    rw [(h.index_iff k n.addr).mpr ⟨n, hn, rfl, hek⟩] at hk
    cases hk
  · intro hno
    cases hk : s.index k with
    | none => rfl
    | some it =>
      obtain ⟨n, hn, -, hnk⟩ := (h.index_iff k it).mp hk
      exact absurd hnk (hno n.entry (List.mem_map.mpr ⟨n, hn, rfl⟩))

/-- An iterator of the index never dangles: it finds the node of its key. -/
theorem Wf.find_of_index (h : Wf key s) (hk : s.index k = some it) :
    ∃ n, s.find? it = some n ∧ n ∈ s.nodes ∧ n.addr = it ∧
      lookup key k s.entries = some n.entry := by
  obtain ⟨n, hn, ha, hnk⟩ := (h.index_iff k it).mp hk
  refine ⟨n, ?_, hn, ha, ?_⟩
  · have hfind : lookup Node.addr n.addr s.nodes = some n := lookup_eq_some h.addrs hn
    exact ha ▸ hfind
  · exact hnk ▸ lookup_eq_some h.keys (List.mem_map.mpr ⟨n, hn, rfl⟩)

theorem Wf.deref_eq (h : Wf key s) (hk : s.index k = some it) :
    s.deref it = lookup key k s.entries := by
  obtain ⟨n, hfind, -, -, hl⟩ := h.find_of_index hk
  rw [deref, hfind, hl, Option.map_some]

/-- Selecting nodes away by address removes the key from the entries. -/
theorem Wf.entries_filter (h : Wf key s) (hk : s.index k = some it) :
    (s.nodes.filter (fun m => m.addr ≠ it)).map Node.entry = remove key k s.entries := by
  have hcongr : s.nodes.filter (fun m => m.addr ≠ it)
      = s.nodes.filter (fun m => key m.entry ≠ k) := by
    refine List.filter_congr ?_
    intro n hn
    simpa [not_iff_not] using h.addr_iff_key hk hn
  rw [hcongr, remove, entries, List.filter_map]
  rfl

/-! ## 3. What each operation does -/

/-- **Touching.**  Splicing the node of a key to the front keeps the list and the index in
agreement and touches the key. -/
theorem Wf.splice (h : Wf key s) (hk : s.index k = some it) :
    ∃ s', s.splice it = some s' ∧ Wf key s' ∧ s'.index = s.index ∧ s'.next = s.next ∧
      s'.entries = touch key k s.entries := by
  obtain ⟨n, hfind, hn, ha, hl⟩ := h.find_of_index hk
  have hent : (n :: s.nodes.filter (fun m => m.addr ≠ it)).map Node.entry
      = touch key k s.entries := by
    rw [List.map_cons, h.entries_filter hk, touch_of_lookup hl]
  have hperm : (n :: s.nodes.filter (fun m => m.addr ≠ it)).Perm s.nodes := by
    obtain ⟨pre, post, hsplit⟩ := List.append_of_mem hn
    have htouch : touch Node.addr it s.nodes = n :: (pre ++ post) :=
      touch_eq_of_split h.addrs hsplit ha
    have hfilter : n :: s.nodes.filter (fun m => m.addr ≠ it) = n :: (pre ++ post) := by
      rw [← htouch]
      exact (touch_of_lookup (ha ▸ lookup_eq_some h.addrs hn)).symm
    rw [hfilter, hsplit]
    exact List.perm_middle.symm
  refine ⟨{ s with nodes := n :: s.nodes.filter (fun m => m.addr ≠ it) },
    by rw [IndexedList.splice, hfind, Option.map_some], ?_, rfl, rfl, hent⟩
  refine ⟨?_, ((hperm.map _).nodup_iff).mpr h.addrs, ?_, ?_⟩
  · have hp : ((n :: s.nodes.filter (fun m => m.addr ≠ it)).map Node.entry).Perm s.entries :=
      hperm.map _
    exact ((hp.map key).nodup_iff).mpr h.keys
  · intro k' it'
    simp only [hperm.mem_iff]
    exact h.index_iff k' it'
  · intro m hm
    exact h.alloc m (hperm.mem_iff.mp hm)

/-- **Removing.**  Erasing the node of a key and then the key itself keeps the agreement. -/
theorem Wf.erase (h : Wf key s) (hk : s.index k = some it) :
    ∃ s', s.erase it = some s' ∧ Wf key (s'.eraseKey k) ∧
      (s'.eraseKey k).entries = remove key k s.entries := by
  obtain ⟨n, hfind, -, -, -⟩ := h.find_of_index hk
  refine ⟨{ s with nodes := s.nodes.filter (fun m => m.addr ≠ it) },
    by rw [IndexedList.erase, hfind, Option.map_some], ?_, h.entries_filter hk⟩
  have hsub : (s.nodes.filter (fun m => m.addr ≠ it)).Sublist s.nodes := List.filter_sublist
  refine ⟨?_, h.addrs.sublist (hsub.map _), ?_, fun m hm => h.alloc m (hsub.subset hm)⟩
  · exact h.keys.sublist ((hsub.map _).map _)
  · intro k' it'
    simp only [eraseKey, List.mem_filter, decide_eq_true_eq]
    by_cases hkk : k' = k
    · subst hkk
      rw [Function.update_self]
      constructor
      · intro hno; cases hno
      · rintro ⟨m, ⟨hm, hma⟩, -, hmk⟩
        exact absurd ((h.addr_iff_key hk hm).mpr hmk) hma
    · rw [Function.update_of_ne hkk, h.index_iff k' it']
      constructor
      · rintro ⟨m, hm, hma, hmk⟩
        exact ⟨m, ⟨hm, fun hit => hkk (hmk ▸ (h.addr_iff_key hk hm).mp hit)⟩, hma, hmk⟩
      · rintro ⟨m, ⟨hm, -⟩, hma, hmk⟩
        exact ⟨m, hm, hma, hmk⟩

/-- **Inserting.**  A new front node under a key that the index does not hold. -/
theorem Wf.pushFront (h : Wf key s) {e : ε} (hk : s.index (key e) = none) :
    Wf key ((s.pushFront e).setKey (key e) s.next) := by
  have hno : ∀ a ∈ s.entries, key a ≠ key e := lookup_eq_none.mp (h.index_eq_none.mp hk)
  refine ⟨?_, ?_, ?_, ?_⟩
  · simp only [entries, setKey, IndexedList.pushFront, List.map_cons, List.nodup_cons]
    refine ⟨?_, h.keys⟩
    intro hmem
    obtain ⟨a, ha, hak⟩ := List.mem_map.mp hmem
    exact hno a ha hak
  · simp only [setKey, IndexedList.pushFront, List.map_cons, List.nodup_cons]
    refine ⟨?_, h.addrs⟩
    intro hmem
    obtain ⟨m, hm, hma⟩ := List.mem_map.mp hmem
    exact absurd (h.alloc m hm) (by omega)
  · intro k' it'
    simp only [setKey, IndexedList.pushFront, List.mem_cons]
    by_cases hkk : k' = key e
    · subst hkk
      rw [Function.update_self, Option.some.injEq]
      constructor
      · rintro rfl; exact ⟨_, Or.inl rfl, rfl, rfl⟩
      · rintro ⟨m, rfl | hm, hma, hmk⟩
        · exact hma
        · exact absurd hmk (hno m.entry (List.mem_map.mpr ⟨m, hm, rfl⟩))
    · rw [Function.update_of_ne hkk, h.index_iff k' it']
      constructor
      · rintro ⟨m, hm, hmm⟩; exact ⟨m, Or.inr hm, hmm⟩
      · rintro ⟨m, rfl | hm, hma, hmk⟩
        · exact absurd hmk.symm hkk
        · exact ⟨m, hm, hma, hmk⟩
  · intro m hm
    simp only [setKey, IndexedList.pushFront, List.mem_cons] at hm ⊢
    rcases hm with rfl | hm
    · exact Nat.lt_succ_self _
    · exact Nat.lt_succ_of_lt (h.alloc m hm)

end IndexedList

end Lib.Linked
