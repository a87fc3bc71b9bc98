/-
# The representation invariant of the tile cache

`Agree` says that the list, the index and the byte counter describe the same entries, and
`RepInv` adds that the counter is within `maxSize`.  Between the two lies the eviction loop:
`store` first breaks the bound and `evict` restores it.

Every operation gets one lemma (`touch_spec`, `removeAt_spec`, `evict_spec`, `store_spec`,
`insert_spec`, `getTile_spec`): from a state in agreement it returns, keeps the agreement, and
does to the entries what the operation of `Lib.Lru` does.  The run results here and in
`Cache.Refine` use these lemmas and never the definitions.
-/
import Iipsrv.Cache.Model

namespace Iipsrv

open Lib.Lru Lib.Linked Lib.Print

/-- The key a pair is filed under. -/
def Entry.index (e : Entry) : Text := e.key.chars

namespace Cache

/-! ## 1. The invariant -/

/-- The list, the index and the counter agree, and every key is the one its tile prints. -/
structure Agree (a : StringAlloc) (c : Cache) : Prop where
  wf : c.tiles.Wf Entry.index
  keyed : ∀ e ∈ c.entries, e.key = a.ofCString e.tile.tileId.index
  size : c.currentSize = total (cost c.tileSize) c.entries

/-- **The representation invariant.** -/
structure RepInv (a : StringAlloc) (c : Cache) : Prop extends Agree a c where
  bound : c.currentSize ≤ c.maxSize

variable {a : StringAlloc} {c : Cache}

theorem Agree.keys (h : Agree a c) : (c.entries.map Entry.index).Nodup := h.wf.keys

/-- The key of an entry, as text, is the printed key of its tile. -/
theorem Agree.index_eq (h : Agree a c) {e : Entry} (he : e ∈ c.entries) :
    e.index = e.tile.tileId.index := by
  rw [Entry.index, h.keyed e he, StringAlloc.ofCString]

theorem repInv_new (a : StringAlloc) (z : Sizeof) (maxSize : Nat) : RepInv a (new z maxSize) :=
  { wf := IndexedList.wf_empty _
    keyed := by simp [entries, new, IndexedList.entries, IndexedList.empty]
    size := rfl
    bound := Nat.zero_le _ }

theorem repInv_clear (a : StringAlloc) (c : Cache) : RepInv a c.clear :=
  { wf := IndexedList.wf_clear _ _
    keyed := by simp [entries, clear, IndexedList.entries, IndexedList.clear]
    size := rfl
    bound := Nat.zero_le _ }

/-! ## 2. Touching and removing -/

/-- The two sizes that no operation changes. -/
def SameLimits (c c' : Cache) : Prop := c'.tileSize = c.tileSize ∧ c'.maxSize = c.maxSize

theorem SameLimits.refl (c : Cache) : SameLimits c c := ⟨rfl, rfl⟩

theorem SameLimits.trans {c c' c'' : Cache} (h : SameLimits c c') (h' : SameLimits c' c'') :
    SameLimits c c'' := ⟨h'.1.trans h.1, h'.2.trans h.2⟩

theorem deref_spec (h : Agree a c) {k : Text} {it : Nat} (hk : c.tiles.index k = some it) :
    ∃ e, c.deref it = .ok e ∧ lookup Entry.index k c.entries = some e := by
  obtain ⟨n, -, -, -, hl⟩ := h.wf.find_of_index hk
  have hd := h.wf.deref_eq hk
  refine ⟨n.entry, ?_, hl⟩
  rw [deref, hd, hl]

/-- **`_touch` never dangles**: it moves the entry of a present key to the front and changes
nothing for an absent one. -/
theorem touch_spec (h : Agree a c) (k : Text) :
    ∃ c', c.touch k = .ok (c', c.tiles.index k) ∧ Agree a c' ∧ SameLimits c c' ∧
      c'.currentSize = c.currentSize ∧ c'.tiles.index = c.tiles.index ∧
      c'.entries = Lib.Lru.touch Entry.index k c.entries := by
  cases hk : c.tiles.index k with
  | none =>
    have hl := h.wf.index_eq_none.mp hk
    exact ⟨c, by rw [touch, hk], h, .refl c, rfl, rfl, (touch_eq_self hl).symm⟩
  | some it =>
    obtain ⟨s, hs, hwf, hidx, -, hent⟩ := h.wf.splice hk
    refine ⟨{ c with tiles := s }, by rw [touch, hk]; simp only [hs], ?_, ⟨rfl, rfl⟩, rfl, hidx,
      hent⟩
    obtain ⟨e, -, hl⟩ := deref_spec h hk
    refine ⟨hwf, ?_, ?_⟩
    · intro e' he'
      have he' : e' ∈ Lib.Lru.touch Entry.index k c.entries := hent ▸ he'
      rw [touch_of_lookup hl, List.mem_cons] at he'
      rcases he' with rfl | he'
      · exact h.keyed _ (lookup_mem hl).1
      · exact h.keyed _ (mem_remove.mp he').1
    · rw [show entries { c with tiles := s } = s.entries from rfl, hent]
      exact h.size.trans (total_touch h.keys).symm

/-- **`_remove` never wraps the counter**: the entry's cost is part of the sum it holds. -/
theorem removeAt_spec (h : Agree a c) {k : Text} {it : Nat} (hk : c.tiles.index k = some it) :
    ∃ c', c.removeAt k it = .ok c' ∧ Agree a c' ∧ SameLimits c c' ∧
      c'.tiles.index k = none ∧ c'.entries = Lib.Lru.remove Entry.index k c.entries := by
  obtain ⟨e, hd, hl⟩ := deref_spec h hk
  obtain ⟨he, rfl⟩ := lookup_mem hl
  obtain ⟨s, hs, hwf, hent⟩ := h.wf.erase hk
  have hsum := total_remove (cost c.tileSize) h.keys he
  have hsize := h.size
  have hle : ¬ c.currentSize < cost c.tileSize e := by omega
  refine ⟨{ c with
      currentSize := c.currentSize - cost c.tileSize e, tiles := s.eraseKey e.index },
    by rw [removeAt, hd]; simp only [if_neg hle, hs], ?_, ⟨rfl, rfl⟩, ?_, hent⟩
  · refine ⟨hwf, ?_, ?_⟩
    · intro e' he'
      have he' : e' ∈ Lib.Lru.remove Entry.index e.index c.entries := hent ▸ he'
      exact h.keyed _ (mem_remove.mp he').1
    · show c.currentSize - cost c.tileSize e = total (cost c.tileSize) (s.eraseKey e.index).entries
      rw [hent]
      change _ = total (cost c.tileSize) (Lib.Lru.remove Entry.index e.index c.entries)
      omega
  · simp [IndexedList.eraseKey]

theorem remove_spec (h : Agree a c) {e : Entry} (he : e ∈ c.entries) :
    ∃ c', c.remove e.index = .ok c' ∧ Agree a c' ∧ SameLimits c c' ∧
      c'.entries = Lib.Lru.remove Entry.index e.index c.entries := by
  cases hk : c.tiles.index e.index with
  | none => exact absurd rfl (lookup_eq_none.mp (h.wf.index_eq_none.mp hk) e he)
  | some it =>
    obtain ⟨c', hc', hag, hlim, -, hent⟩ := removeAt_spec h hk
    exact ⟨c', by rw [remove, hk]; exact hc', hag, hlim, hent⟩

/-! ## 3. The eviction loop -/

/-- Removing the key of the last entry drops the last entry. -/
theorem remove_last {l : List Entry} {e : Entry} (hnd : ((l ++ [e]).map Entry.index).Nodup) :
    Lib.Lru.remove Entry.index e.index (l ++ [e]) = l := by
  have hne : ∀ x ∈ l, x.index ≠ e.index := by
    intro x hx hxe
    rw [List.map_append, List.nodup_append] at hnd
    exact hnd.2.2 x.index (List.mem_map.mpr ⟨x, hx, rfl⟩) e.index (by simp) hxe
  calc Lib.Lru.remove Entry.index e.index (l ++ [e])
      = Lib.Lru.remove Entry.index e.index l ++ Lib.Lru.remove Entry.index e.index [e] :=
        List.filter_append ..
    _ = l := by rw [remove_eq_self hne]; simp [Lib.Lru.remove]

/-- **The eviction loop ends.**  With one turn for each node it never steps back from the end of
an empty list, never wraps, and leaves the longest prefix that fits: the list is not empty
while its entries weigh more than `maxSize`, and each turn drops the last one. -/
theorem evict_spec : ∀ (n : Nat) {c : Cache}, Agree a c → c.entries.length ≤ n →
    ∃ c', evict n c = .ok c' ∧ RepInv a c' ∧ SameLimits c c' ∧
      c'.entries = fit (cost c.tileSize) c.maxSize c.entries
  | 0, c, h, hn => by
    have hnil : c.entries = [] := List.length_eq_zero_iff.mp (Nat.le_zero.mp hn)
    have hle : ¬ c.maxSize < c.currentSize := by
      rw [h.size, hnil, total_nil]; omega
    refine ⟨c, by rw [evict, if_neg hle], ⟨h, by omega⟩, .refl c, ?_⟩
    rw [hnil]; rfl
  | n + 1, c, h, hn => by
    by_cases hle : c.maxSize < c.currentSize
    · have hsize := h.size
      have hne : c.entries ≠ [] := by
        intro hnil
        rw [hnil, total_nil] at hsize
        omega
      -- the list as what stays and the entry at the back
      have hsplit : c.entries.dropLast ++ [c.entries.getLast hne] = c.entries :=
        List.dropLast_append_getLast hne
      set e := c.entries.getLast hne with he
      have hback : c.tiles.back? = some e := List.getLast?_eq_some_getLast hne
      obtain ⟨c1, hrem, hag, hlim, hent⟩ := remove_spec h (List.getLast_mem hne)
      have hdrop : c1.entries = c.entries.dropLast := by
        have hnd := h.keys
        rw [hent, ← he]
        rw [← hsplit] at hnd
        conv_lhs => rw [← hsplit]
        exact remove_last hnd
      have hlen : c1.entries.length ≤ n := by
        rw [hdrop, List.length_dropLast]; omega
      obtain ⟨c2, hev, hinv, hlim2, hfit⟩ := evict_spec n hag hlen
      refine ⟨c2, ?_, hinv, hlim.trans hlim2, ?_⟩
      · rw [evict, if_pos hle, hback]
        simp only
        rw [show e.key.chars = e.index from rfl, hrem]
        exact hev
      · rw [hfit, hdrop, hlim.1, hlim.2]
        conv_rhs => rw [← hsplit]
        rw [fit_concat]
        rw [hsplit, ← h.size]
        exact hle
    · refine ⟨c, by rw [evict, if_neg hle], ⟨h, by omega⟩, .refl c, ?_⟩
      rw [fit_eq_self]
      rw [← h.size]; omega

/-- Storing a pair under a key the index does not hold. -/
theorem store_spec (h : Agree a c) {key : StdString} {r : RawTile}
    (hkey : key = a.ofCString r.tileId.index) (hk : c.tiles.index key.chars = none) :
    ∃ c', c.store key r = .ok c' ∧ RepInv a c' ∧ SameLimits c c' ∧
      c'.entries = fit (cost c.tileSize) c.maxSize (⟨key, r.copy⟩ :: c.entries) := by
  set c1 : Cache :=
    { c with
      tiles := (c.tiles.pushFront ⟨key, r.copy⟩).setKey key.chars c.tiles.next
      currentSize := c.currentSize +
        (r.dataLength + (r.filename.capacity + key.capacity) + c.tileSize) } with hc1
  have hent : c1.entries = ⟨key, r.copy⟩ :: c.entries := rfl
  have hag : Agree a c1 := by
    refine ⟨h.wf.pushFront (e := ⟨key, r.copy⟩) hk, ?_, ?_⟩
    · intro e he
      rw [hent, List.mem_cons] at he
      rcases he with rfl | he
      · exact hkey
      · exact h.keyed e he
    · have hsize := h.size
      have hcost : cost c.tileSize ⟨key, r.copy⟩
          = r.dataLength + (r.filename.capacity + key.capacity) + c.tileSize := rfl
      rw [hent, total_cons, ← hsize, hcost, Nat.add_comm]
  obtain ⟨c', hev, hinv, hlim, hfit⟩ := evict_spec c1.entries.length hag (Nat.le_refl _)
  exact ⟨c', hev, hinv, hlim, by rw [hfit, hent]⟩

/-! ## 4. The public operations -/

/-- What `insert` is for, on the list of entries. -/
def lruInsert (tileSize maxSize : Nat) (e : Entry) (l : List Entry) : List Entry :=
  match lookup Entry.index e.index l with
  | some old =>
    if old.tile.timestamp < e.tile.timestamp then
      put Entry.index (cost tileSize) maxSize e l
    else Lib.Lru.touch Entry.index e.index l
  | none => put Entry.index (cost tileSize) maxSize e l

section
variable {tileSize maxSize : Nat} {e old : Entry} {l : List Entry}

theorem lruInsert_absent (h : lookup Entry.index e.index l = none) :
    lruInsert tileSize maxSize e l = fit (cost tileSize) maxSize (e :: l) := by
  rw [lruInsert, h]
  simp only [put, remove_eq_self (lookup_eq_none.mp h)]

theorem lruInsert_older (h : lookup Entry.index e.index l = some old)
    (hts : old.tile.timestamp < e.tile.timestamp) :
    lruInsert tileSize maxSize e l
      = fit (cost tileSize) maxSize (e :: Lib.Lru.remove Entry.index e.index l) := by
  rw [lruInsert, h]
  simp only [if_pos hts, put]

theorem lruInsert_current (h : lookup Entry.index e.index l = some old)
    (hts : ¬ old.tile.timestamp < e.tile.timestamp) :
    lruInsert tileSize maxSize e l = Lib.Lru.touch Entry.index e.index l := by
  rw [lruInsert, h]
  simp only [if_neg hts]

end

/-- The pair that `insert` files a tile under. -/
def entryOf (a : StringAlloc) (r : RawTile) : Entry := ⟨a.ofCString r.tileId.index, r.copy⟩

/-- **`insert` returns**, keeps the invariant and is `lruInsert` on the entries. -/
theorem insert_spec (h : RepInv a c) (hmax : c.maxSize ≠ 0) (r : RawTile) :
    ∃ c', c.insert a r = .ok c' ∧ RepInv a c' ∧ SameLimits c c' ∧
      c'.entries = lruInsert c.tileSize c.maxSize (entryOf a r) c.entries := by
  set e := entryOf a r with he
  obtain ⟨c1, ht, hag1, hlim1, hsz1, hidx1, hent1⟩ := touch_spec h.toAgree e.index
  have hkey : a.ofCString (getIndex r.filename.chars r.resolution r.tileNum r.hSequence
      r.vSequence r.compressionType r.quality) = e.key := rfl
  have hindex : e.key.chars = e.index := rfl
  unfold insert
  rw [if_neg hmax, hkey]
  simp only [hindex, ht]
  cases hk : c.tiles.index e.index with
  | none =>
    dsimp only
    have hl : lookup Entry.index e.index c.entries = none := h.wf.index_eq_none.mp hk
    obtain ⟨c2, hst, hinv, hlim2, hfit⟩ := store_spec (r := r) hag1 rfl (hidx1 ▸ hk)
    refine ⟨c2, hst, hinv, hlim1.trans hlim2, ?_⟩
    rw [hfit, hent1, touch_eq_self hl, hlim1.1, hlim1.2, lruInsert_absent hl]
    rfl
  | some it =>
    have hk1 : c1.tiles.index e.index = some it := hidx1 ▸ hk
    obtain ⟨old, hd1, hl⟩ := deref_spec hag1 hk1
    rw [hent1, lookup_touch] at hl
    simp only [hd1]
    by_cases hts : old.tile.timestamp < r.timestamp
    · obtain ⟨c2, hrm, hag2, hlim2, hno, hent2⟩ := removeAt_spec hag1 hk1
      obtain ⟨c3, hst, hinv, hlim3, hfit⟩ := store_spec (r := r) hag2 rfl hno
      rw [if_pos hts, hrm]
      refine ⟨c3, hst, hinv, (hlim1.trans hlim2).trans hlim3, ?_⟩
      rw [hfit, hent2, hent1, remove_touch, hlim2.1, hlim2.2, hlim1.1, hlim1.2,
        lruInsert_older hl hts]
      rfl
    · rw [if_neg hts]
      refine ⟨c1, rfl, ⟨hag1, ?_⟩, hlim1, hent1.trans (lruInsert_current hl hts).symm⟩
      rw [hsz1, hlim1.2]
      exact h.bound

/-- **`getTile` returns**, touches the key and hands out the tile filed under it. -/
theorem getTile_spec (h : RepInv a c) (hmax : c.maxSize ≠ 0) (i : TileId) :
    ∃ c', c.getTile i.filename i.resolution i.tileNum i.hSequence i.vSequence i.compressionType
        i.quality = .ok (c', (lookup Entry.index i.index c.entries).map Entry.tile) ∧
      RepInv a c' ∧ SameLimits c c' ∧
      c'.entries = Lib.Lru.touch Entry.index i.index c.entries ∧
      (lookup Entry.index i.index c.entries = none → c' = c) := by
  rw [getTile, if_neg hmax]
  simp only [← TileId.index.eq_def]
  cases hk : c.tiles.index i.index with
  | none =>
    have hl : lookup Entry.index i.index c.entries = none := h.wf.index_eq_none.mp hk
    exact ⟨c, by rw [hl]; rfl, h, .refl c, (touch_eq_self hl).symm, fun _ => rfl⟩
  | some it =>
    obtain ⟨c1, ht, hag1, hlim1, hsz1, hidx1, hent1⟩ := touch_spec h.toAgree i.index
    obtain ⟨e, hd1, hl⟩ := deref_spec hag1 (hidx1 ▸ hk)
    rw [hent1, lookup_touch] at hl
    refine ⟨c1, ?_, ⟨hag1, ?_⟩, hlim1, hent1, ?_⟩
    · simp only [ht, hd1, hl, Option.map_some]
    · rw [hsz1, hlim1.2]
      exact h.bound
    · intro hno
      rw [hl] at hno
      cases hno

/-! ## 5. Whole runs -/

/-- A cache without room does nothing. -/
theorem step_of_maxSize_zero (hmax : c.maxSize = 0) (call : Call) :
    c.step a call = .ok (c, none) ∨ c.step a call = .ok (c.clear, none) := by
  cases call with
  | insert r => left; rw [step, insert, if_pos hmax]; rfl
  | getTile i => left; rw [step, getTile, if_pos hmax]
  | clear => right; rfl

/-- **One call** returns and keeps the invariant. -/
theorem step_spec (h : RepInv a c) (call : Call) :
    ∃ c' out, c.step a call = .ok (c', out) ∧ RepInv a c' ∧ SameLimits c c' := by
  by_cases hmax : c.maxSize = 0
  · rcases step_of_maxSize_zero hmax call with hs | hs
    · exact ⟨c, none, hs, h, .refl c⟩
    · exact ⟨c.clear, none, hs, repInv_clear a c, ⟨rfl, rfl⟩⟩
  · cases call with
    | insert r =>
      obtain ⟨c', hc', hinv, hlim, -⟩ := insert_spec h hmax r
      exact ⟨c', none, by rw [step, hc']; rfl, hinv, hlim⟩
    | getTile i =>
      obtain ⟨c', hc', hinv, hlim, -⟩ := getTile_spec h hmax i
      exact ⟨c', _, hc', hinv, hlim⟩
    | clear => exact ⟨c.clear, none, rfl, repInv_clear a c, ⟨rfl, rfl⟩⟩

theorem run_spec : ∀ (calls : List Call) {c : Cache}, RepInv a c →
    ∃ c', run a c calls = .ok c' ∧ RepInv a c' ∧ SameLimits c c'
  | [], c, h => ⟨c, rfl, h, .refl c⟩
  | call :: calls, c, h => by
    obtain ⟨c1, out, hs, hinv, hlim⟩ := step_spec h call
    obtain ⟨c2, hr, hinv2, hlim2⟩ := run_spec calls hinv
    exact ⟨c2, by rw [run, hs]; exact hr, hinv2, hlim.trans hlim2⟩

/-- **The invariant holds after every call.**  Whatever tiles are inserted and asked for, the
calls return: no iterator dangles, no counter wraps below zero, and the eviction loop ends
without stepping back from the end of an empty list, for a tile larger than the whole cache
too.  The state they leave satisfies `RepInv`. -/
theorem run_repInv (a : StringAlloc) (z : Sizeof) (maxSize : Nat) (calls : List Call) :
    ∃ c, run a (new z maxSize) calls = .ok c ∧ c.maxSize = maxSize ∧ RepInv a c := by
  obtain ⟨c, hr, hinv, hlim⟩ := run_spec calls (repInv_new a z maxSize)
  exact ⟨c, hr, hlim.2, hinv⟩

end Cache

end Iipsrv
