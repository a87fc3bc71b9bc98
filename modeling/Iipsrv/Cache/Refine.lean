/-
# What the tile cache is for

Two readings of the cache, over whole runs.

* As a list of entries it is a least-recently-used cache with weights (`run_refines_lru`): a
  hit moves its entry to the front, a miss changes nothing, and an insert either moves the entry
  it finds up to date or leaves the longest prefix that fits of the new entry followed by the
  others.
* As a map from tile identities to tiles it returns the tile that was asked for
  (`hit_is_requested`), as long as the printed keys fit into the 1024 characters of `getIndex`
  and the file names hold no NUL.  Beyond that two identities share a key, and
  `long_names_collide` runs the cache into it.
-/
import Iipsrv.Cache.Invariant

namespace Iipsrv

open Lib.Lru Lib.Linked Lib.Print

namespace Cache

variable {a : StringAlloc} {c c' : Cache}

/-! ## 1. What a step can do to the entries -/

/-- The entries of a new cache each cost something. -/
theorem cost_pos {tileSize : Nat} (h : 0 < tileSize) (e : Entry) : 0 < cost tileSize e := by
  rw [cost]; omega

/-- A cache without room is empty. -/
theorem RepInv.entries_eq_nil (h : RepInv a c) (hts : 0 < c.tileSize) (hmax : c.maxSize = 0) :
    c.entries = [] := by
  rw [List.eq_nil_iff_forall_not_mem]
  intro e he
  have h1 := weight_le_total (cost c.tileSize) he
  have h2 := cost_pos hts e
  have h3 := h.bound
  have h4 := h.size
  omega

/-- Every entry after a step was there before it, or is the one just inserted. -/
theorem step_entries (h : RepInv a c) {call : Call} {out : Option RawTile}
    (hs : c.step a call = .ok (c', out)) {e : Entry} (he : e ∈ c'.entries) :
    e ∈ c.entries ∨ ∃ r, call = .insert r ∧ e = entryOf a r ∧
      ∀ old ∈ c.entries, old.index = e.index → old.tile.timestamp < r.timestamp := by
  by_cases hmax : c.maxSize = 0
  · rcases step_of_maxSize_zero (a := a) hmax call with hs' | hs' <;> rw [hs] at hs' <;>
      cases hs'
    · exact Or.inl he
    · simp [entries, clear, IndexedList.entries, IndexedList.clear] at he
  cases call with
  | insert r =>
    obtain ⟨c1, hc1, -, -, hent⟩ := insert_spec h hmax r
    rw [step, hc1] at hs
    cases hs
    -- only the two branches that store the tile bring in a new entry
    have hput : e ∈ fit (cost c.tileSize) c.maxSize
          (entryOf a r :: Lib.Lru.remove Entry.index (entryOf a r).index c.entries) →
        e = entryOf a r ∨ e ∈ c.entries := by
      intro he'
      rcases List.mem_cons.mp ((fit_isLongestFit _ _ _).isPrefix.subset he') with rfl | he'
      · exact Or.inl rfl
      · exact Or.inr (mem_remove.mp he').1
    cases hl : lookup Entry.index (entryOf a r).index c.entries with
    | none =>
      have hno := lookup_eq_none.mp hl
      rw [hent, lruInsert_absent hl, ← remove_eq_self hno] at he
      rcases hput he with rfl | he
      · exact Or.inr ⟨r, rfl, rfl, fun old hold hoe => absurd hoe (hno old hold)⟩
      · exact Or.inl he
    | some old =>
      by_cases hts : old.tile.timestamp < r.timestamp
      · rw [hent, lruInsert_older hl hts] at he
        rcases hput he with rfl | he
        · refine Or.inr ⟨r, rfl, rfl, fun old' hold' hoe => ?_⟩
          have := lookup_eq_some h.keys hold'
          rw [hoe, hl] at this
          cases this
          exact hts
        · exact Or.inl he
      · rw [hent, lruInsert_current hl hts, touch_of_lookup hl, List.mem_cons] at he
        rcases he with rfl | he
        · exact Or.inl (lookup_mem hl).1
        · exact Or.inl (mem_remove.mp he).1
  | getTile i =>
    obtain ⟨c1, hc1, -, -, hent, -⟩ := getTile_spec h hmax i
    rw [step, hc1] at hs
    cases hs
    rw [hent] at he
    cases hl : lookup Entry.index i.index c.entries with
    | none => rw [touch_eq_self hl] at he; exact Or.inl he
    | some old =>
      rw [touch_of_lookup hl, List.mem_cons] at he
      rcases he with rfl | he
      · exact Or.inl (lookup_mem hl).1
      · exact Or.inl (mem_remove.mp he).1
  | clear =>
    cases hs
    simp [entries, clear, IndexedList.entries, IndexedList.clear] at he

/-! ## 2. The least-recently-used reading -/

/-- A cache with an entry is not switched off. -/
theorem RepInv.maxSize_ne_zero (h : RepInv a c) (hts : 0 < c.tileSize) {e : Entry}
    (hmem : e ∈ c.entries) : c.maxSize ≠ 0 := by
  intro hz
  rw [h.entries_eq_nil hts hz] at hmem
  cases hmem

/-- **A hit** moves the entry to the front and returns its tile. -/
theorem getTile_hit (h : RepInv a c) (hts : 0 < c.tileSize) {i : TileId} {pre post : List Entry}
    {e : Entry} (hsplit : c.entries = pre ++ e :: post) (hei : e.index = i.index) :
    ∃ c', c.step a (.getTile i) = .ok (c', some e.tile) ∧ c'.entries = e :: (pre ++ post) := by
  have hmem : e ∈ c.entries := by simp [hsplit]
  have hmax := h.maxSize_ne_zero hts hmem
  obtain ⟨c', hc', -, -, hent, -⟩ := getTile_spec h hmax i
  refine ⟨c', ?_, hent.trans (touch_eq_of_split h.keys hsplit hei)⟩
  rw [step, hc', ← hei, lookup_eq_some h.keys hmem]
  rfl

/-- A tile that `getTile` returns is filed under the key asked for. -/
theorem getTile_found (h : RepInv a c) {i : TileId} {t : RawTile}
    (hs : c.step a (.getTile i) = .ok (c', some t)) :
    ∃ e ∈ c.entries, e.index = i.index ∧ e.tile = t := by
  by_cases hmax : c.maxSize = 0
  · rw [step, getTile, if_pos hmax] at hs
    cases hs
  · obtain ⟨c1, hc1, -⟩ := getTile_spec h hmax i
    rw [step, hc1] at hs
    cases hl : lookup Entry.index i.index c.entries with
    | none => rw [hl] at hs; cases hs
    | some e =>
      rw [hl] at hs
      cases hs
      exact ⟨e, (lookup_mem hl).1, (lookup_mem hl).2, rfl⟩

/-- **A miss** changes nothing. -/
theorem getTile_miss (h : RepInv a c) {i : TileId} (hno : ∀ e ∈ c.entries, e.index ≠ i.index) :
    c.step a (.getTile i) = .ok (c, none) := by
  by_cases hmax : c.maxSize = 0
  · rw [step, getTile, if_pos hmax]
  · have hl := lookup_eq_none.mpr hno
    obtain ⟨c', hc', -, -, -, hsame⟩ := getTile_spec h hmax i
    rw [step, hc', hsame hl, hl]
    rfl

/-- **An insert that finds an entry up to date** only moves it to the front. -/
theorem insert_current (h : RepInv a c) (hts : 0 < c.tileSize) {r : RawTile}
    {pre post : List Entry} {e : Entry} (hsplit : c.entries = pre ++ e :: post)
    (her : e.index = r.tileId.index) (hold : ¬ e.tile.timestamp < r.timestamp) :
    ∃ c', c.step a (.insert r) = .ok (c', none) ∧ c'.entries = e :: (pre ++ post) := by
  have hmem : e ∈ c.entries := by simp [hsplit]
  have hmax := h.maxSize_ne_zero hts hmem
  have hl : lookup Entry.index (entryOf a r).index c.entries = some e :=
    (show e.index = (entryOf a r).index from her) ▸ lookup_eq_some h.keys hmem
  obtain ⟨c', hc', -, -, hent⟩ := insert_spec h hmax r
  refine ⟨c', by rw [step, hc']; rfl, ?_⟩
  rw [hent, lruInsert_current hl hold]
  exact touch_eq_of_split h.keys hsplit her

/-- **Every other insert** leaves the longest prefix that fits of the new entry followed by the
others. -/
theorem insert_fits (h : RepInv a c) (hts : 0 < c.tileSize) {r : RawTile}
    (hold : ∀ e ∈ c.entries, e.index = r.tileId.index → e.tile.timestamp < r.timestamp) :
    ∃ c', c.step a (.insert r) = .ok (c', none) ∧
      IsLongestFit (cost c.tileSize) c.maxSize
        (entryOf a r :: Lib.Lru.remove Entry.index r.tileId.index c.entries) c'.entries := by
  have hfit := fit_isLongestFit (cost c.tileSize) c.maxSize
    (entryOf a r :: Lib.Lru.remove Entry.index r.tileId.index c.entries)
  by_cases hmax : c.maxSize = 0
  · refine ⟨c, by rw [step, insert, if_pos hmax]; rfl, ?_⟩
    rw [h.entries_eq_nil hts hmax]
    rwa [hmax, fit_zero (cost_pos hts), h.entries_eq_nil hts hmax, ← hmax] at hfit
  · obtain ⟨c', hc', -, -, hent⟩ := insert_spec h hmax r
    refine ⟨c', by rw [step, hc']; rfl, ?_⟩
    rw [hent]
    cases hl : lookup Entry.index (entryOf a r).index c.entries with
    | none =>
      rw [show Lib.Lru.remove Entry.index r.tileId.index c.entries = c.entries from
        remove_eq_self (lookup_eq_none.mp hl)] at hfit ⊢
      rw [lruInsert_absent hl]
      exact hfit
    | some old =>
      obtain ⟨hmem, hidx⟩ := lookup_mem hl
      rw [lruInsert_older hl (hold old hmem hidx)]
      exact hfit

/-- The timestamp stored under a key does not go back in one step. -/
theorem step_stamp (h : RepInv a c) {call : Call} {out : Option RawTile}
    (hs : c.step a call = .ok (c', out)) {e e' : Entry} (he : e ∈ c.entries)
    (he' : e' ∈ c'.entries) (hee : e'.index = e.index) :
    e.tile.timestamp ≤ e'.tile.timestamp := by
  rcases step_entries h hs he' with hin | ⟨r, -, rfl, hold⟩
  · rw [List.inj_on_of_nodup_map h.keys hin he hee]
  · exact Int.le_of_lt (hold e he hee.symm)

/-- The key `k` is in the cache. -/
def Holds (c : Cache) (k : Text) : Prop := ∃ e ∈ c.entries, e.index = k

/-- `k` is in the cache after every call of the run. -/
def StaysIn (a : StringAlloc) (k : Text) : Cache → List Call → Prop
  | c, [] => c.Holds k
  | c, call :: calls => c.Holds k ∧ ∀ c' out, c.step a call = .ok (c', out) → StaysIn a k c' calls

/-- While a key stays in the cache, the timestamp stored under it never decreases. -/
theorem run_stamp {k : Text} : ∀ (calls : List Call) {c c' : Cache}, RepInv a c →
    StaysIn a k c calls → run a c calls = .ok c' →
    ∀ e ∈ c.entries, e.index = k → ∀ e' ∈ c'.entries, e'.index = k →
      e.tile.timestamp ≤ e'.tile.timestamp
  | [], c, c', h, _, hr, e, he, hek, e', he', hek' => by
    cases hr
    rw [List.inj_on_of_nodup_map h.keys he he' (hek.trans hek'.symm)]
  | call :: calls, c, c', h, hstay, hr, e, he, hek, e', he', hek' => by
    obtain ⟨c1, out, hs, hinv, -⟩ := step_spec h call
    rw [run, hs] at hr
    have hstay1 := hstay.2 c1 out hs
    have hholds : c1.Holds k := by
      cases calls with
      | nil => exact hstay1
      | cons _ _ => exact hstay1.1
    obtain ⟨e1, he1, hek1⟩ := hholds
    exact (step_stamp h hs he he1 (hek1.trans hek.symm)).trans
      (run_stamp calls hinv hstay1 hr e1 he1 hek1 e' he' hek')

/-- **The cache refines a least-recently-used list.**  In every reachable state: a hit moves its
entry to the front, the others keeping their order, and returns its tile; a miss changes
nothing; an insert that finds an entry not older moves it to the front; every other insert
leaves exactly the longest prefix of total cost at most `maxSize` of the new entry followed by
the entries with other keys; and while a key stays in the cache its timestamp never
decreases. -/
theorem run_refines_lru (a : StringAlloc) (z : Sizeof) (maxSize : Nat) (calls : List Call) :
    ∃ c, run a (new z maxSize) calls = .ok c ∧ c.maxSize = maxSize ∧
      (∀ i pre e post, c.entries = pre ++ e :: post → e.index = i.index →
        ∃ c', c.step a (.getTile i) = .ok (c', some e.tile) ∧ c'.entries = e :: (pre ++ post)) ∧
      (∀ i, ¬ c.Holds i.index → c.step a (.getTile i) = .ok (c, none)) ∧
      (∀ r pre e post, c.entries = pre ++ e :: post → e.index = r.tileId.index →
        ¬ e.tile.timestamp < r.timestamp →
        ∃ c', c.step a (.insert r) = .ok (c', none) ∧ c'.entries = e :: (pre ++ post)) ∧
      (∀ r, (∀ e ∈ c.entries, e.index = r.tileId.index → e.tile.timestamp < r.timestamp) →
        ∃ c', c.step a (.insert r) = .ok (c', none) ∧
          IsLongestFit (cost c.tileSize) c.maxSize
            (entryOf a r :: Lib.Lru.remove Entry.index r.tileId.index c.entries) c'.entries) ∧
      (∀ k more c', StaysIn a k c more → run a c more = .ok c' →
        ∀ e ∈ c.entries, e.index = k → ∀ e' ∈ c'.entries, e'.index = k →
          e.tile.timestamp ≤ e'.tile.timestamp) := by
  obtain ⟨c, hr, hinv, hlim⟩ := run_spec calls (repInv_new a z maxSize)
  have hts : 0 < c.tileSize := by
    rw [hlim.1]; simp only [new]; omega
  refine ⟨c, hr, hlim.2, ?_, ?_, ?_, ?_, ?_⟩
  · exact fun i pre e post hsplit hei => getTile_hit hinv hts hsplit hei
  · exact fun i hno => getTile_miss hinv fun e he hei => hno ⟨e, he, hei⟩
  · exact fun r pre e post hsplit her hold => insert_current hinv hts hsplit her hold
  · exact fun r hold => insert_fits hinv hts hold
  · exact fun k more c' hstay hr' => run_stamp more hinv hstay hr'

end Cache

/-! ## 3. Printed keys -/

/-- The printed key of this identity loses nothing: the name holds no NUL and the text fits into
the buffer of `getIndex`. -/
def TileId.Fits (i : TileId) : Prop := '\x00' ∉ i.filename ∧ i.text.length ≤ 1023

instance (i : TileId) : Decidable i.Fits := inferInstanceAs (Decidable (_ ∧ _))

/-- The key of an identity that fits is its whole text. -/
theorem TileId.index_eq_text {i : TileId} (h : i.Fits) : i.index = i.text :=
  snprintf_eq_self h.2

/-- The text of an identity can be read back, whatever the file name is: it may hold colons and
digits, since the numbers are split off from the right. -/
theorem TileId.text_injective {i j : TileId} (hi : '\x00' ∉ i.filename)
    (hj : '\x00' ∉ j.filename) (h : i.text = j.text) : i = j := by
  have hcolon : ∀ n : Int, ':' ∉ decimal n := not_mem_decimal (by decide) (by decide)
  obtain ⟨hf, hfields⟩ := joinFields_injective (by simp)
    (by simp [hcolon]) (by simp [hcolon]) h
  rw [cString_eq_self hi, cString_eq_self hj] at hf
  simp only [List.cons.injEq, and_true] at hfields
  obtain ⟨hr, ht, hh, hv, hc, hq⟩ := hfields
  obtain ⟨f, r, t, h, v, c, q⟩ := i
  obtain ⟨f', r', t', h', v', c', q'⟩ := j
  simp only [TileId.mk.injEq]
  exact ⟨hf, Int32.toInt_inj.mp (decimal_injective hr), Int32.toInt_inj.mp (decimal_injective ht),
    Int32.toInt_inj.mp (decimal_injective hh), Int32.toInt_inj.mp (decimal_injective hv),
    CompressionType.toInt_injective (decimal_injective hc),
    Int32.toInt_inj.mp (decimal_injective hq)⟩

/-- **Keys that fit name one identity.** -/
theorem TileId.index_injective {i j : TileId} (hi : i.Fits) (hj : j.Fits)
    (h : i.index = j.index) : i = j :=
  text_injective hi.1 hj.1 (by rwa [← index_eq_text hi, ← index_eq_text hj])

/-- A name that fills the buffer is all there is of the key. -/
theorem TileId.index_of_long_name {i : TileId} (h0 : '\x00' ∉ i.filename)
    (hlen : i.filename.length = 1023) : i.index = i.filename := by
  have htext : i.text = i.filename ++ joinFields ':' []
      [decimal i.resolution.toInt, decimal i.tileNum.toInt, decimal i.hSequence.toInt,
        decimal i.vSequence.toInt, decimal i.compressionType.toInt, decimal i.quality.toInt] := by
    rw [TileId.text, indexText, joinFields_eq_append, cString_eq_self h0]
  rw [show i.index = snprintf 1024 i.text from rfl, htext, snprintf]
  exact List.take_left' hlen

namespace Cache

/-! ## 4. Hits return the tile that was asked for -/

/-- The identities that the call prints a key for fit. -/
def Call.Fits : Call → Prop
  | .insert r => r.tileId.Fits
  | .getTile i => i.Fits
  | .clear => True

/-- Every tile in the cache has a key that fits. -/
def AllFit (c : Cache) : Prop := ∀ e ∈ c.entries, e.tile.tileId.Fits

variable {a : StringAlloc} {c c' : Cache}

theorem step_allFit (h : RepInv a c) {call : Call} {out : Option RawTile} (hfit : call.Fits)
    (hs : c.step a call = .ok (c', out)) (hall : c.AllFit) : c'.AllFit := by
  intro e he
  rcases step_entries h hs he with hin | ⟨r, rfl, rfl, -⟩
  · exact hall e hin
  · exact hfit

theorem run_allFit : ∀ (calls : List Call) {c c' : Cache}, RepInv a c →
    (∀ call ∈ calls, call.Fits) → c.AllFit → run a c calls = .ok c' → c'.AllFit
  | [], c, c', _, _, hall, hr => by cases hr; exact hall
  | call :: calls, c, c', h, hfit, hall, hr => by
    obtain ⟨c1, out, hs, hinv, -⟩ := step_spec h call
    rw [run, hs] at hr
    exact run_allFit calls hinv (fun x hx => hfit x (by simp [hx]))
      (step_allFit h (hfit call (by simp)) hs hall) hr

/-- In a cache whose keys fit, a key that fits finds the tile it names. -/
theorem tileId_of_index (h : RepInv a c) (hall : c.AllFit) {i : TileId} (hi : i.Fits)
    {e : Entry} (he : e ∈ c.entries) (hei : e.index = i.index) : e.tile.tileId = i :=
  TileId.index_injective (hall e he) hi ((h.index_eq he).symm.trans hei)

/-- **A hit is the tile that was asked for**, in every run whose keys fit: no two identities that
fit share a key. -/
theorem hit_is_requested (a : StringAlloc) (z : Sizeof) (maxSize : Nat) (calls : List Call)
    (hfit : ∀ call ∈ calls, call.Fits) :
    (∀ i j : TileId, i.Fits → j.Fits → i.index = j.index → i = j) ∧
    ∃ c, run a (new z maxSize) calls = .ok c ∧
      ∀ i : TileId, i.Fits → ∀ c' t, c.step a (.getTile i) = .ok (c', some t) → t.tileId = i := by
  obtain ⟨c, hr, hinv, -⟩ := run_spec calls (repInv_new a z maxSize)
  have hall : c.AllFit := by
    refine run_allFit calls (repInv_new a z maxSize) hfit ?_ hr
    intro e he
    simp [entries, new, IndexedList.entries, IndexedList.empty] at he
  refine ⟨fun i j hi hj h => TileId.index_injective hi hj h, c, hr, ?_⟩
  intro i hi c' t hs
  obtain ⟨e, he, hei, rfl⟩ := getTile_found hinv hs
  exact tileId_of_index hinv hall hi he hei

/-! ## 5. ... and when it is not -/

/-- A library that gives a string exactly the room it needs. -/
def exactAlloc : StringAlloc := ⟨fun n => n, fun n => Nat.le_refl n⟩

/-- A file name that fills the buffer of `getIndex` on its own. -/
def longName : Text := List.replicate 1023 'a'

theorem length_longName : longName.length = 1023 := List.length_replicate

theorem length_longName_le : longName.length ≤ 1023 := Nat.le_of_eq length_longName

theorem nul_not_mem_longName : '\x00' ∉ longName :=
  fun h => absurd (List.eq_of_mem_replicate h) (by decide)

/-- The first tile of the image with the long name, at resolution `r`. -/
def longId (r : Int32) : TileId := ⟨longName, r, 0, 0, 90, .uncompressed, 0⟩

/-- The tile itself, at resolution 0, without pixels. -/
def longTile : RawTile :=
  { tileNum := 0, resolution := 0, hSequence := 0, vSequence := 90
    compressionType := .uncompressed, quality := 0
    filename := ⟨longName, 1023, length_longName_le⟩
    timestamp := 0, data := [], dataLength := 0, width := 0, height := 0, channels := 1, bpc := 8
    sampleType := .fixedPoint, padded := false }

theorem index_longId (r : Int32) : (longId r).index = longName :=
  TileId.index_of_long_name (i := longId r) nul_not_mem_longName length_longName

/-- The keys of a name with one character fit. -/
theorem hit_is_requested_short :
    (∀ call ∈ [Call.insert { longTile with filename := ⟨['a'], 1, by simp⟩ }], call.Fits) ∧
    ∃ c, run exactAlloc (new ⟨0, 0, 0, 0⟩ 1000)
        [.insert { longTile with filename := ⟨['a'], 1, by simp⟩ }] = .ok c ∧
      ∀ i : TileId, i.Fits → ∀ c' t, c.step exactAlloc (.getTile i) = .ok (c', some t) →
        t.tileId = i := by
  have hfit : ∀ call ∈ [Call.insert { longTile with filename := ⟨['a'], 1, by simp⟩ }],
      call.Fits := by
    simp only [List.mem_singleton, forall_eq]
    exact ⟨by decide, by decide⟩
  exact ⟨hfit, (hit_is_requested exactAlloc ⟨0, 0, 0, 0⟩ 1000 _ hfit).2⟩

/-- A tile that fits into an empty cache is found under every identity with its key. -/
theorem hit_after_insert (a : StringAlloc) (z : Sizeof) {maxSize : Nat} {r : RawTile} {i : TileId}
    (hcost : cost (new z maxSize).tileSize (entryOf a r) ≤ maxSize)
    (hkey : r.tileId.index = i.index) :
    ∃ c c', (new z maxSize).insert a r = .ok c ∧ RepInv a c ∧
      c.step a (.getTile i) = .ok (c', some r.copy) := by
  have hts : 0 < (new z maxSize).tileSize := by
    simp only [new]
    omega
  have hmax : (new z maxSize).maxSize ≠ 0 := by
    have := cost_pos hts (entryOf a r)
    change maxSize ≠ 0
    omega
  obtain ⟨c, hins, hinv, hlim, hent⟩ := insert_spec (repInv_new a z maxSize) hmax r
  -- the entry fits, so it is the one entry of the cache
  have hone : c.entries = [] ++ entryOf a r :: [] := by
    rw [hent, lruInsert_absent (by rfl)]
    refine fit_eq_self ?_
    rw [show (new z maxSize).entries = [] from rfl, total_cons, total_nil]
    exact hcost
  obtain ⟨c', hhit, -⟩ := getTile_hit hinv (by rw [hlim.1]; exact hts) hone hkey
  exact ⟨c, c', hins, hinv, hhit⟩

/-- **Long names collide.**  A cache that was given the tile of a 1023 character name at
resolution 0 returns it to a request for resolution 1: both keys are the name alone. -/
theorem long_names_collide :
    ∃ c c' t, run exactAlloc (new ⟨0, 0, 0, 0⟩ 1000000) [.insert longTile] = .ok c ∧
      c.step exactAlloc (.getTile (longId 1)) = .ok (c', some t) ∧ t.tileId = longId 0 ∧
      longId 0 ≠ longId 1 ∧ (longId 0).index = (longId 1).index := by
  have hkey : (longId 0).index = (longId 1).index := (index_longId 0).trans (index_longId 1).symm
  have hcap : (entryOf exactAlloc longTile).key.capacity = 1023 :=
    (congrArg List.length (index_longId 0)).trans length_longName
  have hcost : cost (new ⟨0, 0, 0, 0⟩ 1000000).tileSize (entryOf exactAlloc longTile)
      ≤ 1000000 := by
    rw [cost, hcap]
    decide
  obtain ⟨c, c', hins, -, hhit⟩ := hit_after_insert exactAlloc ⟨0, 0, 0, 0⟩ hcost hkey
  have hne : longId 0 ≠ longId 1 := fun h => absurd (congrArg TileId.resolution h) (by decide)
  refine ⟨c, c', _, ?_, hhit, rfl, hne, hkey⟩
  rw [run, step, hins]
  rfl

end Cache

end Iipsrv
