/-
# The image cache over many requests

The image cache is bounded by one `erase` in `FIF::run`, made when a path is not cached and the
cache is full, between `Initialise` and the opening of the image:

    test.Initialise();
    // Delete items if our list of images is too long.
    if (session->imageCache->size() >= MAXIMAGECACHE)
      session->imageCache->erase(session->imageCache->begin());

* Section 1: that is enough.  In every history the cache has at most `MAXIMAGECACHE` entries, and
  each is an image of the path it is stored under (`after_bounded`).
* Section 2: it is too early.  An image that exists but cannot be opened has already cost the cache
  an entry when the exception is thrown (`imageCache_kept_iff`).
-/
import Iipsrv.FIF.Histories
import Iipsrv.Server.Conditional

namespace Iipsrv

open Lib.Print (Text)
open Lib.Effects

namespace FIF

/-! ## 1. At most `MAXIMAGECACHE` entries -/

namespace ImageCache

/-- `begin()` of a map that is not empty is one of its elements. -/
def Begins (first : ImageCache → Nat) : Prop := ∀ c, c ≠ [] → first c < c.length

/-- The paths in the cache. -/
def keys (c : ImageCache) : List Text := c.map Prod.fst

section
variable {c : ImageCache} {path : Text} {im x : IIPImage} {first : ImageCache → Nat}

theorem find_eq_none_iff : c.find path = none ↔ path ∉ c.keys := by
  rw [find, List.lookup_eq_none_iff, keys, List.mem_map, not_exists]
  constructor
  · rintro h e ⟨he, rfl⟩
    simpa using h e he
  · intro h e he
    simpa using fun heq : path = e.1 => h e ⟨he, heq.symm⟩

theorem nodup_keys_assign (h : c.keys.Nodup) : (c.assign path im).keys.Nodup := by
  rw [keys, assign, List.map_cons, List.nodup_cons]
  exact ⟨by simp, h.sublist (List.filter_sublist.map Prod.fst)⟩

/-- An image that is not cached adds an entry, any other takes the place of the old one. -/
theorem length_assign_le : (c.assign path im).length ≤ c.length + 1 :=
  Nat.succ_le_succ (List.length_filter_le _ c)

theorem length_assign_of_find (h : c.find path = some x) :
    (c.assign path im).length ≤ c.length := by
  have hlt : (c.filter fun e => e.1 ≠ path).length < c.length := by
    rw [List.length_filter_lt_length_iff_exists]
    exact ⟨(path, x), mem_of_find h, by simp⟩
  exact hlt

theorem nodup_keys_evict (h : c.keys.Nodup) : (c.evict first).keys.Nodup := by
  unfold evict
  split
  · exact h.sublist ((List.eraseIdx_sublist c _).map Prod.fst)
  · exact h

/-- A full cache has an element to erase. -/
theorem Begins.lt_of_full (hfirst : Begins first) (hfull : maxImageCache ≤ c.length) :
    first c < c.length := by
  refine hfirst c ?_
  rintro rfl
  exact absurd hfull (by decide)

theorem length_evict_lt (hfirst : Begins first) (h : c.length ≤ maxImageCache) :
    (c.evict first).length < maxImageCache := by
  unfold evict
  split
  case isTrue hfull =>
    have hlt := hfirst.lt_of_full hfull
    rw [List.length_eraseIdx_of_lt hlt]
    omega
  case isFalse hroom => exact Nat.not_le.mp hroom

end

/-- One entry for a path, and not too many of them. -/
structure Bounded (c : ImageCache) : Prop where
  keys : c.keys.Nodup
  length : c.length ≤ maxImageCache

end ImageCache

open ImageCache

section
variable {disk : Disk} {openjpeg : Bool} {first : ImageCache → Nat} {argument : Text}
  {c : ImageCache} {histogramOf : ImageSource → List Nat}

/-- **A request keeps the bound**: a hit overwrites, and a miss makes room first. -/
theorem ImageCache.Bounded.run (hfirst : Begins first) (h : c.Bounded) :
    (FIF.run disk openjpeg first argument c).2.Bounded := by
  unfold FIF.run
  cases hfind : c.find argument with
  | some im =>
    dsimp only
    cases openFrom disk openjpeg im im.timestamp with
    | error e => exact h
    | ok image =>
      exact ⟨nodup_keys_assign h.keys, (length_assign_of_find hfind).trans h.length⟩
  | none =>
    dsimp only
    cases initialise disk argument with
    | error e => exact h
    | ok im =>
      have hroom := length_evict_lt hfirst h.length
      dsimp only
      cases openFrom disk openjpeg im 0 with
      | error e => exact ⟨nodup_keys_evict h.keys, hroom.le⟩
      | ok image =>
        exact ⟨nodup_keys_assign (nodup_keys_evict h.keys), length_assign_le.trans hroom⟩

/-- A histogram changes no path. -/
theorem ImageCache.Bounded.setHistogram (h : c.Bounded) (path : Text) (histogram : List Nat) :
    (c.setHistogram path histogram).Bounded := by
  have hkeys : (c.setHistogram path histogram).keys = c.keys := by
    unfold ImageCache.setHistogram ImageCache.keys
    rw [List.map_map]
    refine List.map_congr_left fun e _ => ?_
    rw [Function.comp_apply]
    split <;> rfl
  refine ⟨hkeys ▸ h.keys, ?_⟩
  unfold ImageCache.setHistogram
  rw [List.length_map]
  exact h.length

/-- So does every event. -/
theorem step_bounded (hfirst : Begins first) {σ : State} (h : σ.cache.Bounded) (e : Event) :
    (step openjpeg first histogramOf σ e).cache.Bounded := by
  cases e with
  | fif argument => exact h.run hfirst
  | histogram path =>
    unfold step
    dsimp only
    cases σ.disk path with
    | none => exact h
    | some s => exact h.setHistogram path (histogramOf s)
  | replace path source => exact h

end

/-- **The image cache stays bounded and keyed by its own paths**, whatever is requested and
whatever happens to the files. -/
theorem after_bounded (openjpeg : Bool) (first : ImageCache → Nat)
    (histogramOf : ImageSource → List Nat) (disk : Disk) (events : List Event)
    (hfirst : Begins first) :
    (after openjpeg first histogramOf ⟨disk, []⟩ events).cache.length ≤ maxImageCache ∧
      ∀ path im, (after openjpeg first histogramOf ⟨disk, []⟩ events).cache.find path = some im →
        im.imagePath = path := by
  have hbounded : (after openjpeg first histogramOf ⟨disk, []⟩ events).cache.Bounded :=
    after_invariant (I := fun σ => σ.cache.Bounded) (fun e _ σ h => step_bounded hfirst h e)
      ⟨List.nodup_nil, Nat.zero_le _⟩
  refine ⟨hbounded.length, fun path im hfind => ?_⟩
  exact (after_entry (mem_of_find hfind)).imagePath

/-- Two images, one of them replaced in between. -/
theorem after_bounded_twice :
    (after false (fun _ => 0) (fun _ => [])
      ⟨fun _ => some (singleFile .tif 1 (.tiff (greyTiff 4))), []⟩
      [.fif ['a'], .replace ['a'] (some (singleFile .tif 2 (.tiff (greyTiff 4)))), .fif ['b'],
        .fif ['a']]).cache.length ≤ maxImageCache :=
  (after_bounded false (fun _ => 0) (fun _ => []) _ _
    fun _ hne => List.length_pos_iff.mpr hne).1

/-! ## 2. A request that fails -/

/-- The same images under the same paths. -/
def ImageCache.Kept (c c' : ImageCache) : Prop := ∀ path, c'.find path = c.find path

section
variable {disk : Disk} {openjpeg : Bool} {first : ImageCache → Nat} {argument : Text}
  {c : ImageCache} {e : Thrown}

theorem ImageCache.Kept.refl (c : ImageCache) : c.Kept c := fun _ => rfl

/-- **What a failed request leaves behind.**  If the path is not cached and names a file, there
has been room made for it. -/
theorem run_of_error (h : (run disk openjpeg first argument c).1 = .error e) :
    (run disk openjpeg first argument c).2 =
      if c.find argument = none ∧ (disk argument).isSome then c.evict first else c := by
  unfold run at h ⊢
  cases hfind : c.find argument with
  | some im =>
    rw [hfind] at h
    dsimp only at h ⊢
    rw [finish_fst] at h
    rw [h, if_neg (by simp)]
    rfl
  | none =>
    rw [hfind] at h
    dsimp only at h ⊢
    unfold initialise at h ⊢
    cases hdisk : disk argument with
    | none => rw [if_neg (by simp)]
    | some s =>
      rw [hdisk] at h
      dsimp only at h ⊢
      rw [finish_fst] at h
      rw [h, if_pos ⟨rfl, rfl⟩]
      rfl

/-- An entry that is erased is missed. -/
theorem kept_evict_iff (hfirst : Begins first) (hkeys : c.keys.Nodup) :
    c.Kept (c.evict first) ↔ c.length < maxImageCache := by
  unfold evict
  split
  case isTrue hfull =>
    have hlt := hfirst.lt_of_full hfull
    refine ⟨fun hkept => ?_, fun hroom => absurd hfull (Nat.not_le.mpr hroom)⟩
    have hlt' : first c < c.keys.length := by rwa [keys, List.length_map]
    have hgone : c.keys.get ⟨first c, hlt'⟩ ∉ keys (c.eraseIdx (first c)) := by
      have herase : keys (c.eraseIdx (first c)) = c.keys.erase (c.keys.get ⟨first c, hlt'⟩) := by
        rw [List.get_eq_getElem, hkeys.erase_getElem]
        exact (List.eraseIdx_map Prod.fst c (first c)).symm
      rw [herase]
      exact hkeys.not_mem_erase
    have hthere : c.find (c.keys.get ⟨first c, hlt'⟩) ≠ none := by
      rw [ne_eq, find_eq_none_iff, not_not]
      exact List.get_mem _ _
    rw [← find_eq_none_iff, hkept] at hgone
    exact absurd hgone hthere
  case isFalse hroom => exact iff_of_true (Kept.refl c) (Nat.not_le.mp hroom)

/-- A failed request costs an entry if the cache is full, and the path names a file and is not
cached. -/
theorem kept_run_iff (hfirst : Begins first) (hkeys : c.keys.Nodup)
    (h : (run disk openjpeg first argument c).1 = .error e) :
    c.Kept (run disk openjpeg first argument c).2 ↔
      ¬ (c.find argument = none ∧ (disk argument).isSome ∧ maxImageCache ≤ c.length) := by
  rw [run_of_error h]
  split
  case isTrue hmiss =>
    rw [kept_evict_iff hfirst hkeys]
    simp [hmiss.1, hmiss.2]
  case isFalse hother =>
    refine iff_of_true (Kept.refl c) ?_
    rintro ⟨hnone, hsome, -⟩
    exact hother ⟨hnone, hsome⟩

end

/-- The cache that a failed `FIF::run` leaves in the session. -/
theorem imageCache_of_error {S : Server} {h : Headers} {src : Text} {s s' : Session} {e : Thrown}
    (htask : task S h src s = .error (.thrown e) s') (he : e ≠ .status 304) :
    (run S.disk S.openjpeg S.first (imagePath src) s.imageCache).1 = .error e ∧
      s'.imageCache = (run S.disk S.openjpeg S.first (imagePath src) s.imageCache).2 := by
  rcases hrun : run S.disk S.openjpeg S.first (imagePath src) s.imageCache with ⟨r, cache⟩
  cases r with
  | error e' =>
    obtain ⟨s₁, hlookup, hcache⟩ : ∃ s₁, lookup S (imagePath src) s = .error (.thrown e') s₁ ∧
        s₁.imageCache = cache := by
      unfold lookup
      rw [hrun]
      cases e' <;> exact ⟨_, rfl, rfl⟩
    have hfailed : task S h src s = .error (.thrown e') s₁ := EState.bind_error hlookup
    cases htask.symm.trans hfailed
    exact ⟨rfl, hcache⟩
  | ok im =>
    -- what is thrown behind the cache is the 304
    rcases task_cases S h src s with ⟨im', -, -, hok⟩ | ⟨im', s₁, -, -, hunmodified⟩ |
      ⟨e', s₁, herror, -⟩
    · cases htask.symm.trans hok
    · cases htask.symm.trans hunmodified
      exact absurd rfl he
    · rw [hrun] at herror
      cases herror

/-- **When a failed request leaves the image cache as it was**: unless the cache is full, and the
path names a file and is not cached.  Such a file could not be opened, and an entry is gone. -/
theorem imageCache_kept_iff (S : Server) (h : Headers) (src : Text) (s s' : Session) (e : Thrown)
    (hfirst : Begins S.first) (hkeys : s.imageCache.keys.Nodup)
    (hfailed : task S h src s = .error (.thrown e) s') (he : e ≠ .status 304) :
    s.imageCache.Kept s'.imageCache ↔
      ¬ (s.imageCache.find (imagePath src) = none ∧ (S.disk (imagePath src)).isSome ∧
        maxImageCache ≤ s.imageCache.length) := by
  obtain ⟨hrun, hcache⟩ := imageCache_of_error hfailed he
  rw [hcache]
  exact kept_run_iff hfirst hkeys hrun

/-- A file of a type that is not supported, whatever the path. -/
def unsupportedServer : Server :=
  smallServer fun _ => some (singleFile .unsupported 1 .unreadable)

/-- The session of a request to a server with this image cache. -/
def sessionWith (c : ImageCache) : Session := { freshSession with imageCache := c }

theorem imageCache_sessionWith (c : ImageCache) : (sessionWith c).imageCache = c := rfl

/-- The request for `b` fails. -/
theorem task_unsupported {c : ImageCache} (hb : c.find ['b'] = none) :
    task unsupportedServer (simpleHeaders [] []) ['b'] (sessionWith c) =
      .error (.thrown (.string "Unsupported image type: b"))
        (sessionWith (c.evict fun _ => 0)) := by
  have hrun : run unsupportedServer.disk unsupportedServer.openjpeg unsupportedServer.first ['b'] c
      = (.error (.string "Unsupported image type: b"), c.evict fun _ => 0) := by
    unfold run
    rw [hb]
    rfl
  have hlookup : lookup unsupportedServer (imagePath ['b']) (sessionWith c) =
      .error (.thrown (.string "Unsupported image type: b"))
        (sessionWith (c.evict fun _ => 0)) := by
    rw [DeepZoomExt.imagePath_singleton (by decide)]
    unfold lookup
    rw [imageCache_sessionWith, hrun]
    rfl
  exact EState.bind_error hlookup

/-- A cache with this many images. -/
def manyImages (n : Nat) : ImageCache :=
  (List.range n).map fun i => (List.replicate i 'a', IIPImage.new (List.replicate i 'a'))

theorem keys_manyImages (n : Nat) :
    (manyImages n).keys = (List.range n).map fun i => List.replicate i 'a' := by
  rw [manyImages, keys, List.map_map]
  rfl

theorem nodup_keys_manyImages (n : Nat) : (manyImages n).keys.Nodup := by
  rw [keys_manyImages]
  exact List.nodup_range.map (List.replicate_left_injective 'a')

/-- Two images are cached, and both are kept. -/
theorem imageCache_kept_iff_two :
    (manyImages 2).length = 2 ∧
      (manyImages 2).Kept (sessionWith ((manyImages 2).evict fun _ => 0)).imageCache := by
  have hroom : ¬ maxImageCache ≤ (manyImages 2).length := by decide
  exact ⟨rfl, (imageCache_kept_iff unsupportedServer (simpleHeaders [] []) ['b']
    (sessionWith (manyImages 2)) _ _ (fun _ hne => List.length_pos_iff.mpr hne)
    (nodup_keys_manyImages 2) (task_unsupported rfl) nofun).mpr fun h => hroom h.2.2⟩

/-- A full cache has lost an image when the request for `b` has failed. -/
theorem full_cache_loses_entry :
    (manyImages maxImageCache).keys.Nodup ∧
      task unsupportedServer (simpleHeaders [] []) ['b'] (sessionWith (manyImages maxImageCache)) =
        .error (.thrown (.string "Unsupported image type: b"))
          (sessionWith ((manyImages maxImageCache).evict fun _ => 0)) ∧
      ¬ (manyImages maxImageCache).Kept
        (sessionWith ((manyImages maxImageCache).evict fun _ => 0)).imageCache := by
  have hb : (manyImages maxImageCache).find ['b'] = none := by
    rw [find_eq_none_iff, keys_manyImages]
    intro hmem
    obtain ⟨i, -, hi⟩ := List.mem_map.mp hmem
    have hmem' : 'b' ∈ List.replicate i 'a' := hi ▸ List.mem_singleton_self 'b'
    exact absurd (List.eq_of_mem_replicate hmem') (by decide)
  have hlength : (manyImages maxImageCache).length = maxImageCache := by
    rw [manyImages, List.length_map, List.length_range]
  refine ⟨nodup_keys_manyImages _, task_unsupported hb, fun hkept => ?_⟩
  rw [imageCache_sessionWith] at hkept
  have hroom := (kept_evict_iff (fun _ hne => List.length_pos_iff.mpr hne)
    (nodup_keys_manyImages maxImageCache)).mp hkept
  rw [hlength] at hroom
  exact absurd hroom (Nat.lt_irrefl _)

end FIF

end Iipsrv
