/-
# Cached and uncached tiles

What the tile manager answers from its cache against what it answers without one.

There are three ways to answer: the encoded tile found in the cache, the raw tile found there
and encoded on the fly, and a new one.  `fromCache_eq` says that they give the same tile when
they start from the same source.  The key does not hold the whole source: the timestamp is
compared by `getTile` itself, and the number of layers by nobody, so the requests have to agree
on it (`Orderly`).  `cached_eq_uncached` is the result for whole histories, and
`long_path_serves_other_tile` what happens when the keys do not fit.
-/
import Iipsrv.TileManager.Steps

namespace Iipsrv

open Lib.Print (Text)
open Lib.Effects

variable {K : Codec} {E : Encoder} {a : StringAlloc} {c : Cache} {H : List Request}

/-! ## 1. Requests for the same pixels -/

/-- What a tile is decoded from. -/
structure Source where
  path : Text
  timestamp : Int
  resolution : Int32
  tile : Int32
  xangle : Int32
  yangle : Int32
  layers : Int32

def Request.source (q : Request) : Source :=
  ⟨q.image.imagePath.chars, q.image.timestamp, q.resolution, q.tile, q.xangle, q.yangle, q.layers⟩

/-- The same pixels, in another form. -/
def Request.inForm (q : Request) (ct : CompressionType) (quality : Int32) : Request :=
  { q with ctype := ct, quality := quality }

/-- The same tile, with another copy of its file name. -/
def RawTile.renamed (p : StdString) (t : RawTile) : RawTile := { t with filename := p }

theorem info_of_source {q s : Request} (h : q.source = s.source) : q.info K = s.info K := by
  have hp : q.image.imagePath.chars = s.image.imagePath.chars := congrArg Source.path h
  have ht : q.image.timestamp = s.image.timestamp := congrArg Source.timestamp h
  rw [Request.info, Request.info, hp, ht]

theorem decode_of_source {q s : Request} (h : q.source = s.source) :
    decode K q = (decode K s).map (RawTile.renamed q.image.imagePath) := by
  obtain ⟨⟨pq, tq⟩, rq, nq, xq, yq, lq, cq, uq⟩ := q
  obtain ⟨⟨ps, ts⟩, rs, ns, xs, ys, ls, cs, us⟩ := s
  simp only [Request.source, Source.mk.injEq] at h
  obtain ⟨hp, rfl, rfl, rfl, rfl, rfl, rfl⟩ := h
  unfold decode
  dsimp only
  rw [hp]
  cases K.getTile ps.chars tq xq yq rq lq nq <;> rfl

theorem crop_renamed (im : ImageInfo) (p : StdString) (t : RawTile) :
    crop im (t.renamed p) = (crop im t).map (RawTile.renamed p) := by
  unfold crop RawTile.renamed
  dsimp only
  split
  · rfl
  · split <;> rfl

theorem cropEdge_renamed (im : ImageInfo) (p : StdString) (t : RawTile) :
    cropEdge im (t.renamed p) = (cropEdge im t).map (RawTile.renamed p) := by
  by_cases h : Settled im t
  · have h' : Settled im (t.renamed p) := h
    rw [cropEdge_of_settled h, cropEdge_of_settled h']
    rfl
  · have hcrop : cropEdge im t = crop im t := if_pos (not_not.mp h)
    have hcrop' : cropEdge im (t.renamed p) = crop im (t.renamed p) := if_pos (not_not.mp h)
    rw [hcrop, hcrop', crop_renamed]

theorem compress_renamed (ct : CompressionType) (quality : Int32) (p : StdString) (t : RawTile) :
    compress E ct quality (t.renamed p)
      = (compress E ct quality t).map (RawTile.renamed p) := by
  cases ct with
  | uncompressed => rfl
  | deflate => rfl
  | jpeg =>
    change (jpegBytes E quality t).map _ = ((jpegBytes E quality t).map _).map _
    cases jpegBytes E quality t <;> rfl
  | png =>
    change (pngBytes E quality t).map _ = ((pngBytes E quality t).map _).map _
    cases pngBytes E quality t <;> rfl

/-- **A new tile depends on its source and on the form asked for**, up to the copy of the file
name that it carries. -/
theorem newTile_of_source {q s : Request} (h : q.source = s.source) :
    newTile K E q
      = (newTile K E (s.inForm q.ctype q.quality)).map (RawTile.renamed q.image.imagePath) := by
  have hinfo := info_of_source (K := K) h
  have hraw : rawTile K q = (rawTile K s).map (RawTile.renamed q.image.imagePath) := by
    unfold rawTile
    rw [decode_of_source h, hinfo]
    cases decode K s with
    | error e => rfl
    | ok t => exact cropEdge_renamed (s.info K) _ t
  have hraw' : rawTile K (s.inForm q.ctype q.quality) = rawTile K s := rfl
  unfold newTile
  rw [hraw, hraw']
  cases rawTile K s with
  | error e => rfl
  | ok t =>
    change (if Encodes q.ctype t then compress E q.ctype q.quality (t.renamed _)
        else .ok (t.renamed _))
      = (if Encodes q.ctype t then compress E q.ctype q.quality t else .ok t).map _
    split
    · exact compress_renamed ..
    · rfl

/-- A new tile in raw form is the raw tile, whatever form it was made for. -/
theorem rawTile_of_newTile {q : Request} {t : RawTile} (h : newTile K E q = .ok t)
    (hraw : t.compressionType = .uncompressed) : rawTile K q = .ok t := by
  obtain ⟨r, hr, ⟨-, rfl⟩ | ⟨-, hct, out, rfl⟩⟩ := newTile_cases h
  · exact hr
  · exact absurd hraw hct

/-- A new tile in encoded form is the one of its type and quality. -/
theorem form_of_newTile {q : Request} {t : RawTile} (h : newTile K E q = .ok t)
    (henc : t.compressionType ≠ .uncompressed) :
    q.ctype = t.compressionType ∧ q.quality = t.quality := by
  obtain ⟨r, hr, ⟨-, rfl⟩ | ⟨-, hct, out, rfl⟩⟩ := newTile_cases h
  · obtain ⟨-, hid, -⟩ := rawTile_spec hr
    exact absurd (congrArg TileId.compressionType hid) henc
  · exact ⟨rfl, rfl⟩

/-- **The three ways to answer agree.**  From a copy of any new tile for the same source that
the request names, encoded or raw, the cache gives the new tile in the form asked for. -/
theorem fromCache_eq {q s : Request} {ct : CompressionType} {quality : Int32} {t : RawTile}
    (hsource : q.source = s.source) (ht : newTile K E (s.inForm ct quality) = .ok t)
    (hname : Names q t.tileId) :
    (fromCache K E q t.copy).map RawTile.copy
      = (newTile K E (s.inForm q.ctype q.quality)).map RawTile.copy := by
  by_cases hraw : t.compressionType = .uncompressed
  · -- a raw tile: what is left to do is the last step of `newTile`
    have hr : rawTile K (s.inForm ct quality) = .ok t := rawTile_of_newTile ht hraw
    have hset : Settled (q.info K) t.copy.copy := by
      rw [info_of_source hsource]
      exact (rawTile_spec hr).1
    have hnew : newTile K E (s.inForm q.ctype q.quality)
        = if Encodes q.ctype t then compress E q.ctype q.quality t else .ok t := by
      unfold newTile
      rw [show rawTile K (s.inForm q.ctype q.quality) = .ok t from hr]
      rfl
    rw [hnew]
    by_cases henc : Encodes q.ctype t
    · have hfrom : fromCache K E q t.copy = compress E q.ctype q.quality t.copy := by
        unfold fromCache
        rw [if_pos ⟨hraw, henc⟩, cropEdge_of_settled hset, RawTile.copy_copy]
        rfl
      rw [hfrom, if_pos henc, compress_copy]
    · have hfrom : fromCache K E q t.copy = .ok t.copy := if_neg fun hc => henc hc.2
      rw [hfrom, if_neg henc]
      exact congrArg Except.ok (RawTile.copy_copy t)
  · -- an encoded tile is already the one asked for
    have hfrom : fromCache K E q t.copy = .ok t.copy := if_neg fun hc => hraw hc.1
    have hid : t.tileId = q.tileId q.ctype q.quality := by
      rcases hname with hid | ⟨-, hid⟩
      · exact absurd (congrArg TileId.compressionType hid) hraw
      · exact hid
    obtain ⟨hct, hqual⟩ := form_of_newTile ht hraw
    have hct : ct = q.ctype := hct.trans (congrArg TileId.compressionType hid)
    have hqual : quality = q.quality := hqual.trans (congrArg TileId.quality hid)
    rw [hfrom, ← hct, ← hqual, ht]
    exact congrArg Except.ok (RawTile.copy_copy t)

/-! ## 2. Cached and uncached answers agree -/

/-- `t` is a new tile for the pixels of `s`, in some form. -/
def IsNewTile (K : Codec) (E : Encoder) (s : Request) (t : RawTile) : Prop :=
  ∃ ct quality r, newTile K E (s.inForm ct quality) = .ok r ∧ t = r.copy

/-- Requests in the order they arrive: they ask for the same number of layers, and the
timestamp of an image file does not go back. -/
structure Orderly (qs : List Request) : Prop where
  layers : ∀ q ∈ qs, ∀ s ∈ qs, q.layers = s.layers
  stamps : qs.Pairwise fun s q =>
    s.image.imagePath.chars = q.image.imagePath.chars → s.image.timestamp ≤ q.image.timestamp

theorem Orderly.sublist {qs qs' : List Request} (h : Orderly qs) (hsub : List.Sublist qs' qs) :
    Orderly qs' :=
  ⟨fun q hq s hs => h.layers q (hsub.subset hq) s (hsub.subset hs), h.stamps.sublist hsub⟩

/-- A tile made for an earlier request, that this one names and that is not older than the
image, is made from the same source. -/
theorem source_eq {H : List Request} {q s : Request} (ho : Orderly (H ++ [q])) (hs : s ∈ H)
    {ct : CompressionType} {quality : Int32} {t : RawTile}
    (ht : newTile K E (s.inForm ct quality) = .ok t) (hname : Names q t.tileId)
    (hold : ¬ t.timestamp < q.image.timestamp) : q.source = s.source := by
  obtain ⟨hid, hts⟩ := newTile_names ht
  have hts : t.timestamp = s.image.timestamp := hts
  have hsame : SameTile s q := by
    rcases hid with hid | ⟨-, hid⟩ <;> exact (hid ▸ hname).sameTile
  obtain ⟨hpath, hres, htile, hx, hy⟩ := hsame
  have hlayers := ho.layers q (by simp) s (by simp [hs])
  have hstamp := (List.pairwise_append.mp ho.stamps).2.2 s hs q (by simp) hpath
  have htime : q.image.timestamp = s.image.timestamp := by omega
  simp only [Request.source, Source.mk.injEq]
  exact ⟨hpath.symm, htime, hres.symm, htile.symm, hx.symm, hy.symm, hlayers⟩

/-- New tiles are what the cache holds and what it is given. -/
theorem admits_isNewTile {H : List Request} {q : Request} (ho : Orderly (H ++ [q])) :
    Admits K E (IsNewTile K E) H q where
  new := fun t ht => ⟨q.ctype, q.quality, t, ht, rfl⟩
  hit := by
    rintro s hs t t' ⟨ct, quality, r, hr, rfl⟩ hname hold hfrom
    have heq := fromCache_eq (source_eq ho hs hr hname hold) hr hname
    rw [hfrom] at heq
    obtain ⟨r', hr', hcopy⟩ := map_eq_ok heq.symm
    exact ⟨q.ctype, q.quality, r', hr', hcopy⟩

/-- What is shown of a tile is not changed by copying it or by its file name. -/
theorem shown_copy (t : RawTile) : t.copy.shown = t.shown := by
  simp [RawTile.shown, RawTile.copy]

/-- The answer of a computation that ends as a tile or an error. -/
theorem answer_eq {q : Request} {c' : Cache} {x : Except Failure RawTile}
    (hget : getTile K E a q c = Manager.ofExcept x c') :
    answer K E a c q = x.map RawTile.shown := by
  unfold answer
  rw [hget]
  cases x <;> rfl

/-- From a cache that holds nothing but new tiles, the answer is the new tile. -/
theorem Sound.answer (h : Sound a (IsNewTile K E) H c) {q : Request} (hq : q.Fits)
    (ho : Orderly (H ++ [q])) :
    answer K E a c q = (newTile K E q).map RawTile.shown := by
  obtain ⟨c', -, -, ⟨hget, -⟩ | ⟨e, he, hname, hold, hget, -⟩⟩ :=
    getTile_cases (K := K) (E := E) h.repInv h.allFit hq
  · exact answer_eq hget
  · obtain ⟨s, hs, ct, quality, r, hr, hre⟩ := h.provenance e he
    rw [hre] at hname hold hget
    have hsource := source_eq ho hs hr hname hold
    rw [answer_eq hget, fromCache_eq hsource hr hname, newTile_of_source hsource]
    cases newTile K E (s.inForm q.ctype q.quality) with
    | error e => rfl
    | ok t => exact congrArg Except.ok (shown_copy t)

/-- A request whose new tile can be made is answered with that tile, and the cache stays
sound. -/
theorem Sound.getTile_ok (h : Sound a (IsNewTile K E) H c) {q : Request} (hq : q.Fits)
    (ho : Orderly (H ++ [q])) {r : RawTile} (hr : newTile K E q = .ok r) :
    ∃ t c', getTile K E a q c = .ok t c' ∧ t.shown = r.shown ∧
      Sound a (IsNewTile K E) (H ++ [q]) c' := by
  have hans := h.answer hq ho
  rw [hr] at hans
  unfold Iipsrv.answer at hans
  cases hget : getTile K E a q c with
  | error e c' => rw [hget] at hans; cases hans
  | ok t c' =>
    rw [hget] at hans
    refine ⟨t, c', rfl, Except.ok.inj hans, h.serve hq (admits_isNewTile ho) ?_⟩
    unfold Iipsrv.serve
    rw [hget]

/-- **The cache is transparent.**  After every history of requests whose keys fit, that ask for
one number of layers and see the timestamps of an image grow, a request is answered as on an
empty cache: the same bytes, sizes, type and quality, or the same failure. -/
theorem cached_eq_uncached (K : Codec) (E : Encoder) (a : StringAlloc) (z : Sizeof)
    (maxSize : Nat) (history : List Request) (q : Request)
    (hfit : ∀ s ∈ history ++ [q], s.Fits) (ho : Orderly (history ++ [q])) (c : Cache)
    (hrun : serveAll K E a (Cache.new z maxSize) history = some c) :
    answer K E a c q = answer K E a (Cache.new z maxSize) q := by
  have hq : q.Fits := hfit q (by simp)
  have hsound : Sound a (IsNewTile K E) history c := by
    refine Sound.serveAll (fun s hs => hfit s (by simp [hs])) ?_ (List.nil_append _)
      (sound_new a _ z maxSize) hrun
    exact fun H s hpre => admits_isNewTile
      (ho.sublist (hpre.sublist.trans (List.sublist_append_left history [q])))
  have hempty : Sound a (IsNewTile K E) [] (Cache.new z maxSize) := sound_new a _ z maxSize
  rw [hsound.answer hq ho, hempty.answer hq (ho.sublist (List.sublist_append_right history [q]))]

/-! ## 3. ... and where they do not: long paths -/

/-- A codec whose tiles are one pixel that tells the tile number and the layers. -/
def probe : Codec where
  info _ _ :=
    { tileWidth := 1, tileHeight := 1, numResolutions := 1, imageWidths := [2]
      imageHeights := [1], channels := 2, bpc := 8, sampleType := .fixedPoint
      colourspace := .greyscale, regionDecoding := false }
  getTile _ _ _ _ _ layers tile := .ok
    { width := 1, height := 1, channels := 2, bpc := 8, sampleType := .fixedPoint
      data := [UInt8.ofNat tile.toInt.toNat, UInt8.ofNat layers.toInt.toNat]
      dataLength := 2, padded := false }
  getRegion _ _ _ _ _ _ _ _ _ _ := .error "not decoded by region"

/-- An encoder that is not called below. -/
def noEncoder : Encoder where
  jpeg _ _ _ _ _ := .ok []
  png _ _ _ _ _ _ := .ok []

/-- A request for a raw tile of the image at this path. -/
def rawRequest (path : StdString) (tile layers : Int32) : Request :=
  ⟨⟨path, 0⟩, 0, tile, 0, 90, layers, .uncompressed, 0⟩

/-- A short path. -/
def shortPath : StdString := ⟨['a'], 1, by decide⟩

/-- The path of 1023 characters. -/
def longPath : StdString := ⟨Cache.longName, 1023, Cache.length_longName_le⟩

/-- A tile of a short path asked for twice: the second answer comes from the cache. -/
theorem cached_eq_uncached_short :
    ∃ c, serveAll probe noEncoder Cache.exactAlloc (Cache.new ⟨0, 0, 0, 0⟩ 1000)
          [rawRequest shortPath 0 1] = some c ∧
      answer probe noEncoder Cache.exactAlloc c (rawRequest shortPath 0 1)
        = answer probe noEncoder Cache.exactAlloc (Cache.new ⟨0, 0, 0, 0⟩ 1000)
            (rawRequest shortPath 0 1) := by
  have hrun : (serveAll probe noEncoder Cache.exactAlloc (Cache.new ⟨0, 0, 0, 0⟩ 1000)
      [rawRequest shortPath 0 1]).isSome = true := by decide
  obtain ⟨c, hc⟩ := Option.isSome_iff_exists.mp hrun
  refine ⟨c, hc, cached_eq_uncached _ _ _ _ _ _ _ ?_ ⟨?_, ?_⟩ c hc⟩
  · decide
  · decide
  · decide

/-- An empty cache holds nothing. -/
theorem cached_new (i : TileId) (z : Sizeof) (maxSize : Nat) :
    Manager.cached i (Cache.new z maxSize) = .ok none (Cache.new z maxSize) := by
  have hget : (Cache.new z maxSize).getTile i.filename i.resolution i.tileNum i.hSequence
      i.vSequence i.compressionType i.quality = .ok (Cache.new z maxSize, none) := by
    unfold Cache.getTile
    split <;> rfl
  unfold Manager.cached
  rw [hget]

/-- On an empty cache a request for a raw tile makes it, and puts it into the cache. -/
theorem getTile_new {z : Sizeof} {maxSize : Nat} {q : Request} {r : RawTile}
    (hq : q.ctype = .uncompressed) (hnew : newTile K E q = .ok r) :
    getTile K E a q (Cache.new z maxSize)
      = (do .insert a r; return r : Manager RawTile) (Cache.new z maxSize) := by
  have hlook : lookupTile q (Cache.new z maxSize) = .ok none (Cache.new z maxSize) := by
    unfold lookupTile
    rw [hq]
    exact cached_new _ z maxSize
  unfold getTile
  rw [EState.bind_ok hlook]
  dsimp only
  rw [getNewTile_eq, hnew]
  rfl

/-- A raw tile found in the cache, and not older than the image, answers the request. -/
theorem getTile_raw_hit {q : Request} {r : RawTile} {c' : Cache} (hq : q.ctype = .uncompressed)
    (htime : ¬ r.timestamp < q.image.timestamp)
    (hhit : Manager.cached (q.tileId .uncompressed 0) c = .ok (some r) c') :
    getTile K E a q c = .ok r.copy c' := by
  have hlook : lookupTile q c = .ok (some r) c' := by
    unfold lookupTile
    rw [hq]
    exact hhit
  have henc : ¬ (r.compressionType = .uncompressed ∧ Encodes q.ctype r) := by
    rw [hq]
    rintro ⟨-, ⟨h, -⟩ | h⟩ <;> cases h
  unfold getTile
  rw [EState.bind_ok hlook]
  dsimp only
  rw [if_neg htime, if_neg henc]
  rfl

/-- **Two requests with one key**, one after the other on an empty cache: the second is answered
with the tile of the first. -/
theorem getTile_collision (a : StringAlloc) (z : Sizeof) {maxSize : Nat} {q q' : Request}
    {r : RawTile} (hq : q.ctype = .uncompressed) (hq' : q'.ctype = .uncompressed)
    (hnew : newTile K E q = .ok r) (htime : ¬ r.timestamp < q'.image.timestamp)
    (hcost : Cache.cost (Cache.new z maxSize).tileSize (Cache.entryOf a r) ≤ maxSize)
    (hkey : r.tileId.index = (q'.tileId .uncompressed 0).index) :
    ∃ c c', getTile K E a q (Cache.new z maxSize) = .ok r c ∧
      getTile K E a q' c = .ok r.copy c' := by
  obtain ⟨c, c', hins, -, hhit⟩ := Cache.hit_after_insert a z hcost hkey
  have hins' : Manager.insert a r (Cache.new z maxSize) = .ok () c := by
    unfold Manager.insert
    rw [hins]
  have hhit' : Manager.cached (q'.tileId .uncompressed 0) c = .ok (some r.copy) c' := by
    unfold Cache.step at hhit
    unfold Manager.cached
    dsimp only at hhit
    rw [hhit]
  refine ⟨c, c', ?_, ?_⟩
  · rw [getTile_new hq hnew, EState.bind_ok hins']
    rfl
  · have htime' : ¬ r.copy.timestamp < q'.image.timestamp := htime
    rw [getTile_raw_hit hq' htime' hhit', RawTile.copy_copy]

/-- The pixel that `probe` gives to a request. -/
def probeTile (path : StdString) (tile layers : Int32) : RawTile :=
  { tileNum := tile, resolution := 0, hSequence := 0, vSequence := 90
    compressionType := .uncompressed, quality := 0, filename := path, timestamp := 0
    data := [UInt8.ofNat tile.toInt.toNat, UInt8.ofNat layers.toInt.toNat], dataLength := 2
    width := 1, height := 1, channels := 2, bpc := 8, sampleType := .fixedPoint
    padded := false }

theorem newTile_probe (path : StdString) (tile layers : Int32) :
    newTile probe noEncoder (rawRequest path tile layers) = .ok (probeTile path tile layers) :=
  rfl

/-- Two requests of `probe` with one key: the second sees the pixel of the first. -/
theorem answer_probe_collision (z : Sizeof) {maxSize : Nat} {path : StdString}
    (tile layers tile' layers' : Int32)
    (hcost : Cache.cost (Cache.new z maxSize).tileSize
      (Cache.entryOf a (probeTile path tile layers)) ≤ maxSize)
    (hkey : ((rawRequest path tile layers).tileId .uncompressed 0).index
      = ((rawRequest path tile' layers').tileId .uncompressed 0).index) :
    ∃ c c', serveAll probe noEncoder a (Cache.new z maxSize) [rawRequest path tile layers]
        = some c ∧
      getTile probe noEncoder a (rawRequest path tile' layers') c
        = .ok (probeTile path tile layers) c' := by
  obtain ⟨c, c', hfirst, hsecond⟩ : ∃ c c',
      getTile probe noEncoder a (rawRequest path tile layers) (Cache.new z maxSize)
        = .ok (probeTile path tile layers) c ∧
      getTile probe noEncoder a (rawRequest path tile' layers') c
        = .ok (probeTile path tile layers).copy c' :=
    getTile_collision a z rfl rfl (newTile_probe path tile layers) (Int.lt_irrefl 0) hcost hkey
  refine ⟨c, c', ?_, hsecond⟩
  unfold serveAll
  rw [List.foldlM_cons, serve, hfirst]
  rfl

/-- On an empty cache a request of `probe` sees its own pixel. -/
theorem answer_probe_new (z : Sizeof) (maxSize : Nat) (path : StdString) (tile layers : Int32) :
    answer probe noEncoder a (Cache.new z maxSize) (rawRequest path tile layers)
      = .ok (probeTile path tile layers).shown := by
  obtain ⟨c', hins, -⟩ :=
    insert_adds (Cache.repInv_new a z maxSize) (probeTile path tile layers)
  unfold answer
  rw [getTile_new rfl (newTile_probe path tile layers), EState.bind_ok hins]
  rfl

/-- **Under a long path another tile is served.**  Tile 1 of an image whose path has 1023
characters is asked for after tile 0: the answer is tile 0, because both are filed under the
path alone. -/
theorem long_path_serves_other_tile :
    Orderly [rawRequest longPath 0 1, rawRequest longPath 1 1] ∧
    ∃ c, serveAll probe noEncoder Cache.exactAlloc (Cache.new ⟨0, 0, 0, 0⟩ 1000000)
          [rawRequest longPath 0 1] = some c ∧
      answer probe noEncoder Cache.exactAlloc c (rawRequest longPath 1 1)
        = .ok ⟨[0, 1], 1, 1, 2, 8, .uncompressed, 0⟩ ∧
      answer probe noEncoder Cache.exactAlloc (Cache.new ⟨0, 0, 0, 0⟩ 1000000)
          (rawRequest longPath 1 1)
        = .ok ⟨[1, 1], 1, 1, 2, 8, .uncompressed, 0⟩ := by
  have hindex : ∀ tile : Int32,
      ((rawRequest longPath tile 1).tileId .uncompressed 0).index = Cache.longName := fun _ =>
    TileId.index_of_long_name Cache.nul_not_mem_longName Cache.length_longName
  have hcap : (Cache.entryOf Cache.exactAlloc (probeTile longPath 0 1)).key.capacity = 1023 :=
    (congrArg List.length (hindex 0)).trans Cache.length_longName
  have hcost : Cache.cost (Cache.new ⟨0, 0, 0, 0⟩ 1000000).tileSize
      (Cache.entryOf Cache.exactAlloc (probeTile longPath 0 1)) ≤ 1000000 := by
    rw [Cache.cost, hcap]
    decide
  obtain ⟨c, c', hrun, hget⟩ := answer_probe_collision _ 0 1 1 1 hcost
    ((hindex 0).trans (hindex 1).symm)
  refine ⟨⟨by simp [rawRequest], by simp [rawRequest]⟩, c, hrun, ?_, answer_probe_new _ _ _ _ _⟩
  unfold answer
  rw [hget]
  rfl

end Iipsrv
