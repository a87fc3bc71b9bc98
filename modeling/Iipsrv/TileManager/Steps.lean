/-
# What the tile manager does to its cache

The manager's step, said once.  `newTile` is the computation of `getNewTile` with the cache left
out, `fromCache` is what `getTile` does with a tile it has found.  `getTile_cases` says that a
request is answered by one of the two, and that what it adds to the cache is what it answers
with.  The printed keys have to fit the buffer of `getIndex`: then a tile that is found carries
the identity that was asked for.

From there on nothing is said about the cache but `Sound`: each of its tiles is one that a
predicate `P` admits for some request of the history.  `Sound.serveAll` carries that through a
whole run, for every `P` that the two computations respect.
-/
import Iipsrv.TileManager.Model
import Iipsrv.Lib.Effects

namespace Iipsrv

open Lib.Print (Text)
open Lib.Effects

/-! ## 1. A new tile, without the cache -/

/-- The raw tile: decoded, and cropped at the edges. -/
def rawTile (K : Codec) (q : Request) : Except Failure RawTile := do
  let t ← decode K q
  cropEdge (q.info K) t

/-- The tile in the form asked for. -/
def newTile (K : Codec) (E : Encoder) (q : Request) : Except Failure RawTile := do
  let t ← rawTile K q
  if Encodes q.ctype t then compress E q.ctype q.quality t else .ok t

variable {K : Codec} {E : Encoder} {a : StringAlloc}

/-- Steps that do not touch the cache compose as they do without it. -/
theorem Manager.ofExcept_bind {α β : Type} (x : Except Failure α) (f : α → Except Failure β) :
    Manager.ofExcept (x >>= f) = Manager.ofExcept x >>= fun t => Manager.ofExcept (f t) := by
  cases x <;> rfl

/-- `getNewTile` computes `newTile` and puts it into the cache. -/
theorem getNewTile_eq (q : Request) :
    getNewTile K E a q = do
      let t ← .ofExcept (newTile K E q)
      .insert a t
      return t := by
  unfold getNewTile newTile rawTile
  rw [bind_assoc, Manager.ofExcept_bind, bind_assoc]
  refine bind_congr fun t₁ => ?_
  rw [Manager.ofExcept_bind, bind_assoc]
  refine bind_congr fun t₂ => ?_
  -- the four cases of the source are the one test `Encodes`
  unfold Encodes
  cases q.ctype with
  | uncompressed => rfl
  | deflate => rfl
  | png => rfl
  | jpeg =>
    by_cases h : t₂.bpc = 8 ∧ (t₂.channels = 1 ∨ t₂.channels = 3)
    · simp [h]
    · simp [h]
      rfl

/-! ## 2. What the steps leave alone -/

/-- Nothing is left to crop. -/
def Settled (im : ImageInfo) (t : RawTile) : Prop :=
  ¬ ((t.width ≠ im.tileWidth ∨ t.height ≠ im.tileHeight) ∧ t.padded = true)

theorem cropEdge_of_settled {im : ImageInfo} {t : RawTile} (h : Settled im t) :
    cropEdge im t = .ok t := if_neg h

/-- **Cropping is done once**, and touches the buffer only. -/
theorem cropEdge_spec {im : ImageInfo} {t t' : RawTile} (h : cropEdge im t = .ok t') :
    Settled im t' ∧
      t' = { t with data := t'.data, dataLength := t'.dataLength, padded := t'.padded } := by
  unfold cropEdge at h
  split at h
  case isFalse hset =>
    obtain rfl := Except.ok.inj h
    exact ⟨hset, rfl⟩
  case isTrue =>
    unfold crop at h
    dsimp only at h
    split at h
    · cases h
    · split at h
      · cases h
      · obtain rfl := Except.ok.inj h
        exact ⟨fun hs => Bool.false_ne_true hs.2, rfl⟩

/-- What `Compress` returns: the encoder's bytes for the two types that have an encoder, the
tile itself for the others. -/
theorem compress_cases {ct : CompressionType} {quality : Int32} {t t' : RawTile}
    (h : compress E ct quality t = .ok t') :
    ((ct = .uncompressed ∨ ct = .deflate) ∧ t' = t) ∨
      ((ct = .jpeg ∨ ct = .png) ∧ ∃ out, t' = t.encoded ct quality out) := by
  cases ct with
  | uncompressed => exact .inl ⟨.inl rfl, (Except.ok.inj h).symm⟩
  | deflate => exact .inl ⟨.inr rfl, (Except.ok.inj h).symm⟩
  | jpeg =>
    obtain ⟨out, -, ht⟩ := map_eq_ok h
    exact .inr ⟨.inl rfl, out, ht⟩
  | png =>
    obtain ⟨out, -, ht⟩ := map_eq_ok h
    exact .inr ⟨.inr rfl, out, ht⟩

/-- A tile whose type calls for encoding is encoded. -/
theorem compress_spec {ct : CompressionType} {quality : Int32} {t t' : RawTile}
    (henc : Encodes ct t) (h : compress E ct quality t = .ok t') :
    ct ≠ .uncompressed ∧ ∃ out, t' = t.encoded ct quality out := by
  have hct : ct = .jpeg ∨ ct = .png := henc.imp_left And.left
  rcases compress_cases h with ⟨hno, -⟩ | ⟨-, hout⟩
  · rcases hct with rfl | rfl <;> rcases hno with hno | hno <;> cases hno
  · exact ⟨by rcases hct with rfl | rfl <;> decide, hout⟩

/-- The encoded bytes do not depend on what lies behind the used part of the buffer. -/
theorem copy_encoded (t : RawTile) (ct : CompressionType) (quality : Int32) (out : List UInt8) :
    (t.encoded ct quality out).copy = { t.encoded ct quality out with data := out } := by
  unfold RawTile.encoded RawTile.copy
  dsimp only
  split <;> simp

/-- **Compressing a copy is copying the compressed tile.** -/
theorem compress_copy (ct : CompressionType) (quality : Int32) (t : RawTile) :
    (compress E ct quality t.copy).map RawTile.copy
      = (compress E ct quality t).map RawTile.copy := by
  have hdata : t.copy.data.take t.copy.dataLength = t.data.take t.dataLength := by
    simp [RawTile.copy]
  have henc : ∀ out, (t.copy.encoded ct quality out).copy = (t.encoded ct quality out).copy := by
    intro out
    rw [copy_encoded, copy_encoded]
    rfl
  cases ct with
  | uncompressed => exact congrArg Except.ok (RawTile.copy_copy t)
  | deflate => exact congrArg Except.ok (RawTile.copy_copy t)
  | jpeg =>
    have hbytes : jpegBytes E quality t.copy = jpegBytes E quality t := by
      unfold jpegBytes
      rw [hdata]
      rfl
    unfold compress
    dsimp only
    rw [hbytes]
    cases jpegBytes E quality t with
    | error e => rfl
    | ok out => exact congrArg Except.ok (henc out)
  | png =>
    have hbytes : pngBytes E quality t.copy = pngBytes E quality t := by
      unfold pngBytes
      rw [hdata]
      rfl
    unfold compress
    dsimp only
    rw [hbytes]
    cases pngBytes E quality t with
    | error e => rfl
    | ok out => exact congrArg Except.ok (henc out)

/-- The raw tile has the identity asked for, the image's timestamp, and is cropped. -/
theorem rawTile_spec {q : Request} {t : RawTile} (h : rawTile K q = .ok t) :
    Settled (q.info K) t ∧ t.tileId = q.tileId .uncompressed 0 ∧
      t.timestamp = q.image.timestamp := by
  obtain ⟨d, hd, hcrop⟩ := bind_eq_ok h
  obtain ⟨hset, ht⟩ := cropEdge_spec hcrop
  unfold decode at hd
  split at hd
  · cases hd
  · obtain rfl := Except.ok.inj hd
    rw [ht]
    exact ⟨by rwa [← ht], rfl, rfl⟩

/-- A new tile is the raw tile, or its encoding where the type asked for calls for one. -/
theorem newTile_cases {q : Request} {t : RawTile} (h : newTile K E q = .ok t) :
    ∃ r, rawTile K q = .ok r ∧
      ((¬ Encodes q.ctype r ∧ t = r) ∨
        (Encodes q.ctype r ∧ q.ctype ≠ .uncompressed ∧
          ∃ out, t = r.encoded q.ctype q.quality out)) := by
  obtain ⟨r, hr, h⟩ := bind_eq_ok h
  refine ⟨r, hr, ?_⟩
  split at h
  case isTrue henc => exact .inr ⟨henc, compress_spec henc h⟩
  case isFalse hraw => exact .inl ⟨hraw, (Except.ok.inj h).symm⟩

/-- The identities under which a request's tile can be found and filed. -/
def Names (q : Request) (i : TileId) : Prop :=
  i = q.tileId .uncompressed 0 ∨ (q.ctype ≠ .uncompressed ∧ i = q.tileId q.ctype q.quality)

/-- Two requests for the same tile of the same image, whatever form, layers and timestamp. -/
def SameTile (q s : Request) : Prop :=
  q.image.imagePath.chars = s.image.imagePath.chars ∧ q.resolution = s.resolution ∧
    q.tile = s.tile ∧ q.xangle = s.xangle ∧ q.yangle = s.yangle

/-- A name of `q` that is also the name of a tile of `s`: the two ask for the same tile. -/
theorem Names.sameTile {q s : Request} {ct : CompressionType} {quality : Int32}
    (h : Names q (s.tileId ct quality)) : SameTile s q := by
  have hfields : ∃ ct' quality', s.tileId ct quality = q.tileId ct' quality' := by
    rcases h with h | ⟨-, h⟩ <;> exact ⟨_, _, h⟩
  obtain ⟨_, _, hfields⟩ := hfields
  simp only [Request.tileId, TileId.mk.injEq] at hfields
  obtain ⟨hpath, hres, htile, hx, hy, -⟩ := hfields
  exact ⟨hpath, hres, htile, hx, hy⟩

/-- Encoding changes type and quality in the identity of a tile. -/
theorem tileId_encoded {q : Request} {t : RawTile} {ct' : CompressionType} {quality' : Int32}
    (h : t.tileId = q.tileId ct' quality') (ct : CompressionType) (quality : Int32)
    (out : List UInt8) : (t.encoded ct quality out).tileId = q.tileId ct quality := by
  calc (t.encoded ct quality out).tileId
      = { t.tileId with compressionType := ct, quality := quality } := rfl
    _ = q.tileId ct quality := by rw [h]; rfl

/-- A new tile has one of the two identities, and the image's timestamp. -/
theorem newTile_names {q : Request} {t : RawTile} (h : newTile K E q = .ok t) :
    Names q t.tileId ∧ t.timestamp = q.image.timestamp := by
  obtain ⟨r, hr, ⟨-, rfl⟩ | ⟨-, hct, out, rfl⟩⟩ := newTile_cases h
  · obtain ⟨-, hid, hts⟩ := rawTile_spec hr
    exact ⟨.inl hid, hts⟩
  · obtain ⟨-, hid, hts⟩ := rawTile_spec hr
    exact ⟨.inr ⟨hct, tileId_encoded hid _ _ out⟩, hts⟩

/-! ## 3. What `getTile` can do

The manager's step, said once: a request is answered with a new tile or from a tile of the
cache, and what it adds to the cache is the tile it answers with. -/

/-- The answer from a tile of the cache: encoded first if it is raw and the type asked for
calls for it. -/
def fromCache (K : Codec) (E : Encoder) (q : Request) (t : RawTile) : Except Failure RawTile :=
  if t.compressionType = .uncompressed ∧ Encodes q.ctype t then do
    let ttt ← cropEdge (q.info K) t.copy
    compress E q.ctype q.quality ttt
  else .ok t

/-- A tile that a request names and that is raw is named as such. -/
theorem Names.raw {q : Request} {t : RawTile} (h : Names q t.tileId)
    (hraw : t.compressionType = .uncompressed) : t.tileId = q.tileId .uncompressed 0 := by
  rcases h with h | ⟨hct, h⟩
  · exact h
  · exact absurd ((congrArg TileId.compressionType h).symm.trans hraw) hct

/-- It is the tile itself, or the encoding of a raw tile with the same identity. -/
theorem fromCache_cases {q : Request} {t t' : RawTile} (hfrom : fromCache K E q t = .ok t') :
    (¬ (t.compressionType = .uncompressed ∧ Encodes q.ctype t) ∧ t' = t) ∨
      (t.compressionType = .uncompressed ∧ ∃ r : RawTile, r.tileId = t.tileId ∧ Encodes q.ctype r ∧
        q.ctype ≠ .uncompressed ∧ ∃ out, t' = r.encoded q.ctype q.quality out) := by
  unfold fromCache at hfrom
  split at hfrom
  case isFalse hconv => exact .inl ⟨hconv, (Except.ok.inj hfrom).symm⟩
  case isTrue hconv =>
    obtain ⟨r, hr, hcomp⟩ := bind_eq_ok hfrom
    obtain ⟨-, hr⟩ := cropEdge_spec hr
    have henc : Encodes q.ctype r := by
      rw [hr]
      exact hconv.2
    have hid : r.tileId = t.tileId := by
      rw [hr]
      rfl
    exact .inr ⟨hconv.1, r, hid, henc, compress_spec henc hcomp⟩

/-- What is answered from a tile that the request names has a name of the request again. -/
theorem fromCache_names {q : Request} {t t' : RawTile} (h : Names q t.tileId)
    (hfrom : fromCache K E q t = .ok t') : Names q t'.tileId := by
  obtain ⟨-, rfl⟩ | ⟨hraw, r, hid, -, hct, out, rfl⟩ := fromCache_cases hfrom
  · exact h
  · exact .inr ⟨hct, tileId_encoded (hid.trans (h.raw hraw)) _ _ out⟩

/-- The conversion of a raw tile computes `fromCache` and puts it into the cache. -/
theorem convert_eq {q : Request} {t : RawTile}
    (hconv : t.compressionType = .uncompressed ∧ Encodes q.ctype t) :
    convert K E a q t = do
      let t ← .ofExcept (fromCache K E q t)
      .insert a t
      return t.copy := by
  unfold convert fromCache
  rw [if_pos hconv, Manager.ofExcept_bind, bind_assoc]

/-- The keys this request prints fit the buffer of `getIndex`. -/
def Request.Fits (q : Request) : Prop :=
  (q.tileId .uncompressed 0).Fits ∧ (q.tileId q.ctype q.quality).Fits

instance (q : Request) : Decidable q.Fits := inferInstanceAs (Decidable (_ ∧ _))

theorem Request.Fits.names {q : Request} (h : q.Fits) {i : TileId} (hi : Names q i) :
    i.Fits := by
  rcases hi with rfl | ⟨-, rfl⟩
  · exact h.1
  · exact h.2

variable {c : Cache}

/-- A lookup returns, keeps the cache, and finds the tile with the identity asked for. -/
theorem cached_spec (h : c.RepInv a) (hall : c.AllFit) {i : TileId} (hi : i.Fits) :
    ∃ out c', Manager.cached i c = .ok out c' ∧ c'.RepInv a ∧ (∀ e ∈ c'.entries, e ∈ c.entries) ∧
      ∀ t, out = some t → t.tileId = i ∧ ∃ e ∈ c.entries, e.tile = t := by
  obtain ⟨c', out, hs, hinv, -⟩ := Cache.step_spec h (.getTile i)
  refine ⟨out, c', ?_, hinv, ?_, ?_⟩
  · unfold Cache.step at hs
    unfold Manager.cached
    dsimp only at hs
    rw [hs]
  · intro e he
    rcases Cache.step_entries h hs he with hin | ⟨r, hr, -⟩
    · exact hin
    · cases hr
  · rintro t rfl
    obtain ⟨e, he, hei, rfl⟩ := Cache.getTile_found h hs
    exact ⟨Cache.tileId_of_index h hall hi he hei, e, he, rfl⟩

/-- An insert returns, and adds at most its tile. -/
theorem insert_adds (h : c.RepInv a) (t : RawTile) :
    ∃ c', Manager.insert a t c = .ok () c' ∧ c'.RepInv a ∧
      ∀ e ∈ c'.entries, e ∈ c.entries ∨ e.tile = t.copy := by
  obtain ⟨c', out, hs, hinv, -⟩ := Cache.step_spec h (.insert t)
  refine ⟨c', ?_, hinv, ?_⟩
  · unfold Cache.step at hs
    unfold Manager.insert
    dsimp only at hs
    cases hins : c.insert a t with
    | error f => rw [hins] at hs; cases hs
    | ok c₁ => rw [hins] at hs; cases hs; rfl
  · intro e he
    rcases Cache.step_entries h hs he with hin | ⟨r, hr, rfl, -⟩
    · exact .inl hin
    · cases hr
      exact .inr rfl

/-- The lookups of a request return, keep the cache, and find a tile it names. -/
theorem lookupTile_spec (h : c.RepInv a) (hall : c.AllFit) {q : Request} (hq : q.Fits) :
    ∃ out c', lookupTile q c = .ok out c' ∧ c'.RepInv a ∧ (∀ e ∈ c'.entries, e ∈ c.entries) ∧
      ∀ t, out = some t → Names q t.tileId ∧ ∃ e ∈ c.entries, e.tile = t := by
  -- the raw tile, looked up last and for `UNCOMPRESSED` alone
  have hraw : ∀ {c : Cache}, c.RepInv a → c.AllFit → ∃ out c',
      Manager.cached (q.tileId .uncompressed 0) c = .ok out c' ∧ c'.RepInv a ∧
        (∀ e ∈ c'.entries, e ∈ c.entries) ∧
        ∀ t, out = some t → Names q t.tileId ∧ ∃ e ∈ c.entries, e.tile = t := by
    intro c h hall
    obtain ⟨out, c', hc, hinv, hsub, hout⟩ := cached_spec h hall hq.1
    exact ⟨out, c', hc, hinv, hsub, fun t ht => ⟨.inl (hout t ht).1, (hout t ht).2⟩⟩
  -- an encoded type tries its own identity before
  have htwo : ∀ f : Option RawTile → Manager (Option RawTile), (∀ t, f (some t) = pure (some t)) →
      f none = .cached (q.tileId .uncompressed 0) → q.ctype ≠ .uncompressed → ∃ out c',
      (Manager.cached (q.tileId q.ctype q.quality) >>= f) c = .ok out c' ∧ c'.RepInv a ∧
        (∀ e ∈ c'.entries, e ∈ c.entries) ∧
        ∀ t, out = some t → Names q t.tileId ∧ ∃ e ∈ c.entries, e.tile = t := by
    intro f hsome hnone hct
    obtain ⟨out, c₁, hc₁, hinv₁, hsub₁, hout₁⟩ := cached_spec h hall hq.2
    rw [EState.bind_ok hc₁]
    cases out with
    | some t =>
      rw [hsome]
      exact ⟨some t, c₁, rfl, hinv₁, hsub₁,
        fun t ht => ⟨.inr ⟨hct, (hout₁ t ht).1⟩, (hout₁ t ht).2⟩⟩
    | none =>
      rw [hnone]
      obtain ⟨out, c', hc, hinv, hsub, hout⟩ :=
        hraw hinv₁ fun e he => hall e (hsub₁ e he)
      refine ⟨out, c', hc, hinv, fun e he => hsub₁ e (hsub e he), fun t ht => ?_⟩
      obtain ⟨hname, e, he, het⟩ := hout t ht
      exact ⟨hname, e, hsub₁ e he, het⟩
  unfold lookupTile
  cases hct : q.ctype with
  | uncompressed => exact hraw h hall
  | deflate => exact ⟨none, c, rfl, h, fun e he => he, by simp⟩
  | jpeg =>
    rw [hct] at htwo
    exact htwo _ (fun _ => rfl) rfl (by decide)
  | png =>
    rw [hct] at htwo
    exact htwo _ (fun _ => rfl) rfl (by decide)

/-- The end of both paths that put a tile into the cache: whatever has been computed, the cache
keeps its invariant and gains at most that tile. -/
theorem file_spec (h : c.RepInv a) (hall : c.AllFit) {x : Except Failure RawTile}
    (hx : ∀ t, x = .ok t → t.tileId.Fits) (f : RawTile → RawTile) :
    ∃ c', (do
        let t ← .ofExcept x
        .insert a t
        return f t : Manager RawTile) c = Manager.ofExcept (x.map f) c' ∧
      c'.RepInv a ∧ c'.AllFit ∧
      ∀ e ∈ c'.entries, e ∈ c.entries ∨ ∃ t, x = .ok t ∧ e.tile = t.copy := by
  cases x with
  | error e => exact ⟨c, rfl, h, hall, fun e he => .inl he⟩
  | ok t =>
    obtain ⟨c', hc', hinv, hadds⟩ := insert_adds h t
    refine ⟨c', ?_, hinv, ?_, ?_⟩
    · change (do
        Manager.insert a t
        return f t : Manager RawTile) c = _
      rw [EState.bind_ok hc']
      rfl
    · intro e he
      rcases hadds e he with hin | het
      · exact hall e hin
      · rw [het]
        exact hx t rfl
    · intro e he
      exact (hadds e he).imp_right fun het => ⟨t, rfl, het⟩

/-- **What `getTile` can do**, on a cache whose keys fit.  It answers with a new tile, or from a
tile of the cache that the request names and that is not older than the image; and every entry
it adds is the tile it has answered with. -/
theorem getTile_cases (h : c.RepInv a) (hall : c.AllFit) {q : Request} (hq : q.Fits) :
    ∃ c', c'.RepInv a ∧ c'.AllFit ∧
      ((getTile K E a q c = Manager.ofExcept (newTile K E q) c' ∧
          ∀ e ∈ c'.entries, e ∈ c.entries ∨ ∃ t, newTile K E q = .ok t ∧ e.tile = t.copy) ∨
        ∃ e ∈ c.entries, Names q e.tile.tileId ∧ ¬ e.tile.timestamp < q.image.timestamp ∧
          getTile K E a q c
            = Manager.ofExcept ((fromCache K E q e.tile).map RawTile.copy) c' ∧
          ∀ e' ∈ c'.entries, e' ∈ c.entries ∨
            ∃ t, fromCache K E q e.tile = .ok t ∧ e'.tile = t.copy) := by
  obtain ⟨out, c₁, hc₁, hinv₁, hsub, hout⟩ := lookupTile_spec h hall hq
  have hall₁ : c₁.AllFit := fun e he => hall e (hsub e he)
  unfold getTile
  rw [EState.bind_ok hc₁]
  -- a new tile, after a miss and for a tile that is too old
  have hnew : ∃ c', c'.RepInv a ∧ c'.AllFit ∧
      getNewTile K E a q c₁ = Manager.ofExcept (newTile K E q) c' ∧
      ∀ e ∈ c'.entries, e ∈ c.entries ∨ ∃ t, newTile K E q = .ok t ∧ e.tile = t.copy := by
    obtain ⟨c', hc', hinv, hall', hadds⟩ := file_spec hinv₁ hall₁ (x := newTile K E q)
      (fun t ht => hq.names (newTile_names ht).1) id
    refine ⟨c', hinv, hall', ?_, fun e he => (hadds e he).imp_left (hsub e)⟩
    rw [getNewTile_eq]
    refine hc'.trans ?_
    cases newTile K E q <;> rfl
  cases out with
  | none =>
    obtain ⟨c', hinv, hall', hget, hadds⟩ := hnew
    exact ⟨c', hinv, hall', .inl ⟨hget, hadds⟩⟩
  | some t =>
    obtain ⟨hname, e, he, rfl⟩ := hout t rfl
    dsimp only
    by_cases hold : e.tile.timestamp < q.image.timestamp
    · obtain ⟨c', hinv, hall', hget, hadds⟩ := hnew
      rw [if_pos hold]
      exact ⟨c', hinv, hall', .inl ⟨hget, hadds⟩⟩
    rw [if_neg hold]
    by_cases hconv : e.tile.compressionType = .uncompressed ∧ Encodes q.ctype e.tile
    · rw [if_pos hconv, convert_eq hconv]
      obtain ⟨c', hc', hinv, hall', hadds⟩ := file_spec hinv₁ hall₁
        (x := fromCache K E q e.tile) (fun t ht => hq.names (fromCache_names hname ht))
        RawTile.copy
      exact ⟨c', hinv, hall',
        .inr ⟨e, he, hname, hold, hc', fun e' he' => (hadds e' he').imp_left (hsub e')⟩⟩
    · rw [if_neg hconv]
      have hfrom : fromCache K E q e.tile = .ok e.tile := if_neg hconv
      refine ⟨c₁, hinv₁, hall₁, .inr ⟨e, he, hname, hold, ?_, fun e' he' => .inl (hsub e' he')⟩⟩
      rw [hfrom]
      rfl

/-! ## 4. Where the tiles of the cache come from -/

/-- Every tile of the cache is one that `P` admits for some request of the history `H`. -/
structure Sound (a : StringAlloc) (P : Request → RawTile → Prop) (H : List Request) (c : Cache) :
    Prop where
  repInv : c.RepInv a
  allFit : c.AllFit
  provenance : ∀ e ∈ c.entries, ∃ s ∈ H, P s e.tile

/-- `P` admits the new tiles of `q`, and what `q` is answered from the cache after `H`. -/
structure Admits (K : Codec) (E : Encoder) (P : Request → RawTile → Prop) (H : List Request)
    (q : Request) : Prop where
  new : ∀ t, newTile K E q = .ok t → P q t.copy
  hit : ∀ s ∈ H, ∀ t t', P s t → Names q t.tileId → ¬ t.timestamp < q.image.timestamp →
    fromCache K E q t = .ok t' → P s t'.copy

theorem sound_new (a : StringAlloc) (P : Request → RawTile → Prop) (z : Sizeof) (maxSize : Nat) :
    Sound a P [] (Cache.new z maxSize) where
  repInv := Cache.repInv_new a z maxSize
  allFit := fun _ he => absurd he List.not_mem_nil
  provenance := fun _ he => absurd he List.not_mem_nil

variable {P : Request → RawTile → Prop} {H : List Request}

/-- The state that `serve` goes on with is the one the request has left. -/
theorem serve_eq_some {q : Request} {c' c'' : Cache} {x : Except Failure RawTile}
    (hget : getTile K E a q c = Manager.ofExcept x c') (h : serve K E a c q = some c'') :
    c'' = c' := by
  unfold serve at h
  rw [hget] at h
  match x, h with
  | .ok t, h => exact (Option.some.inj h).symm
  | .error (.thrown m), h => exact (Option.some.inj h).symm
  | .error (.fault f), h => cases h

/-- **One request** keeps the cache sound. -/
theorem Sound.serve (h : Sound a P H c) {q : Request} (hq : q.Fits) (hP : Admits K E P H q)
    {c' : Cache} (hs : serve K E a c q = some c') : Sound a P (H ++ [q]) c' := by
  have hkeep : ∀ e ∈ c.entries, ∃ s ∈ H ++ [q], P s e.tile := by
    intro e he
    obtain ⟨s, hs, hPs⟩ := h.provenance e he
    exact ⟨s, List.mem_append_left _ hs, hPs⟩
  obtain ⟨c₁, hinv, hall, ⟨hget, hadds⟩ | ⟨e, he, hname, hold, hget, hadds⟩⟩ :=
    getTile_cases (K := K) (E := E) h.repInv h.allFit hq
  · obtain rfl := serve_eq_some hget hs
    refine ⟨hinv, hall, fun e he => ?_⟩
    rcases hadds e he with hin | ⟨t, ht, het⟩
    · exact hkeep e hin
    · exact ⟨q, by simp, het ▸ hP.new t ht⟩
  · obtain rfl := serve_eq_some hget hs
    refine ⟨hinv, hall, fun e' he' => ?_⟩
    rcases hadds e' he' with hin | ⟨t, ht, het⟩
    · exact hkeep e' hin
    · obtain ⟨s, hsH, hPs⟩ := h.provenance e he
      exact ⟨s, List.mem_append_left _ hsH, het ▸ hP.hit s hsH _ t hPs hname hold ht⟩

/-- **A whole history** keeps it sound. -/
theorem Sound.serveAll {all : List Request} (hfit : ∀ q ∈ all, q.Fits)
    (hP : ∀ H q, H ++ [q] <+: all → Admits K E P H q) :
    ∀ {qs H : List Request} {c c' : Cache}, H ++ qs = all → Sound a P H c →
      serveAll K E a c qs = some c' → Sound a P all c'
  | [], H, c, c', hall, h, hs => by
    obtain rfl := Option.some.inj hs
    rwa [← hall, List.append_nil]
  | q :: qs, H, c, c', hall, h, hs => by
    unfold Iipsrv.serveAll at hs
    rw [List.foldlM_cons] at hs
    obtain ⟨c₁, hs₁, hs⟩ := Option.bind_eq_some_iff.mp hs
    have hmem : q ∈ all := by
      rw [← hall]
      simp
    have hall' : (H ++ [q]) ++ qs = all := by
      rw [List.append_assoc, List.singleton_append, hall]
    have h₁ := h.serve (hfit q hmem) (hP H q ⟨qs, hall'⟩) hs₁
    exact serveAll hfit hP hall' h₁ hs

end Iipsrv
