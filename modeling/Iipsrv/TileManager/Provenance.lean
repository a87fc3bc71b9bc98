/-
# Where a tile comes from

`DecodedFor` follows a tile back to the codec's call, whatever has been done to it since.  In
every state the manager can reach with keys that fit, each tile of the cache, and so each tile
that is handed out, was decoded for some request for the same tile (`Sound.decodedFor`).  Whatever
the codecs have been, it has the compression type that its depth and channels allow
(`Sound.compressionType_eq`).
-/
import Iipsrv.TileManager.Steps

namespace Iipsrv

open Lib.Effects

variable {K : Codec} {E : Encoder}

/-! ## 1. Where a tile was decoded -/

/-- The tile stems from what the codec returned for the request `s`. -/
inductive DecodedFor (K : Codec) (E : Encoder) (s : Request) : RawTile → Prop
  | decoded {t} (h : decode K s = .ok t) : DecodedFor K E s t
  | copied {t} (h : DecodedFor K E s t) : DecodedFor K E s t.copy
  | cropped {im t t'} (h : DecodedFor K E s t) (hcrop : cropEdge im t = .ok t') :
      DecodedFor K E s t'
  | compressed {ct quality t t'} (h : DecodedFor K E s t)
      (hcomp : compress E ct quality t = .ok t') : DecodedFor K E s t'

theorem decodedFor_newTile {q : Request} {t : RawTile} (h : newTile K E q = .ok t) :
    DecodedFor K E q t := by
  obtain ⟨r, hr, h⟩ := bind_eq_ok h
  obtain ⟨d, hd, hcrop⟩ := bind_eq_ok hr
  have hraw : DecodedFor K E q r := .cropped (.decoded hd) hcrop
  split at h
  · exact .compressed hraw h
  · obtain rfl := Except.ok.inj h
    exact hraw

theorem DecodedFor.fromCache {q s : Request} {t t' : RawTile} (h : DecodedFor K E s t)
    (hfrom : fromCache K E q t = .ok t') : DecodedFor K E s t' := by
  unfold Iipsrv.fromCache at hfrom
  split at hfrom
  · obtain ⟨r, hr, hcomp⟩ := bind_eq_ok hfrom
    exact .compressed (.cropped (.copied h) hr) hcomp
  · obtain rfl := Except.ok.inj hfrom
    exact h

/-- However often it is cropped, copied and encoded, a tile keeps the identity it was decoded
for, up to type and quality. -/
theorem DecodedFor.tileId {s : Request} {t : RawTile} (h : DecodedFor K E s t) :
    ∃ ct quality, t.tileId = s.tileId ct quality := by
  induction h with
  | decoded h =>
    unfold decode at h
    split at h
    · cases h
    · obtain rfl := Except.ok.inj h
      exact ⟨.uncompressed, 0, rfl⟩
  | copied _ ih => exact ih
  | cropped _ hcrop ih =>
    obtain ⟨ct, quality, ih⟩ := ih
    obtain ⟨-, ht⟩ := cropEdge_spec hcrop
    exact ⟨ct, quality, by rw [ht]; exact ih⟩
  | compressed _ hcomp ih =>
    obtain ⟨ct', quality', ih⟩ := ih
    rcases compress_cases hcomp with ⟨-, rfl⟩ | ⟨-, out, rfl⟩
    · exact ⟨ct', quality', ih⟩
    · exact ⟨_, _, tileId_encoded ih _ _ out⟩

/-- A tile that stems from `s` and that `q` names is the tile `q` asks for. -/
theorem DecodedFor.sameTile {q s : Request} {t : RawTile} (h : DecodedFor K E s t)
    (hname : Names q t.tileId) : SameTile s q := by
  obtain ⟨ct, quality, hid⟩ := h.tileId
  exact (hid ▸ hname).sameTile

/-- New tiles and conversions keep track of where a tile was decoded. -/
theorem admits_decodedFor (H : List Request) (q : Request) : Admits K E (DecodedFor K E) H q where
  new := fun _ ht => .copied (decodedFor_newTile ht)
  hit := fun _ _ _ _ hs _ _ hfrom => .copied (hs.fromCache hfrom)

/-- After a history whose keys fit, every tile of the cache was decoded for one of its
requests. -/
theorem sound_decodedFor {a : StringAlloc} {z : Sizeof} {maxSize : Nat} {history : List Request}
    {c : Cache} (hfit : ∀ s ∈ history, s.Fits)
    (hrun : serveAll K E a (Cache.new z maxSize) history = some c) :
    Sound a (DecodedFor K E) history c :=
  Sound.serveAll hfit (fun H q _ => admits_decodedFor H q) (List.nil_append _)
    (sound_new a _ z maxSize) hrun

/-- A step that does not touch the cache, and has succeeded. -/
theorem ofExcept_eq_ok {α : Type} {x : Except Failure α} {c c' : Cache} {r : α}
    (h : Manager.ofExcept x c = .ok r c') : c = c' ∧ x = .ok r := by
  cases x with
  | error e => cases h
  | ok t =>
    cases h
    exact ⟨rfl, rfl⟩

/-- What a request gets was decoded for it, or for an earlier request for the same tile. -/
theorem Sound.decodedFor {a : StringAlloc} {H : List Request} {c c' : Cache}
    (h : Sound a (DecodedFor K E) H c) {q : Request} (hq : q.Fits) {t : RawTile}
    (hget : getTile K E a q c = .ok t c') :
    ∃ s, (s = q ∨ s ∈ H) ∧ SameTile s q ∧ DecodedFor K E s t := by
  obtain ⟨c₁, -, -, ⟨hcases, -⟩ | ⟨e, he, hname, -, hcases, -⟩⟩ :=
    getTile_cases (K := K) (E := E) h.repInv h.allFit hq
  · -- a new tile, decoded for the request itself
    have hnew := (ofExcept_eq_ok (hcases.symm.trans hget)).2
    exact ⟨q, .inl rfl, ⟨rfl, rfl, rfl, rfl, rfl⟩, decodedFor_newTile hnew⟩
  · -- a tile of the cache, decoded for an earlier request for the same tile
    obtain ⟨r, hfrom, rfl⟩ := map_eq_ok (ofExcept_eq_ok (hcases.symm.trans hget)).2
    obtain ⟨s, hs, hdec⟩ := h.provenance e he
    exact ⟨s, .inr hs, hdec.sameTile hname, .copied (hdec.fromCache hfrom)⟩

/-! ## 2. The compression type of a tile -/

/-- The tile is raw, or has a type that its depth and channels allow. -/
def RawTile.Typed (t : RawTile) : Prop :=
  t.compressionType = .uncompressed ∨ Encodes t.compressionType t

/-- A tile that is encoded as asked for if it can be, else raw. -/
theorem RawTile.Typed.of_eq {t : RawTile} {ct : CompressionType}
    (h : t.compressionType = if Encodes ct t then ct else .uncompressed) : t.Typed := by
  by_cases henc : Encodes ct t
  · rw [if_pos henc] at h
    exact .inr (h ▸ henc)
  · rw [if_neg henc] at h
    exact .inl h

theorem RawTile.Typed.copy {t : RawTile} (h : t.Typed) : t.copy.Typed := h

/-- A new tile is encoded as asked for if it can be, else raw. -/
theorem newTile_compressionType {q : Request} {t : RawTile} (h : newTile K E q = .ok t) :
    t.compressionType = if Encodes q.ctype t then q.ctype else .uncompressed := by
  obtain ⟨r, hr, ⟨hraw, rfl⟩ | ⟨henc, -, out, rfl⟩⟩ := newTile_cases h
  · obtain ⟨-, hid, -⟩ := rawTile_spec hr
    rw [if_neg hraw]
    exact congrArg TileId.compressionType hid
  · exact (if_pos henc).symm

/-- So is the answer from a tile of the cache. -/
theorem RawTile.Typed.fromCache_compressionType {q : Request} {t t' : RawTile} (h : t.Typed)
    (hname : Names q t.tileId) (hfrom : Iipsrv.fromCache K E q t = .ok t') :
    t'.compressionType = if Encodes q.ctype t' then q.ctype else .uncompressed := by
  obtain ⟨hconv, rfl⟩ | ⟨-, r, -, henc, -, out, rfl⟩ := fromCache_cases hfrom
  · by_cases hraw : t'.compressionType = .uncompressed
    · rw [if_neg fun henc => hconv ⟨hraw, henc⟩, hraw]
    · -- an encoded tile has the type of the request, since the request names it
      have hct : t'.compressionType = q.ctype := by
        rcases hname with hid | ⟨-, hid⟩
        · exact absurd (congrArg TileId.compressionType hid) hraw
        · exact congrArg TileId.compressionType hid
      rw [if_pos (hct ▸ h.resolve_left hraw), hct]
  · exact (if_pos henc).symm

/-- The type is in order whatever the codec has been. -/
theorem admits_typed (H : List Request) (q : Request) :
    Admits K E (fun _ t => t.Typed) H q where
  new := fun _ ht => (RawTile.Typed.of_eq (newTile_compressionType ht)).copy
  hit := fun _ _ _ _ ht hname _ hfrom =>
    (RawTile.Typed.of_eq (ht.fromCache_compressionType hname hfrom)).copy

/-- Requests one after the other, each with the codec of its own image. -/
def serveEach (E : Encoder) (a : StringAlloc) (c : Cache) (history : List (Codec × Request)) :
    Option Cache :=
  history.foldlM (fun c p => serve p.1 E a c p.2) c

/-- **Every tile of the cache has a type that is in order**, after any requests whose keys fit. -/
theorem sound_typed {a : StringAlloc} {history : List (Codec × Request)} {H : List Request}
    {c c' : Cache} (hfit : ∀ p ∈ history, p.2.Fits) (h : Sound a (fun _ t => t.Typed) H c)
    (hrun : serveEach E a c history = some c') : ∃ H', Sound a (fun _ t => t.Typed) H' c' := by
  induction history generalizing H c with
  | nil =>
    cases hrun
    exact ⟨H, h⟩
  | cons p history ih =>
    unfold serveEach at hrun
    rw [List.foldlM_cons] at hrun
    obtain ⟨c₁, hserve, hrun⟩ := Option.bind_eq_some_iff.mp hrun
    have hone := h.serve (hfit p List.mem_cons_self) (admits_typed H p.2) hserve
    exact ih (fun p' hp' => hfit p' (List.mem_cons_of_mem p hp')) hone hrun

/-- **The type of the tile that is handed out**: the type asked for if the tile can be encoded
so, else raw. -/
theorem Sound.compressionType_eq {a : StringAlloc} {H : List Request} {c c' : Cache}
    (h : Sound a (fun _ t => t.Typed) H c) {q : Request} (hq : q.Fits) {t : RawTile}
    (hget : getTile K E a q c = .ok t c') :
    t.compressionType = if Encodes q.ctype t then q.ctype else .uncompressed := by
  obtain ⟨c₁, -, -, ⟨hcases, -⟩ | ⟨e, he, hname, -, hcases, -⟩⟩ :=
    getTile_cases (K := K) (E := E) h.repInv h.allFit hq
  · have hnew := (ofExcept_eq_ok (hcases.symm.trans hget)).2
    exact newTile_compressionType hnew
  · obtain ⟨r, hfrom, rfl⟩ := map_eq_ok (ofExcept_eq_ok (hcases.symm.trans hget)).2
    obtain ⟨s, -, htyped⟩ := h.provenance e he
    have hr := htyped.fromCache_compressionType hname hfrom
    exact hr

end Iipsrv
