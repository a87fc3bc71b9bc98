/-
# Operations on raw pixels, along a request

`JTL::send` asks the image twice.  Behind the histogram, if one has to be calculated, it decides
whether the tile is fetched raw; behind the tile it decides which operations to apply.  In between
stands `getTile`, which may have loaded the object again, for another view, and which overwrites
its colour space and for a palette its channels.

`JTL/Raw.lean` compares the two decisions.  Here they get their arguments: `fetch_spec` takes a
request apart, `sound_withHistogram` and `Sound.compressionType_eq` say which type the tile has in
any state of the tile cache, and `transforms_raw_iff` is the result.  `binary_on_encoded_tile` is a
file that is worked on as pixels, of an image that does not change at all.
-/
import Iipsrv.JTL.Raw
import Iipsrv.Server.Main
import Iipsrv.TileManager.Provenance

namespace Iipsrv

open Lib.Print (Text)
open Lib.Effects

/-! ## 1. The tile cache along a request -/

/-- Some history of requests explains the tiles of the cache. -/
def Cache.Typed (a : StringAlloc) (c : Cache) : Prop :=
  ∃ H, Sound a (fun _ t => t.Typed) H c

section
variable {S : Server} {s s' : Session} {im im' : Opened} {q : Request} {t : RawTile}

/-- **A tile that is fetched** has the type asked for if it can be encoded so, and leaves the cache
in order. -/
theorem Server.tile_typed (hcache : s.tileCache.Typed S.alloc) (hq : q.Fits)
    (h : S.tile im q s = .ok (im', t) s') :
    t.compressionType = (if Encodes q.ctype t then q.ctype else .uncompressed) ∧
      s'.tileCache.Typed S.alloc ∧ s'.view = s.view ∧ im' = S.behind im q s.tileCache := by
  unfold Server.tile Task.manage at h
  split at h
  case h_2 => cases h
  case h_1 r c htile =>
    cases h
    obtain ⟨H, hsound⟩ := hcache
    obtain ⟨him, hget⟩ := tileOf_eq_ok htile
    have hserve : Iipsrv.serve (S.codec im (S.behind im q s.tileCache)) S.encoder S.alloc
        s.tileCache q = some c := by
      unfold Iipsrv.serve
      rw [hget]
    exact ⟨hsound.compressionType_eq hq hget, ⟨_, hsound.serve hq (admits_typed H q) hserve⟩, rfl,
      him⟩

/-- The tile manager names an image with a new histogram as before. -/
theorem Server.image_update (im : Opened) (histogram : List Nat) :
    S.image (im.update fun b => { b with histogram := histogram }) = S.image im := by
  cases im <;> rfl

/-- The histogram is one more tile. -/
theorem Server.sound_withHistogram {wanted : Bool} (hcache : s.tileCache.Typed S.alloc)
    (hthumb : (JTL.thumbnailRequest (S.image im) s.view).Fits)
    (h : S.withHistogram wanted im s = .ok im' s') :
    s'.tileCache.Typed S.alloc ∧ s'.view = s.view ∧ S.image im' = S.image im := by
  unfold Server.withHistogram at h
  split at h
  case isFalse =>
    cases h
    exact ⟨hcache, rfl, rfl⟩
  case isTrue =>
    have hget : (get : Task Session) s = .ok s s := rfl
    unfold Server.addHistogram at h
    rw [EState.bind_ok hget] at h
    obtain ⟨⟨im₁, thumbnail⟩, s₁, htile, h⟩ := EState.bind_eq_ok h
    obtain ⟨-, hcache₁, hview, him₁⟩ := Server.tile_typed hcache hthumb htile
    cases h
    refine ⟨hcache₁, hview, ?_⟩
    rw [Server.image_update, him₁, Server.image_behind]

end

/-! ## 2. The request -/

namespace JTL

section
variable {S : Server} {s s' : Session} {im im' : Opened} {resolution tile : Int32} {t : RawTile}

/-- A tile that has been fetched was asked for behind the histogram. -/
theorem fetch_spec (h : fetch S resolution tile im s = .ok (im', t) s') :
    ∃ tile' im₁ s₁, remap im.info s.view resolution tile = .ok tile' ∧
      S.withHistogram s.view.requireHistogram im s = .ok im₁ s₁ ∧
      S.tile im₁ (sendRequest (S.image im₁) im₁.info s.view s.quality resolution tile') s₁
        = .ok (im', t) s' := by
  have hget : (get : Task Session) s = .ok s s := rfl
  unfold fetch at h
  rw [EState.bind_ok hget] at h
  obtain ⟨tile', s₀, hfirst, h⟩ := EState.bind_eq_ok h
  obtain ⟨hremap, rfl⟩ : remap im.info s.view resolution tile = .ok tile' ∧ s₀ = s := by
    cases hx : remap im.info s.view resolution tile with
    | error e =>
      rw [hx] at hfirst
      cases hfirst
    | ok n =>
      rw [hx] at hfirst
      cases hfirst
      exact ⟨rfl, rfl⟩
  by_cases hneg : resolution < 0 ∨ tile' < 0
  · rw [if_pos hneg] at h
    cases h
  rw [if_neg hneg] at h
  obtain ⟨im₁, s₁, hhistogram, h⟩ := EState.bind_eq_ok h
  refine ⟨tile', im₁, s₁, hremap, hhistogram, ?_⟩
  cases hlevel : levelSize im₁.info resolution with
  | none =>
    rw [hlevel] at h
    cases h
  | some size =>
    rw [hlevel] at h
    exact h

/-- What is asked for: raw pixels, or the output format. -/
theorem ctype_sendRequest (image : Image) (info : ImageInfo) (v : View)
    (quality : CompressionType → Int32) (n : Int32) (t : RawTile) :
    (if Encodes (sendRequest image info v quality resolution n).ctype t then
        (sendRequest image info v quality resolution n).ctype else .uncompressed)
      = if needsRaw info v = false ∧ Encodes v.outputFormat t then v.outputFormat
        else .uncompressed := by
  unfold sendRequest
  cases needsRaw info v with
  | true =>
    rw [if_pos rfl]
    exact (ite_self _).trans (if_neg fun h => Bool.noConfusion h.1).symm
  | false =>
    rw [if_neg Bool.false_ne_true]
    simp only [true_and]

end

/-- **Operations are applied to raw pixels, unless the test overlooks them.**  In every state of the
tile cache that requests with fitting keys have led to, for every image object and every session:
if the tile is fetched, then all operations are applied to an uncompressed tile exactly if the image
as it is behind the histogram, the image as it is behind the tile, the view and the tile are not
`Overlooked`. -/
theorem transforms_raw_iff (S : Server) (z : Sizeof) (maxSize : Nat)
    (history : List (Codec × Request)) (hfit : ∀ p ∈ history, p.2.Fits) (s s' : Session)
    (hcache : serveEach S.encoder S.alloc (Cache.new z maxSize) history = some s.tileCache)
    (im im' : Opened) (resolution tile : Int32) (t : RawTile)
    (hthumb : (thumbnailRequest (S.image im) s.view).Fits)
    (hsend : ∀ info tile', remap im.info s.view resolution tile = .ok tile' →
      (sendRequest (S.image im) info s.view s.quality resolution tile').Fits)
    (hfetch : fetch S resolution tile im s = .ok (im', t) s') :
    ∃ im₁ s₁, S.withHistogram s.view.requireHistogram im s = .ok im₁ s₁ ∧
      ((∀ p ∈ (transforms (S.processor (s'.settings im')) im'.info s'.view im'.base.histogram
          t).1.applied, p.2 = .uncompressed) ↔ ¬ Overlooked im₁.info im'.info s.view t) := by
  obtain ⟨tile', im₁, s₁, hremap, hhistogram, htile⟩ := fetch_spec hfetch
  have hstart : s.tileCache.Typed S.alloc :=
    sound_typed hfit (sound_new S.alloc _ z maxSize) hcache
  obtain ⟨hcache₁, hview₁, himage⟩ := Server.sound_withHistogram hstart hthumb hhistogram
  rw [himage] at htile
  obtain ⟨htype, -, hview', -⟩ := Server.tile_typed hcache₁ (hsend _ _ hremap) htile
  rw [ctype_sendRequest] at htype
  refine ⟨im₁, s₁, hhistogram, ?_⟩
  rw [hview', hview₁]
  exact raw_iff_of_tile htype

/-- Of an encoded file, the first two bytes. -/
def headEncoder : Encoder where
  jpeg _ _ _ _ _ := .ok [0xff, 0xd8]
  png _ _ _ _ _ _ := .ok [0x89, 0x50]

/-- `Transform::binary`, on the first `width * height` bytes of an 8 bit tile.  The other
operations are left out.  Of an image of one grey, the threshold is 0. -/
def binaryOnly : Processor where
  apply op t :=
    match op with
    | .binary threshold =>
      if t.bpc ≠ 8 then t
      else
        let np := t.width * t.height
        { t with
          data := (t.data.take np).map (fun b => if b.toNat < threshold then 0 else 255) ++
            t.data.drop np }
    | _ => t
  histogram t := [t.width * t.height]
  threshold _ := 0
  compressionType_apply op t := by
    cases op <;> try rfl
    dsimp only
    split <;> rfl

/-- A server with an image of one grey, of 2 by 1 pixels in one tile. -/
def greyServer : Server :=
  { smallServer fun _ => none with
    getTile := fun _ _ _ _ _ _ => .ok ⟨2, 1, 1, 8, .fixedPoint, [100, 100], 2, false⟩
    encoder := headEncoder
    processor := fun _ => binaryOnly }

/-- The object of the image. -/
def greyObject : Opened :=
  .openJPEG { IIPImage.new ['a'] with
    imageWidths := [2], imageHeights := [1], tileWidth := 2, tileHeight := 1, numResolutions := 1
    bpc := 8, channels := 1, colourspace := .greyscale, isSet := true }

/-- A session with a view in black and white, and an empty tile cache. -/
def bitonal : Session :=
  { freshSession with view := { freshSession.view with colourspace := .binary } }

/-- The same, inverted. -/
def bitonalInverted : Session := { bitonal with view := { bitonal.view with inverted := true } }

/-- The grey image in black and white, and inverted: inversion asks for raw pixels, and all four
operations get them. -/
theorem transforms_raw_iff_inverted :
    ∃ im' t s', fetch greyServer 0 0 greyObject bitonalInverted = .ok (im', t) s' ∧
      (transforms (greyServer.processor (s'.settings im')) im'.info s'.view im'.base.histogram
        t).1.applied.length = 4 ∧
      ∀ p ∈ (transforms (greyServer.processor (s'.settings im')) im'.info s'.view
        im'.base.histogram t).1.applied, p.2 = .uncompressed := by
  have hfits : ∀ info tile', remap greyObject.info bitonalInverted.view 0 0 = .ok tile' →
      (sendRequest (greyServer.image greyObject) info bitonalInverted.view bitonalInverted.quality 0
        tile').Fits := by
    rintro info tile' h
    obtain rfl : (0 : Int32) = tile' := Except.ok.inj h
    unfold sendRequest
    split <;> decide +kernel
  obtain ⟨im₁, s₁, -, hiff⟩ := transforms_raw_iff greyServer ⟨176, 16, 40, 8⟩ 1000000 [] (by simp)
    bitonalInverted _ rfl greyObject _ 0 0 _ (by decide +kernel) hfits rfl
  refine ⟨_, _, _, rfl, rfl, hiff.mpr fun ho => ?_⟩
  obtain ⟨-, -, -, -, hfloat, -⟩ := needsRaw_eq_false.mp ho.notRaw
  exact absurd hfloat (by decide +kernel)

/-- **A JPEG file is made binary.**  The grey image in black and white: the tile is fetched as
JPEG, and `binary` overwrites the bytes of the file. -/
theorem binary_on_encoded_tile :
    ∃ im' t s', fetch greyServer 0 0 greyObject bitonal = .ok (im', t) s' ∧
      t.data = [0xff, 0xd8] ∧
      (transforms (greyServer.processor (s'.settings im')) im'.info s'.view im'.base.histogram
        t).1.applied = [(.binary 0, .jpeg)] ∧
      (transforms (greyServer.processor (s'.settings im')) im'.info s'.view im'.base.histogram
        t).1.tile.data = [0xff, 0xff] ∧
      ¬ ∀ p ∈ (transforms (greyServer.processor (s'.settings im')) im'.info s'.view
        im'.base.histogram t).1.applied, p.2 = .uncompressed := by
  refine ⟨_, _, _, rfl, rfl, rfl, rfl, fun h => ?_⟩
  have hjpeg := h (.binary 0, .jpeg) List.mem_cons_self
  cases hjpeg

/-- A file of three channels. -/
def colourTiff (p : Photometric) : TiffFile :=
  { greyTiff 4 with samplesPerPixel := 3, photometric := p }

/-- A sequence of two views: the first is sRGB, the second CIELAB. -/
def twoSpaces : ImageSource where
  isFile := false
  format := .tif
  horizontalViews := [0, 10]
  verticalViews := [90]
  file seq _ := some ⟨0, .tiff (colourTiff (if seq = 0 then .other else .cieLab))⟩

/-- **A view of another colour space.**  The object is asked as the first view, which needs no raw
pixels, and found as the second: a JPEG file is converted from CIELAB. -/
example :
    let S : Server := { greyServer with
      disk := fun _ => some twoSpaces
      getTile := fun _ _ _ _ _ _ => .ok ⟨4, 4, 3, 8, .fixedPoint, List.replicate 48 7, 48, false⟩ }
    let im := Opened.tpt ((TPTImage.ofIIPImage (twoSpaces.object ['a'])).loadImageInfo
      (colourTiff .other) 0 90)
    ∃ im' t s', fetch S 0 0 im { freshSession with view := { freshSession.view with xangle := 10 } }
        = .ok (im', t) s' ∧ im.info.colourspace = .sRGB ∧ im'.info.colourspace = .cieLab ∧
      (transforms (S.processor (s'.settings im')) im'.info s'.view im'.base.histogram t).1.applied
        = [(.lab2sRGB, .jpeg)] :=
  ⟨_, _, _, rfl, rfl, rfl, rfl⟩

end JTL

end Iipsrv
