/-
# A point in every band

`SPECTRA` reports one sample of the same tile of every band.  Where it is in the data of the tile is
worked out as

    unsigned int tw = (*session->image)->getTileWidth();
    unsigned int index = y*tw + x;

with the width of the IMAGE's tiles, as the object has it when the tile of the band has been
fetched.  The tile at hand may be smaller: the tiles of the last column have been cropped, and in
them every line but the first is missed.  Nor is there a number of channels: in a colour image, the
sample belongs to a pixel a third as far from the start.

`bands_out` says that the loop reports every band up to a tile that does not have the point, at that
index.  `point_read_iff` says for which tiles the index is that of the pixel for EVERY point that is
accepted.  Two points decide: if the second pixel of the first line is read at all, the tile has
one channel, and if the first pixel of the second line is, the lines have the length that is taken
for granted.  The tiles of the bands may be of different sizes.
-/
import Iipsrv.Server.Main
import Iipsrv.Lib.Signed
import Iipsrv.Lib.Steps

namespace Iipsrv.SPECTRA

open Lib.Print (Text)
open Lib.Word Lib.Effects Lib.Signed Lib.Steps

/-! ## 1. The loop -/

/-- The calls of the tile manager, without the points: each returns the object and the tile. -/
def tiles (S : Server) (s₀ : Session) (resolution tile : Int32) (im : Opened) (views : List Int) :
    Task (List (Opened × RawTile)) :=
  EState.collect (fun im n => S.tile im (request S s₀ im resolution tile n)) im views

/-- A band: its number, the object behind its tile, and the tile. -/
abbrev Reading := Int × Opened × RawTile

/-- The tile has the point. -/
def Has (x y : Int32) (t : RawTile) : Prop :=
  ¬ (Int32.ofNat t.width ≤ x ∨ Int32.ofNat t.height ≤ y)

instance (x y : Int32) (t : RawTile) : Decidable (Has x y t) := inferInstanceAs (Decidable (¬ _))

/-- The bands that are reported. -/
def reported (x y : Int32) (bs : List Reading) : List Reading :=
  bs.takeWhile fun b => decide (Has x y b.2.2)

theorem reported_of_has {x y : Int32} {b : Reading} {bs : List Reading} (h : Has x y b.2.2) :
    reported x y (b :: bs) = b :: reported x y bs :=
  List.takeWhile_cons_of_pos (decide_eq_true h)

theorem reported_of_not_has {x y : Int32} {b : Reading} {bs : List Reading}
    (h : ¬ Has x y b.2.2) : reported x y (b :: bs) = [] :=
  List.takeWhile_cons_of_neg fun hd => h (of_decide_eq_true hd)

section
variable {S : Server} {s₀ s s' k k' : Session} {im : Opened} {resolution tile x y : Int32}

/-- A tile depends on the cache alone. -/
theorem tile_of_cache {q : Request} {r : Opened × RawTile} (hcache : s.tileCache = k.tileCache)
    (h : S.tile im q k = .ok r k') :
    ∃ s', S.tile im q s = .ok r s' ∧ s'.tileCache = k'.tileCache ∧ s'.out = s.out := by
  unfold Server.tile Task.manage at h ⊢
  rw [hcache]
  split at h
  case h_1 =>
    cases h
    exact ⟨_, rfl, rfl, rfl⟩
  case h_2 => cases h

/-- **One turn**, with a tile that has the point. -/
theorem bands_of_has {n : Int} {views : List Int} {r : Opened × RawTile}
    (h : S.tile im (request S s₀ im resolution tile n) s = .ok r s') (hhas : Has x y r.2) :
    bands S s₀ resolution tile x y im (n :: views) s =
      bands S s₀ resolution tile x y r.1 views (s'.write (point S n r.2 (index r.1 x y))) := by
  rw [bands, EState.bind_ok h]
  exact congrFun (if_neg hhas) s'

/-- ... and with one that does not. -/
theorem bands_of_not_has {n : Int} {views : List Int} {r : Opened × RawTile}
    (h : S.tile im (request S s₀ im resolution tile n) s = .ok r s') (hnot : ¬ Has x y r.2) :
    bands S s₀ resolution tile x y im (n :: views) s = .ok r.1 s' := by
  rw [bands, EState.bind_ok h]
  exact congrFun (if_pos (not_not.mp hnot)) s'

/-- **What the loop writes.** -/
theorem bands_out {views : List Int} {rs : List (Opened × RawTile)}
    (hcache : s.tileCache = k.tileCache)
    (h : tiles S s₀ resolution tile im views k = .ok rs k') :
    ∃ im' s', bands S s₀ resolution tile x y im views s = .ok im' s' ∧
      s'.out = s.out ++
        (reported x y (views.zip rs)).flatMap fun b => point S b.1 b.2.2 (index b.2.1 x y) := by
  unfold tiles at h
  induction views generalizing im s k rs with
  | nil =>
    cases h
    exact ⟨im, s, rfl, (List.append_nil _).symm⟩
  | cons n views ih =>
    obtain ⟨r, k₁, rest, htile, hrest, rfl⟩ := EState.collect_cons_eq_ok h
    obtain ⟨s₁, htile, hcache, hout⟩ := tile_of_cache hcache htile
    rw [List.zip_cons_cons]
    by_cases hhas : Has x y r.2
    · rw [bands_of_has htile hhas, reported_of_has (b := (n, r)) hhas, List.flatMap_cons]
      obtain ⟨im', s', hbands, hs'⟩ :=
        ih (s := s₁.write (point S n r.2 (index r.1 x y))) (k := k₁) hcache hrest
      refine ⟨im', s', hbands, hs'.trans ?_⟩
      rw [Session.write, hout, List.append_assoc]
    · rw [bands_of_not_has htile hhas, reported_of_not_has (b := (n, r)) hhas]
      exact ⟨r.1, s₁, rfl, by rw [List.flatMap_nil, List.append_nil, hout]⟩

end

/-! ## 2. The index -/

/-- What the tile manager returns: a tile of the size it says, and an object with an `unsigned int`
for the width of its tiles. -/
structure Served (r : Opened × RawTile) : Prop where
  tileWidth_lt : r.1.base.tileWidth < 2 ^ 32
  channels_pos : 1 ≤ r.2.channels
  size_lt : r.2.width * r.2.height * r.2.channels < 2 ^ 32
  length_eq : r.2.data.length = r.2.width * r.2.height * r.2.channels * (r.2.bpc / 8)

/-- **The index is that of the first sample of the pixel**, and in the data of the tile. -/
def Right (x y : Int32) (r : Opened × RawTile) : Prop :=
  index r.1 x y = (y.toInt.toNat * r.2.width + x.toInt.toNat) * r.2.channels ∧
    (index r.1 x y + 1) * (r.2.bpc / 8) ≤ r.2.data.length

section
variable {im : Opened} {r : Opened × RawTile} {x y x' y' : Int32}

/-- The product and the sum do not wrap, and there is a sample. -/
theorem Served.right_of_eq (hr : Served r) (hx : x.toInt.toNat < r.2.width)
    (hy : y.toInt.toNat < r.2.height)
    (h : y.toInt.toNat * r.1.base.tileWidth + x.toInt.toNat
      = (y.toInt.toNat * r.2.width + x.toInt.toNat) * r.2.channels) : Right x y r := by
  have hpixel : y.toInt.toNat * r.2.width + x.toInt.toNat + 1 ≤ r.2.width * r.2.height := by
    have hlines : (y.toInt.toNat + 1) * r.2.width ≤ r.2.height * r.2.width :=
      Nat.mul_le_mul_right _ hy
    rw [Nat.succ_mul] at hlines
    rw [Nat.mul_comm r.2.width]
    omega
  have hsample : (y.toInt.toNat * r.2.width + x.toInt.toNat) * r.2.channels + 1
      ≤ r.2.width * r.2.height * r.2.channels := by
    have hmul := Nat.mul_le_mul_right r.2.channels hpixel
    have hpos := hr.channels_pos
    rw [Nat.succ_mul] at hmul
    omega
  have hindex : index r.1 x y
      = (y.toInt.toNat * r.2.width + x.toInt.toNat) * r.2.channels := by
    have hlt := hr.size_lt
    rw [index, h, u32]
    exact Nat.mod_eq_of_lt (by omega)
  refine ⟨hindex, ?_⟩
  rw [hindex, hr.length_eq]
  exact Nat.mul_le_mul_right _ hsample

/-- A point in the tile, in numbers.  A size from `2 ^ 31` on is negative in the comparison. -/
theorem Has.lt {t : RawTile} (h : Has x y t) (hx : 0 ≤ x.toInt) (hy : 0 ≤ y.toInt) :
    x.toInt.toNat < t.width ∧ y.toInt.toNat < t.height := by
  have hwidth := toInt_ofNat_le t.width
  have hheight := toInt_ofNat_le t.height
  unfold Has at h
  rw [Int32.le_iff_toInt_le, Int32.le_iff_toInt_le] at h
  omega

/-- **Lines of the length that is taken for granted.** -/
theorem index_eq {x y tw w c : Nat} (hx : x = 0 ∨ c = 1) (hy : y = 0 ∨ tw = w * c) :
    y * tw + x = (y * w + x) * c := by
  obtain rfl | rfl := hy
  · obtain rfl | rfl := hx
    · simp
    · simp
  · obtain rfl | rfl := hx
    · rw [Nat.add_zero, Nat.add_zero, Nat.mul_assoc]
    · rw [Nat.mul_one, Nat.mul_one]

/-- The point is accepted, and these bands have it. -/
def Reaches (im : Opened) (bs : List Reading) (x y : Int32) : Prop :=
  ¬ outside im x y ∧ ∀ b ∈ bs, Has x y b.2.2

instance (im : Opened) (bs : List Reading) (x y : Int32) : Decidable (Reaches im bs x y) :=
  inferInstanceAs (Decidable (_ ∧ _))

/-- With a point, those to the left and above are reached. -/
theorem Reaches.mono {bs : List Reading} (h : Reaches im bs x y) (hx : x'.toInt ≤ x.toInt)
    (hy : 0 ≤ y'.toInt) (hy' : y'.toInt ≤ y.toInt) : Reaches im bs x' y' := by
  obtain ⟨hout, hall⟩ := h
  refine ⟨?_, fun b hb => ?_⟩
  · unfold outside at hout ⊢
    rw [Int32.le_iff_toInt_le, Int32.le_iff_toInt_le, Int32.lt_iff_toInt_lt] at hout ⊢
    rw [Int32.toInt_zero] at hout ⊢
    omega
  · have hhas := hall b hb
    unfold Has at hhas ⊢
    rw [Int32.le_iff_toInt_le, Int32.le_iff_toInt_le] at hhas ⊢
    omega

/-- The condition, for the band `b` behind the bands of `front`: one channel, if a second column is
reached, and lines as long as those of the image's tiles, if a second line is. -/
def Fitting (im : Opened) (front : List Reading) (b : Reading) : Prop :=
  (Reaches im (front ++ [b]) 1 0 → b.2.2.channels = 1) ∧
    (Reaches im (front ++ [b]) 0 1 → b.2.1.base.tileWidth = b.2.2.width * b.2.2.channels)

section
variable {bs front back : List Reading} {b : Reading}

/-- A point that a band and those before it have is read right in it. -/
theorem right_of_all
    (hright : ∀ x y : Int32, ¬ x < 0 → ¬ outside im x y → ∀ b ∈ reported x y bs, Right x y b.2)
    (hsplit : bs = front ++ b :: back) (hx : ¬ x < 0) (hreach : Reaches im (front ++ [b]) x y) :
    Right x y b.2 :=
  hright x y hx hreach.1 b (mem_takeWhile_iff.mpr
    ⟨front, back, hsplit, fun u hu => decide_eq_true (hreach.2 u hu)⟩)

/-- **Every point that is accepted is read right** in the bands that are reported, exactly if every
band fits. -/
theorem right_iff (hbs : ∀ b ∈ bs, Served b.2) :
    (∀ x y : Int32, ¬ x < 0 → ¬ outside im x y → ∀ b ∈ reported x y bs, Right x y b.2) ↔
      ∀ front b back, bs = front ++ b :: back → Fitting im front b := by
  constructor
  · intro hright front b back hsplit
    refine ⟨fun hreach => ?_, fun hreach => ?_⟩
    · -- the second pixel of the first line
      have hindex := (right_of_all hright hsplit (by decide) hreach).1
      change u32 (0 * _ + 1) = (0 * _ + 1) * _ at hindex
      rw [Nat.zero_mul, Nat.zero_mul, Nat.zero_add, Nat.one_mul, u32] at hindex
      omega
    · -- the first pixel of the second line
      have hindex := (right_of_all hright hsplit (by decide) hreach).1
      have hlt := (hbs b (hsplit ▸ List.mem_append_right _ List.mem_cons_self)).tileWidth_lt
      change u32 (1 * _ + 0) = (1 * _ + 0) * _ at hindex
      rw [Nat.one_mul, Nat.one_mul, Nat.add_zero, Nat.add_zero, u32] at hindex
      omega
  · intro hfitting x y hnonneg hout b hb
    obtain ⟨front, back, hsplit, hall⟩ := mem_takeWhile_iff.mp hb
    have hreach : Reaches im (front ++ [b]) x y :=
      ⟨hout, fun u hu => of_decide_eq_true (hall u hu)⟩
    have hx : 0 ≤ x.toInt := not_lt.mp fun h => hnonneg (Int32.lt_iff_toInt_lt.mpr h)
    have hy : 0 ≤ y.toInt := not_lt.mp fun h => hout (.inr (.inl (Int32.lt_iff_toInt_lt.mpr h)))
    have hlt := (hreach.2 b (List.mem_append_right _ List.mem_cons_self)).lt hx hy
    obtain ⟨hcolumn, hline⟩ := hfitting front b back hsplit
    refine (hbs b (hsplit ▸ List.mem_append_right _ List.mem_cons_self)).right_of_eq hlt.1 hlt.2
      (index_eq ?_ ?_)
    · refine or_iff_not_imp_left.mpr fun hne => hcolumn (hreach.mono ?_ le_rfl hy)
      change 1 ≤ x.toInt
      omega
    · refine or_iff_not_imp_left.mpr fun hne => hline (hreach.mono hx (by decide) ?_)
      change 1 ≤ y.toInt
      omega

end

end

/-- **The sample that is reported is the pixel's**, in every band and for every point that is
accepted, exactly if every band fits. -/
theorem point_read_iff (S : Server) (s₀ s s' : Session) (im : Opened) (resolution tile : Int32)
    (rs : List (Opened × RawTile))
    (htiles : tiles S s₀ resolution tile im im.base.horizontalAnglesList s = .ok rs s')
    (hrs : ∀ r ∈ rs, Served r) :
    (∀ x y : Int32, ¬ x < 0 → ¬ outside im x y →
        ∃ im' s₁, bands S s₀ resolution tile x y im im.base.horizontalAnglesList s = .ok im' s₁ ∧
          s₁.out = s.out ++ (reported x y (im.base.horizontalAnglesList.zip rs)).flatMap
            (fun b => point S b.1 b.2.2 (index b.2.1 x y)) ∧
          ∀ b ∈ reported x y (im.base.horizontalAnglesList.zip rs), Right x y b.2) ↔
      ∀ front b back, im.base.horizontalAnglesList.zip rs = front ++ b :: back →
        Fitting im front b := by
  have hbs : ∀ b ∈ im.base.horizontalAnglesList.zip rs, Served b.2 :=
    fun b hb => hrs b.2 (List.of_mem_zip hb).2
  refine Iff.trans (forall₄_congr fun x y hx hout => ?_) (right_iff hbs)
  obtain ⟨im', s₁, hbands, hs₁⟩ := bands_out (x := x) (y := y) rfl htiles
  constructor
  · rintro ⟨-, -, -, -, h⟩
    exact h
  · exact fun h => ⟨im', s₁, hbands, hs₁, h⟩

/-- A sequence of two bands, of 2 by 2 pixels in tiles of 2 and of 4 by 2 pixels in tiles of 4. -/
def twoBands : ImageSource where
  isFile := false
  format := .tif
  horizontalViews := [0, 10]
  verticalViews := [90]
  file seq _ := some ⟨0, .tiff { greyTiff 2 with
    tileWidth := some (if seq = 0 then 2 else 4), tileHeight := some 2
    width := if seq = 0 then 2 else 4 }⟩

/-- A server with this image, whose decoder returns whole tiles. -/
def bandServer : Server :=
  { smallServer fun _ => some twoBands with
    getTile := fun _ seq _ _ _ _ =>
      let w := if seq = 0 then 2 else 4
      .ok ⟨w, 2, 1, 8, .fixedPoint, List.replicate (w * 2) 7, w * 2, false⟩ }

/-- The object of the image, at its first band. -/
def firstBand : Opened :=
  .tpt ((TPTImage.ofIIPImage (twoBands.object [])).loadImageInfo
    { greyTiff 2 with tileWidth := some 2, tileHeight := some 2 } 0 90)

/-- The two bands are read with the width of their own tiles. -/
theorem point_read_iff_two :
    ∃ r₁ r₂ s', tiles bandServer freshSession 0 0 firstBand [0, 10] freshSession
        = .ok [r₁, r₂] s' ∧ index r₁.1 1 1 = 3 ∧ index r₂.1 1 1 = 5 ∧
      ∀ b ∈ reported 1 1 [(0, r₁), (10, r₂)], Right 1 1 b.2 := by
  have htiles : ∃ r₁ r₂ s', tiles bandServer freshSession 0 0 firstBand [0, 10] freshSession
        = .ok [r₁, r₂] s' ∧ (Served r₁ ∧ Served r₂) ∧ index r₁.1 1 1 = 3 ∧ index r₂.1 1 1 = 5 ∧
          (r₁.2.channels = 1 ∧ r₁.1.base.tileWidth = r₁.2.width * r₁.2.channels) ∧
          r₂.2.channels = 1 ∧ r₂.1.base.tileWidth = r₂.2.width * r₂.2.channels :=
    ⟨_, _, _, rfl, ⟨⟨by decide, by decide, by decide, by decide⟩,
      ⟨by decide, by decide, by decide, by decide⟩⟩, by decide, by decide, ⟨rfl, rfl⟩, rfl, rfl⟩
  obtain ⟨r₁, r₂, s', htiles, hserved, h₁, h₂, hfirst, hsecond⟩ := htiles
  have hfitting : ∀ front b back, [((0 : Int), r₁), (10, r₂)] = front ++ b :: back →
      Fitting firstBand front b := by
    intro front b back hsplit
    have hb : b ∈ [((0 : Int), r₁), (10, r₂)] :=
      hsplit ▸ List.mem_append_right _ List.mem_cons_self
    rcases List.mem_cons.mp hb with rfl | hb
    · exact ⟨fun _ => hfirst.1, fun _ => hfirst.2⟩
    · rw [List.mem_singleton.mp hb]
      exact ⟨fun _ => hsecond.1, fun _ => hsecond.2⟩
  obtain ⟨-, -, -, -, hright⟩ := (point_read_iff bandServer freshSession freshSession s' firstBand
    0 0 [r₁, r₂] htiles (List.forall_mem_cons.mpr
      ⟨hserved.1, List.forall_mem_singleton.mpr hserved.2⟩)).mpr hfitting 1 1 (by decide)
      (by decide)
  exact ⟨r₁, r₂, s', htiles, h₁, h₂, hright⟩

/-- A server whose decoder returns a constant tile of one channel. -/
def constantTiles (w h : Nat) : Server :=
  { smallServer fun _ => none with
    getTile := fun _ _ _ _ _ _ => .ok
      ⟨w, h, 1, 8, .fixedPoint, List.replicate (w * h) 7, w * h, false⟩ }

/-- An image of 6 by 2 pixels in tiles of 4 by 2. -/
def twoTiles : Opened :=
  .openJPEG { IIPImage.new (str "a.jp2") with
    horizontalAnglesList := [0], imageWidths := [6], imageHeights := [2], tileWidth := 4,
    tileHeight := 2, numResolutions := 1, bpc := 8, channels := 1, isSet := true }

/-- **In the second tile, the second line is missed**, and the data left. -/
theorem cropped_tile_misread :
    ∃ r s', tiles (constantTiles 2 2) freshSession 0 1 twoTiles [0] freshSession = .ok [r] s' ∧
      ¬ outside twoTiles 0 1 ∧ reported 0 1 [(0, r)] = [(0, r)] ∧ index r.1 0 1 = 4 ∧
      (1 * r.2.width + 0) * r.2.channels = 2 ∧ r.2.data.length = 4 :=
  ⟨_, _, rfl, by decide, rfl, rfl, rfl, rfl⟩

end Iipsrv.SPECTRA
