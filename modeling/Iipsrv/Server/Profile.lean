/-
# A profile through the bands

`PFL` reads a line of pixels from every band of an image sequence and sends the samples as lists.

* **The line** (§1).  The four coordinates may be equal to the size of the level: the tests are
  `x1>im_width` and its like.  The second point is not part of the line, so that is right for it.
  The first one is, and if it lies ON the right or the lower border, the line is outside.
  `window_inside_iff` says that this is the only case.
* **The lists** (§3, §4).  The number of samples, `length`, is declared outside the loop over the
  bands, and multiplied by the channels of the band inside.  The second band of a colour image is
  read nine times as far as there are pixels.  `lists_iff` says that the lists are right exactly if
  no band but the last has more than one channel.
-/
import Iipsrv.Server.Main
import Iipsrv.TileManager.Allocation
import Iipsrv.Lib.Signed

namespace Iipsrv

open Lib.Print (Text)
open Lib.Word Lib.Effects Lib.Signed Lib.Buffer

namespace PFL

/-! ## 1. The line -/

/-- The line that an argument asks for. -/
def line (argument : Text) : Window :=
  window (points argument).1.1 (points argument).1.2 (points argument).2.1 (points argument).2.2

/-- No test rejects the request, on a level of this size. -/
structure Accepts (im : ImageInfo) (argument : Text) (w h : Nat) : Prop where
  nonneg : ¬ resolution argument < 0
  lt : ¬ Int32.ofNat im.numResolutions ≤ resolution argument
  level : JTL.levelSize im (resolution argument) = some (w, h)
  possible : ¬ impossible w h (points argument).1.1 (points argument).1.2 (points argument).2.1
    (points argument).2.2

/-- **What is not rejected** goes on with the line. -/
theorem run_of_accepts {S : Server} {im : Opened} {argument : Text} {w h : Nat}
    (haccepts : Accepts im.info argument w h) :
    ∃ t, run S argument = [.follow t] ∧ t im = send S (resolution argument) (line argument) im := by
  refine ⟨_, if_neg haccepts.nonneg, ?_⟩
  refine (if_neg haccepts.lt).trans ?_
  rw [haccepts.level]
  exact if_neg haccepts.possible

/-- What is rejected leaves the session as it was. -/
theorem task_of_not_accepts {S : Server} {im : Opened} {argument : Text}
    (hnonneg : ¬ resolution argument < 0) (hrejects : ∀ w h, ¬ Accepts im.info argument w h)
    (s : Session) :
    ∃ e, task S (resolution argument) (points argument).1.1 (points argument).1.2
      (points argument).2.1 (points argument).2.2 im s = .error e s := by
  unfold task
  split
  case isTrue => exact ⟨_, rfl⟩
  case isFalse hlt =>
    rcases hlevel : JTL.levelSize im.info (resolution argument) with _ | ⟨w, h⟩
    · exact ⟨_, rfl⟩
    · by_cases hpossible : impossible w h (points argument).1.1 (points argument).1.2
        (points argument).2.1 (points argument).2.2
      · exact ⟨_, congrFun (if_pos hpossible) s⟩
      · exact absurd ⟨hnonneg, hlt, hlevel, hpossible⟩ (hrejects w h)

/-- **The line is not empty, and inside the level**, exactly if its first point is. -/
theorem window_inside_iff (im : ImageInfo) (argument : Text) (w h : Nat)
    (haccepts : Accepts im argument w h) :
    (0 < (line argument).width ∧ 0 < (line argument).height ∧
        (line argument).x + (line argument).width ≤ w ∧
        (line argument).y + (line argument).height ≤ h) ↔
      (points argument).1.1.toInt < w ∧ (points argument).1.2.toInt < h := by
  have hpossible := haccepts.possible
  have hw := toInt_ofNat_le w
  have hh := toInt_ofNat_le h
  unfold impossible at hpossible
  unfold line window
  generalize (points argument).1.1 = x1 at *
  generalize (points argument).1.2 = y1 at *
  generalize (points argument).2.1 = x2 at *
  generalize (points argument).2.2 = y2 at *
  simp only [Int32.lt_iff_toInt_lt, Int32.toInt_zero] at hpossible ⊢
  split
  · omega
  · split <;> omega

/-- A line of four pixels. -/
theorem window_inside_iff_four :
    Accepts (CVT.singleLevel 8 8) (str "0:2,5-6,5") 8 8 ∧ line (str "0:2,5-6,5") = ⟨2, 5, 4, 1⟩ ∧
      2 + 4 ≤ 8 ∧ 5 + 1 ≤ 8 := by
  have haccepts : Accepts (CVT.singleLevel 8 8) (str "0:2,5-6,5") 8 8 :=
    ⟨by decide, by decide, by decide, by decide⟩
  have hinside := (window_inside_iff (CVT.singleLevel 8 8) (str "0:2,5-6,5") 8 8 haccepts).mpr
    ⟨by decide, by decide⟩
  exact ⟨haccepts, by decide, hinside.2.2.1, hinside.2.2.2⟩

/-- **The point behind the last column** is accepted. -/
theorem border_point_accepted :
    Accepts (CVT.singleLevel 8 8) (str "0:8,0") 8 8 ∧ line (str "0:8,0") = ⟨8, 0, 1, 1⟩ ∧
      ¬ 8 + 1 ≤ 8 :=
  ⟨⟨by decide, by decide, by decide, by decide⟩, by decide, by decide⟩

/-! ## 2. The length of a region -/

end PFL

namespace Server

variable {S : Server} {res seq ang layers : Int32} {g : Composition} {c c' : Cache}
  {p p' : Opened × Composed}

theorem length_composeTile {i j : Nat}
    (h : S.composeTile res seq ang layers g i p j c = .ok p' c') :
    p'.2.data.length = p.2.data.length := by
  obtain ⟨r, c₁, -, h⟩ := EState.bind_eq_ok h
  obtain ⟨st, c₂, hpart, hpure⟩ := EState.bind_eq_ok h
  cases hpure
  unfold Manager.ofExcept at hpart
  split at hpart
  case h_1 st₁ hok =>
    cases hpart
    exact length_composePart hok
  case h_2 => cases hpart

theorem length_composeRow {i : Nat} (h : S.composeRow res seq ang layers g p i c = .ok p' c') :
    p'.2.data.length = p.2.data.length := by
  obtain ⟨r, c₁, hrow, hpure⟩ := EState.bind_eq_ok h
  cases hpure
  have hlength := EState.foldlM_keeps (fun p : Opened × Composed => p.2.data.length)
    (fun _ _ _ _ _ h => length_composeTile h) hrow
  exact hlength

/-- **A region that is composed has the cells that were allocated for it.** -/
theorem length_regionOf {im im' : Opened} {x y width height : Nat} {r : Region}
    (hdec : im.info.regionDecoding = false)
    (h : S.regionOf im res seq ang layers x y width height c = .ok (im', r) c') :
    r.channels = im.info.channels ∧ r.bpc = im.info.regionBpc ∧
      r.data.length = u32 (width * height * im.info.channels) *
        (sampleBytes im.info.regionBpc).getD 0 := by
  unfold regionOf at h
  simp only [hdec] at h
  rw [if_neg (by decide)] at h
  cases hlevel : im.info.regionLevel res with
  | none =>
    rw [hlevel] at h
    cases h
  | some size =>
    rw [hlevel] at h
    dsimp only at h
    split at h
    case isTrue => cases h
    case isFalse =>
      obtain ⟨q, c₁, hrows, hpure⟩ := EState.bind_eq_ok h
      cases hpure
      have hlength := EState.foldlM_keeps (fun p : Opened × Composed => p.2.data.length)
        (fun _ _ _ _ _ h => length_composeRow h) hrows
      exact ⟨rfl, rfl, hlength.trans (length_fresh _)⟩

end Server

namespace PFL

/-! ## 3. The samples of a band -/

/-- What `getRegion` returns for a line: the data have room for all samples, in an `unsigned int`
of bytes, and no more. -/
structure Returned (p : Window) (r : Region) : Prop where
  channels_pos : 1 ≤ r.channels
  depth : r.bpc = 8 ∨ r.bpc = 16 ∨ r.bpc = 32
  size_lt : p.width * p.height * r.channels < 2 ^ 32
  length_eq : r.data.length = p.width * p.height * r.channels * (r.bpc / 8)

/-- **One value for each sample**: as many as there are samples, and together the data of the
region, in order. -/
structure Complete (p : Window) (band : Int × Region) (b : Band) : Prop where
  wavelength_eq : b.wavelength = band.1
  count : b.values.length = p.width * p.height * band.2.channels
  size : ∀ v ∈ b.values, v.length = band.2.bpc / 8
  samples : b.values.flatten = band.2.data

section
variable {p : Window} {r : Region}

theorem Returned.sampleBytes_eq (hr : Returned p r) : sampleBytes r.bpc = some (r.bpc / 8) := by
  rcases hr.depth with h | h | h <;> rw [h] <;> rfl

theorem Returned.bytes_pos (hr : Returned p r) : 0 < r.bpc / 8 := by
  rcases hr.depth with h | h | h <;> rw [h] <;> decide

/-- The data of a region that is composed from tiles have this length. -/
theorem Returned.of_composed {S : Server} {s₀ s s' : Session} {im im' : Opened} {res : Int32}
    {n : Int} (hdec : im.info.regionDecoding = false) (hchannels : 1 ≤ im.info.channels)
    (hdepth : im.info.regionBpc = 8 ∨ im.info.regionBpc = 16 ∨ im.info.regionBpc = 32)
    (hsize : p.width * p.height * im.info.channels < 2 ^ 32)
    (h : region S s₀ res p im n s = .ok (im', r) s') : Returned p r := by
  unfold region Server.region Task.manage at h
  split at h
  case h_2 => cases h
  case h_1 q k hregion =>
    cases h
    obtain ⟨hc, hbpc, hlength⟩ := Server.length_regionOf hdec hregion
    have hbytes : sampleBytes im.info.regionBpc = some (im.info.regionBpc / 8) := by
      rcases hdepth with h | h | h <;> rw [h] <;> rfl
    refine ⟨hc ▸ hchannels, hbpc ▸ hdepth, hc ▸ hsize, ?_⟩
    rw [hlength, hc, hbpc, u32, Nat.mod_eq_of_lt hsize, hbytes, Option.getD_some]

/-- **The loop over the samples**, with the right number of turns. -/
theorem Returned.samples_eq (hr : Returned p r) (n : Int) :
    ∃ values, samples r (p.width * p.height * r.channels) = some values ∧
      Complete p (n, r) ⟨n, r.bpc, r.sampleType, values⟩ := by
  have hroom : ∀ j ∈ List.range (p.width * p.height * r.channels),
      j * (r.bpc / 8) + r.bpc / 8 ≤ r.data.length := by
    intro j hj
    rw [hr.length_eq, ← Nat.succ_mul]
    exact Nat.mul_le_mul_right _ (List.mem_range.mp hj)
  have hread : ∀ j ∈ List.range (p.width * p.height * r.channels),
      sample r j = some ((r.data.drop (j * (r.bpc / 8))).take (r.bpc / 8)) := by
    intro j hj
    unfold sample
    rw [hr.sampleBytes_eq]
    exact if_pos (hroom j hj)
  refine ⟨_, (if_pos hr.size_lt).trans (mapM_eq_some _ hread), rfl, ?_, ?_, ?_⟩
  · rw [List.length_map, List.length_range]
  · intro v hv
    obtain ⟨j, hj, rfl⟩ := List.mem_map.mp hv
    have hfits := hroom j hj
    rw [List.length_take, List.length_drop]
    exact Nat.min_eq_left (by omega)
  · rw [← List.flatMap_def]
    exact flatMap_pieces hr.length_eq.le

/-- ... and with more: it leaves the data, or does not end. -/
theorem Returned.samples_eq_none (hr : Returned p r) {length : Nat}
    (h : p.width * p.height * r.channels < length) : samples r length = none := by
  have hbehind : sample r (p.width * p.height * r.channels) = none := by
    have hpos := hr.bytes_pos
    unfold sample
    rw [hr.sampleBytes_eq]
    refine if_neg ?_
    rw [hr.length_eq]
    omega
  unfold samples
  split
  case isTrue => exact mapM_eq_none (List.mem_range.mpr h) hbehind
  case isFalse => rfl

end

/-! ## 4. The loop over the bands -/

/-- A line has at least one pixel. -/
theorem line_pos (argument : Text) : 0 < (line argument).width * (line argument).height := by
  unfold line window
  generalize (points argument).1.1 = x1
  generalize (points argument).1.2 = y1
  generalize (points argument).2.1 = x2
  generalize (points argument).2.2 = y2
  simp only [Int32.lt_iff_toInt_lt]
  refine Nat.mul_pos ?_ ?_
  · split <;> omega
  · split
    · decide
    · split <;> omega

section
variable {S : Server} {s₀ s s₁ s' : Session} {im : Opened} {res : Int32} {p : Window}
  {length : Nat} {n : Int} {views : List Int} {r : Opened × Region}

/-- **One turn**, with a region whose samples can be read. -/
theorem bands_of_samples (h : region S s₀ res p im n s = .ok r s₁)
    {values : List (List (Option UInt8))}
    (hsamples : samples r.2 (length * r.2.channels % 2 ^ 64) = some values) :
    bands S s₀ res p length im (n :: views) s =
      (bands S s₀ res p (length * r.2.channels % 2 ^ 64) r.1 views >>= fun rest =>
        pure (rest.1, ⟨n, r.2.bpc, r.2.sampleType, values⟩ :: rest.2)) s₁ := by
  rw [bands, EState.bind_ok h]
  dsimp only
  rw [hsamples]

/-- ... and with one whose samples cannot. -/
theorem bands_of_no_samples (h : region S s₀ res p im n s = .ok r s₁)
    (hsamples : samples r.2 (length * r.2.channels % 2 ^ 64) = none) :
    bands S s₀ res p length im (n :: views) s = .error (.fault .outOfBounds) s₁ := by
  rw [bands, EState.bind_ok h]
  dsimp only
  rw [hsamples]
  rfl

/-- **The second of two bands** is read too far if the first has several channels. -/
theorem bands_of_channels (hpixels : 0 < p.width * p.height) {c : Nat} (hc : 1 < c)
    (hlt : p.width * p.height * c < 2 ^ 32) (h : region S s₀ res p im n s = .ok r s₁)
    (hr : Returned p r.2) :
    bands S s₀ res p (p.width * p.height * c) im (n :: views) s
      = .error (.fault .outOfBounds) s₁ := by
  refine bands_of_no_samples h (hr.samples_eq_none ?_)
  have hr32 : r.2.channels < 2 ^ 32 :=
    (Nat.le_mul_of_pos_left r.2.channels hpixels).trans_lt hr.size_lt
  have hword : p.width * p.height * c * r.2.channels < 2 ^ 64 :=
    (Nat.mul_lt_mul'' hlt hr32).trans_eq (by norm_num)
  rw [Nat.mod_eq_of_lt hword]
  calc p.width * p.height * r.2.channels
      < p.width * p.height * r.2.channels * c :=
        lt_mul_of_one_lt_right (Nat.mul_pos hpixels hr.channels_pos) hc
    _ = p.width * p.height * c * r.2.channels := Nat.mul_right_comm _ _ _

/-- **The loop.**  The calls of the tile manager return these regions. -/
theorem bands_iff (hpixels : 0 < p.width * p.height) {rs : List (Opened × Region)}
    (hregions : EState.collect (region S s₀ res p) im views s = .ok rs s')
    (hrs : ∀ r ∈ rs, Returned p r.2) :
    (∃ im' l, bands S s₀ res p (p.width * p.height) im views s = .ok (im', l) s' ∧
        List.Forall₂ (Complete p) (views.zip (rs.map Prod.snd)) l) ↔
      ∀ r ∈ rs.dropLast, r.2.channels = 1 := by
  induction views generalizing im s rs with
  | nil =>
    cases hregions
    refine iff_of_true ⟨im, [], rfl, .nil⟩ ?_
    rintro r ⟨⟩
  | cons n views ih =>
    obtain ⟨r, s₁, rest, hregion, hrest, rfl⟩ := EState.collect_cons_eq_ok hregions
    have hr := hrs r List.mem_cons_self
    have hrs' : ∀ r' ∈ rest, Returned p r'.2 := fun r' h => hrs r' (List.mem_cons_of_mem r h)
    have hword : p.width * p.height * r.2.channels % 2 ^ 64 = p.width * p.height * r.2.channels :=
      Nat.mod_eq_of_lt (hr.size_lt.trans (by decide))
    obtain ⟨values, hsamples, hcomplete⟩ := hr.samples_eq n
    rw [bands_of_samples hregion (hword ▸ hsamples), hword, List.map_cons, List.zip_cons_cons]
    cases views with
    | nil =>
      cases hrest
      refine iff_of_true ⟨r.1, _, rfl, .cons hcomplete .nil⟩ ?_
      rintro r' ⟨⟩
    | cons n' views =>
      obtain ⟨r', s₂, rest, hregion', -, rfl⟩ := EState.collect_cons_eq_ok hrest
      rw [List.dropLast_cons_cons, List.forall_mem_cons]
      by_cases hc : r.2.channels = 1
      · rw [hc, Nat.mul_one, and_iff_right rfl, ← ih hrest hrs']
        constructor
        · rintro ⟨im', l, hbands, hcomplete⟩
          obtain ⟨⟨im₁, l'⟩, s₃, hbands, hpure⟩ := EState.bind_eq_ok hbands
          cases hpure
          exact ⟨im₁, l', hbands, (List.forall₂_cons.mp hcomplete).2⟩
        · rintro ⟨im', l, hbands, hrest⟩
          exact ⟨im', _, EState.bind_ok hbands, .cons hcomplete hrest⟩
      · refine iff_of_false ?_ fun h => hc h.1
        rintro ⟨im', l, hbands, -⟩
        have hpos := hr.channels_pos
        rw [EState.bind_error (bands_of_channels hpixels (by omega) hr.size_lt hregion'
          (hrs' r' List.mem_cons_self))] at hbands
        cases hbands

end

/-- **Each list has one value for each sample of its band**, exactly if no band but the last has
more than one channel. -/
theorem lists_iff (S : Server) (s s' : Session) (im : Opened) (argument : Text)
    (rs : List (Opened × Region))
    (hregions : EState.collect (region S s (resolution argument) (line argument)) im
      im.base.horizontalAnglesList s = .ok rs s')
    (hrs : ∀ r ∈ rs, Returned (line argument) r.2) :
    (∃ im' l, bands S s (resolution argument) (line argument)
          ((line argument).width * (line argument).height) im im.base.horizontalAnglesList s
            = .ok (im', l) s' ∧
        List.Forall₂ (Complete (line argument))
          (im.base.horizontalAnglesList.zip (rs.map Prod.snd)) l) ↔
      ∀ r ∈ rs.dropLast, r.2.channels = 1 :=
  bands_iff (line_pos argument) hregions hrs

/-- A server whose decoder returns a constant region. -/
def constantServer (channels : Nat) : Server :=
  { smallServer fun _ => none with
    getRegion := fun _ _ _ _ _ _ _ w h => .ok
      ⟨w, h, channels, 8, .fixedPoint, List.replicate (w * h * channels) 7, w * h * channels,
        false⟩ }

/-- A sequence of two bands. -/
def twoBands : Opened :=
  .openJPEG { IIPImage.new (str "a.jp2") with
    horizontalAnglesList := [0, 90], imageWidths := [8], imageHeights := [8], tileWidth := 256,
    tileHeight := 256, numResolutions := 1, bpc := 8, channels := 1, isSet := true }

/-- The region of a band. -/
def constantRegion (channels : Nat) (n : Int32) : Region :=
  { resolution := 0, hSequence := n, vSequence := freshSession.view.yangle, width := 2, height := 1
    channels := channels, bpc := 8, sampleType := .fixedPoint, dataLength := 2 * 1 * channels
    data := (List.replicate (2 * 1 * channels) 7).map some }

theorem returned_constantRegion {c : Nat} (n : Int32) (hpos : 1 ≤ c) (hlt : 2 * 1 * c < 2 ^ 32) :
    Returned ⟨3, 4, 2, 1⟩ (constantRegion c n) :=
  ⟨hpos, .inl rfl, hlt, by simp [constantRegion]⟩

/-- Two grey bands. -/
theorem lists_iff_grey :
    ∃ l, bands (constantServer 1) freshSession 0 ⟨3, 4, 2, 1⟩ 2 twoBands [0, 90] freshSession
          = .ok (twoBands, l) freshSession ∧
      List.Forall₂ (Complete ⟨3, 4, 2, 1⟩)
        [(0, constantRegion 1 0), (90, constantRegion 1 90)] l := by
  obtain ⟨im', l, hbands, hcomplete⟩ := (lists_iff (constantServer 1) freshSession freshSession
    twoBands (str "0:3,4-5,4")
    [(twoBands, constantRegion 1 0), (twoBands, constantRegion 1 90)] rfl
    (List.forall_mem_cons.mpr ⟨returned_constantRegion 0 (by decide) (by decide),
      List.forall_mem_singleton.mpr (returned_constantRegion 90 (by decide) (by decide))⟩)).mpr
    (List.forall_mem_singleton.mpr rfl)
  cases hbands
  exact ⟨_, rfl, hcomplete⟩

/-- **Two colour bands.**  Both regions are there, and the second is read nine times as far as there
are pixels. -/
theorem second_band_overread :
    EState.collect (region (constantServer 3) freshSession 0 ⟨3, 4, 2, 1⟩) twoBands [0, 90]
        freshSession
        = .ok [(twoBands, constantRegion 3 0), (twoBands, constantRegion 3 90)] freshSession ∧
      bands (constantServer 3) freshSession 0 ⟨3, 4, 2, 1⟩ 2 twoBands [0, 90] freshSession
        = .error (.fault .outOfBounds) freshSession :=
  ⟨rfl, rfl⟩

end PFL

end Iipsrv
