/-
# Operations on raw pixels only

`send` fetches the tile raw if it expects to work on the pixels (`needsRaw`), and decides for
every operation by a condition of its own whether to apply it (`transforms`).  The first test has
to cover all the others.  It does not: the conversions to greyscale and to binary are applied for
any number of channels, but only looked for in images of 3 channels with 8 bits.  And the first test
looks at the image as it is BEFORE the tile is fetched, the others at the image as it is then.

Here the two sets of conditions are compared: `Overlooked` is the difference (`raw_iff_of_tile`).
Which image and which tile they are about is said in `Server/RawPixels.lean`.
-/
import Iipsrv.JTL.Model
import Iipsrv.Lib.Effects

namespace Iipsrv.JTL

open Lib.Effects

/-! ## 1. What has been applied, and to what -/

@[simp] theorem mem_opIf {c : Prop} [Decidable c] {op op' : Op} :
    op ∈ opIf c op' ↔ c ∧ op = op' := by
  unfold opIf
  split <;> simp [*]

theorem mem_middleOps {v : View} {op : Op} :
    op ∈ middleOps v ↔
      (v.shaded = true ∧ op = .shade) ∨ (v.ctw ≠ [] ∧ op = .twist v.ctw) ∨
        (v.gamma ≠ 1 ∧ op = if v.gamma = -1 then .log else .gamma v.gamma) ∨
        (v.inverted = true ∧ op = .inv) ∨ (v.cmapped = true ∧ op = .cmap) := by
  simp [middleOps]

theorem mem_viewOps {P : Processor} {im : ImageInfo} {v : View} {histogram : List Nat} {op : Op} :
    op ∈ viewOps P im v histogram ↔
      ((im.colourspace = .sRGB ∧ v.colourspace = .greyscale) ∧ op = .greyscale) ∨
        ((im.colourspace ≠ .binary ∧ v.colourspace = .binary) ∧
          op = .binary (P.threshold histogram)) ∨
        (v.equalization = true ∧ op = .equalize histogram) ∨
        (v.flip ≠ 0 ∧ op = .flip v.flip) ∨ (v.rotation ≠ 0 ∧ op = .rotate v.rotation) := by
  simp [viewOps]

/-- **What the float pipeline can come to**: it is not entered, or it runs with the range of a
contrast stretch, or with the image's own. -/
theorem floatOps_cases {v v' : View} {histogram : List Nat} {t : RawTile} {ops : List Op}
    (h : floatOps v histogram t = .ok (v', ops)) :
    (¬ (8 < t.bpc ∨ v.floatProcessing = true) ∧ v' = v ∧ ops = []) ∨
      (∃ range, stretchRange histogram t = some range ∧ v' = { v with contrast := 1 } ∧
        ops = .normalize (some range) :: middleOps v ++ [.contrast 1]) ∨
      (v.contrast ≠ -1 ∧ v' = v ∧
        ops = .normalize none :: middleOps v ++ [.contrast v.contrast]) := by
  unfold floatOps at h
  split at h
  case isTrue hno =>
    cases h
    exact .inl ⟨hno, rfl, rfl⟩
  case isFalse =>
    split at h
    case isTrue =>
      cases hrange : stretchRange histogram t with
      | none =>
        rw [hrange] at h
        cases h
      | some range =>
        rw [hrange] at h
        cases h
        exact .inr (.inl ⟨range, rfl, rfl, rfl⟩)
    case isFalse hcontrast =>
      cases h
      exact .inr (.inr ⟨hcontrast, rfl, rfl⟩)

/-- No operation changes the compression type, so a sequence of them meets the type the tile had
before. -/
theorem Work.applyAll_spec (P : Processor) (ops : List Op) (w : Work) :
    (w.applyAll P ops).tile.compressionType = w.tile.compressionType ∧
      (w.applyAll P ops).applied
        = w.applied ++ ops.map fun op => (op, w.tile.compressionType) := by
  induction ops generalizing w with
  | nil => exact ⟨rfl, by simp [Work.applyAll]⟩
  | cons op ops ih =>
    obtain ⟨htype, happlied⟩ :=
      ih ⟨P.apply op w.tile, w.applied ++ [(op, w.tile.compressionType)]⟩
    have hop := P.compressionType_apply op w.tile
    refine ⟨htype.trans hop, happlied.trans ?_⟩
    rw [hop, List.append_assoc]
    rfl

/-- The search for the range of a stretch ends exactly if there is a bin that is not empty. -/
theorem exists_stretchRange_iff (histogram : List Nat) (t : RawTile) :
    (∃ range, stretchRange histogram t = some range) ↔ ∃ n ∈ histogram, n ≠ 0 := by
  have hsearch : ∀ l : List Nat, (∃ i, l.findIdx? (· ≠ 0) = some i) ↔ ∃ n ∈ l, n ≠ 0 := by
    intro l
    rw [← Option.isSome_iff_exists, List.findIdx?_isSome]
    simp
  constructor
  · rintro ⟨range, hrange⟩
    obtain ⟨i, hi, -⟩ := Option.bind_eq_some_iff.1 hrange
    exact (hsearch histogram).1 ⟨i, hi⟩
  · intro hbin
    obtain ⟨i, hi⟩ := (hsearch histogram).2 hbin
    obtain ⟨j, hj⟩ := (hsearch histogram.reverse).2 (by simpa using hbin)
    unfold stretchRange
    rw [hi, hj]
    dsimp only [bind, Option.bind]
    split <;> exact ⟨_, rfl⟩

/-- What `send` leaves has the type of the tile that was fetched. -/
theorem compressionType_transforms (P : Processor) (im : ImageInfo) (v : View)
    (histogram : List Nat) (t : RawTile) :
    (transforms P im v histogram t).1.tile.compressionType = t.compressionType := by
  have hlab := (Work.applyAll_spec P (labOps im) ⟨t, []⟩).1
  unfold transforms
  dsimp only
  split
  · exact hlab
  · rw [(Work.applyAll_spec P _ _).1, (Work.applyAll_spec P _ _).1]
    exact hlab

/-- All operations of `send` meet the type of the tile that was fetched. -/
theorem transforms_types (P : Processor) (im : ImageInfo) (v : View) (histogram : List Nat)
    (t : RawTile) {p : Op × CompressionType}
    (hp : p ∈ (transforms P im v histogram t).1.applied) : p.2 = t.compressionType := by
  -- a work that has met this type only, and still has it, goes on like that
  have hstep : ∀ (ops : List Op) (w : Work), w.tile.compressionType = t.compressionType →
      (∀ p ∈ w.applied, p.2 = t.compressionType) →
      ∀ p ∈ (w.applyAll P ops).applied, p.2 = t.compressionType := by
    intro ops w htype hw p hp
    rw [(w.applyAll_spec P ops).2] at hp
    rcases List.mem_append.mp hp with hp | hp
    · exact hw p hp
    · obtain ⟨op, -, rfl⟩ := List.mem_map.mp hp
      exact htype
  have hlab := hstep (labOps im) ⟨t, []⟩ rfl (by simp)
  have hlabType := (Work.applyAll_spec P (labOps im) ⟨t, []⟩).1
  unfold transforms at hp
  dsimp only at hp
  split at hp
  case h_1 => exact hlab p hp
  case h_2 v' ops _ =>
    have hfloat := hstep ops _ hlabType hlab
    have hfloatType := (Work.applyAll_spec P ops _).1.trans hlabType
    exact hstep _ _ hfloatType hfloat p hp

/-- Without a conversion from CIELAB and the float pipeline, the operations are those at the
end. -/
theorem transforms_light {P : Processor} {im : ImageInfo} {v : View} {histogram : List Nat}
    {t : RawTile} (hlab : im.colourspace ≠ .cieLab) (hbpc : t.bpc ≤ 8)
    (hfloat : v.floatProcessing = false) :
    (transforms P im v histogram t).1.applied
      = (flattenOps v t ++ viewOps P im v histogram).map fun op => (op, t.compressionType) := by
  have hlabOps : labOps im = [] := if_neg hlab
  have hfloatOps : floatOps v histogram t = .ok (v, []) := by
    refine if_pos ?_
    rintro (h | h)
    · omega
    · exact Bool.false_ne_true (hfloat.symm.trans h)
  have hstart : Work.applyAll P ⟨t, []⟩ (labOps im) = ⟨t, []⟩ := by
    rw [hlabOps]
    rfl
  unfold transforms
  simp only [hstart, hfloatOps]
  exact (Work.applyAll_spec P _ ⟨t, []⟩).2

/-! ## 2. The two tests -/

/-- The conversions to greyscale and to binary, as they are applied. -/
def Retouches (im : ImageInfo) (v : View) : Prop :=
  (im.colourspace = .sRGB ∧ v.colourspace = .greyscale) ∨
    (im.colourspace ≠ .binary ∧ v.colourspace = .binary)

/-- The test for raw pixels, read as what it does not find. -/
theorem needsRaw_eq_false {im : ImageInfo} {v : View} :
    needsRaw im v = false ↔
      im.bpc ≤ 8 ∧ im.colourspace ≠ .cieLab ∧ (im.channels ≠ 2 ∧ im.channels ≤ 3) ∧
        ¬ ((v.colourspace = .greyscale ∨ v.colourspace = .binary) ∧ im.channels = 3 ∧
          im.bpc = 8) ∧
        v.floatProcessing = false ∧ v.equalization = false ∧ v.rotation = 0 ∧ v.flip = 0 := by
  unfold needsRaw
  simp only [Bool.or_eq_false_iff, decide_eq_false_iff_not, not_lt, not_or, ne_eq, not_not,
    and_assoc]

/-- Operations on a tile of one type: none at all, or the type is raw. -/
theorem applied_raw_iff (ops : List Op) (ct : CompressionType) :
    (∀ p ∈ ops.map fun op => (op, ct), p.2 = .uncompressed) ↔ ops = [] ∨ ct = .uncompressed := by
  cases ops with
  | nil => simp
  | cons op ops =>
    constructor
    · intro h
      exact .inr (h (op, ct) (by simp))
    · rintro (h | rfl) p hp
      · cases h
      · obtain ⟨op, -, rfl⟩ := List.mem_map.mp hp
        rfl

/-- **What the test for raw pixels overlooks.**  The image as it is when the tile is asked for, by
`chosen`, asks for none, the tile can be encoded in the output format, and there is something to do
for the tile and the image as it is found then, by `found`. -/
structure Overlooked (chosen found : ImageInfo) (v : View) (t : RawTile) : Prop where
  notRaw : needsRaw chosen v = false
  encodes : Encodes v.outputFormat t
  work : found.colourspace = .cieLab ∨ 8 < t.bpc ∨ (v.outputFormat = .png ∧ 4 < t.channels) ∨
    Retouches found v

section
variable {P : Processor} {chosen found : ImageInfo} {v : View} {histogram : List Nat} {t : RawTile}

/-- With nothing that asks for raw pixels, and a tile that can be encoded, what is left are PNG
files of too many channels and the two conversions. -/
theorem lightOps_eq_nil (hraw : needsRaw chosen v = false) (henc : Encodes v.outputFormat t) :
    flattenOps v t ++ viewOps P found v histogram = [] ↔
      ¬ ((v.outputFormat = .png ∧ 4 < t.channels) ∨ Retouches found v) := by
  obtain ⟨-, -, -, -, -, hequal, hrotation, hflip⟩ := needsRaw_eq_false.mp hraw
  have hjpeg : ¬ (v.outputFormat = .jpeg ∧ (t.channels = 2 ∨ 3 < t.channels)) := by
    rintro ⟨hformat, hchannels⟩
    rcases henc with ⟨-, -, h⟩ | h
    · omega
    · cases hformat.symm.trans h
  unfold flattenOps viewOps Retouches
  simp [opIf, hequal, hrotation, hflip, hjpeg]

/-- A first operation is applied. -/
theorem applied_of_lab (hlab : found.colourspace = .cieLab) :
    (.lab2sRGB, t.compressionType) ∈ (transforms P found v histogram t).1.applied := by
  have hops : labOps found = [.lab2sRGB] := if_pos hlab
  unfold transforms
  rw [hops]
  dsimp only
  split
  case h_1 => exact List.mem_cons_self
  case h_2 =>
    rw [(Work.applyAll_spec P _ _).2, (Work.applyAll_spec P _ _).2]
    exact List.mem_append_left _ (List.mem_append_left _ List.mem_cons_self)

/-- A deep tile is normalized.  The contrast is not a stretch, which asks for raw pixels. -/
theorem applied_of_deep (hlab : found.colourspace ≠ .cieLab) (hdeep : 8 < t.bpc)
    (hfloat : v.floatProcessing = false) :
    (.normalize none, t.compressionType) ∈ (transforms P found v histogram t).1.applied := by
  have hcontrast : v.contrast ≠ -1 := by
    intro heq
    unfold View.floatProcessing at hfloat
    rw [heq] at hfloat
    norm_num at hfloat
  have hops : labOps found = [] := if_neg hlab
  have hfloatOps : floatOps v histogram t
      = .ok (v, .normalize none :: middleOps v ++ [.contrast v.contrast]) := by
    unfold floatOps
    rw [if_neg (not_not.2 (.inl hdeep)), if_neg hcontrast]
  have hstart : Work.applyAll P ⟨t, []⟩ (labOps found) = ⟨t, []⟩ := by
    rw [hops]
    rfl
  unfold transforms
  simp only [hstart, hfloatOps]
  rw [(Work.applyAll_spec P _ _).2, (Work.applyAll_spec P _ _).2]
  exact List.mem_append_left _ (List.mem_append_right _ List.mem_cons_self)

/-- **The two tests compared**, on a tile of the type that goes with the test for raw pixels. -/
theorem raw_iff_of_tile
    (htype : t.compressionType
      = if needsRaw chosen v = false ∧ Encodes v.outputFormat t then v.outputFormat
        else .uncompressed) :
    (∀ p ∈ (transforms P found v histogram t).1.applied, p.2 = .uncompressed) ↔
      ¬ Overlooked chosen found v t := by
  by_cases hcase : needsRaw chosen v = false ∧ Encodes v.outputFormat t
  case neg =>
    rw [if_neg hcase] at htype
    refine iff_of_true (fun p hp => (transforms_types P found v histogram t hp).trans htype) ?_
    exact fun ho => hcase ⟨ho.notRaw, ho.encodes⟩
  case pos =>
    -- the tile is encoded: nothing may be applied to it
    obtain ⟨hraw, henc⟩ := hcase
    rw [if_pos ⟨hraw, henc⟩] at htype
    have hencoded : t.compressionType ≠ .uncompressed := by
      rw [htype]
      rcases henc with ⟨h, -⟩ | h <;> rw [h] <;> decide
    obtain ⟨-, -, -, -, hfloat, -, -, -⟩ := needsRaw_eq_false.mp hraw
    by_cases hlab : found.colourspace = .cieLab
    · refine iff_of_false (fun h => hencoded (h _ (applied_of_lab hlab))) (not_not.2 ?_)
      exact ⟨hraw, henc, .inl hlab⟩
    by_cases hdeep : 8 < t.bpc
    · refine iff_of_false (fun h => hencoded (h _ (applied_of_deep hlab hdeep hfloat)))
        (not_not.2 ?_)
      exact ⟨hraw, henc, .inr (.inl hdeep)⟩
    rw [transforms_light hlab (not_lt.1 hdeep) hfloat, applied_raw_iff, or_iff_left hencoded,
      lightOps_eq_nil hraw henc]
    refine not_congr ⟨fun hwork => ⟨hraw, henc, .inr (.inr hwork)⟩, fun ho => ?_⟩
    exact (ho.work.resolve_left hlab).resolve_left hdeep

/-- For an image that does not change, whose tiles have its channels and are not deep if it is not,
the two conversions are what is overlooked. -/
theorem overlooked_iff_of_same (hchannels : t.channels = chosen.channels)
    (hbpc : chosen.bpc ≤ 8 → t.bpc ≤ 8) :
    Overlooked chosen chosen v t ↔
      needsRaw chosen v = false ∧ Encodes v.outputFormat t ∧ Retouches chosen v := by
  constructor
  · intro ho
    obtain ⟨hdepth, hlab, ⟨-, hthree⟩, -⟩ := needsRaw_eq_false.mp ho.notRaw
    refine ⟨ho.notRaw, ho.encodes, ?_⟩
    rcases ho.work with h | h | h | h
    · exact absurd h hlab
    · have hshallow := hbpc hdepth
      omega
    · omega
    · exact h
  · rintro ⟨hraw, henc, hretouch⟩
    exact ⟨hraw, henc, .inr (.inr (.inr hretouch))⟩

end

end Iipsrv.JTL
