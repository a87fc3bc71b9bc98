/-
# What is handed to the encoders

The encoders throw if they cannot encode a tile: JPEG takes 8 bits and 1 or 3 channels, PNG 1 to 4
channels.  `JTL::send` and `CVT::send` apply their operations first, and what is left behind these
is ALWAYS encodable, for every image and every view.

The operations run through three formats.  A tile comes with 8, 16 or 32 bits.  The float pipeline
is entered with more than 8 bits or where the view needs it, and `contrast` at its end leaves
bytes.  From there on the depth stays, `flatten` cuts the channels down to what the output format
holds, and the operations of the view do not make them more.  So the stages are triples over lists
of steps, and the two commands are two ways to put them together.

* §1 the operations of each stage, and that each is called in its format.
* §2 the two pipelines.
* §3 the checks of the encoders.
-/
import Iipsrv.Transform.Model
import Iipsrv.Server.TwoCopies

namespace Iipsrv

open Lib.Steps Lib.Effects

namespace Transform

/-! ## 1. The stages -/

/-- From `A`, every call is made in its format, and `B` holds at the end. -/
abbrev Leads (A : Header → Prop) (l : List Step) (B : Header → Prop) : Prop :=
  Triple Step.apply (fun s h => s.format.Holds h) A l B

/-- Bytes, in as many channels as the output format holds. -/
structure Encodable (ct : CompressionType) (h : Header) : Prop where
  bytes : Format.bytes.Holds h
  jpeg : ct = .jpeg → h.channels = 1 ∨ h.channels = 3
  png : ct = .png → h.channels ≤ 4

variable {im : ImageInfo} {v v' : View} {histogram : List Nat} {P : JTL.Processor} {op : JTL.Op}
  {ct : CompressionType} {h : Header} {t : RawTile} {ops : List JTL.Op}

/-- Steps that are the calls of a list of operations. -/
theorem leads_of_ops {A : Header → Prop}
    (hops : ∀ op ∈ ops, ∀ h, A h → (Step.op op).format.Holds h ∧ A ((Step.op op).apply h)) :
    Leads A (ops.map Step.op) A := by
  refine Triple.of_forall fun s hs h hA => ?_
  obtain ⟨op, hop, rfl⟩ := List.mem_map.1 hs
  exact hops op hop h hA

theorem leads_labOps (im : ImageInfo) (hraw : Format.raw.Holds h) :
    Leads (· = h) ((JTL.labOps im).map Step.op) (· = h) := by
  refine leads_of_ops fun op hop h' heq => ?_
  obtain ⟨-, rfl⟩ : im.colourspace = .cieLab ∧ op = .lab2sRGB := by
    simpa [JTL.labOps] using hop
  exact ⟨heq ▸ hraw, heq⟩

/-- The float pipeline stays in floats up to `contrast`. -/
theorem leads_middleOps (v : View) :
    Leads Format.floats.Holds ((JTL.middleOps v).map Step.op) Format.floats.Holds := by
  refine leads_of_ops fun op hop h hfloats => ?_
  rcases JTL.mem_middleOps.1 hop with ⟨-, rfl⟩ | ⟨-, rfl⟩ | ⟨-, rfl⟩ | ⟨-, rfl⟩ | ⟨-, rfl⟩
  · exact ⟨hfloats, hfloats.1, Nat.le_refl 1⟩
  · exact ⟨hfloats, hfloats⟩
  · split <;> exact ⟨hfloats, hfloats⟩
  · exact ⟨hfloats, hfloats⟩
  · exact ⟨hfloats, hfloats.1, (by decide : 1 ≤ 3)⟩

/-- **The whole float pipeline**: from any format to bytes. -/
theorem leads_pipeline (v : View) (range : Option (Nat × Nat)) (c : ℚ) :
    Leads Format.raw.Holds
      ((JTL.Op.normalize range :: JTL.middleOps v ++ [JTL.Op.contrast c]).map Step.op)
      Format.bytes.Holds := by
  have hfirst : Leads Format.raw.Holds [.op (.normalize range)] Format.floats.Holds :=
    Triple.single fun h hraw => ⟨hraw, rfl, hraw.2⟩
  have hlast : Leads Format.floats.Holds [.op (.contrast c)] Format.bytes.Holds :=
    Triple.single fun h hfloats => ⟨hfloats, rfl, hfloats.2⟩
  have hwhole := (hfirst.append (leads_middleOps v)).append hlast
  simpa using hwhole

/-- The float pipeline is entered with more than 8 bits, so bytes are left in each case. -/
theorem leads_floatOps (hraw : Format.raw.Holds t.header)
    (hops : JTL.floatOps v histogram t = .ok (v', ops)) :
    Leads (· = t.header) (ops.map Step.op) Format.bytes.Holds := by
  rcases JTL.floatOps_cases hops with ⟨hno, -, rfl⟩ | ⟨range, -, -, rfl⟩ | ⟨-, -, rfl⟩
  · refine Triple.nil fun h heq => ?_
    subst heq
    refine ⟨hraw.1.resolve_right fun hdeep => hno (.inl ?_), hraw.2⟩
    change 8 < t.header.bpc
    omega
  · exact fun h heq => leads_pipeline v (some range) 1 h (heq ▸ hraw)
  · exact fun h heq => leads_pipeline v none v.contrast h (heq ▸ hraw)

/-- **Cut down to what the output format holds.** -/
theorem leads_flattenOps (v : View) (hbytes : Format.bytes.Holds t.header) :
    Leads (· = t.header) ((JTL.flattenOps v t).map Step.op) (Encodable v.outputFormat) := by
  have hpos : 1 ≤ t.channels := hbytes.2
  unfold JTL.flattenOps JTL.opIf
  split
  case isTrue hneeded =>
    refine Triple.single fun h heq => ?_
    subst heq
    have hbands : (Step.op (.flatten (if t.channels = 2 then 1 else 3))).apply t.header
        = flatten (if t.channels = 2 then 1 else 3) t.header := rfl
    have hcut : ¬ t.header.channels ≤ if t.channels = 2 then 1 else 3 := by
      change ¬ t.channels ≤ _
      split <;> omega
    refine ⟨hbytes, ?_⟩
    rw [hbands, flatten, if_neg hcut]
    refine ⟨⟨hbytes.1, ?_⟩, fun _ => ?_, fun _ => ?_⟩ <;> dsimp only <;> split <;> decide
  case isFalse hfits =>
    refine Triple.nil fun h heq => ?_
    subst heq
    refine ⟨hbytes, fun hjpeg => ?_, fun hpng => ?_⟩
    · change t.channels = 1 ∨ t.channels = 3
      by_contra hother
      exact hfits (.inl ⟨hjpeg, by omega⟩)
    · change t.channels ≤ 4
      by_contra hmore
      exact hfits (.inr ⟨hpng, by omega⟩)

theorem Encodable.greyscale (henc : Encodable ct h) : Encodable ct (greyscale h) := by
  unfold Transform.greyscale
  split
  · exact henc
  · exact ⟨⟨henc.bytes.1, Nat.le_refl 1⟩, fun _ => .inl rfl, fun _ => (by decide : 1 ≤ 4)⟩

theorem Encodable.rotate (angle : ℚ) (henc : Encodable ct h) : Encodable ct (rotate angle h) := by
  unfold Transform.rotate
  split
  · split
    · exact ⟨henc.bytes, henc.jpeg, henc.png⟩
    · exact henc
  · exact henc

/-- The operations of the view keep what can be encoded. -/
theorem leads_viewOps (P : JTL.Processor) (im : ImageInfo) (v : View) (histogram : List Nat)
    (ct : CompressionType) :
    Leads (Encodable ct) ((JTL.viewOps P im v histogram).map Step.op) (Encodable ct) := by
  refine leads_of_ops fun op hop h henc => ?_
  rcases JTL.mem_viewOps.1 hop with ⟨-, rfl⟩ | ⟨-, rfl⟩ | ⟨-, rfl⟩ | ⟨-, rfl⟩ | ⟨-, rfl⟩
  · exact ⟨henc.bytes, henc.greyscale⟩
  · refine ⟨henc.bytes, ?_⟩
    change Encodable ct (binary h)
    unfold binary
    split
    · exact henc
    · exact henc.greyscale
  · exact ⟨henc.bytes, henc⟩
  · exact ⟨henc.bytes, henc⟩
  · exact ⟨henc.bytes, henc.rotate _⟩

/-! ## 2. The pipelines -/

/-- The calls of `send`, in order: with the resize for `CVT`, without for `JTL`. -/
def calls (im : ImageInfo) (ops : List JTL.Op) (resize : List Step) (rest : List JTL.Op) :
    List Step :=
  (JTL.labOps im).map Step.op ++ (ops.map Step.op ++ resize ++ rest.map Step.op)

/-- `h'` is what calls, each in its format, make of `h`, and it can be encoded. -/
def Processed (ct : CompressionType) (h h' : Header) : Prop :=
  ∃ steps, Along Step.apply (fun s h => s.format.Holds h) steps h ∧
    run Step.apply steps h = h' ∧ Encodable ct h'

/-- **Every call in its format, and something encodable at the end.**  `t` is the tile behind the
conversion from CIELAB, `t'` the one that is flattened. -/
theorem leads_calls (P : JTL.Processor) (im : ImageInfo) {t' : RawTile} {resize : List Step}
    (hraw : Format.raw.Holds t.header) (hops : JTL.floatOps v histogram t = .ok (v', ops))
    (hresize : Leads Format.bytes.Holds resize Format.bytes.Holds)
    (ht' : t'.header = run Step.apply (ops.map Step.op ++ resize) t.header) :
    Leads (· = t.header)
      (calls im ops resize (JTL.flattenOps v' t' ++ JTL.viewOps P im v' histogram))
      (Encodable v.outputFormat) := by
  have hfirst : Leads (· = t.header) (ops.map Step.op ++ resize) Format.bytes.Holds :=
    (leads_floatOps hraw hops).append hresize
  have hbytes : Format.bytes.Holds t'.header := ht' ▸ (hfirst t.header rfl).2
  have hmiddle : Leads (· = t.header) (ops.map Step.op ++ resize) (· = t'.header) :=
    fun h heq => ⟨(hfirst h heq).1, by rw [heq, ht']⟩
  have hrest := (leads_flattenOps v' hbytes).append (leads_viewOps P im v' histogram _)
  rw [JTL.outputFormat_floatOps hops, ← List.map_append] at hrest
  exact (leads_labOps im hraw).append (hmiddle.append hrest)

/-- The same for the tile `t''` that the last operations leave. -/
theorem processed_of_calls (P : JTL.Processor) (im : ImageInfo) {t' t'' : RawTile}
    {resize : List Step} (hraw : Format.raw.Holds t.header)
    (hops : JTL.floatOps v histogram t = .ok (v', ops))
    (hresize : Leads Format.bytes.Holds resize Format.bytes.Holds)
    (ht' : t'.header = run Step.apply (ops.map Step.op ++ resize) t.header)
    (ht'' : t''.header = run Step.apply
      ((JTL.flattenOps v' t' ++ JTL.viewOps P im v' histogram).map Step.op) t'.header) :
    Processed v.outputFormat t.header t''.header := by
  obtain ⟨halong, hend⟩ := leads_calls P im hraw hops hresize ht' t.header rfl
  have hrun : run Step.apply
      (calls im ops resize (JTL.flattenOps v' t' ++ JTL.viewOps P im v' histogram)) t.header
        = t''.header := by
    rw [calls, run_append, (leads_labOps im hraw t.header rfl).2, run_append, ← ht', ht'']
  exact ⟨_, halong, hrun, hrun ▸ hend⟩

/-- The conversion from CIELAB leaves the header as it is. -/
theorem header_labOps (px : Pixels) (im : ImageInfo) (hraw : Format.raw.Holds t.header) :
    (JTL.Work.applyAll px.processor ⟨t, []⟩ (JTL.labOps im)).tile.header = t.header := by
  rw [px.header_applyAll]
  exact (leads_labOps im hraw t.header rfl).2

/-- **`JTL`.** -/
theorem jtl_processed (px : Pixels) {w : JTL.Work} (hraw : Format.raw.Holds t.header)
    (hdone : JTL.transforms px.processor im v histogram t = (w, .ok v')) :
    Processed v.outputFormat t.header w.tile.header ∧ v'.outputFormat = v.outputFormat := by
  have hlab := header_labOps px im hraw
  unfold JTL.transforms at hdone
  dsimp only at hdone
  generalize JTL.Work.applyAll px.processor ⟨t, []⟩ (JTL.labOps im) = w₀ at hlab hdone
  cases hops : JTL.floatOps v histogram w₀.tile with
  | error e =>
    rw [hops] at hdone
    cases hdone
  | ok r =>
    obtain ⟨v₁, ops⟩ := r
    rw [hops] at hdone
    cases hdone
    rw [← hlab] at hraw ⊢
    have hfloat : (w₀.applyAll px.processor ops).tile.header
        = run Step.apply (ops.map Step.op ++ []) w₀.tile.header := by
      rw [px.header_applyAll, List.append_nil]
    exact ⟨processed_of_calls px.processor im hraw hops (Triple.nil fun _ hb => hb) hfloat
      (px.header_applyAll _ _), JTL.outputFormat_floatOps hops⟩

/-- A server with these image operations. -/
def equip (S : Server) (px : Settings → Pixels) (resizer : Pixels) : Server :=
  { S with
    processor := fun settings => (px settings).processor
    resize := fun width height => resizer.call (resizer.resizing width height) }

theorem leads_resizing (px : Pixels) (width height : Nat) :
    Leads Format.bytes.Holds [px.resizing width height] Format.bytes.Holds := by
  refine Triple.single fun h hbytes => ⟨?_, ?_⟩
  · unfold Pixels.resizing
    split <;> exact hbytes
  · rw [px.apply_resizing]
    exact hbytes

/-- The resize of `CVT`, if the region does not have the size of the output. -/
def resizeSteps (px : Pixels) (e : CVT.Extraction) : List Step :=
  if e.viewWidth ≠ e.resampledWidth ∨ e.viewHeight ≠ e.resampledHeight then
    [px.resizing e.resampledWidth e.resampledHeight]
  else []

theorem leads_resizeSteps (px : Pixels) (e : CVT.Extraction) :
    Leads Format.bytes.Holds (resizeSteps px e) Format.bytes.Holds := by
  unfold resizeSteps
  split
  · exact leads_resizing px _ _
  · exact Triple.nil fun _ hb => hb

/-- **What `CVT` does to the header.**  `t₀` is the tile behind the conversion from CIELAB, `t₁` the
one that is flattened. -/
theorem cvt_header {S : Server} {px : Settings → Pixels} {resizer : Pixels} {s : Session}
    {o : Opened} {e : CVT.Extraction} {t' : RawTile} (hraw : Format.raw.Holds t.header)
    (hdone : CVT.transforms (equip S px resizer) s o e t = .ok (t', v')) :
    ∃ t₀ t₁ ops, t₀.header = t.header ∧
      JTL.floatOps s.view o.base.histogram t₀ = .ok (v', ops) ∧
      t₁.header = run Step.apply (ops.map Step.op ++ resizeSteps resizer e) t₀.header ∧
      t'.header = run Step.apply ((JTL.flattenOps v' t₁ ++
        JTL.viewOps (px (s.settings o)).processor o.info v' o.base.histogram).map Step.op)
          t₁.header := by
  let q := px (s.settings o)
  let w₀ := JTL.Work.applyAll q.processor ⟨t, []⟩ (JTL.labOps o.info)
  unfold CVT.transforms at hdone
  obtain ⟨⟨v₁, ops⟩, hops, hdone⟩ := bind_eq_ok hdone
  have hfloat := q.header_applyAll w₀ ops
  unfold resizeSteps
  change Except.ok ((JTL.Work.applyAll q.processor ⟨if _ then _ else _, []⟩ _).tile, v₁) = _
    at hdone
  split at hdone
  case isTrue hother =>
    cases hdone
    refine ⟨w₀.tile, _, ops, header_labOps q o.info hraw, hops, ?_, q.header_applyAll _ _⟩
    rw [if_pos hother, run_append, ← hfloat]
    rfl
  case isFalse hsame =>
    cases hdone
    refine ⟨w₀.tile, _, ops, header_labOps q o.info hraw, hops, ?_, q.header_applyAll _ _⟩
    rw [if_neg hsame, List.append_nil, ← hfloat]
    rfl

/-- **`CVT`.** -/
theorem cvt_processed {S : Server} {px : Settings → Pixels} {resizer : Pixels} {s : Session}
    {o : Opened} {e : CVT.Extraction} {t' : RawTile} (hraw : Format.raw.Holds t.header)
    (hdone : CVT.transforms (equip S px resizer) s o e t = .ok (t', v')) :
    Processed s.view.outputFormat t.header t'.header := by
  obtain ⟨t₀, t₁, ops, ht₀, hops, ht₁, ht'⟩ := cvt_header hraw hdone
  rw [← ht₀] at hraw ⊢
  exact processed_of_calls _ o.info hraw hops (leads_resizeSteps resizer e) ht₁ ht'

/-! ## 3. The encoders -/

/-- What the library makes of a tile, behind the checks of `Compress`. -/
def libraryBytes (E : Encoder) (ct : CompressionType) (quality : Int32) (t : RawTile) :
    Except Failure (List UInt8) :=
  if ct = .png then
    (E.png quality t.width t.height t.channels t.bpc (t.data.take t.dataLength)).mapError .thrown
  else (E.jpeg quality t.width t.height t.channels (t.data.take t.dataLength)).mapError .thrown

variable {quality : Int32}

/-- The channels that `PNGCompressor` lists. -/
theorem Encodable.png_channels (henc : Encodable .png h) :
    h.channels = 1 ∨ h.channels = 2 ∨ h.channels = 3 ∨ h.channels = 4 := by
  have hmost := henc.png rfl
  have hleast := henc.bytes.2
  omega

/-- Neither check of `Compress` throws. -/
theorem Encodable.compress_eq (E : Encoder) (hct : ct = .jpeg ∨ ct = .png)
    (henc : Encodable ct t.header) :
    compress E ct quality t = (libraryBytes E ct quality t).map (t.encoded ct quality) := by
  have hbpc : t.bpc = 8 := henc.bytes.1
  rcases hct with rfl | rfl
  · have hchannels : t.channels = 1 ∨ t.channels = 3 := henc.jpeg rfl
    simp only [compress, jpegBytes, libraryBytes, hchannels, hbpc, not_true_eq_false, if_false,
      ne_eq, reduceCtorEq]
  · have hone : t.channels = 1 ∨ t.channels = 2 ∨ t.channels = 3 ∨ t.channels = 4 :=
      henc.png_channels
    simp only [compress, pngBytes, libraryBytes, hone, not_true_eq_false, if_false, if_true]

/-- Neither check of `InitCompression` throws. -/
theorem Encodable.initCompression_eq (S : Server) (height : Nat) (hct : ct = .jpeg ∨ ct = .png)
    (henc : Encodable ct t.header) :
    CVT.initCompression S ct quality t height
      = (S.strips.init ct quality t height).mapError .thrown := by
  have hbpc : t.bpc = 8 := henc.bytes.1
  rcases hct with rfl | rfl
  · have hchannels : t.channels = 1 ∨ t.channels = 3 := henc.jpeg rfl
    simp only [CVT.initCompression, hchannels, hbpc, not_true_eq_false, if_false, ne_eq,
      reduceCtorEq]
  · have hone : t.channels = 1 ∨ t.channels = 2 ∨ t.channels = 3 ∨ t.channels = 4 :=
      henc.png_channels
    simp only [CVT.initCompression, hone, not_true_eq_false, if_false, if_true]

/-- **Nothing reaches an encoder that it cannot encode.**  For every raw tile or region of 8, 16 or
32 bits with at least one channel, every image and every session: what `JTL` has worked on and what
`CVT` has worked on has 8 bits, and 1 or 3 channels for JPEG, 1 to 4 for PNG.  So `Compress` and
`InitCompression` do what the library does: their own exceptions are not thrown. -/
theorem encoders_never_refuse (S : Server) (px : Settings → Pixels) (resizer : Pixels)
    (s : Session) (o : Opened) (t : RawTile) (huncompressed : t.compressionType = .uncompressed)
    (hraw : Format.raw.Holds t.header) (hformat : s.view.Encodable) :
    (∀ w v', JTL.transforms (px (s.settings o)).processor o.info s.view o.base.histogram t
        = (w, .ok v') →
      Encodable s.view.outputFormat w.tile.header ∧
        JTL.deliver (equip S px resizer) s o t
          = (libraryBytes S.encoder s.view.outputFormat (s.quality s.view.outputFormat) w.tile).map
              fun data => (w.tile.encoded s.view.outputFormat
                (s.quality s.view.outputFormat) data, v')) ∧
      ∀ e t' v', CVT.transforms (equip S px resizer) s o e t = .ok (t', v') →
        Encodable s.view.outputFormat t'.header ∧
          ∀ quality height,
            CVT.initCompression (equip S px resizer) s.view.outputFormat quality t' height
              = (S.strips.init s.view.outputFormat quality t' height).mapError .thrown := by
  constructor
  · intro w v' hdone
    obtain ⟨⟨-, -, -, henc⟩, hsame⟩ := jtl_processed _ hraw hdone
    refine ⟨henc, ?_⟩
    have htype : w.tile.compressionType = .uncompressed := by
      have hkept := JTL.compressionType_transforms (px (s.settings o)).processor o.info s.view
        o.base.histogram t
      rw [hdone] at hkept
      exact hkept.trans huncompressed
    have hencoding : v'.encoding = s.view.outputFormat :=
      (View.encoding_eq (by rwa [View.Encodable, hsame])).trans hsame
    have hdeliver := JTL.deliver_of_transforms (S := equip S px resizer) hdone
    rw [hdeliver, Server.sealed, if_pos htype, hencoding]
    change (compress S.encoder s.view.outputFormat _ w.tile).map _ = _
    rw [henc.compress_eq S.encoder hformat]
    cases libraryBytes S.encoder s.view.outputFormat (s.quality s.view.outputFormat) w.tile <;> rfl
  · intro e t' v' hdone
    obtain ⟨-, -, -, henc⟩ := cvt_processed hraw hdone
    exact ⟨henc, fun quality height => henc.initCompression_eq (equip S px resizer) height hformat⟩

/-- Operations that leave empty buffers. -/
def blank : Pixels := ⟨fun _ _ => [], fun _ => [], fun _ => 0, false⟩

/-- An image that has not been opened. -/
def newImage : Opened := .openJPEG (IIPImage.new [])

/-- What `JTL` makes of a pixel of 16 bits with an alpha channel, for a new view, which asks for
JPEG. -/
def alphaWork : JTL.Work :=
  (JTL.transforms blank.processor newImage.info View.new [] (onePixel 4 16)).1

/-- The pixel is converted to 8 bits, and its alpha channel is stripped. -/
theorem alphaWork_encodable :
    alphaWork.tile.header = ⟨1, 1, 3, 8, 3⟩ ∧ Encodable .jpeg alphaWork.tile.header := by
  let S := smallServer fun _ => none
  have hall := encoders_never_refuse S (fun _ => blank) blank
    { (S.start freshState.imageCache freshState.tileCache).session with view := View.new }
    newImage (onePixel 4 16) rfl (by decide) (.inl rfl)
  exact ⟨rfl, (hall.1 alphaWork View.new rfl).1⟩

end Transform

end Iipsrv
