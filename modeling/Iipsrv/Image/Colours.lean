/-
# Channels and colour spaces of a TIFF

`TPTImage` decides twice what the photometric interpretation of a file means: `loadImageInfo` for
the first directory, and `getTile` again for the directory of every tile it reads, OVERWRITING the
colour space and the number of channels of the object.  The two decisions differ for a palette:
three channels of sRGB for the one, one channel of grey for the other.

`TileManager::getRegion` asks the object for its channels once, then fetches the tiles.

`colours_kept_iff` says for which files that does no harm: if the first directory is no palette and
the others are of its kind (or palettes, below a first one with one grey channel).
`palette_region` is what happens to a palette: a region of three channels is made of tiles that
have one.
-/
import Iipsrv.Image.Model

namespace Iipsrv

/-! ## 1. The object and the cache -/

/-- Handle various colour spaces, in `TPTImage::getTile`: for the directory that the tile is read
from. -/
def TPTImage.handleColourSpaces (im : TPTImage) : Photometric → TPTImage
  | .cieLab => { im with colourspace := .cieLab }
  | .minIsBlack => { im with colourspace := if im.bpc = 1 then .binary else .greyscale }
  | .palette => { im with colourspace := .greyscale, channels := 1 }
  | .yCbCr => { im with colourspace := .sRGB }
  | .other => { im with colourspace := .sRGB }

/-- The object, and the channels of the tiles in the cache, by level and number.  Level 0 is the
full image. -/
structure Reading where
  image : TPTImage
  cached : Nat → Nat → Option Nat

namespace Reading

/-- `TileManager::getTile` for an uncompressed tile, with the number of its channels: from the
cache, or from the file. -/
def fetch (photometric : Nat → Photometric) (s : Reading) (level tile : Nat) : Reading × Nat :=
  match s.cached level tile with
  | some channels => (s, channels)
  | none =>
    let image := s.image.handleColourSpaces (photometric level)
    (⟨image, fun l t => if l = level ∧ t = tile then some image.channels else s.cached l t⟩,
      image.channels)

/-- The tiles of a region, one after the other. -/
def fetchAll (photometric : Nat → Photometric) (level : Nat) :
    Reading → List Nat → Reading × List Nat
  | s, [] => (s, [])
  | s, tile :: tiles =>
    let (s, channels) := s.fetch photometric level tile
    let (s, rest) := fetchAll photometric level s tiles
    (s, channels :: rest)

/-- `TileManager::getRegion`: the channels that the region is made for, then those of its
tiles. -/
def getRegion (photometric : Nat → Photometric) (s : Reading) (level : Nat) (tiles : List Nat) :
    Reading × Nat × List Nat :=
  let channels := s.image.channels
  let (s, rest) := fetchAll photometric level s tiles
  (s, channels, rest)

/-- What happens to an image: a tile is asked for, a region is, or a tile is dropped from the
cache. -/
inductive Op
  | tile (level number : Nat)
  | region (level : Nat) (tiles : List Nat)
  | evict (level number : Nat)

/-- The levels that an operation reads from exist. -/
def Op.Within (numResolutions : Nat) : Op → Prop
  | .tile level _ => level < numResolutions
  | .region level _ => level < numResolutions
  | .evict _ _ => True

def Op.run (photometric : Nat → Photometric) (s : Reading) : Op → Reading
  | .tile level number => (s.fetch photometric level number).1
  | .region level tiles => (s.getRegion photometric level tiles).1
  | .evict level number =>
    ⟨s.image, fun l t => if l = level ∧ t = number then none else s.cached l t⟩

/-- An operation is sound: a region has the channels of its tiles, and the object comes out with
the colour space and the channels that it was loaded with. -/
structure Op.Sound (photometric : Nat → Photometric) (loaded : TPTImage) (s : Reading) (op : Op) :
    Prop where
  composited : ∀ level tiles, op = .region level tiles →
    ∀ c ∈ (s.getRegion photometric level tiles).2.2, c = (s.getRegion photometric level tiles).2.1
  channels : (op.run photometric s).image.channels = loaded.channels
  colourspace : (op.run photometric s).image.colourspace = loaded.colourspace

/-- Every operation of a sequence is sound, where it happens. -/
def AllSound (photometric : Nat → Photometric) (loaded : TPTImage) : Reading → List Op → Prop
  | _, [] => True
  | s, op :: ops =>
    op.Sound photometric loaded s ∧ AllSound photometric loaded (op.run photometric s) ops

end Reading

/-! ## 2. Files whose directories agree -/

/-- The kinds of directories that may be below a first one: `bits` and `samples` are those of the
first. -/
def Photometric.Allows (bits samples : Nat) : (first level : Photometric) → Prop
  | .cieLab, .cieLab => True
  | .minIsBlack, .minIsBlack => True
  | .minIsBlack, .palette => bits ≠ 1 ∧ samples = 1
  | .yCbCr, .yCbCr | .yCbCr, .other | .other, .yCbCr | .other, .other => True
  | .palette, .yCbCr | .palette, .other => True
  | _, _ => False

/-- The photometric interpretations of the levels: that of the file, then those of the lower
ones. -/
def TiffFile.photometricAt (f : TiffFile) (lower : Nat → Photometric) : Nat → Photometric
  | 0 => f.photometric
  | k + 1 => lower k

/-- **One directory.**  Reading a tile from it leaves the channels and the colour space of the
object as they were loaded exactly if the first directory allows it. -/
theorem handleColourSpaces_kept_iff (f : TiffFile) (im : TPTImage) (seq ang : Int)
    (level : Photometric) :
    (((im.loadImageInfo f seq ang).handleColourSpaces level).channels
        = (im.loadImageInfo f seq ang).channels ∧
      ((im.loadImageInfo f seq ang).handleColourSpaces level).colourspace
        = (im.loadImageInfo f seq ang).colourspace) ↔
      Photometric.Allows f.bitsPerSample f.samplesPerPixel f.photometric level := by
  have hc : (im.loadImageInfo f seq ang).channels = TPTImage.numChannels f := rfl
  have hs : (im.loadImageInfo f seq ang).colourspace = TPTImage.colourSpace f := rfl
  have hb : (im.loadImageInfo f seq ang).bpc = f.bitsPerSample := rfl
  generalize im.loadImageInfo f seq ang = u at hc hs hb
  rw [hs, hc]
  -- by the kind of the first directory, then by that of the other
  by_cases hbits : f.bitsPerSample = 1 <;> cases hf : f.photometric <;> cases level <;>
    simp [TPTImage.handleColourSpaces, TPTImage.colourSpace, TPTImage.numChannels, hf,
      Photometric.Allows, hc, hb, hbits, eq_comm (a := 1)]

/-- Reading from an allowed directory leaves the whole object as it is. -/
theorem handleColourSpaces_of_allows {f : TiffFile} {im : TPTImage} {seq ang : Int}
    {level : Photometric}
    (h : Photometric.Allows f.bitsPerSample f.samplesPerPixel f.photometric level) :
    (im.loadImageInfo f seq ang).handleColourSpaces level = im.loadImageInfo f seq ang := by
  obtain ⟨hc, hs⟩ := (handleColourSpaces_kept_iff f im seq ang level).mpr h
  generalize im.loadImageInfo f seq ang = u at hc hs
  have hfields : u.handleColourSpaces level
      = { u with
          colourspace := (u.handleColourSpaces level).colourspace
          channels := (u.handleColourSpaces level).channels } := by
    cases level <;> rfl
  rw [hfields, hc, hs]

/-! ## 3. Sequences of operations -/

namespace Reading

variable {photometric : Nat → Photometric} {loaded : TPTImage}

/-- The object is as it was loaded, and the tiles in the cache have its channels. -/
structure Kept (loaded : TPTImage) (s : Reading) : Prop where
  image_eq : s.image = loaded
  cached_eq : ∀ level tile c, s.cached level tile = some c → c = loaded.channels

/-- A tile that is fetched from an allowed level has the channels of the object. -/
theorem fetch_kept {s : Reading} {level : Nat} (tile : Nat)
    (hlevel : loaded.handleColourSpaces (photometric level) = loaded) (h : Kept loaded s) :
    Kept loaded (s.fetch photometric level tile).1 ∧
      (s.fetch photometric level tile).2 = loaded.channels := by
  unfold fetch
  cases hcached : s.cached level tile with
  | some c => exact ⟨h, h.cached_eq level tile c hcached⟩
  | none =>
    dsimp only
    rw [h.image_eq, hlevel]
    refine ⟨⟨rfl, ?_⟩, rfl⟩
    intro l t c hlt
    dsimp only at hlt
    split at hlt
    · exact (Option.some.inj hlt).symm
    · exact h.cached_eq l t c hlt

/-- So have all the tiles of a region, by induction on them. -/
theorem fetchAll_kept {level : Nat}
    (hlevel : loaded.handleColourSpaces (photometric level) = loaded) (tiles : List Nat) :
    ∀ s : Reading, Kept loaded s →
      Kept loaded (fetchAll photometric level s tiles).1 ∧
        ∀ c ∈ (fetchAll photometric level s tiles).2, c = loaded.channels := by
  induction tiles with
  | nil =>
    intro s h
    exact ⟨h, by simp [fetchAll]⟩
  | cons tile tiles ih =>
    intro s h
    obtain ⟨hk, hc⟩ := fetch_kept tile hlevel h
    obtain ⟨hk', hall⟩ := ih _ hk
    simp only [fetchAll, List.forall_mem_cons]
    exact ⟨hk', hc, hall⟩

/-- **One operation** on levels that are allowed. -/
theorem run_kept {m : Nat}
    (hlevels : ∀ k < m, loaded.handleColourSpaces (photometric k) = loaded) {s : Reading} {op : Op}
    (hop : op.Within m) (h : Kept loaded s) :
    Kept loaded (op.run photometric s) ∧ op.Sound photometric loaded s := by
  have hkept : Kept loaded (op.run photometric s) := by
    cases op with
    | tile level number => exact (fetch_kept number (hlevels level hop) h).1
    | region level tiles => exact (fetchAll_kept (hlevels level hop) tiles s h).1
    | evict level number =>
      refine ⟨h.image_eq, ?_⟩
      intro l t c hlt
      dsimp only [Op.run] at hlt
      split at hlt
      · cases hlt
      · exact h.cached_eq l t c hlt
  refine ⟨hkept, ?_, by rw [hkept.image_eq], by rw [hkept.image_eq]⟩
  rintro level tiles rfl c hc
  have hchannels : (s.getRegion photometric level tiles).2.1 = loaded.channels := by
    rw [← h.image_eq]
    rfl
  rw [hchannels]
  exact (fetchAll_kept (hlevels level hop) tiles s h).2 c hc

theorem allSound_of_kept {m : Nat}
    (hlevels : ∀ k < m, loaded.handleColourSpaces (photometric k) = loaded) (ops : List Op) :
    ∀ s : Reading, Kept loaded s → (∀ op ∈ ops, op.Within m) →
      AllSound photometric loaded s ops := by
  induction ops with
  | nil =>
    intro s _ _
    trivial
  | cons op ops ih =>
    intro s h hwithin
    rw [List.forall_mem_cons] at hwithin
    obtain ⟨hkept, hsound⟩ := run_kept hlevels hwithin.1 h
    exact ⟨hsound, ih _ hkept hwithin.2⟩

/-- An object that has just been loaded, and an empty cache. -/
def start (loaded : TPTImage) : Reading := ⟨loaded, fun _ _ => none⟩

/-- **When the channels are those of the tiles.**  For every TIFF: along every sequence of tiles
and regions the object keeps the colour space and the channels it was loaded with, and every region
has the channels of its tiles, if and only if the first directory allows all of them. -/
theorem colours_kept_iff (f : TiffFile) (lower : Nat → Photometric) (im : TPTImage)
    (seq ang : Int) :
    (∀ ops : List Op, (∀ op ∈ ops, op.Within (im.loadImageInfo f seq ang).numResolutions) →
      AllSound (f.photometricAt lower) (im.loadImageInfo f seq ang)
        (start (im.loadImageInfo f seq ang)) ops) ↔
      ∀ k < (im.loadImageInfo f seq ang).numResolutions,
        Photometric.Allows f.bitsPerSample f.samplesPerPixel f.photometric
          (f.photometricAt lower k) := by
  constructor
  · intro h k hk
    -- one tile of the level shows it
    obtain ⟨hsound, -⟩ := h [.tile k 0] (List.forall_mem_singleton.mpr hk)
    exact (handleColourSpaces_kept_iff f im seq ang (f.photometricAt lower k)).mp
      ⟨hsound.channels, hsound.colourspace⟩
  · intro h ops hops
    refine allSound_of_kept (fun k hk => handleColourSpaces_of_allows (h k hk)) ops _ ?_ hops
    exact ⟨rfl, fun _ _ _ hnone => by cases hnone⟩

/-- A palette image of 8 bits with one level. -/
def paletteFile : TiffFile where
  tileWidth := some 256
  tileHeight := some 256
  width := 512
  height := 512
  samplesPerPixel := 1
  bitsPerSample := 8
  photometric := .palette
  sampleFormat := 1
  xResolution := none
  yResolution := none
  resolutionUnit := none
  subIfds := []
  subDirectory := fun _ => (0, 0)
  directories := []
  sMinSampleValue := fun _ => 0
  sMaxSampleValue := fun _ => 0
  metadata := fun _ => none

/-- The object of a file that has just been loaded. -/
def loadedFrom (f : TiffFile) : TPTImage :=
  (TPTImage.ofIIPImage (.new [])).loadImageInfo f 0 90

/-- **A palette changes under the region.**  The region is made for three channels, its two tiles
have one; and the object is grey afterwards, where it was loaded as sRGB. -/
theorem palette_region :
    ((start (loadedFrom paletteFile)).getRegion (paletteFile.photometricAt fun _ => .palette)
        0 [0, 1]).2 = (3, [1, 1]) ∧
      (loadedFrom paletteFile).colourspace = .sRGB ∧
      ((start (loadedFrom paletteFile)).getRegion (paletteFile.photometricAt fun _ => .palette)
        0 [0, 1]).1.image.colourspace = .greyscale := by
  refine ⟨rfl, rfl, rfl⟩

end Reading

end Iipsrv
