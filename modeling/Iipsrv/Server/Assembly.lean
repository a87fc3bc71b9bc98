/-
# Replies for several images

A `DeepZoomExt` request names a list of images, and some of them may be missing.  `DeepZoomExt::run`
goes through the list and fills TWO vectors on the way: the tiles of the images that are there, and
the positions of those that are not.  For the last image the two are handed to `JTL_Ext::send` or
`sendZip`, which merge them by a counter of their own.

`Opening.lean` has the loop with ONE list, of a slot for each image.  Here it is written down with
the two vectors of the source, and the parting point is `Reply`: what the loop hands over, before
anything is sent.

* `slots_in_order`: the merge gives slot `i` the tile of path `i`, and a placeholder to a missing
  one;
* `Mirrors.respond`, `images_eq`: the loop of `Opening.lean` does the same as this one;
* `sends_iff`: when the hand-over is complete, and when a request that does not get there ends in
  an error.
-/
import Iipsrv.FIF.Freshness
import Iipsrv.Lib.Slots
import Iipsrv.Server.Main

namespace Iipsrv

open Lib.Print (Text decimal snprintf snprintf_eq_self length_decimal_le_iff)
open Lib.Str Lib.Effects Lib.Slots

/-! ## 1. Merging -/

namespace JTLExt

/-- The loop of `send` and `sendZip` over `tileCount` positions.  `none`: `compressedTiles` is read
out of range. -/
def slots (compressedTiles : List RawTile) (invalidPathIndices : List Nat) :
    Option (List (Option RawTile)) :=
  fill compressedTiles invalidPathIndices (compressedTiles.length + invalidPathIndices.length) 0 0

/-- A picture of the column: a tile, or a black one of this size. -/
inductive Picture
  | tile (t : RawTile)
  | black (width height : Nat)

def Picture.ofSlot (width height : Nat) : Option RawTile → Picture
  | some t => tile t
  | none => black width height

/-- `imagesToAppend` of `send`, from the top.  The size is that of the first tile. -/
def imagesToAppend (compressedTiles : List RawTile) (invalidPathIndices : List Nat) :
    Option (List Picture) :=
  match compressedTiles with
  | [] => none
  | t :: _ => (slots compressedTiles invalidPathIndices).map
      (List.map (Picture.ofSlot t.width t.height))

/-- The suffix of an entry. -/
def entrySuffix (ct : CompressionType) : Text := if ct = .jpeg then str ".jpg" else str ".png"

/-- The name of an entry, which is cut to a fixed buffer. -/
def entryName (ct : CompressionType) (i : Nat) : Text :=
  snprintf 20 ('t' :: decimal i ++ entrySuffix ct)

/-- The entries of `sendZip`.  That of a missing image is empty. -/
def zipEntries (ct : CompressionType) (compressedTiles : List RawTile)
    (invalidPathIndices : List Nat) : Option (List (Text × Text)) :=
  (slots compressedTiles invalidPathIndices).map
    (List.mapIdx fun i slot => (entryName ct i, slot.elim [] RawTile.payload))

/-- `JTL_Ext::send` and `sendZip`, with the vectors.  `send` reads the first tile in any case. -/
def sendVectors (S : Server) (settings : DeepZoomExt.Settings) (compressedTiles : List RawTile)
    (invalidPathIndices : List Nat) : Task Unit :=
  if settings.zip = false ∧ compressedTiles = [] then throw (.fault .outOfBounds)
  else
    match slots compressedTiles invalidPathIndices with
    | none => throw (.fault .outOfBounds)
    | some l => send S settings l

/-- The tile of an image in column `x` and row `y` of a level, with the image as it leaves it. -/
def tileOf (S : Server) (resolution x y : Int32) (im : Opened) : Task (Opened × RawTile) := do
  let level := DeepZoom.level im.info resolution
  let tile ← Task.tileAt im level x y
  getTile S level tile im

end JTLExt

/-! ## 2. The loop -/

namespace DeepZoomExt

/-- What the loop over the paths carries: the image pointer, and what `DZExtResponseData` refers
to. -/
structure Vectors where
  image : Option Opened
  suffix : Text
  initHeader : Text
  compressedTiles : List RawTile
  invalidPathIndices : List Nat

/-- What is handed over for the last path: the text of the header, or the two vectors. -/
inductive Reply
  | header (text : Text)
  | tiles (compressedTiles : List RawTile) (invalidPathIndices : List Nat)

/-- `fif.run`, if the path exists. -/
def visit (S : Server) (h : Headers) (path : Text) : Task (Option Opened) :=
  if S.pathExists path then do
    let im ← FIF.task S h path
    return some im
  else return none

/-- The position of a missing path is noted, the image of the other ones is the current one. -/
def Vectors.visited (i : Nat) (v : Vectors) : Option Opened → Vectors
  | none => { v with invalidPathIndices := v.invalidPathIndices ++ [i] }
  | some im => { v with image := some im }

/-- `sendMissingFileResponse`, up to the sending. -/
def missingFile (S : Server) (isFirst : Bool) (v : Vectors) : Task Vectors :=
  if v.suffix = dzi then do
    let s ← get
    return { v with initHeader := v.initHeader ++ opening S s isFirst ++ sizeEntry 0 0 0 }
  else return v

/-- `sendExistingFileResponse`, up to the sending. -/
def existingFile (S : Server) (argument : Text) (isFirst : Bool) (im : Opened) (v : Vectors) :
    Task Vectors :=
  if v.suffix = dzi then do
    let s ← get
    let size := sizeEntry im.base.tileWidth (im.base.imageWidths.headD 0)
      (im.base.imageHeights.headD 0)
    return { v with initHeader := v.initHeader ++ opening S s isFirst ++ size }
  else
    match coordinates argument with
    | .error e => Task.raise e
    | .ok ((resolution, x, y), suffix) => do
      let (im, t) ← JTLExt.tileOf S resolution x y im
      return { v with
        image := some im, suffix := suffix, compressedTiles := v.compressedTiles ++ [t] }

/-- What is thrown if there is no image at all. -/
def allMissing : Thrown := .fileError "All tile sources are missing!"

/-- One turn of the loop, for path `i` of `count`.  The last of the noted positions is `i` exactly
if this path is missing. -/
def turn (S : Server) (h : Headers) (argument : Text) (count i : Nat) (path : Text) (v : Vectors) :
    Task Vectors := do
  let visited ← visit S h path
  let v := v.visited i visited
  if count = v.invalidPathIndices.length then Task.raise allMissing
  else
    match visited with
    | none => missingFile S (i == 0) v
    | some im => existingFile S argument (i == 0) im v

/-- What the last path hands over.  The suffix it is decided by is the one before its turn. -/
def Vectors.reply (suffix : Text) (v : Vectors) : Reply :=
  if suffix = dzi then .header (v.initHeader ++ str "</ImageArray>")
  else .tiles v.compressedTiles v.invalidPathIndices

/-- The loop over the paths, from position `i` on. -/
def loop (S : Server) (h : Headers) (argument : Text) (count : Nat) :
    Nat → Text → List Text → Vectors → Task (Vectors × Reply)
  | i, path, [], v => do
    let v' ← turn S h argument count i path v
    return (v', v'.reply v.suffix)
  | i, path, path' :: paths, v => do
    let v' ← turn S h argument count i path v
    loop S h argument count (i + 1) path' paths v'

/-- Nothing has been done. -/
def Vectors.start (suffix : Text) : Vectors := ⟨none, suffix, [], [], []⟩

/-- The output format of a request. -/
def Settings.applied (settings : Settings) (v : View) : View :=
  { v with outputFormat := settings.outputFormat.getD v.outputFormat }

/-- `DeepZoomExt::run` behind the parsing, up to the sending. -/
def gather (S : Server) (h : Headers) (parsed : Parsed) : Task (Vectors × Reply) :=
  loop S h parsed.strippedArgument parsed.paths.length 0 (parsed.paths.headD []) parsed.paths.tail
    (.start parsed.suffix)

/-! ## 3. One image by itself -/

/-- An image, its tile, and the suffix that is left behind. -/
def tileFor (S : Server) (h : Headers) (argument path : Text) :
    Task (Opened × RawTile × Text) := do
  let im ← FIF.task S h path
  match coordinates argument with
  | .error e => Task.raise e
  | .ok ((resolution, x, y), suffix) => do
    let (im, t) ← JTLExt.tileOf S resolution x y im
    return (im, t, suffix)

/-- The slot of a path: its tile, if it exists. -/
def slotOf (S : Server) (h : Headers) (argument path : Text) : Task (Option RawTile) :=
  if S.pathExists path then do
    let r ← tileFor S h argument path
    return some r.2.1
  else return none

/-- What is done for a path besides the bookkeeping, from the suffix it finds to the one it leaves
behind: open the image, and get its tile if the request is for tiles. -/
def imageOf (S : Server) (h : Headers) (argument suffix path : Text) : Task Text :=
  if S.pathExists path then
    if suffix = dzi then do
      let _ ← FIF.task S h path
      return suffix
    else do
      let r ← tileFor S h argument path
      return r.2.2
  else return suffix

section

variable {S : Server} {h : Headers} {argument path : Text} {count i : Nat} {v v' : Vectors}
  {s s' : Session}

theorem turn_of_exists (hpath : S.pathExists path) (hcount : count ≠ v.invalidPathIndices.length) :
    turn S h argument count i path v = FIF.task S h path >>= fun im =>
      existingFile S argument (i == 0) im { v with image := some im } := by
  unfold turn visit
  rw [if_pos hpath, bind_assoc]
  refine bind_congr fun im => ?_
  rw [pure_bind]
  exact if_neg hcount

theorem turn_of_missing (hpath : ¬ S.pathExists path)
    (hcount : count ≠ v.invalidPathIndices.length + 1) :
    turn S h argument count i path v
      = missingFile S (i == 0) { v with invalidPathIndices := v.invalidPathIndices ++ [i] } := by
  unfold turn visit
  rw [if_neg hpath, pure_bind]
  refine if_neg ?_
  dsimp only [Vectors.visited]
  rw [List.length_append]
  exact hcount

/-- The last of all paths, if none has been there. -/
theorem turn_of_allMissing (hpath : ¬ S.pathExists path)
    (hcount : count = v.invalidPathIndices.length + 1) :
    turn S h argument count i path v = Task.raise allMissing := by
  unfold turn visit
  rw [if_neg hpath, pure_bind]
  refine if_pos ?_
  dsimp only [Vectors.visited]
  rw [List.length_append]
  exact hcount

/-- **The turn of an existing path in a request for tiles.** -/
theorem turn_of_tile (hpath : S.pathExists path) (hcount : count ≠ v.invalidPathIndices.length)
    (hsuffix : v.suffix ≠ dzi) :
    turn S h argument count i path v = tileFor S h argument path >>= fun r =>
      pure { v with
        image := some r.1, suffix := r.2.2, compressedTiles := v.compressedTiles ++ [r.2.1] } := by
  rw [turn_of_exists hpath hcount, tileFor, bind_assoc]
  refine bind_congr fun im => ?_
  unfold existingFile
  rw [if_neg hsuffix]
  cases coordinates argument with
  | error e => rfl
  | ok c => rw [bind_assoc]; rfl

/-- **What a turn can do.**  The positions before `i` are the only ones that have been noted. -/
theorem turn_eq_ok (hle : v.invalidPathIndices.length ≤ i) (hi : i < count)
    (hturn : turn S h argument count i path v s = .ok v' s') :
    (S.pathExists path ∧ v.suffix = dzi ∧ ∃ im header, FIF.task S h path s = .ok im s' ∧
        v' = { v with image := some im, initHeader := header }) ∨
      (S.pathExists path ∧ v.suffix ≠ dzi ∧ ∃ r, tileFor S h argument path s = .ok r s' ∧
        v' = { v with
          image := some r.1, suffix := r.2.2, compressedTiles := v.compressedTiles ++ [r.2.1] }) ∨
      (¬ S.pathExists path ∧ count ≠ v.invalidPathIndices.length + 1 ∧ s' = s ∧ ∃ header,
        v' = { v with
          initHeader := header, invalidPathIndices := v.invalidPathIndices ++ [i] }) := by
  have hcount : count ≠ v.invalidPathIndices.length := by omega
  by_cases hpath : S.pathExists path
  · by_cases hsuffix : v.suffix = dzi
    · refine .inl ⟨hpath, hsuffix, ?_⟩
      rw [turn_of_exists hpath hcount] at hturn
      obtain ⟨im, s₁, him, hrest⟩ := EState.bind_eq_ok hturn
      rw [existingFile, if_pos hsuffix] at hrest
      cases hrest
      exact ⟨im, _, him, rfl⟩
    · refine .inr (.inl ⟨hpath, hsuffix, ?_⟩)
      rw [turn_of_tile hpath hcount hsuffix] at hturn
      obtain ⟨r, s₁, hr, hrest⟩ := EState.bind_eq_ok hturn
      cases hrest
      exact ⟨r, hr, rfl⟩
  · refine .inr (.inr ⟨hpath, ?_⟩)
    by_cases hall : count = v.invalidPathIndices.length + 1
    · rw [turn_of_allMissing hpath hall] at hturn
      cases hturn
    · rw [turn_of_missing hpath hall, missingFile] at hturn
      split at hturn <;> cases hturn <;> exact ⟨hall, rfl, _, rfl⟩

/-- The noted positions, and that there are never as many as paths. -/
theorem length_invalid_turn (hle : v.invalidPathIndices.length ≤ i) (hi : i < count)
    (hturn : turn S h argument count i path v s = .ok v' s') :
    v'.invalidPathIndices.length ≤ i + 1 ∧ v'.invalidPathIndices.length ≠ count := by
  obtain ⟨-, -, im, header, -, rfl⟩ | ⟨-, -, r, -, rfl⟩ | ⟨-, hall, -, header, rfl⟩ :=
    turn_eq_ok hle hi hturn
  · exact ⟨Nat.le_succ_of_le hle, (Nat.lt_of_le_of_lt hle hi).ne⟩
  · exact ⟨Nat.le_succ_of_le hle, (Nat.lt_of_le_of_lt hle hi).ne⟩
  · dsimp only
    rw [List.length_append]
    exact ⟨Nat.succ_le_succ hle, hall.symm⟩

/-- A request for the header stays one. -/
theorem suffix_turn (hle : v.invalidPathIndices.length ≤ i) (hi : i < count)
    (hsuffix : v.suffix = dzi) (hturn : turn S h argument count i path v s = .ok v' s') :
    v'.suffix = dzi := by
  obtain ⟨-, -, im, header, -, rfl⟩ | ⟨-, hne, -⟩ | ⟨-, -, -, header, rfl⟩ :=
    turn_eq_ok hle hi hturn
  · exact hsuffix
  · exact absurd hsuffix hne
  · exact hsuffix

end

/-! ## 4. The slots -/

section

variable {S : Server} {h : Headers} {argument path : Text} {paths : List Text} {count i : Nat}
  {v v' : Vectors} {s s' : Session} {tiles : List RawTile} {invalid : List Nat}

/-- The two vectors are a list of slots, taken apart. -/
structure Vectors.Hold (v : Vectors) (slots : List (Option RawTile)) : Prop where
  tiles : v.compressedTiles = slots.reduceOption
  invalid : v.invalidPathIndices = gaps 0 slots

theorem Vectors.Hold.length_invalid_le {slots : List (Option RawTile)} (hold : v.Hold slots) :
    v.invalidPathIndices.length ≤ slots.length := by
  rw [hold.invalid, ← length_gaps 0 slots]
  exact Nat.le_add_left _ _

/-- A turn adds the slot of its path. -/
theorem Vectors.Hold.turn {slots : List (Option RawTile)} (hold : v.Hold slots)
    (hi : slots.length < count) (hsuffix : v.suffix ≠ dzi)
    (hturn : turn S h argument count slots.length path v s = .ok v' s') :
    ∃ slot, slotOf S h argument path s = .ok slot s' ∧ v'.Hold (slots ++ [slot]) := by
  obtain ⟨-, heq, -⟩ | ⟨hpath, -, r, hr, rfl⟩ | ⟨hpath, -, rfl, header, rfl⟩ :=
    turn_eq_ok hold.length_invalid_le hi hturn
  · exact absurd heq hsuffix
  · refine ⟨some r.2.1, ?_, ?_, ?_⟩
    · rw [slotOf, if_pos hpath, EState.bind_ok hr]
      rfl
    · simp [hold.tiles, List.reduceOption_append]
    · simp [hold.invalid, gaps_append, gaps]
  · refine ⟨none, ?_, ?_, ?_⟩
    · rw [slotOf, if_neg hpath]
      rfl
    · simp [hold.tiles, List.reduceOption_append]
    · simp [hold.invalid, gaps_append, gaps]

/-- A loop that starts with a request for the header hands over a header. -/
theorem reply_loop_of_dzi {r : Reply} (hle : v.invalidPathIndices.length ≤ i)
    (hcount : count = i + 1 + paths.length) (hsuffix : v.suffix = dzi)
    (hloop : loop S h argument count i path paths v s = .ok (v', r) s') :
    ∃ text, r = .header text := by
  induction paths generalizing i path v s with
  | nil =>
    obtain ⟨v₁, s₁, -, hrest⟩ := EState.bind_eq_ok hloop
    cases hrest
    exact ⟨_, if_pos hsuffix⟩
  | cons path' paths ih =>
    rw [List.length_cons] at hcount
    obtain ⟨v₁, s₁, hturn, hrest⟩ := EState.bind_eq_ok hloop
    have hi : i < count := by omega
    exact ih (length_invalid_turn hle hi hturn).1 (by omega) (suffix_turn hle hi hsuffix hturn)
      hrest

/-- **The loop takes the slots of its paths apart**, if it hands over tiles. -/
theorem Vectors.Hold.loop {slots : List (Option RawTile)} (hold : v.Hold slots)
    (hcount : count = slots.length + 1 + paths.length)
    (hloop : loop S h argument count slots.length path paths v s
      = .ok (v', .tiles tiles invalid) s') :
    ∃ more, (path :: paths).mapM (slotOf S h argument) s = .ok more s' ∧
      tiles = (slots ++ more).reduceOption ∧ invalid = gaps 0 (slots ++ more) ∧
      invalid.length ≠ count := by
  have hsuffix : v.suffix ≠ dzi := by
    intro heq
    obtain ⟨text, htext⟩ := reply_loop_of_dzi hold.length_invalid_le hcount heq hloop
    cases htext
  induction paths generalizing slots path v s with
  | nil =>
    obtain ⟨v₁, s₁, hturn, hrest⟩ := EState.bind_eq_ok hloop
    have hi : slots.length < count := by omega
    obtain ⟨slot, hslot, hold₁⟩ := hold.turn hi hsuffix hturn
    have hne := (length_invalid_turn hold.length_invalid_le hi hturn).2
    rw [Vectors.reply, if_neg hsuffix] at hrest
    cases hrest
    refine ⟨[slot], ?_, hold₁.tiles, hold₁.invalid, hne⟩
    rw [List.mapM_cons, EState.bind_ok hslot]
    rfl
  | cons path' paths ih =>
    rw [List.length_cons] at hcount
    obtain ⟨v₁, s₁, hturn, hrest⟩ := EState.bind_eq_ok hloop
    have hi : slots.length < count := by omega
    obtain ⟨slot, hslot, hold₁⟩ := hold.turn hi hsuffix hturn
    have hlength : (slots ++ [slot]).length = slots.length + 1 := by simp
    rw [← hlength] at hrest
    have hcount₁ : count = (slots ++ [slot]).length + 1 + paths.length := by omega
    have hsuffix₁ : v₁.suffix ≠ dzi := by
      intro heq
      obtain ⟨text, htext⟩ := reply_loop_of_dzi hold₁.length_invalid_le hcount₁ heq hrest
      cases htext
    obtain ⟨more, hmore, htiles, hinvalid, hne⟩ := ih hold₁ hcount₁ hrest hsuffix₁
    rw [List.append_assoc, List.singleton_append] at htiles hinvalid
    refine ⟨slot :: more, ?_, htiles, hinvalid, hne⟩
    rw [List.mapM_cons, EState.bind_ok hslot, EState.bind_ok hmore]
    rfl

end

/-- There is always a first path. -/
theorem paths_ne_nil {argument : Text} {parsed : Parsed} (hparse : parse argument = .ok parsed) :
    parsed.paths ≠ [] := by
  obtain ⟨suffix, -, hrest⟩ := bind_eq_ok hparse
  obtain ⟨format, -, hrest⟩ := bind_eq_ok hrest
  cases hrest
  exact split_ne_nil _ _ _

theorem cons_paths {argument : Text} {parsed : Parsed} (hparse : parse argument = .ok parsed) :
    parsed.paths.headD [] :: parsed.paths.tail = parsed.paths := by
  cases hpaths : parsed.paths with
  | nil => exact absurd hpaths (paths_ne_nil hparse)
  | cons path paths => rfl

theorem length_paths {argument : Text} {parsed : Parsed} (hparse : parse argument = .ok parsed) :
    parsed.paths.length = 0 + 1 + parsed.paths.tail.length := by
  rw [← cons_paths hparse]
  simp [Nat.add_comm]

/-- The number of an entry is an `int`, for which the buffer has room. -/
theorem entryName_eq (ct : CompressionType) {i : Nat} (hi : i < 2 ^ 31) :
    JTLExt.entryName ct i = 't' :: decimal i ++ JTLExt.entrySuffix ct := by
  have hdigits : (decimal i).length ≤ 10 :=
    (length_decimal_le_iff (by norm_num)).2 (hi.trans (by norm_num))
  have hsuffix : (JTLExt.entrySuffix ct).length = 4 := by
    unfold JTLExt.entrySuffix
    split <;> rfl
  refine snprintf_eq_self ?_
  rw [List.length_append, List.length_cons, hsuffix]
  omega

/-- **A reply for several images keeps their order.**  When the two vectors are handed over, they
have as many entries as there are paths, and the merge gives each path its slot: its tile, or the
placeholder if it is missing.  All tiles are used, each once, and none is asked for beyond them. -/
theorem slots_in_order (S : Server) (h : Headers) (argument : Text) (parsed : Parsed)
    (hparse : parse argument = .ok parsed) (s s' : Session) (v : Vectors) (tiles : List RawTile)
    (invalid : List Nat) (hgather : gather S h parsed s = .ok (v, .tiles tiles invalid) s') :
    ∃ slots : List (Option RawTile),
      parsed.paths.mapM (slotOf S h parsed.strippedArgument) s = .ok slots s' ∧
      slots.length = parsed.paths.length ∧
      tiles.length + invalid.length = parsed.paths.length ∧
      slots.reduceOption = tiles ∧
      (∃ t rest, tiles = t :: rest ∧ JTLExt.imagesToAppend tiles invalid
        = some (slots.map (JTLExt.Picture.ofSlot t.width t.height))) ∧
      ∀ ct, JTLExt.zipEntries ct tiles invalid
          = some (slots.mapIdx fun i slot =>
              (JTLExt.entryName ct i, slot.elim [] RawTile.payload)) ∧
        ∀ i < 2 ^ 31, JTLExt.entryName ct i = 't' :: decimal i ++ JTLExt.entrySuffix ct := by
  have hpaths := cons_paths hparse
  have hold : (Vectors.start parsed.suffix).Hold [] := ⟨rfl, rfl⟩
  obtain ⟨slots, hslots, htiles, hinvalid, hne⟩ := hold.loop (length_paths hparse) hgather
  rw [hpaths] at hslots
  rw [List.nil_append] at htiles hinvalid
  have hlength : slots.length = parsed.paths.length := EState.length_of_mapM hslots
  have htotal : tiles.length + invalid.length = slots.length := by
    rw [htiles, hinvalid, length_gaps]
  have hmerge : JTLExt.slots tiles invalid = some slots := by
    rw [JTLExt.slots, htotal, htiles, hinvalid]
    exact fill_gaps slots
  refine ⟨slots, hslots, hlength, htotal.trans hlength, htiles.symm, ?_, fun ct => ⟨?_, ?_⟩⟩
  · cases htile : tiles with
    | nil =>
      rw [htile, List.length_nil, Nat.zero_add, hlength] at htotal
      exact absurd htotal hne
    | cons t rest =>
      refine ⟨t, rest, rfl, ?_⟩
      rw [htile] at hmerge
      rw [JTLExt.imagesToAppend, hmerge]
      rfl
  · rw [JTLExt.zipEntries, hmerge]
    rfl
  · exact fun i hi => entryName_eq ct hi

/-- A server with an image of one tile, at the path `a` alone. -/
def oneImageServer : Server :=
  { smallServer fun _ => some (FIF.singleFile .tif 0 (.tiff (greyTiff 4))) with
    getTile := fun _ _ _ _ _ _ => .ok ⟨4, 4, 1, 8, .fixedPoint, [7], 1, false⟩
    pathExists := fun path => path == ['a'] }

/-- Its session, without a tile cache. -/
def oneImageSession : Session :=
  { (oneImageServer.start freshState.imageCache freshState.tileCache).session with
    tileCache := Cache.new ⟨176, 16, 40, 8⟩ 0 }

/-- `b,a_files/0/0_0.jpg`, read. -/
def firstMissing : Parsed :=
  ⟨⟨false, some .jpeg, false⟩, str "b,a_files/0/0_0.jpg", jpg, [['b'], ['a']]⟩

theorem parse_firstMissing : parse (str "b,a_files/0/0_0.jpg") = .ok firstMissing := by
  have hsplit : split ',' [] ['b', ',', 'a'] = [['b'], ['a']] :=
    split_intercalate (List.cons_ne_nil ['b'] [['a']]) (by decide)
  unfold parse
  rw [firstMissing, ← hsplit]
  rfl

set_option maxRecDepth 20000 in
/-- The first of two images is missing: the only tile goes into the second slot. -/
theorem slots_in_order_firstMissing :
    ∃ t s', (∃ v, gather oneImageServer (simpleHeaders [] []) firstMissing oneImageSession
        = .ok (v, .tiles [t] [0]) s') ∧
      ∃ slots, firstMissing.paths.mapM (slotOf oneImageServer (simpleHeaders [] [])
        firstMissing.strippedArgument) oneImageSession = .ok slots s' ∧
        slots.length = 2 ∧ slots.reduceOption = [t] := by
  have hgather : ∃ v t s', gather oneImageServer (simpleHeaders [] []) firstMissing oneImageSession
      = .ok (v, .tiles [t] [0]) s' := ⟨_, _, _, rfl⟩
  obtain ⟨v, t, s', hgather⟩ := hgather
  obtain ⟨slots, hslots, hlength, -, hused, -⟩ :=
    slots_in_order _ _ _ _ parse_firstMissing _ _ _ _ _ hgather
  exact ⟨t, s', ⟨v, hgather⟩, slots, hslots, hlength, hused⟩

/-! ## 5. The loop with one list -/

/-- Send what has been handed over. -/
def Reply.send (S : Server) (settings : Settings) (im : Opened) : Reply → Task Opened
  | header text => do
    Task.reply text
    return im
  | tiles compressedTiles invalidPathIndices => do
    JTLExt.sendVectors S settings compressedTiles invalidPathIndices
    return im

/-- The end of the loop, where an image has been opened. -/
def conclude (S : Server) (settings : Settings) (r : Vectors × Reply) : Task Opened :=
  match r.1.image with
  | none => Task.raise allMissing
  | some im => r.2.send S settings im

/-- The vectors and the one list at position `i`.  In a request for tiles, which `mark` tells from
one for the header, the list has the slots of the paths so far. -/
structure Mirrors (mark : Text) (i : Nat) (v : Vectors) (p : Progress) : Prop where
  image : v.image = p.image
  suffix : v.suffix = p.suffix
  header : v.initHeader = p.header
  absent : v.image = none ↔ v.invalidPathIndices.length = i
  bound : v.invalidPathIndices.length ≤ i
  hold : mark ≠ dzi → v.Hold p.tiles ∧ p.tiles.length = i

section

variable {S : Server} {h : Headers} {settings : Settings} {argument path : Text} {count i : Nat}
  {v : Vectors} {p : Progress}

/-- A missing path adds an empty slot. -/
theorem Mirrors.missing {header : Text} (hm : Mirrors p.suffix i v p)
    (tiles : List (Option RawTile)) (htiles : p.suffix ≠ dzi → tiles = p.tiles ++ [none]) :
    Mirrors p.suffix (i + 1)
      { v with initHeader := header, invalidPathIndices := v.invalidPathIndices ++ [i] }
      { p with header := header, tiles := tiles } where
  image := hm.image
  suffix := hm.suffix
  header := rfl
  absent := by
    dsimp only
    rw [hm.absent, List.length_append, List.length_singleton, Nat.add_right_cancel_iff]
  bound := by
    dsimp only
    rw [List.length_append]
    exact Nat.succ_le_succ hm.bound
  hold := by
    intro hsuffix
    obtain ⟨hold, hlength⟩ := hm.hold hsuffix
    dsimp only
    rw [htiles hsuffix]
    refine ⟨⟨?_, ?_⟩, ?_⟩
    · simp [hold.tiles, List.reduceOption_append]
    · simp [hold.invalid, gaps_append, gaps, hlength]
    · simp [hlength]

/-- An existing one is the current image from then on, and adds its tile if it has one. -/
theorem Mirrors.existing {header suffix : Text} (hm : Mirrors p.suffix i v p) (im : Opened)
    (tiles : List RawTile) (htiles : p.suffix ≠ dzi → ∃ t, tiles = [t]) :
    Mirrors p.suffix (i + 1)
      { v with
        image := some im, suffix := suffix, initHeader := header
        compressedTiles := v.compressedTiles ++ tiles }
      { p with
        image := some im, suffix := suffix, header := header
        tiles := p.tiles ++ tiles.map some } where
  image := rfl
  suffix := rfl
  header := rfl
  absent := ⟨fun hnone => (nomatch hnone), fun heq => absurd heq (Nat.lt_succ_of_le hm.bound).ne⟩
  bound := Nat.le_succ_of_le hm.bound
  hold := by
    intro hsuffix
    obtain ⟨hold, hlength⟩ := hm.hold hsuffix
    obtain ⟨t, rfl⟩ := htiles hsuffix
    refine ⟨⟨?_, ?_⟩, ?_⟩
    · simp [hold.tiles, List.reduceOption_append]
    · simp [hold.invalid, gaps_append, gaps]
    · simp [hlength]

/-- **One turn**: the two loops do the same and stay together, unless this is the last of nothing
but missing paths. -/
theorem Mirrors.turn {β : Type} {f : Progress → Task β} {g : Vectors → Task β}
    (hm : Mirrors p.suffix i v p) (hi : i < count)
    (hsome : S.pathExists path ∨ count ≠ v.invalidPathIndices.length + 1)
    (hnext : ∀ v' p', Mirrors p.suffix (i + 1) v' p' → (p.suffix = dzi → p'.suffix = dzi) →
      f p' = g v') :
    (one S h argument (i == 0) path p >>= f) = (turn S h argument count i path v >>= g) := by
  have hcount : count ≠ v.invalidPathIndices.length := by
    have := hm.bound
    omega
  by_cases hpath : S.pathExists path
  · rw [turn_of_exists hpath hcount, one, if_pos hpath, bind_assoc, bind_assoc]
    refine bind_congr fun im => ?_
    by_cases hdzi : p.suffix = dzi
    · rw [if_pos hdzi, existingFile, if_pos (hm.suffix.trans hdzi), bind_assoc, bind_assoc]
      refine bind_congr fun s => ?_
      rw [pure_bind, pure_bind]
      refine hnext _ _ ?_ fun _ => hdzi
      rw [hm.header, hm.suffix]
      simpa using hm.existing im [] fun hne => absurd hdzi hne
    · rw [if_neg hdzi, existingFile, if_neg (fun heq => hdzi (hm.suffix.symm.trans heq))]
      cases coordinates argument with
      | error e => rfl
      | ok c =>
        dsimp only
        rw [JTLExt.tileOf, bind_assoc, bind_assoc, bind_assoc]
        refine bind_congr fun tile => ?_
        rw [bind_assoc]
        refine bind_congr fun r => ?_
        rw [pure_bind, pure_bind]
        refine hnext _ _ ?_ fun heq => absurd heq hdzi
        rw [← hm.header]
        exact hm.existing r.1 [r.2] fun _ => ⟨r.2, rfl⟩
  · rw [turn_of_missing hpath (hsome.resolve_left hpath), one, if_neg hpath, missingFile]
    by_cases hdzi : p.suffix = dzi
    · rw [if_pos hdzi, if_pos (hm.suffix.trans hdzi), bind_assoc, bind_assoc]
      refine bind_congr fun s => ?_
      rw [pure_bind, pure_bind]
      refine hnext _ _ ?_ fun _ => hdzi
      rw [hm.header]
      exact hm.missing p.tiles fun hne => absurd hdzi hne
    · rw [if_neg hdzi, if_neg (fun heq => hdzi (hm.suffix.symm.trans heq)), pure_bind, pure_bind]
      refine hnext _ _ ?_ fun heq => absurd heq hdzi
      rw [← hm.header]
      exact hm.missing _ fun _ => rfl

/-- The two ends: the vectors are merged to the list. -/
theorem Mirrors.finish {mark : Text} (hm : Mirrors mark i v p) :
    finish S settings (decide (mark = dzi)) p = conclude S settings (v, v.reply mark) := by
  unfold DeepZoomExt.finish conclude
  rw [← hm.image]
  cases himage : v.image with
  | none => rfl
  | some im =>
    by_cases hdzi : mark = dzi
    · simp [Vectors.reply, hdzi, Reply.send, hm.header]
    · obtain ⟨hold, hlength⟩ := hm.hold hdzi
      have hne : v.compressedTiles ≠ [] := by
        intro hnil
        have htotal := length_gaps 0 p.tiles
        rw [← hold.tiles, ← hold.invalid, hnil, hlength, List.length_nil, Nat.zero_add] at htotal
        rw [hm.absent.2 htotal] at himage
        cases himage
      have hmerge : JTLExt.slots v.compressedTiles v.invalidPathIndices = some p.tiles := by
        rw [JTLExt.slots, hold.tiles, hold.invalid, length_gaps]
        exact fill_gaps p.tiles
      simp [Vectors.reply, hdzi, Reply.send, JTLExt.sendVectors, hne, hmerge]

/-- A turn that ends in the exception for nothing but missing paths. -/
theorem Mirrors.allMissing {paths : List Text} (hm : Mirrors p.suffix i v p)
    (hpath : ¬ S.pathExists path) (hcount : count = i + 1 + paths.length)
    (hall : count = v.invalidPathIndices.length + 1) :
    paths = [] ∧ (one S h argument (i == 0) path p >>= DeepZoomExt.finish S settings
      (decide (p.suffix = dzi))) = Task.raise allMissing := by
  have hbound := hm.bound
  have hpaths : paths.length = 0 := by omega
  have himage : p.image = none := by
    rw [← hm.image, hm.absent]
    omega
  refine ⟨List.eq_nil_of_length_eq_zero hpaths, ?_⟩
  rw [one, if_neg hpath]
  split
  · rw [bind_assoc]
    funext s
    simp only [pure_bind, DeepZoomExt.finish, himage]
    rfl
  · simp only [pure_bind, DeepZoomExt.finish, himage]
    rfl

/-- **The loop with one list does what the loop with the two vectors does.** -/
theorem Mirrors.respond {paths : List Text} (hm : Mirrors p.suffix i v p)
    (hcount : count = i + 1 + paths.length) :
    respond S h settings argument (i == 0) path paths p
      = loop S h argument count i path paths v >>= conclude S settings := by
  induction paths generalizing i path v p with
  | nil =>
    rw [DeepZoomExt.respond, loop, bind_assoc]
    by_cases hsome : S.pathExists path ∨ count ≠ v.invalidPathIndices.length + 1
    · refine hm.turn (by omega) hsome fun v' p' hm' _ => ?_
      rw [pure_bind, hm.suffix]
      exact hm'.finish
    · rw [not_or, not_not] at hsome
      rw [turn_of_allMissing hsome.1 hsome.2]
      exact (hm.allMissing hsome.1 hcount hsome.2).2
  | cons path' paths ih =>
    rw [List.length_cons] at hcount
    have hbound := hm.bound
    rw [DeepZoomExt.respond, loop, bind_assoc]
    refine hm.turn (by omega) (.inr (by omega)) fun v' p' hm' hdzi => ?_
    have hm'' : Mirrors p'.suffix (i + 1) v' p' :=
      { hm' with hold := fun hne => hm'.hold fun heq => hne (hdzi heq) }
    exact ih hm'' (by omega)

/-- `DeepZoomExt::run` behind `/greyscale`, with the two vectors. -/
theorem images_eq (S : Server) (h : Headers) {argument : Text} {parsed : Parsed}
    (hparse : parse argument = .ok parsed) :
    images S h argument = Task.modifyView parsed.settings.applied >>= fun _ =>
      gather S h parsed >>= conclude S parsed.settings := by
  have hstart : Mirrors parsed.suffix 0 (.start parsed.suffix) ⟨none, parsed.suffix, [], []⟩ :=
    ⟨rfl, rfl, rfl, ⟨fun _ => rfl, fun _ => rfl⟩, Nat.le_refl 0, fun _ => ⟨⟨rfl, rfl⟩, rfl⟩⟩
  unfold images
  rw [hparse]
  exact bind_congr fun _ => Mirrors.respond hstart (length_paths hparse)

end

/-! ## 6. What is handed over, and when -/

/-- The option at the end of a request. -/
def greyed (argument : Text) (v : View) : View :=
  if (find greyscaleOption argument).isSome then { v with colourspace := .greyscale } else v

/-- `DeepZoomExt::run`, up to the sending. -/
def assemble (S : Server) (h : Headers) (argument : Text) : Task (Parsed × Vectors × Reply) := do
  Task.modifyView (greyed argument)
  match parse argument with
  | .error e => Task.raise e
  | .ok parsed => do
    Task.modifyView parsed.settings.applied
    let r ← gather S h parsed
    return (parsed, r)

/-- The session in which the images are gone through. -/
def prepared (argument : Text) (settings : Settings) (s : Session) : Session :=
  { s with view := settings.applied (greyed argument s.view) }

/-- **A request is assembled, then sent.** -/
theorem task_eq (S : Server) (h : Headers) (argument : Text) :
    task S h argument = assemble S h argument >>= fun r => conclude S r.1.settings r.2 := by
  have htask : task S h argument
      = Task.modifyView (greyed argument) >>= fun _ => images S h argument := by
    unfold task greyed
    cases (find greyscaleOption argument).isSome <;> rfl
  rw [htask, assemble, bind_assoc]
  refine bind_congr fun _ => ?_
  cases hparse : parse argument with
  | error e =>
    unfold images
    rw [hparse]
    rfl
  | ok parsed =>
    rw [images_eq S h hparse]
    simp only [bind_assoc, pure_bind]

/-- The images of a request can be gone through: one of them exists, and those that do can be
opened, and have the tile if it is asked for. -/
def Completes (S : Server) (h : Headers) (argument : Text) (s : Session) (parsed : Parsed) : Prop :=
  parse argument = .ok parsed ∧ (∃ p ∈ parsed.paths, S.pathExists p) ∧
    ∃ suffix s', parsed.paths.foldlM (imageOf S h parsed.strippedArgument) parsed.suffix
      (prepared argument parsed.settings s) = .ok suffix s'

/-- The last path is one of a request for tiles.  The text of the tile takes the place of the
suffix once an image has been there, and may be `dzi` itself. -/
def AsTile (S : Server) (argument suffix : Text) (paths : List Text) : Prop :=
  suffix ≠ dzi ∧ ((∃ p ∈ paths.dropLast, S.pathExists p) →
    ∀ c text, coordinates argument = .ok (c, text) → text ≠ dzi)

section

variable {S : Server} {h : Headers} {argument path : Text} {paths : List Text} {count i : Nat}
  {v v' : Vectors} {s s' : Session}

/-- The suffix that a tile leaves behind is its own text. -/
theorem coordinates_of_tileFor {r : Opened × RawTile × Text}
    (hr : tileFor S h argument path s = .ok r s') :
    ∃ c, coordinates argument = .ok (c, r.2.2) := by
  obtain ⟨im, s₁, -, hrest⟩ := EState.bind_eq_ok hr
  cases hcoordinates : coordinates argument with
  | error e =>
    rw [hcoordinates] at hrest
    cases hrest
  | ok c =>
    rw [hcoordinates] at hrest
    obtain ⟨t, s₂, -, hrest⟩ := EState.bind_eq_ok hrest
    cases hrest
    exact ⟨c.1, rfl⟩

/-- A turn does what is to be done for its path, -/
theorem imageOf_of_turn (hle : v.invalidPathIndices.length ≤ i) (hi : i < count)
    (hturn : turn S h argument count i path v s = .ok v' s') :
    imageOf S h argument v.suffix path s = .ok v'.suffix s' := by
  obtain ⟨hpath, hdzi, im, header, him, rfl⟩ | ⟨hpath, hdzi, r, hr, rfl⟩ |
    ⟨hpath, -, rfl, header, rfl⟩ := turn_eq_ok hle hi hturn
  · rw [imageOf, if_pos hpath, if_pos hdzi, EState.bind_ok him]
    rfl
  · rw [imageOf, if_pos hpath, if_neg hdzi, EState.bind_ok hr]
    rfl
  · rw [imageOf, if_neg hpath]
    rfl

/-- and comes to its end if that can be done. -/
theorem turn_of_imageOf {suffix : Text} (hle : v.invalidPathIndices.length ≤ i) (hi : i < count)
    (hsome : S.pathExists path ∨ count ≠ v.invalidPathIndices.length + 1)
    (himage : imageOf S h argument v.suffix path s = .ok suffix s') :
    ∃ v', turn S h argument count i path v s = .ok v' s' ∧ v'.suffix = suffix := by
  have hcount : count ≠ v.invalidPathIndices.length := by omega
  by_cases hpath : S.pathExists path
  · rw [imageOf, if_pos hpath] at himage
    by_cases hdzi : v.suffix = dzi
    · rw [if_pos hdzi] at himage
      obtain ⟨im, s₁, him, hrest⟩ := EState.bind_eq_ok himage
      cases hrest
      rw [turn_of_exists hpath hcount, EState.bind_ok him, existingFile, if_pos hdzi]
      exact ⟨_, rfl, rfl⟩
    · rw [if_neg hdzi] at himage
      obtain ⟨r, s₁, hr, hrest⟩ := EState.bind_eq_ok himage
      cases hrest
      rw [turn_of_tile hpath hcount hdzi, EState.bind_ok hr]
      exact ⟨_, rfl, rfl⟩
  · rw [imageOf, if_neg hpath] at himage
    cases himage
    rw [turn_of_missing hpath (hsome.resolve_left hpath), missingFile]
    split <;> exact ⟨_, rfl, rfl⟩

/-- The number of noted positions behind a turn. -/
theorem length_invalid_eq (hle : v.invalidPathIndices.length ≤ i) (hi : i < count)
    (hturn : turn S h argument count i path v s = .ok v' s') :
    v'.invalidPathIndices.length
      = v.invalidPathIndices.length + if S.pathExists path then 0 else 1 := by
  obtain ⟨hpath, -, im, header, -, rfl⟩ | ⟨hpath, -, r, -, rfl⟩ | ⟨hpath, -, -, header, rfl⟩ :=
    turn_eq_ok hle hi hturn
  · rw [if_pos hpath]
    rfl
  · rw [if_pos hpath]
    rfl
  · rw [if_neg hpath]
    exact List.length_append

/-- Whether a path has been found, or is still to be found. -/
theorem valid_turn_iff (hle : v.invalidPathIndices.length ≤ i) (hi : i < count)
    (hturn : turn S h argument count i path v s = .ok v' s') (paths : List Text) :
    (v'.invalidPathIndices.length < i + 1 ∨ ∃ p ∈ paths, S.pathExists p) ↔
      (v.invalidPathIndices.length < i ∨ ∃ p ∈ path :: paths, S.pathExists p) := by
  rw [length_invalid_eq hle hi hturn]
  by_cases hpath : S.pathExists path
  · rw [if_pos hpath]
    exact iff_of_true (.inl (by omega)) (.inr ⟨path, List.mem_cons_self, hpath⟩)
  · rw [if_neg hpath, Nat.add_lt_add_iff_right]
    refine or_congr_right ⟨fun ⟨p, hp, hexists⟩ => ⟨p, List.mem_cons_of_mem path hp, hexists⟩, ?_⟩
    rintro ⟨p, hp, hexists⟩
    rcases List.mem_cons.1 hp with rfl | hp
    · exact absurd hexists hpath
    · exact ⟨p, hp, hexists⟩

/-- **When the loop comes to its end**: some path exists, and what is to be done can be done. -/
theorem loop_ok_iff (hle : v.invalidPathIndices.length ≤ i)
    (hcount : count = i + 1 + paths.length) :
    (∃ r s', loop S h argument count i path paths v s = .ok r s') ↔
      (v.invalidPathIndices.length < i ∨ ∃ p ∈ path :: paths, S.pathExists p) ∧
        ∃ suffix s', (path :: paths).foldlM (imageOf S h argument) v.suffix s
          = .ok suffix s' := by
  have hi : i < count := by omega
  induction paths generalizing i path v s with
  | nil =>
    rw [List.length_nil] at hcount
    constructor
    · rintro ⟨r, s', hloop⟩
      obtain ⟨v₁, s₁, hturn, -⟩ := EState.bind_eq_ok hloop
      refine ⟨(valid_turn_iff hle hi hturn []).1 (.inl ?_), v₁.suffix, s₁, ?_⟩
      · obtain ⟨hle₁, hne⟩ := length_invalid_turn hle hi hturn
        omega
      · rw [List.foldlM_cons, EState.bind_ok (imageOf_of_turn hle hi hturn)]
        rfl
    · rintro ⟨hsome, suffix, s', hfold⟩
      rw [List.foldlM_cons] at hfold
      obtain ⟨suffix₁, s₁, himage, -⟩ := EState.bind_eq_ok hfold
      have hsome' : S.pathExists path ∨ count ≠ v.invalidPathIndices.length + 1 := by
        rcases hsome with hlt | ⟨p, hp, hexists⟩
        · exact .inr (by omega)
        · rw [List.mem_singleton.1 hp] at hexists
          exact .inl hexists
      obtain ⟨v₁, hturn, -⟩ := turn_of_imageOf hle hi hsome' himage
      exact ⟨_, _, EState.bind_ok hturn⟩
  | cons path' paths ih =>
    rw [List.length_cons] at hcount
    constructor
    · rintro ⟨r, s', hloop⟩
      obtain ⟨v₁, s₁, hturn, hrest⟩ := EState.bind_eq_ok hloop
      obtain ⟨hsome, suffix, s₂, hfold⟩ :=
        (ih (length_invalid_turn hle hi hturn).1 (by omega) (by omega)).1 ⟨r, s', hrest⟩
      refine ⟨(valid_turn_iff hle hi hturn _).1 hsome, suffix, s₂, ?_⟩
      rw [List.foldlM_cons, EState.bind_ok (imageOf_of_turn hle hi hturn)]
      exact hfold
    · rintro ⟨hsome, suffix, s', hfold⟩
      rw [List.foldlM_cons] at hfold
      obtain ⟨suffix₁, s₁, himage, hfold⟩ := EState.bind_eq_ok hfold
      obtain ⟨v₁, hturn, rfl⟩ := turn_of_imageOf hle hi (.inr (by omega)) himage
      obtain ⟨r, s₂, hrest⟩ := (ih (length_invalid_turn hle hi hturn).1 (by omega) (by omega)).2
        ⟨(valid_turn_iff hle hi hturn _).2 hsome, suffix, s', hfold⟩
      exact ⟨r, s₂, (EState.bind_ok hturn).trans hrest⟩

/-- A turn hands the kind of the request on. -/
theorem asTile_turn (hle : v.invalidPathIndices.length ≤ i) (hi : i < count)
    (hturn : turn S h argument count i path v s = .ok v' s') (hne : paths ≠ []) :
    AsTile S argument v'.suffix paths ↔ AsTile S argument v.suffix (path :: paths) := by
  unfold AsTile
  rw [List.dropLast_cons_of_ne_nil hne]
  obtain ⟨hpath, hdzi, im, header, -, rfl⟩ | ⟨hpath, hdzi, r, hr, rfl⟩ |
    ⟨hpath, -, -, header, rfl⟩ := turn_eq_ok hle hi hturn
  · exact iff_of_false (fun htile => htile.1 hdzi) fun htile => htile.1 hdzi
  · obtain ⟨c, hc⟩ := coordinates_of_tileFor hr
    constructor
    · rintro ⟨hsuffix, -⟩
      refine ⟨hdzi, fun _ c' text htext => ?_⟩
      cases hc.symm.trans htext
      exact hsuffix
    · rintro ⟨-, htext⟩
      have hsuffix := htext ⟨path, List.mem_cons_self, hpath⟩ c r.2.2 hc
      refine ⟨hsuffix, fun _ c' text htext' => ?_⟩
      cases hc.symm.trans htext'
      exact hsuffix
  · have hexists : (∃ p ∈ path :: paths.dropLast, S.pathExists p)
        ↔ ∃ p ∈ paths.dropLast, S.pathExists p := by
      simp [hpath]
    rw [hexists]

/-- **Which of the two is handed over.** -/
theorem reply_loop_iff {r : Reply} (hle : v.invalidPathIndices.length ≤ i)
    (hcount : count = i + 1 + paths.length)
    (hloop : loop S h argument count i path paths v s = .ok (v', r) s') :
    AsTile S argument v.suffix (path :: paths) ↔ ∃ tiles invalid, r = .tiles tiles invalid := by
  induction paths generalizing i path v s with
  | nil =>
    obtain ⟨v₁, s₁, -, hrest⟩ := EState.bind_eq_ok hloop
    cases hrest
    have htile : AsTile S argument v.suffix [path] ↔ v.suffix ≠ dzi :=
      ⟨And.left, fun hne => ⟨hne, fun ⟨p, hp, _⟩ => (nomatch hp)⟩⟩
    rw [htile, Vectors.reply]
    by_cases hdzi : v.suffix = dzi
    · rw [if_pos hdzi]
      exact iff_of_false (fun hne => hne hdzi) fun ⟨tiles, invalid, hr⟩ => nomatch hr
    · rw [if_neg hdzi]
      exact iff_of_true hdzi ⟨_, _, rfl⟩
  | cons path' paths ih =>
    rw [List.length_cons] at hcount
    have hi : i < count := by omega
    obtain ⟨v₁, s₁, hturn, hrest⟩ := EState.bind_eq_ok hloop
    rw [← asTile_turn hle hi hturn (List.cons_ne_nil path' paths)]
    exact ih (length_invalid_turn hle hi hturn).1 (by omega) hrest

end

/-! ## 7. Encoder and tiles -/

/-- **Whatever is sent is complete**: there is an encoder, and there is a tile. -/
def SendsComplete (S : Server) (h : Headers) (argument : Text) (s : Session) : Prop :=
  ∀ parsed v tiles invalid s', assemble S h argument s = .ok (parsed, v, .tiles tiles invalid) s' →
    parsed.settings.outputFormat.isSome ∧ tiles ≠ []

/-- **A request that sends no tiles ends in an error.** -/
def OthersFail (S : Server) (h : Headers) (argument : Text) (s : Session) : Prop :=
  ∀ parsed v text s', assemble S h argument s ≠ .ok (parsed, v, .header text) s'

section

variable {S : Server} {h : Headers} {argument : Text} {parsed : Parsed} {s s' : Session}

theorem assemble_eq_ok {r : Vectors × Reply} :
    assemble S h argument s = .ok (parsed, r) s' ↔
      parse argument = .ok parsed ∧
        gather S h parsed (prepared argument parsed.settings s) = .ok r s' := by
  have hview : Task.modifyView (greyed argument) s
      = .ok () { s with view := greyed argument s.view } := rfl
  unfold assemble
  rw [EState.bind_ok hview]
  cases parse argument with
  | error e => exact ⟨fun heq => (nomatch heq), fun ⟨heq, _⟩ => (nomatch heq)⟩
  | ok parsed' =>
    have hformat : Task.modifyView parsed'.settings.applied
        { s with view := greyed argument s.view }
          = .ok () (prepared argument parsed'.settings s) := rfl
    dsimp only
    rw [EState.bind_ok hformat]
    constructor
    · intro heq
      obtain ⟨r', s₁, hgather, hrest⟩ := EState.bind_eq_ok heq
      cases hrest
      exact ⟨rfl, hgather⟩
    · rintro ⟨hparsed, hgather⟩
      cases hparsed
      rw [EState.bind_ok hgather]
      rfl

theorem completes_iff :
    Completes S h argument s parsed ↔ ∃ r s', assemble S h argument s = .ok (parsed, r) s' := by
  simp only [assemble_eq_ok, exists_and_left]
  refine and_congr_right fun hparse => ?_
  have hloop : (∃ r s', gather S h parsed (prepared argument parsed.settings s) = .ok r s') ↔ _ :=
    loop_ok_iff (Nat.le_refl 0) (length_paths hparse)
  rw [hloop, cons_paths hparse]
  exact and_congr_left' ⟨.inr, fun hsome => hsome.resolve_left (Nat.lt_irrefl 0)⟩

theorem asTile_iff {v : Vectors} {r : Reply}
    (hassemble : assemble S h argument s = .ok (parsed, v, r) s') :
    AsTile S parsed.strippedArgument parsed.suffix parsed.paths ↔
      ∃ tiles invalid, r = .tiles tiles invalid := by
  obtain ⟨hparse, hgather⟩ := assemble_eq_ok.1 hassemble
  have hreply := reply_loop_iff (Nat.le_refl 0) (length_paths hparse) hgather
  rwa [cons_paths hparse] at hreply

/-- There is a tile whenever tiles are handed over. -/
theorem tiles_ne_nil {v : Vectors} {tiles : List RawTile} {invalid : List Nat}
    (hassemble : assemble S h argument s = .ok (parsed, v, .tiles tiles invalid) s') :
    tiles ≠ [] := by
  obtain ⟨hparse, hgather⟩ := assemble_eq_ok.1 hassemble
  have hold : (Vectors.start parsed.suffix).Hold [] := ⟨rfl, rfl⟩
  obtain ⟨slots, hslots, htiles, hinvalid, hne⟩ := hold.loop (length_paths hparse) hgather
  rw [List.nil_append] at htiles hinvalid
  rintro rfl
  have htotal := length_gaps 0 slots
  rw [← htiles, ← hinvalid, List.length_nil, Nat.zero_add, EState.length_of_mapM hslots,
    cons_paths hparse] at htotal
  exact hne htotal

end

/-- **When a request is sent with an encoder and a tile, and fails otherwise.**  A request whose
images cannot be gone through ends in an error.  Of the others, the tiles of a request for tiles
are sent, with an encoder exactly if the format is one of the three; and every other one is
answered by a header. -/
theorem sends_iff (S : Server) (h : Headers) (argument : Text) (s : Session) :
    (SendsComplete S h argument s ↔ ∀ parsed, Completes S h argument s parsed →
      AsTile S parsed.strippedArgument parsed.suffix parsed.paths →
        parsed.settings.outputFormat.isSome) ∧
    (OthersFail S h argument s ↔ ∀ parsed, Completes S h argument s parsed →
      AsTile S parsed.strippedArgument parsed.suffix parsed.paths) := by
  constructor
  · constructor
    · intro hsends parsed hcompletes htile
      obtain ⟨⟨v, r⟩, s', hassemble⟩ := completes_iff.1 hcompletes
      obtain ⟨tiles, invalid, rfl⟩ := (asTile_iff hassemble).1 htile
      exact (hsends parsed v tiles invalid s' hassemble).1
    · intro hformat parsed v tiles invalid s' hassemble
      refine ⟨hformat parsed (completes_iff.2 ⟨_, _, hassemble⟩) ?_, tiles_ne_nil hassemble⟩
      exact (asTile_iff hassemble).2 ⟨tiles, invalid, rfl⟩
  · constructor
    · intro hfail parsed hcompletes
      obtain ⟨⟨v, r⟩, s', hassemble⟩ := completes_iff.1 hcompletes
      cases r with
      | header text => exact absurd hassemble (hfail parsed v text s')
      | tiles tiles invalid => exact (asTile_iff hassemble).2 ⟨tiles, invalid, rfl⟩
    · intro htile parsed v text s' hassemble
      obtain ⟨tiles, invalid, heq⟩ :=
        (asTile_iff hassemble).1 (htile parsed (completes_iff.2 ⟨_, _, hassemble⟩))
      cases heq

/-- `a_files/0/0_0.gif`, read. -/
def gifRequest : Parsed :=
  ⟨⟨false, none, false⟩, str "a_files/0/0_0.gif", str "gif", [['a']]⟩

theorem parse_gifRequest : parse (str "a_files/0/0_0.gif") = .ok gifRequest := by
  have hsplit : split ',' [] ['a'] = [['a']] := split_of_none (by decide)
  unfold parse
  rw [gifRequest, ← hsplit]
  rfl

set_option maxRecDepth 20000 in
/-- **A format that there is no encoder for.**  The tile is there, and is sent without one. -/
theorem gif_without_encoder :
    ∃ v t s', assemble oneImageServer (simpleHeaders [] []) (str "a_files/0/0_0.gif")
        oneImageSession = .ok (gifRequest, v, .tiles [t] []) s' ∧
      gifRequest.settings.outputFormat = none ∧
      ¬ SendsComplete oneImageServer (simpleHeaders [] []) (str "a_files/0/0_0.gif")
        oneImageSession := by
  have hgather : ∃ v t s', gather oneImageServer (simpleHeaders [] []) gifRequest
      (prepared (str "a_files/0/0_0.gif") gifRequest.settings oneImageSession)
      = .ok (v, .tiles [t] []) s' := ⟨_, _, _, rfl⟩
  obtain ⟨v, t, s', hgather⟩ := hgather
  have hassemble := assemble_eq_ok.2 ⟨parse_gifRequest, hgather⟩
  refine ⟨v, t, s', hassemble, rfl, fun hsends => ?_⟩
  cases (hsends _ _ _ _ _ hassemble).1

end DeepZoomExt

end Iipsrv
