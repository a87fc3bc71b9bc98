/-
# The zip archive

`JTL_Ext::sendZip` (`JTLExt.cc`) writes an entry for each path, with the library's calls

    err == mz_zip_writer_entry_open(handle, &file_info);
    if (err != MZ_OK) { … }
    else { mz_zip_writer_entry_write( … ); …; err = mz_zip_writer_entry_close(handle); }

The first line compares and assigns nothing.  What is tested is the result of the close of the
entry before, or of the opening of the archive, so

* an entry whose own open has failed is written as if it were there;
* after a close that has failed `err` never changes again, and no entry is written any more.

Whatever is written has the right name: the counter of the tiles advances with each write, and
when it would fall behind there are no more writes (`sendZip_eq`).

The calls' results are a parameter, `ZipResults`.  The data of the archive as a whole is
`zipEntries` in `Assembly.lean`, where all of them succeed.
-/
import Iipsrv.Server.Assembly
import Iipsrv.Transform.Model

namespace Iipsrv

open Lib.Print (Text decimal)
open Lib.Slots

namespace JTLExt

/-! ## 1. The loop -/

/-- `MZ_OK`. -/
def mzOk : Int32 := 0

/-- What the calls return: the opening of the archive, and open, write and close of each entry. -/
structure ZipResults where
  writerOpen : Int32
  entryOpen : Nat → Int32
  entryWrite : Nat → Int32
  entryClose : Nat → Int32

/-- The calls for an entry: its name, the result of the open, and what has been written, if
anything, with the number of bytes that the library reports. -/
structure ZipEntry where
  name : Text
  opened : Int32
  written : Option (Text × Int32)
  deriving DecidableEq

/-- The loop of `sendZip`, `n` entries from `i` on.  `none`: `compressedTiles` is read out of
range.  The number of bytes is only logged. -/
def zipLoop (W : ZipResults) (ct : CompressionType) (compressedTiles : List RawTile)
    (invalidPathIndices : List Nat) :
    (n i compressedI : Nat) → (err : Int32) → Option (List ZipEntry)
  | 0, _, _, _ => some []
  | n + 1, i, compressedI, err =>
    if err ≠ mzOk then
      (zipLoop W ct compressedTiles invalidPathIndices n (i + 1) compressedI err).map
        (⟨entryName ct i, W.entryOpen i, none⟩ :: ·)
    else if i ∈ invalidPathIndices then
      (zipLoop W ct compressedTiles invalidPathIndices n (i + 1) compressedI (W.entryClose i)).map
        (⟨entryName ct i, W.entryOpen i, some ([], W.entryWrite i)⟩ :: ·)
    else
      match compressedTiles[compressedI]? with
      | none => none
      | some t =>
        (zipLoop W ct compressedTiles invalidPathIndices n (i + 1) (compressedI + 1)
          (W.entryClose i)).map
            (⟨entryName ct i, W.entryOpen i, some (t.payload, W.entryWrite i)⟩ :: ·)

/-- The entries of `sendZip`.  `tileCount` is an `int`. -/
def sendZip (W : ZipResults) (ct : CompressionType) (compressedTiles : List RawTile)
    (invalidPathIndices : List Nat) : Option (List ZipEntry) :=
  let tileCount := Int32.ofNat (compressedTiles.length + invalidPathIndices.length)
  zipLoop W ct compressedTiles invalidPathIndices tileCount.toInt.toNat 0 0 W.writerOpen

/-! ## 2. What is written -/

/-- Nothing that `err` keeps has failed in front of the entry. -/
def ZipResults.Clean (W : ZipResults) (i : Nat) : Prop :=
  W.writerOpen = mzOk ∧ ∀ j < i, W.entryClose j = mzOk

instance (W : ZipResults) (i : Nat) : Decidable (W.Clean i) :=
  inferInstanceAs (Decidable (_ ∧ _))

/-- The data of a path: of its tile, or none. -/
def slotData (slot : Option RawTile) : Text := slot.elim [] RawTile.payload

/-- The calls for the entry of a path. -/
def ZipResults.entry (W : ZipResults) (ct : CompressionType) (i : Nat) (slot : Option RawTile) :
    ZipEntry :=
  ⟨entryName ct i, W.entryOpen i, if W.Clean i then some (slotData slot, W.entryWrite i) else none⟩

section
variable (W : ZipResults) (ct : CompressionType)

theorem ZipResults.clean_succ {i : Nat} :
    W.Clean (i + 1) ↔ W.Clean i ∧ W.entryClose i = mzOk := by
  simp only [Clean, Nat.lt_succ_iff_lt_or_eq, or_imp, forall_and, forall_eq, and_assoc]

/-- The entries from `i` on. -/
theorem mapIdx_entry_cons (i : Nat) (slot : Option RawTile) (back : List (Option RawTile)) :
    ((slot :: back).mapIdx fun k s => W.entry ct (i + k) s) =
      W.entry ct i slot :: back.mapIdx fun k s => W.entry ct (i + 1 + k) s := by
  rw [List.mapIdx_cons]
  simp only [Nat.add_zero, Nat.add_assoc, Nat.add_comm 1]

/-- **The loop behind `front`.**  As long as `err` is clean the counter is at the values of `front`;
once it is not, the counter does not matter. -/
theorem zipLoop_append (front back : List (Option RawTile)) (err : Int32) (compressedI : Nat)
    (herr : err = mzOk ↔ W.Clean front.length)
    (hcounter : err = mzOk → compressedI = front.reduceOption.length) :
    zipLoop W ct (front ++ back).reduceOption (gaps 0 (front ++ back)) back.length front.length
      compressedI err = some (back.mapIdx fun k slot => W.entry ct (front.length + k) slot) := by
  induction back generalizing front err compressedI with
  | nil => rfl
  | cons slot back ih =>
    have hgap := length_mem_gaps_iff front slot back
    have hlength : (front ++ [slot]).length = front.length + 1 := by simp
    have happend : front ++ [slot] ++ back = front ++ slot :: back := by simp
    rw [List.length_cons, zipLoop, mapIdx_entry_cons, ZipResults.entry]
    by_cases hok : err = mzOk
    · have hclean := herr.mp hok
      have hnext : W.entryClose front.length = mzOk ↔ W.Clean (front ++ [slot]).length := by
        rw [hlength, W.clean_succ]
        exact (and_iff_right hclean).symm
      rw [if_neg (not_not.mpr hok), if_pos hclean]
      cases slot with
      | none =>
        rw [if_pos (hgap.mpr rfl)]
        have hrest := ih (front ++ [none]) (W.entryClose front.length) compressedI hnext fun _ => by
          rw [length_reduceOption_concat_none, hcounter hok]
        rw [happend, hlength] at hrest
        rw [hrest]
        rfl
      | some t =>
        have hmem : front.length ∉ gaps 0 (front ++ some t :: back) := by simp [hgap]
        rw [if_neg hmem, hcounter hok, getElem?_reduceOption_append]
        have hrest := ih (front ++ [some t]) (W.entryClose front.length)
          (front.reduceOption.length + 1) hnext
          fun _ => (length_reduceOption_concat_some front t).symm
        rw [happend, hlength] at hrest
        dsimp only
        rw [hrest]
        rfl
    · have hclean : ¬ W.Clean front.length := fun h => hok (herr.mpr h)
      have hnext : err = mzOk ↔ W.Clean (front ++ [slot]).length := by
        rw [hlength, W.clean_succ]
        exact iff_of_false hok fun h => hclean h.1
      have hrest := ih (front ++ [slot]) err compressedI hnext fun h => absurd h hok
      rw [happend, hlength] at hrest
      rw [if_pos hok, hrest, if_neg hclean]
      rfl

/-- **Every entry has its own name and data**, whatever fails.  Which of them are written is up to
`Clean`. -/
theorem sendZip_eq {slots : List (Option RawTile)} (h : slots.length < 2 ^ 31) :
    sendZip W ct slots.reduceOption (gaps 0 slots) = some (slots.mapIdx (W.entry ct)) := by
  have hcount : (Int32.ofNat slots.length).toInt.toNat = slots.length := by
    rw [Int32.toInt_ofNat_of_lt h, Int.toNat_natCast]
  have hloop := zipLoop_append W ct [] slots W.writerOpen 0 (by simp [ZipResults.Clean])
    fun _ => rfl
  rw [sendZip, length_gaps, hcount]
  simpa using hloop

/-- The loop does not run past `tileCount`. -/
theorem length_of_zipLoop {tiles : List RawTile} {invalid : List Nat} {n i compressedI : Nat}
    {err : Int32} {entries : List ZipEntry}
    (h : zipLoop W ct tiles invalid n i compressedI err = some entries) : entries.length = n := by
  induction n generalizing i compressedI err entries with
  | zero => cases h; rfl
  | succ n ih =>
    rw [zipLoop] at h
    split at h
    · obtain ⟨rest, hrest, rfl⟩ := Option.map_eq_some_iff.mp h
      rw [List.length_cons, ih hrest]
    · split at h
      · obtain ⟨rest, hrest, rfl⟩ := Option.map_eq_some_iff.mp h
        rw [List.length_cons, ih hrest]
      · split at h
        · cases h
        · obtain ⟨rest, hrest, rfl⟩ := Option.map_eq_some_iff.mp h
          rw [List.length_cons, ih hrest]

end

/-! ## 3. Where a failure stays where it is -/

/-- The entry of a path has its own name, and the data of the path are written to it exactly if it
could be opened. -/
structure EntryRight (W : ZipResults) (ct : CompressionType) (i : Nat) (slot : Option RawTile)
    (entry : ZipEntry) : Prop where
  name : entry.name = 't' :: decimal i ++ entrySuffix ct
  opened : entry.opened = W.entryOpen i
  written : entry.written.map Prod.fst =
    if entry.opened = mzOk then some (slotData slot) else none

/-- There is a right entry for each path. -/
def ZipRight (W : ZipResults) (ct : CompressionType) (slots : List (Option RawTile)) : Prop :=
  ∃ entries, sendZip W ct slots.reduceOption (gaps 0 slots) = some entries ∧
    entries.length = slots.length ∧
    ∀ (i : Nat) (slot : Option RawTile) (entry : ZipEntry), slots[i]? = some slot →
      entries[i]? = some entry → EntryRight W ct i slot entry

section
variable {W : ZipResults} {ct : CompressionType} {i : Nat}

/-- An entry is right if the `err` that is tested agrees with the result of its own open. -/
theorem entryRight_iff (hi : i < 2 ^ 31) (slot : Option RawTile) :
    EntryRight W ct i slot (W.entry ct i slot) ↔ (W.entryOpen i = mzOk ↔ W.Clean i) := by
  have hwritten : (W.entry ct i slot).written.map Prod.fst =
      if W.Clean i then some (slotData slot) else none := by
    unfold ZipResults.entry
    dsimp only
    split <;> rfl
  constructor
  · rintro ⟨-, hopened, h⟩
    rw [hwritten, hopened] at h
    constructor
    · intro hopen
      by_contra hclean
      rw [if_neg hclean, if_pos hopen] at h
      cases h
    · intro hclean
      by_contra hopen
      rw [if_pos hclean, if_neg hopen] at h
      cases h
  · intro h
    refine ⟨DeepZoomExt.entryName_eq ct hi, rfl, ?_⟩
    change _ = if W.entryOpen i = mzOk then _ else _
    rw [hwritten]
    simp only [h]

end

/-- **When the archive is right.**  The paths can be counted in an `int`, and an entry can be opened
exactly if the archive could and no close before it has failed: any other open that fails is not
noticed, and any other one that succeeds is not used. -/
theorem zipRight_iff (W : ZipResults) (ct : CompressionType) (slots : List (Option RawTile)) :
    ZipRight W ct slots ↔
      slots.length < 2 ^ 31 ∧ ∀ i < slots.length, (W.entryOpen i = mzOk ↔
        W.writerOpen = mzOk ∧ ∀ j < i, W.entryClose j = mzOk) := by
  constructor
  · rintro ⟨entries, hentries, hlength, hright⟩
    have hshort : slots.length < 2 ^ 31 := by
      have hcount := length_of_zipLoop W ct hentries
      have hlt := Int32.toInt_lt (Int32.ofNat
        (slots.reduceOption.length + (gaps 0 slots).length))
      omega
    refine ⟨hshort, fun i hi => ?_⟩
    obtain rfl := Option.some.inj ((sendZip_eq W ct hshort).symm.trans hentries)
    have hentry := hright i slots[i] (W.entry ct i slots[i]) (List.getElem?_eq_getElem hi)
      (by simp [hi])
    exact (entryRight_iff (hi.trans hshort) slots[i]).mp hentry
  · rintro ⟨hshort, hiff⟩
    refine ⟨_, sendZip_eq W ct hshort, List.length_mapIdx, fun i slot entry hslot hentry => ?_⟩
    obtain ⟨hi, -⟩ := List.getElem?_eq_some_iff.mp hslot
    rw [List.getElem?_mapIdx, hslot, Option.map_some] at hentry
    obtain rfl := Option.some.inj hentry
    exact (entryRight_iff (hi.trans hshort) slot).mpr (hiff i hi)

/-- The open of the first entry fails, and its tile is written.  Then its close fails, and the tile
of the second one is not written, though it has been opened. -/
theorem open_failure_ignored :
    sendZip ⟨0, fun i => if i = 0 then -1 else 0, fun _ => 1, fun i => if i = 0 then -1 else 0⟩
        .jpeg [Transform.onePixel 1 8, Transform.onePixel 1 8] [] =
      some [⟨str "t0.jpg", -1, some ((Transform.onePixel 1 8).payload, 1)⟩,
        ⟨str "t1.jpg", 0, none⟩] := by
  decide

end JTLExt

end Iipsrv
