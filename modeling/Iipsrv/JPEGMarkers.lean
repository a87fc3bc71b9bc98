/-
# Metadata in the markers of a JPEG stream

`JPEGCompressor.cc` embeds two texts of any length in a format whose markers hold 65533 bytes.

* `writeICCProfile` splits a colour profile over as many markers as it needs and numbers them.  The
  loop keeps three running values, the bytes that are left, the place in the profile and the number
  of the marker, and after `k` turns they are all functions of `k` (`writeMarkers_eq`).
* `writeXMPMetadata` writes one marker, and FOUR bounds meet in it: what it accepts, the buffer it
  prints into, what `snprintf` leaves of a text, and what a marker holds.  `%s` stops at a zero
  byte, so what stands behind one is not printed at all, and the cells are sent as they are.

The JPEG library is its calls: a header with a length, and then bytes.  `read` takes them apart
again.
-/
import Mathlib.Algebra.Order.Floor.Div
import Mathlib.Data.List.TakeWhile
import Mathlib.GroupTheory.GroupAction.Ring
import Iipsrv.Lib.Buffer
import Iipsrv.Lib.Word

namespace Iipsrv.JPEGCompressor

open Lib.Buffer Lib.Word

/-! ## 1. Calls and markers -/

/-- A call of the JPEG library: `jpeg_write_m_header`, `jpeg_write_m_byte`. -/
inductive Call
  | header (marker datalen : Nat)
  | byte (val : UInt8)
  deriving DecidableEq

/-- A marker: its code, the length that its header announces, and what follows the header. -/
structure Marker (α : Type) where
  code : Nat
  announced : Nat
  data : List α
  deriving DecidableEq

/-- What a decoder reads: the bytes in front of the first header, and the markers. -/
def read : List Call → List UInt8 × List (Marker UInt8)
  | [] => ([], [])
  | .byte val :: calls => (val :: (read calls).1, (read calls).2)
  | .header marker datalen :: calls => ([], ⟨marker, datalen, (read calls).1⟩ :: (read calls).2)

/-- The calls that write a marker. -/
def Marker.calls (m : Marker UInt8) : List Call := .header m.code m.announced :: m.data.map .byte

theorem read_bytes (data : List UInt8) (calls : List Call) :
    read (data.map .byte ++ calls) = (data ++ (read calls).1, (read calls).2) := by
  induction data with
  | nil => rfl
  | cons b data ih => rw [List.map_cons, List.cons_append, read, ih, List.cons_append]

/-- **Markers are read back as they have been written.** -/
theorem read_calls (ms : List (Marker UInt8)) : read (ms.flatMap Marker.calls) = ([], ms) := by
  induction ms with
  | nil => rfl
  | cons m ms ih =>
    rw [List.flatMap_cons, Marker.calls, List.cons_append, read, read_bytes, ih, List.append_nil]

/-! ## 2. Colour profiles -/

/-- `JPEG_APP0`. -/
def jpegApp0 : Nat := 0xE0

/-- `ICC_MARKER`. -/
def iccMarker : Nat := jpegApp0 + 2

/-- `ICC_OVERHEAD_LEN`. -/
def iccOverheadLen : Nat := 14

/-- `MAX_BYTES_IN_MARKER`. -/
def maxBytesInMarker : Nat := 65533

/-- `MAX_DATA_BYTES_IN_MARKER`. -/
def maxDataBytesInMarker : Nat := maxBytesInMarker - iccOverheadLen

/-- `ICC_PROFILE` with its terminating zero. -/
def iccIdentifier : List UInt8 :=
  [0x49, 0x43, 0x43, 0x5F, 0x50, 0x52, 0x4F, 0x46, 0x49, 0x4C, 0x45, 0x0]

/-- The innermost loop: the profile data byte by byte, from a place on. -/
def profileBytes (icc : List UInt8) : Nat → Nat → Option (List UInt8)
  | _, 0 => some []
  | ptr, length + 1 => do
    let b ← icc[ptr]?
    let rest ← profileBytes icc (ptr + 1) length
    return b :: rest

/-- The calls for one marker. -/
def iccCalls (length curMarker numMarkers : Nat) (profile : List UInt8) : List Call :=
  .header iccMarker (length + iccOverheadLen) ::
    (iccIdentifier ++ [UInt8.ofNat curMarker, UInt8.ofNat numMarkers] ++ profile).map .byte

/-- The outer loop: one marker after the other. -/
def writeMarkers (icc : List UInt8) (numMarkers iccDataLen ptr curMarker : Nat) :
    Option (List Call) :=
  if iccDataLen = 0 then some []
  else do
    let length := if maxDataBytesInMarker < iccDataLen then maxDataBytesInMarker else iccDataLen
    let profile ← profileBytes icc ptr length
    let rest ← writeMarkers icc numMarkers (iccDataLen - length) (ptr + length) (curMarker + 1)
    return iccCalls length curMarker numMarkers profile ++ rest
termination_by iccDataLen
decreasing_by
  unfold maxDataBytesInMarker maxBytesInMarker iccOverheadLen
  split <;> omega

/-- The number of markers, rounding up of course. -/
def numMarkers (iccDataLen : Nat) : Nat :=
  let n := iccDataLen / maxDataBytesInMarker
  if n * maxDataBytesInMarker ≠ iccDataLen then n + 1 else n

/-- `JPEGCompressor::writeICCProfile`. -/
def writeICCProfile (icc : List UInt8) : Option (List Call) :=
  if icc.length = 0 then some []
  else writeMarkers icc (numMarkers (u32 icc.length)) (u32 icc.length) 0 1

theorem profileBytes_eq {icc : List UInt8} {ptr length : Nat} (h : ptr + length ≤ icc.length) :
    profileBytes icc ptr length = some ((icc.drop ptr).take length) := by
  induction length generalizing ptr with
  | zero => rfl
  | succ length ih =>
    have hptr : ptr < icc.length := by omega
    rw [profileBytes, ih (by omega), List.getElem?_eq_getElem hptr, List.drop_eq_getElem_cons hptr,
      List.take_succ_cons]
    rfl

theorem numMarkers_eq (len : Nat) : numMarkers len = len ⌈/⌉ maxDataBytesInMarker := by
  rw [Nat.ceilDiv_eq_add_pred_div]
  unfold numMarkers maxDataBytesInMarker maxBytesInMarker iccOverheadLen
  dsimp only
  split <;> omega

/-- As many markers are enough, and each of them has something to hold. -/
theorem numMarkers_spec (len : Nat) :
    len ≤ numMarkers len * maxDataBytesInMarker ∧
      ∀ k < numMarkers len, k * maxDataBytesInMarker < len := by
  unfold numMarkers maxDataBytesInMarker maxBytesInMarker iccOverheadLen
  dsimp only
  constructor
  · split <;> omega
  · intro k hk
    split at hk <;> omega

/-- Marker `k` of a profile, counted from 0. -/
def marker (icc : List UInt8) (num k : Nat) : Marker UInt8 :=
  let profile := (icc.drop (k * maxDataBytesInMarker)).take maxDataBytesInMarker
  ⟨iccMarker, profile.length + iccOverheadLen,
    iccIdentifier ++ [UInt8.ofNat (k + 1), UInt8.ofNat num] ++ profile⟩

/-- The place in the profile after `k` turns. -/
def reached (icc : List UInt8) (k : Nat) : Nat := min (k * maxDataBytesInMarker) icc.length

/-- **One turn** writes the marker of its number, and moves on by what it holds. -/
theorem writeMarkers_turn {icc : List UInt8} {k : Nat} (num : Nat)
    (hk : k * maxDataBytesInMarker < icc.length) :
    writeMarkers icc num (icc.length - reached icc k) (reached icc k) (k + 1)
      = (writeMarkers icc num (icc.length - reached icc (k + 1)) (reached icc (k + 1)) (k + 2)).map
        ((marker icc num k).calls ++ ·) := by
  have hplace : reached icc k = k * maxDataBytesInMarker := min_eq_left hk.le
  have hnext : reached icc (k + 1)
      = min (k * maxDataBytesInMarker + maxDataBytesInMarker) icc.length := by
    rw [reached, Nat.succ_mul]
  -- what goes into this marker
  set length := if maxDataBytesInMarker < icc.length - reached icc k then maxDataBytesInMarker
    else icc.length - reached icc k with hlength
  have hmin : length = min maxDataBytesInMarker (icc.length - reached icc k) := by
    rw [hlength]
    split <;> omega
  have hprofile : profileBytes icc (reached icc k) length
      = some ((icc.drop (k * maxDataBytesInMarker)).take maxDataBytesInMarker) := by
    rw [profileBytes_eq (by omega), hmin, hplace, ← List.length_drop, ← List.take_take,
      List.take_length]
  have hcalls : iccCalls length (k + 1) num
      ((icc.drop (k * maxDataBytesInMarker)).take maxDataBytesInMarker)
        = (marker icc num k).calls := by
    rw [iccCalls, marker, Marker.calls, List.length_take, List.length_drop, hmin, hplace]
  have hleft : icc.length - reached icc k - length = icc.length - reached icc (k + 1) := by omega
  have hmove : reached icc k + length = reached icc (k + 1) := by omega
  rw [writeMarkers, if_neg (by omega), ← hlength]
  dsimp only
  rw [hprofile, hleft, hmove]
  cases writeMarkers icc num (icc.length - reached icc (k + 1)) (reached icc (k + 1)) (k + 2) with
  | none => rfl
  | some rest => exact congrArg (fun c => some (c ++ rest)) hcalls

/-- **The loop** writes the markers that are left. -/
theorem writeMarkers_eq (icc : List UInt8) {left k : Nat}
    (hk : k + left = numMarkers icc.length) :
    writeMarkers icc (numMarkers icc.length) (icc.length - reached icc k) (reached icc k) (k + 1)
      = some (((List.range' k left).map (marker icc (numMarkers icc.length))).flatMap
          Marker.calls) := by
  have hspec := numMarkers_spec icc.length
  induction left generalizing k with
  | zero =>
    have hend : reached icc k = icc.length := by
      rw [reached, show k = numMarkers icc.length from hk]
      exact min_eq_right hspec.1
    rw [hend, Nat.sub_self, writeMarkers, if_pos rfl]
    rfl
  | succ left ih =>
    rw [writeMarkers_turn _ (hspec.2 k (by omega)), ih (by omega)]
    rfl

/-- **`writeICCProfile` writes its markers**, as many as there are. -/
theorem writeICCProfile_eq {icc : List UInt8} (hsize : icc.length < 2 ^ 32) :
    writeICCProfile icc = some
      (((List.range (numMarkers icc.length)).map (marker icc (numMarkers icc.length))).flatMap
        Marker.calls) := by
  unfold writeICCProfile
  split
  case isTrue hempty =>
    rw [hempty]
    rfl
  case isFalse =>
    have hstart : reached icc 0 = 0 := by
      rw [reached, Nat.zero_mul, Nat.zero_min]
    have hrun := @writeMarkers_eq icc (numMarkers icc.length) 0 (Nat.zero_add _)
    rw [hstart, Nat.sub_zero] at hrun
    rw [u32_of_lt hsize, hrun, List.range_eq_range']

/-- A marker is found complete by a decoder that reads its length. -/
theorem announced_marker (icc : List UInt8) (num k : Nat) :
    (marker icc num k).announced = (marker icc num k).data.length := by
  unfold marker
  simp only [List.length_append, List.length_cons, List.length_nil, iccIdentifier, iccOverheadLen]
  omega

theorem length_marker_le (icc : List UInt8) (num k : Nat) :
    (marker icc num k).data.length ≤ maxBytesInMarker := by
  have hle : ((icc.drop (k * maxDataBytesInMarker)).take maxDataBytesInMarker).length
      ≤ maxDataBytesInMarker := List.length_take_le _ _
  rw [← announced_marker]
  change _ + iccOverheadLen ≤ maxBytesInMarker
  unfold maxDataBytesInMarker maxBytesInMarker iccOverheadLen at *
  omega

/-- The number of a marker, and how many there are, where a decoder looks for them. -/
theorem getElem?_marker (icc : List UInt8) (num k : Nat) :
    (marker icc num k).data.take 12 = iccIdentifier ∧
      (marker icc num k).data[12]? = some (UInt8.ofNat (k + 1)) ∧
      (marker icc num k).data[13]? = some (UInt8.ofNat num) := by
  unfold marker
  generalize (icc.drop (k * maxDataBytesInMarker)).take maxDataBytesInMarker = profile
  exact ⟨rfl, rfl, rfl⟩

theorem drop_marker (icc : List UInt8) (num k : Nat) :
    (marker icc num k).data.drop iccOverheadLen
      = (icc.drop (k * maxDataBytesInMarker)).take maxDataBytesInMarker := by
  have hlength : (iccIdentifier ++ [UInt8.ofNat (k + 1), UInt8.ofNat num]).length
      = iccOverheadLen := rfl
  unfold marker
  dsimp only
  rw [List.drop_left' hlength]

/-- **A profile can be put together again.**  For every profile of up to 255 full markers there
are as many markers as it needs, each of them complete and not too long, with its own number and the
count, and the profile is what they hold, one after the other. -/
theorem profile_reassembled (icc : List UInt8) (hle : icc.length ≤ 255 * 65519) :
    ∃ calls markers, writeICCProfile icc = some calls ∧ read calls = ([], markers) ∧
      markers.length = icc.length ⌈/⌉ 65519 ∧
      (∀ k m, markers[k]? = some m →
        m.code = iccMarker ∧ m.announced = m.data.length ∧ m.data.length ≤ 65533 ∧
        m.data.take 12 = iccIdentifier ∧ (m.data[12]?).map UInt8.toNat = some (k + 1) ∧
        (m.data[13]?).map UInt8.toNat = some markers.length) ∧
      markers.flatMap (fun m => m.data.drop 14) = icc := by
  set num := numMarkers icc.length with hnum
  have hceil : num = icc.length ⌈/⌉ 65519 := numMarkers_eq icc.length
  have hspec := numMarkers_spec icc.length
  rw [← hnum] at hspec
  have hnum_le : num ≤ 255 := by
    have hlast := hspec.2 255
    unfold maxDataBytesInMarker maxBytesInMarker iccOverheadLen at hlast
    omega
  refine ⟨_, (List.range num).map (marker icc num), writeICCProfile_eq (by omega), read_calls _,
    ?_, ?_, ?_⟩
  · rw [List.length_map, List.length_range, hceil]
  · intro k m hm
    rw [List.getElem?_map, Option.map_eq_some_iff] at hm
    obtain ⟨j, hj, rfl⟩ := hm
    have hk : k < num := by
      have hlt := (List.getElem?_eq_some_iff.mp hj).1
      rwa [List.length_range] at hlt
    obtain rfl : k = j := Option.some.inj ((List.getElem?_range hk).symm.trans hj)
    obtain ⟨hid, hnumber, hcount⟩ := getElem?_marker icc num k
    refine ⟨rfl, announced_marker icc num k, length_marker_le icc num k, hid, ?_, ?_⟩
    · rw [hnumber, Option.map_some, UInt8.toNat_ofNat', Nat.mod_eq_of_lt (by omega)]
    · rw [hcount, Option.map_some, UInt8.toNat_ofNat', Nat.mod_eq_of_lt (by omega), List.length_map,
        List.length_range]
  · have hdrop : ∀ k, (marker icc num k).data.drop 14
        = (icc.drop (k * maxDataBytesInMarker)).take maxDataBytesInMarker := drop_marker icc num
    rw [List.flatMap_map]
    simp only [hdrop]
    exact flatMap_pieces hspec.1

/-- A profile of 70000 bytes takes two markers. -/
theorem profile_reassembled_two :
    ∃ calls markers, writeICCProfile (List.replicate 70000 7) = some calls ∧
      read calls = ([], markers) ∧ markers.length = 2 ∧
      markers.flatMap (fun m => m.data.drop 14) = List.replicate 70000 7 := by
  have hlength : (List.replicate 70000 (7 : UInt8)).length = 70000 := List.length_replicate
  obtain ⟨calls, markers, hcalls, hread, hcount, -, hall⟩ :=
    profile_reassembled (List.replicate 70000 7) (by rw [hlength]; decide)
  rw [hlength] at hcount
  exact ⟨calls, markers, hcalls, hread, hcount.trans (by decide), hall⟩

/-! ## 3. XMP -/

/-- `XMP_PREFIX_SIZE`. -/
def xmpPrefixSize : Nat := 29

/-- The namespace that `XMP_PREFIX` begins with. -/
def xmpNamespace : List UInt8 :=
  "http://ns.adobe.com/xap/1.0/".toList.map fun c => UInt8.ofNat c.toNat

/-- The prefix of the marker: the namespace and its terminating zero. -/
def xmpIdentifier : List UInt8 := xmpNamespace ++ [0]

/-- `snprintf` into a buffer of `n` cells: the text, cut to leave room for a zero, and the zero. -/
def printInto (n : Nat) (text : List UInt8) : List (Option UInt8) :=
  (text.take (n - 1) ++ [0]).map some ++ fresh (n - 1 - text.length)

/-- What `%s` prints of `c_str()`. -/
def cBytes (s : List UInt8) : List UInt8 := s.takeWhile fun b => b ≠ 0

/-- `JPEGCompressor::writeXMPMetadata`: the marker, if one is written. -/
def writeXMPMetadata (xmp : List UInt8) : Option (Marker (Option UInt8)) :=
  if xmp.length = 0 ∨ 65536 - xmpPrefixSize < xmp.length then none
  else
    let xmpstr := printInto 65536 (xmpNamespace ++ [0] ++ cBytes xmp)
    some ⟨jpegApp0 + 1, xmpPrefixSize + xmp.length, xmpstr.take (xmpPrefixSize + xmp.length)⟩

theorem length_xmpIdentifier : xmpIdentifier.length = 29 := by decide

/-- **What is printed up to a zero byte** is the whole text exactly if there is no zero byte in
front of its last one. -/
theorem take_cBytes_iff (xmp : List UInt8) (n : Nat) :
    ((cBytes xmp ++ [0]).map some ++ fresh n).take xmp.length = xmp.map some ↔
      ∀ i, i + 1 < xmp.length → xmp[i]? ≠ some 0 := by
  induction xmp with
  | nil => exact iff_of_true rfl fun i hi => absurd hi (Nat.not_lt_zero _)
  | cons b xmp ih =>
    by_cases hb : b = 0
    · -- the zero that ends the text stands in its place, and behind it are cells that hold nothing
      have hprinted : cBytes (b :: xmp) = [] := by
        rw [cBytes, List.takeWhile_cons_of_neg (by simpa using hb)]
      rw [hprinted, List.nil_append, List.map_singleton, List.length_cons, List.singleton_append,
        List.take_succ_cons, List.map_cons, hb]
      cases xmp with
      | nil => exact iff_of_true rfl fun i hi => absurd hi (by simp)
      | cons b' xmp =>
        refine iff_of_false ?_ fun h => h 0 (by simp) rfl
        cases n with
        | zero => simp [fresh]
        | succ n => simp [fresh, List.replicate_succ]
    · have hprinted : cBytes (b :: xmp) = b :: cBytes xmp := by
        rw [cBytes, List.takeWhile_cons_of_pos (by simpa using hb)]
        rfl
      rw [hprinted, List.cons_append, List.map_cons, List.length_cons, List.cons_append,
        List.take_succ_cons, List.map_cons, List.cons_inj_right, ih]
      constructor
      · intro h i hi
        cases i with
        | zero => simpa using hb
        | succ i => exact h i (by omega)
      · intro h i hi
        exact h (i + 1) (by omega)

/-- What is written, if the text is not skipped. -/
theorem writeXMPMetadata_eq_some {xmp : List UInt8} {m : Marker (Option UInt8)}
    (h : writeXMPMetadata xmp = some m) :
    xmp.length ≤ 65507 ∧ m.announced = 29 + xmp.length ∧
      m.data = (printInto 65536 (xmpIdentifier ++ cBytes xmp)).take (29 + xmp.length) := by
  unfold writeXMPMetadata at h
  split at h
  case isTrue => cases h
  case isFalse hsize =>
    unfold xmpPrefixSize at hsize
    cases h
    exact ⟨by omega, rfl, rfl⟩

/-- The cells of the marker, where the buffer has room for the text and its zero. -/
theorem data_of_room {xmp : List UInt8} {m : Marker (Option UInt8)}
    (h : writeXMPMetadata xmp = some m) (hroom : xmp.length < 65507) :
    m.data = xmpIdentifier.map some ++
      ((cBytes xmp ++ [0]).map some ++ fresh (65506 - (cBytes xmp).length)).take xmp.length := by
  obtain ⟨-, -, hdata⟩ := writeXMPMetadata_eq_some h
  have hprinted : (cBytes xmp).length ≤ xmp.length := (List.takeWhile_sublist _).length_le
  have hlength : (xmpIdentifier ++ cBytes xmp).length = 29 + (cBytes xmp).length := by
    rw [List.length_append, length_xmpIdentifier]
  have hfit : (xmpIdentifier ++ cBytes xmp).take (65536 - 1) = xmpIdentifier ++ cBytes xmp :=
    List.take_of_length_le (by omega)
  have hrest : 65536 - 1 - (29 + (cBytes xmp).length) = 65506 - (cBytes xmp).length := by omega
  have hfront : 29 = (xmpIdentifier.map some).length := by
    rw [List.length_map, length_xmpIdentifier]
  rw [hdata, printInto, hfit, hlength, hrest, List.append_assoc, List.map_append,
    List.append_assoc, hfront, List.take_length_add_append]

/-- **The marker is complete and fits** exactly if the text has at most 65504 bytes and none of them
is zero, except perhaps the last. -/
theorem xmp_complete_iff (xmp : List UInt8) (m : Marker (Option UInt8))
    (h : writeXMPMetadata xmp = some m) :
    (m.data = (xmpIdentifier ++ xmp).map some ∧ m.announced = m.data.length ∧
        m.announced ≤ 65533) ↔
      xmp.length ≤ 65504 ∧ ∀ i, i + 1 < xmp.length → xmp[i]? ≠ some 0 := by
  obtain ⟨-, hannounced, -⟩ := writeXMPMetadata_eq_some h
  have hshort : m.announced ≤ 65533 ↔ xmp.length ≤ 65504 := by omega
  by_cases hlong : xmp.length ≤ 65504
  · have hwhole : m.data = (xmpIdentifier ++ xmp).map some ↔
        ∀ i, i + 1 < xmp.length → xmp[i]? ≠ some 0 := by
      have hsplit : (xmpIdentifier ++ xmp).map some = xmpIdentifier.map some ++ xmp.map some :=
        List.map_append
      rw [data_of_room h (by omega), hsplit, List.append_cancel_left_eq, take_cBytes_iff]
    rw [hwhole]
    constructor
    · rintro ⟨hzero, -, -⟩
      exact ⟨hlong, hzero⟩
    · rintro ⟨-, hzero⟩
      refine ⟨hzero, ?_, hshort.mpr hlong⟩
      rw [hwhole.mpr hzero, hannounced, List.length_map, List.length_append, length_xmpIdentifier]
  · refine iff_of_false ?_ fun h => hlong h.1
    rintro ⟨-, -, hle⟩
    exact hlong (hshort.mp hle)

/-- A text that is neither empty nor too long is written. -/
theorem exists_writeXMPMetadata {xmp : List UInt8} (h0 : xmp.length ≠ 0)
    (hle : xmp.length ≤ 65507) : ∃ m, writeXMPMetadata xmp = some m :=
  ⟨_, if_neg (by unfold xmpPrefixSize; omega)⟩

/-- A text without a zero byte. -/
theorem xmp_complete_iff_three :
    ∃ m, writeXMPMetadata [60, 120, 62] = some m ∧
      m.data = (xmpIdentifier ++ [60, 120, 62]).map some := by
  obtain ⟨m, hm⟩ := @exists_writeXMPMetadata [60, 120, 62] (by decide) (by decide)
  refine ⟨m, hm, ((xmp_complete_iff [60, 120, 62] m hm).mpr ⟨by decide, ?_⟩).1⟩
  intro i hi
  rcases i with _ | _ | i
  · decide
  · decide
  · exact absurd hi (by simp)

/-- **What stands behind a zero byte is not printed**: of the three bytes of this text the last is
sent as it was found in the buffer. -/
theorem zero_byte_cuts_xmp :
    ∃ m, writeXMPMetadata [60, 0, 62] = some m ∧ m.data[31]? = some none ∧
      ¬ (m.data = (xmpIdentifier ++ [60, 0, 62]).map some ∧ m.announced = m.data.length ∧
        m.announced ≤ 65533) := by
  obtain ⟨m, hm⟩ := @exists_writeXMPMetadata [60, 0, 62] (by decide) (by decide)
  have hnone : m.data[31]? = some none := by
    rw [data_of_room hm (by decide)]
    rfl
  refine ⟨m, hm, hnone, ?_⟩
  rintro ⟨hdata, -, -⟩
  rw [hdata] at hnone
  exact absurd hnone (by decide)

end Iipsrv.JPEGCompressor
