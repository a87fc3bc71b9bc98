/-
# The JPEG compressor's destination manager

`JPEGCompressor.cc` hands the JPEG library a destination manager: a buffer, the place of the
next byte and the count of free bytes.  The library stores its output there byte by byte and
calls `iip_empty_output_buffer` each time the free count reaches zero, which doubles the
buffer.  What the compressor then sends is the first `written` bytes of that buffer.

This file follows the three callbacks through a whole encoding.  The FIRST refill is right.
The second one sets `next_output_byte` to the end of the OLD buffer and counts `written` by
whole buffers instead of by bytes, although only the part that was free has been filled
since, and no later step makes up for it.  `reproduces_iff` says exactly when the stream
comes out, for every size of the first buffer and every stream.
-/
import Mathlib.Algebra.Group.Nat.Defs
import Iipsrv.Lib.Buffer

namespace Iipsrv

open Lib.Buffer

/-! ## 1. The callbacks -/

/-- `iip_destination_mgr` with the two public fields the library uses.  A cell of `source`
that no byte has been stored to is `none`; the pointer `next_output_byte` is its offset in
`source`. -/
structure DestinationMgr where
  source : List (Option UInt8)
  sourceSize : Nat
  written : Nat
  nextOutputByte : Nat
  freeInBuffer : Nat
  deriving DecidableEq

/-- Subtraction of two `size_t`, wrapping below zero. -/
def subSize (a b : Nat) : Nat := if b ≤ a then a - b else 2 ^ 64 - (b - a)

/-- `iip_init_destination`, on the buffer of `source_size` bytes that `InitCompression` or
`Compress` has just allocated. -/
def initDestination (sourceSize : Nat) : DestinationMgr where
  source := fresh sourceSize
  sourceSize := sourceSize
  written := 0
  nextOutputByte := 0
  freeInBuffer := sourceSize

/-- `iip_empty_output_buffer`.  `new_size` is an `unsigned int`, the other sizes are
`size_t`; the `memcpy` of the old buffer faults (`none`) when the new one is smaller. -/
def emptyOutputBuffer (d : DestinationMgr) : Option DestinationMgr := do
  let newSize := d.sourceSize * 2 % 2 ^ 32
  let source ← copy (fresh newSize) 0 d.source 0 d.sourceSize
  let written := (d.written + d.sourceSize) % 2 ^ 64
  some
    { source := source
      sourceSize := newSize
      written := written
      nextOutputByte := d.sourceSize
      freeInBuffer := subSize newSize written }

/-- `iip_term_destination`. -/
def termDestination (d : DestinationMgr) : DestinationMgr :=
  { d with written := subSize d.sourceSize d.freeInBuffer }

/-- The library's side: store one byte, count it, and ask for room when none is left. -/
def emitByte (d : DestinationMgr) (b : UInt8) : Option DestinationMgr := do
  let source ← store d.source d.nextOutputByte (some b)
  let d := { d with
    source := source
    nextOutputByte := d.nextOutputByte + 1
    freeInBuffer := d.freeInBuffer - 1 }
  if d.freeInBuffer = 0 then emptyOutputBuffer d else some d

/-- The bytes of a stream, one after the other. -/
def emitBytes (d : DestinationMgr) (stream : List UInt8) : Option DestinationMgr :=
  stream.foldlM emitByte d

/-- One encoding: `init_destination`, every byte of the stream, `term_destination`. -/
def encode (sourceSize : Nat) (stream : List UInt8) : Option DestinationMgr :=
  (emitBytes (initDestination sourceSize) stream).map termDestination

/-- The stream has come out: the encoding ended, `written` is the stream's length and the
first `written` bytes of the buffer are the stream. -/
def Reproduces (sourceSize : Nat) (stream : List UInt8) : Prop :=
  ∃ d, encode sourceSize stream = some d ∧ d.written = stream.length ∧
    d.source.take d.written = stream.map some

/-! ## 2. Refills -/

/-- Without a borrow, subtraction of `size_t` is subtraction. -/
theorem subSize_of_le {a b : Nat} (h : b ≤ a) : subSize a b = a - b := if_pos h

/-- **A refill copies the old buffer only while the doubled size fits an `unsigned int`.**
From 2 GiB on the new buffer is smaller than the old one. -/
theorem emptyOutputBuffer_isSome {d : DestinationMgr} (hlen : d.source.length = d.sourceSize)
    (hpos : 0 < d.sourceSize) :
    (emptyOutputBuffer d).isSome ↔ d.sourceSize < 2 ^ 31 := by
  have hcopy : (emptyOutputBuffer d).isSome
      = (copy (fresh (d.sourceSize * 2 % 2 ^ 32)) 0 d.source 0 d.sourceSize).isSome := by
    unfold emptyOutputBuffer
    dsimp only
    generalize copy _ 0 d.source 0 d.sourceSize = c
    cases c <;> rfl
  rw [hcopy, copy_isSome, length_fresh]
  omega

/-- What a refill leaves, when it goes through: the old bytes stay in front, the size has
doubled, and the next byte goes behind the OLD BUFFER. -/
theorem emptyOutputBuffer_spec {d e : DestinationMgr} (hlen : d.source.length = d.sourceSize)
    (hpos : 0 < d.sourceSize) (hw : d.written ≤ d.sourceSize)
    (h : emptyOutputBuffer d = some e) :
    d.sourceSize < 2 ^ 31 ∧ e.source.length = e.sourceSize ∧
      e.sourceSize = 2 * d.sourceSize ∧ e.written = d.written + d.sourceSize ∧
      e.nextOutputByte = d.sourceSize ∧ e.freeInBuffer = d.sourceSize - d.written ∧
      e.source.take d.sourceSize = d.source := by
  have hsmall : d.sourceSize < 2 ^ 31 :=
    (emptyOutputBuffer_isSome hlen hpos).mp (Option.isSome_iff_exists.mpr ⟨e, h⟩)
  have hnew : d.sourceSize * 2 % 2 ^ 32 = 2 * d.sourceSize := by omega
  have hwritten : (d.written + d.sourceSize) % 2 ^ 64 = d.written + d.sourceSize := by omega
  unfold emptyOutputBuffer at h
  simp only [hnew, hwritten] at h
  obtain ⟨source, hcopy, he⟩ := Option.bind_eq_some_iff.mp h
  obtain rfl := Option.some.inj he
  have hsrc := (copy_eq_some hcopy).2
  refine ⟨hsmall, by rw [length_copy hcopy, length_fresh], rfl, rfl, rfl, ?_, ?_⟩
  · exact (subSize_of_le (by omega)).trans (by omega)
  · simp only [hsrc, List.take_zero, List.nil_append, List.drop_zero]
    rw [← hlen, List.take_length, List.take_left]

/-! ## 3. Before the second refill

`Exact s out d`: the bytes `out` have been stored, they stand in front of the buffer, and the
next byte goes right behind them.  With `s` the size of the first buffer, `written + s` is the
size of the present one; that is the part of the counter `written` that a refill uses. -/

/-- The destination holds exactly the bytes emitted so far. -/
structure Exact (s : Nat) (out : List UInt8) (d : DestinationMgr) : Prop where
  length : d.source.length = d.sourceSize
  filled : d.source.take out.length = out.map some
  next : d.nextOutputByte = out.length
  free : d.freeInBuffer + out.length = d.sourceSize
  room : 0 < d.freeInBuffer
  counted : d.written + s = d.sourceSize

theorem exact_init {s : Nat} (hs : 1 ≤ s) : Exact s [] (initDestination s) where
  length := length_fresh s
  filled := rfl
  next := rfl
  free := rfl
  room := hs
  counted := Nat.zero_add s

/-- The state in which the library has stored its byte and not yet looked at the count. -/
def stored (d : DestinationMgr) (b : UInt8) : DestinationMgr :=
  { d with
    source := d.source.set d.nextOutputByte (some b)
    nextOutputByte := d.nextOutputByte + 1
    freeInBuffer := d.freeInBuffer - 1 }

/-- A byte that goes inside the buffer is stored, and the last free one calls for a refill. -/
theorem emitByte_eq {d : DestinationMgr} (b : UInt8) (h : d.nextOutputByte < d.source.length) :
    emitByte d b
      = if d.freeInBuffer - 1 = 0 then emptyOutputBuffer (stored d b)
        else some (stored d b) := by
  unfold emitByte
  rw [store_of_lt _ h]
  rfl

theorem Exact.emitByte_eq {s : Nat} {out : List UInt8} {d : DestinationMgr} (h : Exact s out d)
    (b : UInt8) :
    emitByte d b
      = if d.freeInBuffer - 1 = 0 then emptyOutputBuffer (stored d b)
        else some (stored d b) := by
  have := h.free
  have := h.room
  exact Iipsrv.emitByte_eq b (by rw [h.next, h.length]; omega)

/-- The byte just stored extends the emitted bytes. -/
theorem Exact.take_stored {s : Nat} {out : List UInt8} {d : DestinationMgr} (h : Exact s out d)
    (b : UInt8) :
    (stored d b).source.take (out.length + 1) = (out ++ [b]).map some := by
  have := h.free
  have := h.room
  unfold stored
  rw [h.next, take_set_succ _ (by rw [h.length]; omega), h.filled, List.map_append]
  rfl

/-- **A byte with room behind it is simply stored.** -/
theorem Exact.emit {s : Nat} {out : List UInt8} {d : DestinationMgr} (h : Exact s out d)
    (b : UInt8) (hroom : out.length + 1 < d.sourceSize) :
    ∃ e, emitByte d b = some e ∧ Exact s (out ++ [b]) e ∧ e.sourceSize = d.sourceSize := by
  have hfree := h.free
  refine ⟨stored d b, ?_, ?_, rfl⟩
  · rw [h.emitByte_eq b, if_neg (by omega)]
  · refine ⟨?_, ?_, ?_, ?_, ?_, h.counted⟩
    · exact (List.length_set ..).trans h.length
    · rw [List.length_append, List.length_singleton, h.take_stored b]
    · simp only [stored, h.next, List.length_append, List.length_singleton]
    · simp only [stored, List.length_append, List.length_singleton]
      omega
    · simp only [stored]
      omega

/-- **The first refill is right**, unless the buffer has 2 GiB already: the old buffer is
full, so its end IS the place behind the last byte. -/
theorem Exact.refill {s : Nat} {out : List UInt8} {d : DestinationMgr} (h : Exact s out d)
    (b : UInt8) (hfull : out.length + 1 = d.sourceSize) (hfirst : d.sourceSize = s)
    (hsmall : s < 2 ^ 31) :
    ∃ e, emitByte d b = some e ∧ Exact s (out ++ [b]) e ∧ e.sourceSize = 2 * s := by
  have hfree := h.free
  have hcounted := h.counted
  have hlen : (stored d b).source.length = (stored d b).sourceSize :=
    (List.length_set ..).trans h.length
  have hsize : (stored d b).sourceSize = s := hfirst
  have hwritten : (stored d b).written = 0 := by
    change d.written = 0
    omega
  obtain ⟨e, he⟩ := Option.isSome_iff_exists.mp
    ((emptyOutputBuffer_isSome hlen (by omega)).mpr (by omega))
  obtain ⟨-, hlen', hsize', hwritten', hnext, hfree', hold⟩ :=
    emptyOutputBuffer_spec hlen (by omega) (by omega) he
  refine ⟨e, by rw [h.emitByte_eq b, if_pos (by omega), he], ?_, by rw [hsize', hsize]⟩
  have hout : (out ++ [b]).length = s := by
    rw [List.length_append, List.length_singleton, hfull, hfirst]
  refine ⟨hlen', ?_, ?_, ?_, ?_, ?_⟩
  · rw [hout, ← hsize, hold, ← h.take_stored b, hfull, List.take_of_length_le]
    exact Nat.le_of_eq (hlen.trans (hsize.trans hfirst.symm))
  · rw [hnext, hsize, hout]
  · rw [hfree', hsize', hwritten, hsize, hout]
    omega
  · omega
  · omega

/-! ## 4. From the second refill on

`Overrun s n d`: after `n` bytes the place the counters speak of is already beyond byte `n`.
Every byte and every later refill keeps it so, because a refill moves that place by a whole
buffer while at most `s` bytes have been stored since the one before. -/

/-- The counters have run ahead of the `n` bytes emitted. -/
structure Overrun (s n : Nat) (d : DestinationMgr) : Prop where
  length : d.source.length = d.sourceSize
  counted : d.written + s = d.sourceSize
  room : 0 < d.freeInBuffer
  free_le : d.freeInBuffer ≤ s
  ahead : n + d.freeInBuffer < d.sourceSize

/-- A byte outside the buffer is not stored. -/
theorem emitByte_eq_none {d : DestinationMgr} (b : UInt8)
    (h : ¬ d.nextOutputByte < d.source.length) : emitByte d b = none := by
  unfold emitByte store
  rw [if_neg h]
  rfl

/-- **The second refill loses track**: it makes room for `2 * s` bytes behind a buffer that
was full, and gives out only `s` of them. -/
theorem Exact.overrun {s : Nat} {out : List UInt8} {d e : DestinationMgr} (h : Exact s out d)
    (b : UInt8) (hfull : out.length + 1 = d.sourceSize) (hsecond : d.sourceSize = 2 * s)
    (he : emitByte d b = some e) : Overrun s (out.length + 1) e := by
  have hfree := h.free
  have hcounted := h.counted
  rw [h.emitByte_eq b, if_pos (by omega)] at he
  have hlen : (stored d b).source.length = (stored d b).sourceSize :=
    (List.length_set ..).trans h.length
  have hsize : (stored d b).sourceSize = 2 * s := hsecond
  have hwritten : (stored d b).written = s := by
    change d.written = s
    omega
  obtain ⟨-, hlen', hsize', hwritten', -, hfree', -⟩ :=
    emptyOutputBuffer_spec hlen (by omega) (by omega) he
  exact ⟨hlen', by omega, by omega, by omega, by omega⟩

/-- Once ahead, the counters stay ahead. -/
theorem Overrun.emit {s n : Nat} {d e : DestinationMgr} (h : Overrun s n d) (b : UInt8)
    (he : emitByte d b = some e) : Overrun s (n + 1) e := by
  obtain ⟨hlen, hcounted, hroom, hfree, hahead⟩ := h
  have hin : d.nextOutputByte < d.source.length := by
    by_contra hout
    rw [emitByte_eq_none b hout] at he
    cases he
  rw [emitByte_eq b hin] at he
  have hlen' : (stored d b).source.length = (stored d b).sourceSize :=
    (List.length_set ..).trans hlen
  split at he
  case isTrue hlast =>
    have hsize : (stored d b).sourceSize = d.sourceSize := rfl
    have hwritten : (stored d b).written = d.written := rfl
    obtain ⟨-, hlen'', hsize', hwritten', -, hfree', -⟩ :=
      emptyOutputBuffer_spec hlen' (by omega) (by omega) he
    exact ⟨hlen'', by omega, by omega, by omega, by omega⟩
  case isFalse hmore =>
    obtain rfl := Option.some.inj he
    refine ⟨hlen', hcounted, ?_, ?_, ?_⟩ <;> simp only [stored] <;> omega

/-! ## 5. Whole streams -/

theorem emitBytes_append (d : DestinationMgr) (l m : List UInt8) :
    emitBytes d (l ++ m) = (emitBytes d l).bind fun e => emitBytes e m :=
  List.foldlM_append

theorem emitBytes_cons (d : DestinationMgr) (b : UInt8) (l : List UInt8) :
    emitBytes d (b :: l) = (emitByte d b).bind fun e => emitBytes e l :=
  List.foldlM_cons

/-- As long as the bytes fit the buffer, they are appended to it. -/
theorem Exact.emitBytes {s : Nat} {out l : List UInt8} {d : DestinationMgr} (h : Exact s out d)
    (hfit : out.length + l.length < d.sourceSize) :
    ∃ e, emitBytes d l = some e ∧ Exact s (out ++ l) e ∧ e.sourceSize = d.sourceSize := by
  induction l generalizing out d with
  | nil => exact ⟨d, rfl, by rwa [List.append_nil], rfl⟩
  | cons b l ih =>
    rw [List.length_cons] at hfit
    obtain ⟨d₁, hb, h₁, hsize₁⟩ := h.emit b (by omega)
    obtain ⟨e, he, hexact, hsize⟩ := ih h₁ (by
      rw [List.length_append, List.length_singleton, hsize₁]
      omega)
    refine ⟨e, ?_, ?_, by rw [hsize, hsize₁]⟩
    · rw [emitBytes_cons, hb, Option.bind_some, he]
    · rwa [List.append_assoc, List.singleton_append] at hexact

/-- The counters stay ahead to the end of the stream. -/
theorem Overrun.emitBytes {s n : Nat} {l : List UInt8} {d e : DestinationMgr}
    (h : Overrun s n d) (he : emitBytes d l = some e) : Overrun s (n + l.length) e := by
  induction l generalizing n d with
  | nil =>
    obtain rfl := Option.some.inj he
    exact h
  | cons b l ih =>
    rw [emitBytes_cons] at he
    obtain ⟨d₁, hb, he⟩ := Option.bind_eq_some_iff.mp he
    have := ih (h.emit b hb) he
    rwa [List.length_cons, Nat.add_comm l.length 1, ← Nat.add_assoc]

/-- A list of at least `n + 1` bytes is `n` bytes, the next one and the others. -/
theorem split_at_byte {n : Nat} {l : List UInt8} (h : n < l.length) :
    ∃ l₁ b l₂, l = l₁ ++ b :: l₂ ∧ l₁.length = n := by
  refine ⟨l.take n, l.get ⟨n, h⟩, l.drop (n + 1), ?_, List.length_take_of_le (Nat.le_of_lt h)⟩
  rw [List.get_eq_getElem, List.getElem_cons_drop, List.take_append_drop]

/-! ## 6. When the stream comes out -/

/-- A destination that holds exactly the stream ends with its length and its bytes. -/
theorem Exact.term {s : Nat} {out : List UInt8} {d : DestinationMgr} (h : Exact s out d) :
    (termDestination d).written = out.length ∧
      (termDestination d).source.take (termDestination d).written = out.map some := by
  have hfree := h.free
  have hwritten : (termDestination d).written = out.length :=
    (subSize_of_le (by omega)).trans (by omega)
  rw [hwritten]
  exact ⟨rfl, h.filled⟩

/-- A destination whose counters ran ahead ends with MORE bytes than were emitted. -/
theorem Overrun.term {s n : Nat} {d : DestinationMgr} (h : Overrun s n d) :
    n < (termDestination d).written := by
  have hahead := h.ahead
  have hwritten : (termDestination d).written = d.sourceSize - d.freeInBuffer :=
    subSize_of_le (by omega)
  omega

/-- A stream shorter than the first buffer comes out. -/
theorem reproduces_of_lt {s : Nat} {stream : List UInt8} (hs : 1 ≤ s)
    (hlt : stream.length < s) : Reproduces s stream := by
  obtain ⟨e, he, hexact, hsize⟩ := (exact_init hs).emitBytes (l := stream)
    (by simpa [initDestination] using hlt)
  have hterm := hexact.term
  exact ⟨termDestination e, by rw [encode, he]; rfl, hterm⟩

/-- **One refill.**  A stream that reaches the end of the first buffer faults there when that
has 2 GiB or more; otherwise it goes on in a buffer of twice the size with every byte in
place. -/
theorem emitBytes_first_refill {s : Nat} {l : List UInt8} (b : UInt8) (hs : 1 ≤ s)
    (hl : l.length + 1 = s) :
    (2 ^ 31 ≤ s ∧ emitBytes (initDestination s) (l ++ [b]) = none) ∨
      (s < 2 ^ 31 ∧ ∃ e, emitBytes (initDestination s) (l ++ [b]) = some e ∧
        Exact s (l ++ [b]) e ∧ e.sourceSize = 2 * s) := by
  obtain ⟨d, hd, hexact, hsize⟩ := (exact_init hs).emitBytes (l := l)
    (by simp only [initDestination, List.length_nil]; omega)
  rw [List.nil_append] at hexact
  have hfirst : d.sourceSize = s := hsize
  have hone : emitBytes (initDestination s) (l ++ [b]) = emitByte d b := by
    rw [emitBytes_append, hd, Option.bind_some, emitBytes_cons]
    exact Option.bind_fun_some _
  rw [hone]
  rcases Nat.lt_or_ge s (2 ^ 31) with hsmall | hbig
  · exact .inr ⟨hsmall, hexact.refill b (by omega) hfirst hsmall⟩
  · refine .inl ⟨hbig, ?_⟩
    have hfree := hexact.free
    have hlen : (stored d b).source.length = (stored d b).sourceSize :=
      (List.length_set ..).trans hexact.length
    have hsize' : (stored d b).sourceSize = s := hfirst
    rw [hexact.emitByte_eq b, if_pos (by omega), ← Option.not_isSome_iff_eq_none,
      emptyOutputBuffer_isSome hlen (by omega)]
    omega

/-- **The destination manager reproduces the stream exactly when it refills at most once**:
the stream is shorter than the first buffer, or shorter than twice that buffer and the buffer
is below 2 GiB. -/
theorem reproduces_iff (sourceSize : Nat) (stream : List UInt8) (hs : 1 ≤ sourceSize) :
    Reproduces sourceSize stream
      ↔ stream.length < sourceSize ∨
        (stream.length < 2 * sourceSize ∧ sourceSize < 2 ^ 31) := by
  rcases Nat.lt_or_ge stream.length sourceSize with hlt | hge
  · exact ⟨fun _ => .inl hlt, fun _ => reproduces_of_lt hs hlt⟩
  obtain ⟨l, b, l', rfl, hl⟩ := split_at_byte (n := sourceSize - 1) (l := stream) (by omega)
  have hcons : l ++ b :: l' = (l ++ [b]) ++ l' := by simp
  rw [hcons] at hge ⊢
  have hfirst : l.length + 1 = sourceSize := by omega
  rcases emitBytes_first_refill b hs hfirst with ⟨hbig, hnone⟩ | ⟨hsmall, d, hd, hexact, hsize⟩
  · -- the first refill faults
    refine ⟨?_, fun h => absurd h (by omega)⟩
    rintro ⟨e, he, -⟩
    rw [encode, emitBytes_append, hnone] at he
    cases he
  have hencode : encode sourceSize ((l ++ [b]) ++ l') = (emitBytes d l').map termDestination := by
    rw [encode, emitBytes_append, hd, Option.bind_some]
  have hlen : (l ++ [b]).length = sourceSize := by
    rw [List.length_append, List.length_singleton]
    omega
  rcases Nat.lt_or_ge ((l ++ [b]) ++ l').length (2 * sourceSize) with hfit | htwo
  · -- the rest stays in the second buffer
    refine ⟨fun _ => .inr ⟨hfit, hsmall⟩, fun _ => ?_⟩
    obtain ⟨e, he, hexact', hsize'⟩ := hexact.emitBytes (l := l')
      (by rwa [hsize, ← List.length_append])
    have hterm := hexact'.term
    exact ⟨termDestination e, by rw [hencode, he]; rfl, hterm⟩
  · -- a second refill: whatever follows, the counters are ahead
    refine ⟨?_, fun h => absurd h (by omega)⟩
    rintro ⟨e, he, hwritten, -⟩
    rw [List.length_append, hlen] at htwo
    obtain ⟨m, c, m', rfl, hm⟩ := split_at_byte (n := sourceSize - 1) (l := l') (by omega)
    obtain ⟨d₁, hd₁, hexact₁, hsize₁⟩ := hexact.emitBytes (l := m) (by omega)
    rw [hencode, emitBytes_append, hd₁, Option.bind_some, emitBytes_cons] at he
    obtain ⟨d₃, hd₃, rfl⟩ := Option.map_eq_some_iff.mp he
    obtain ⟨d₂, hd₂, hd₃⟩ := Option.bind_eq_some_iff.mp hd₃
    have hover := hexact₁.overrun c (by rw [List.length_append]; omega) (by omega) hd₂
    have hahead := (hover.emitBytes hd₃).term
    simp only [List.length_append, List.length_cons, List.length_nil] at hwritten hahead
    omega

/-- A stream that ends inside the second buffer meets the condition. -/
theorem reproduces_iff_one_refill : Reproduces 4 [1, 2, 3, 4, 5, 6] :=
  (reproduces_iff 4 [1, 2, 3, 4, 5, 6] (by decide)).mpr (by decide)

/-- **Two bytes into a buffer of one.**  After the second refill the manager reports three
bytes, the last of which was never stored. -/
theorem two_refills_lose_track :
    encode 1 [0xff, 0xd8]
        = some
          { source := [some 0xff, some 0xd8, none, none]
            sourceSize := 4, written := 3, nextOutputByte := 2, freeInBuffer := 1 } ∧
      ¬ Reproduces 1 [0xff, 0xd8] := by
  refine ⟨by decide, ?_⟩
  rintro ⟨d, hd, hwritten, -⟩
  have : encode 1 [0xff, 0xd8] = some
      { source := [some 0xff, some 0xd8, none, none]
        sourceSize := 4, written := 3, nextOutputByte := 2, freeInBuffer := 1 } := by decide
  rw [this] at hd
  obtain rfl := Option.some.inj hd
  cases hwritten

end Iipsrv
