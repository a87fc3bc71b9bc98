/-
# The number of quality layers

The layers a tile is decoded with are not part of its key.  `DecodedFor` lets us say "decoded
with `l` layers" of every tile that the manager hands out.  `layers_honoured` says when a request
gets a tile of its own, and `layers_of_earlier_request` is the run that goes wrong otherwise.
-/
import Iipsrv.TileManager.Cached
import Iipsrv.TileManager.Provenance

namespace Iipsrv

variable {K : Codec} {E : Encoder}

/-! ## 1. Requests that get their own layers -/

/-- The tile that `q` gets is one decoded for the tile it asks for with its own layers. -/
def LayersHonoured (K : Codec) (E : Encoder) (a : StringAlloc) (c : Cache) (q : Request) : Prop :=
  ∀ t c', getTile K E a q c = .ok t c' →
    ∃ s, SameTile s q ∧ s.layers = q.layers ∧ DecodedFor K E s t

/-- **The number of layers is honoured as long as a tile is always asked for with the same
one.**  After every history of requests whose keys fit, a request gets a tile decoded with its
own number of layers if no earlier request asked for this tile with another number. -/
theorem layers_honoured (K : Codec) (E : Encoder) (a : StringAlloc) (z : Sizeof) (maxSize : Nat)
    (history : List Request) (q : Request) (hfit : ∀ s ∈ history ++ [q], s.Fits)
    (hlayers : ∀ s ∈ history, SameTile s q → s.layers = q.layers) (c : Cache)
    (hrun : serveAll K E a (Cache.new z maxSize) history = some c) :
    LayersHonoured K E a c q := by
  intro t c' hget
  have hsound := sound_decodedFor (fun s hs => hfit s (by simp [hs])) hrun
  obtain ⟨s, rfl | hs, hsame, hdec⟩ := hsound.decodedFor (hfit q (by simp)) hget
  · exact ⟨s, hsame, rfl, hdec⟩
  · exact ⟨s, hsame, hlayers s hs hsame, hdec⟩

/-- The same tile asked for twice with the same number of layers. -/
theorem layers_honoured_same :
    ∃ c, serveAll probe noEncoder Cache.exactAlloc (Cache.new ⟨0, 0, 0, 0⟩ 1000)
          [rawRequest shortPath 0 5] = some c ∧
      LayersHonoured probe noEncoder Cache.exactAlloc c (rawRequest shortPath 0 5) := by
  have hrun : (serveAll probe noEncoder Cache.exactAlloc (Cache.new ⟨0, 0, 0, 0⟩ 1000)
      [rawRequest shortPath 0 5]).isSome = true := by decide
  obtain ⟨c, hc⟩ := Option.isSome_iff_exists.mp hrun
  refine ⟨c, hc, layers_honoured _ _ _ _ _ _ _ ?_ ?_ c hc⟩
  · decide
  · intro s hs _
    rw [List.mem_singleton.mp hs]

/-! ## 2. ... and one that gets those of an earlier request -/

/-- The second byte of a raw tile that stems from `probe` is the number of layers. -/
theorem DecodedFor.probe_layers {s : Request} {t : RawTile}
    (h : DecodedFor probe noEncoder s t) :
    t.compressionType ≠ .uncompressed ∨
      (t.padded = false ∧ t.dataLength = 2 ∧
        t.data[1]? = some (UInt8.ofNat s.layers.toInt.toNat)) := by
  induction h with
  | decoded h =>
    obtain rfl := Except.ok.inj h
    exact .inr ⟨rfl, rfl, rfl⟩
  | @copied t _ ih =>
    refine ih.imp_right fun ⟨hpad, hlen, hdata⟩ => ⟨hpad, hlen, ?_⟩
    unfold RawTile.copy
    dsimp only
    rw [hlen, List.getElem?_take_of_lt (by decide), hdata]
  | @cropped im t t' _ hcrop ih =>
    rcases ih with hct | ⟨hpad, hlen, hdata⟩
    · rw [(cropEdge_spec hcrop).2]
      exact .inl hct
    · have hset : Settled im t := fun hs => Bool.false_ne_true (hpad.symm.trans hs.2)
      rw [cropEdge_of_settled hset] at hcrop
      obtain rfl := Except.ok.inj hcrop
      exact .inr ⟨hpad, hlen, hdata⟩
  | compressed _ hcomp ih =>
    rcases compress_cases hcomp with ⟨-, rfl⟩ | ⟨hct, out, rfl⟩
    · exact ih
    · refine .inl ?_
      rcases hct with rfl | rfl <;> exact fun h => by cases h

/-- **The layers of an earlier request.**  A tile asked for with 1 layer and then with 5: the
second request gets the tile decoded with 1. -/
theorem layers_of_earlier_request :
    ∃ c, serveAll probe noEncoder Cache.exactAlloc (Cache.new ⟨0, 0, 0, 0⟩ 1000)
          [rawRequest shortPath 0 1] = some c ∧
      answer probe noEncoder Cache.exactAlloc c (rawRequest shortPath 0 5)
        = .ok ⟨[0, 1], 1, 1, 2, 8, .uncompressed, 0⟩ ∧
      ¬ LayersHonoured probe noEncoder Cache.exactAlloc c (rawRequest shortPath 0 5) := by
  have hcost : Cache.cost (Cache.new ⟨0, 0, 0, 0⟩ 1000).tileSize
      (Cache.entryOf Cache.exactAlloc (probeTile shortPath 0 1)) ≤ 1000 := by decide
  obtain ⟨c, c', hrun, hget⟩ := answer_probe_collision ⟨0, 0, 0, 0⟩ 0 1 0 5 hcost rfl
  refine ⟨c, hrun, ?_, fun h => ?_⟩
  · unfold answer
    rw [hget]
    rfl
  · obtain ⟨s, -, hlayers, hdec⟩ := h _ _ hget
    rcases hdec.probe_layers with hct | ⟨-, -, hdata⟩
    · exact hct rfl
    · rw [hlayers] at hdata
      cases hdata

end Iipsrv
