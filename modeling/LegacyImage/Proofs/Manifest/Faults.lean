import LegacyImage.Proofs.Image.Enumeration
import LegacyImage.Proofs.Json.Nesting
import LegacyImage.Proofs.Manifest.Listing

/-!
What bytes that list no layers are told. Every fault is a parse error but one: nesting past the
limit, which only a text that nests deeper meets (`fault_of_layers`). Brackets that open and open
meet it.
-/

namespace LegacyImage

namespace Json

theorem nesting_le_of_read {bs : Bytes} {v : Json} (h : read bs = .ok v) :
    ∃ t, decode bs = .ok t ∧ nesting t ≤ maxDepth := by
  unfold read at h
  split at h
  · cases h
  rename_i t ht
  split at h
  · rename_i w hw
    exact ⟨t, ht, nesting_le_of_ofText hw⟩
  · cases h
  · cases h

theorem lt_nesting_of_read {bs : Bytes} (h : read bs = .error .tooDeep) :
    ∃ t, decode bs = .ok t ∧ maxDepth < nesting t := by
  unfold read at h
  split at h
  · cases h
  rename_i t ht
  split at h
  · cases h
  · rename_i rest hrest
    exact ⟨t, ht, lt_nesting_of_ofText hrest⟩
  · cases h

end Json

namespace Manifest

/-- A fault is a parse error, or nesting past the limit of a text that does nest deeper. -/
theorem kind?_of_layers_error {bs : Bytes} {e : ManifestError} (h : layers bs = .error e) :
    e.kind? = some .parse ∨ e = .document .tooDeep ∧
      ∃ t, Json.decode bs = .ok t ∧ Json.maxDepth < Json.nesting t := by
  unfold layers at h
  split at h
  · rename_i cause hread
    cases h
    cases cause with
    | tooDeep => exact .inr ⟨rfl, Json.lt_nesting_of_read hread⟩
    | _ => exact .inl rfl
  · exact .inl (kind?_of_layersOf_error h)

/-- Whatever the bytes are, they are read as a manifest whose text nests within the limit, or there
is a fault. It is a parse error, or nesting past the limit of a text that does nest deeper. The same
comes of an image with these bytes, over a store that does not provide layers. -/
theorem fault_of_layers (bs : Bytes) :
    ((∃ ds t, layers bs = .ok ds ∧ Json.decode bs = .ok t ∧ Json.nesting t ≤ Json.maxDepth) ∨
      ∃ e, layers bs = .error e ∧ (e.kind? = some .parse ∨
        e = .document .tooDeep ∧
          ∃ t, Json.decode bs = .ok t ∧ Json.maxDepth < Json.nesting t)) ∧
    ∀ (store : Store) (ref : Reference) (mediaType : Option Text),
      (∀ source, store.kind ≠ .layers source) →
      (Image.layers store ⟨bs, ref, mediaType⟩).1 =
        match layers bs with
        | .ok ds => .ok (ds.map Layer.ofDigest)
        | .error e => .error (.manifest e) := by
  refine ⟨?_, ?_⟩
  · cases hread : Json.read bs with
    | error cause =>
      refine .inr ⟨.document cause, by rw [layers, hread], ?_⟩
      cases cause with
      | tooDeep => exact .inr ⟨rfl, Json.lt_nesting_of_read hread⟩
      | _ => exact .inl rfl
    | ok v =>
      have hlayers : layers bs = layersOf v := by rw [layers, hread]
      rw [hlayers]
      cases hv : layersOf v with
      | ok ds =>
        obtain ⟨t, ht, hnesting⟩ := Json.nesting_le_of_read hread
        exact .inl ⟨ds, t, rfl, ht, hnesting⟩
      | error e => exact .inr ⟨e, rfl, .inl (kind?_of_layersOf_error hv)⟩
  · intro store ref mediaType hkind
    unfold Image.layers
    dsimp only
    cases layers bs with
    | error e => rfl
    | ok ds =>
      dsimp only
      rw [Image.layersOf_of_not_provided (Store.layerSource?_eq_none hkind)]

/-- Two lists that are not closed, in a store of blobs: nesting has nothing to do with the fault. -/
theorem fault_of_layers_unclosed :
    let store := Store.ofKind .memory none none
    (∀ source, store.kind ≠ .layers source) ∧
      ∃ e, layers [0x5B, 0x5B] = .error e ∧ e.kind? = some .parse ∧
        (Image.layers store ⟨[0x5B, 0x5B], none, none⟩).1 = .error (.manifest e) := by
  intro store
  have hkind : ∀ source, store.kind ≠ .layers source := nofun
  have hdecode : Json.decode [0x5B, 0x5B] = .ok (Json.openings 2) := rfl
  obtain ⟨⟨ds, _, hlayers, -⟩ | ⟨e, hlayers, hfault⟩, himage⟩ := fault_of_layers [0x5B, 0x5B]
  · cases hlayers
  · refine ⟨hkind, e, hlayers, ?_, ?_⟩
    · rcases hfault with hparse | ⟨-, t, ht, hdeep⟩
      · exact hparse
      · rw [hdecode] at ht
        cases ht
        exact absurd hdeep (by decide)
    · rw [himage store none none hkind, hlayers]

/-! ## Nesting past the limit -/

theorem encodeAll_openings (n : Nat) : Utf8.encodeAll (Json.openings n) = List.replicate n 0x5B := by
  induction n with
  | zero => rfl
  | succ n ih =>
    rw [Json.openings_succ, List.replicate_succ, ← ih]
    rfl

/-- Whatever comes after so many brackets, it is not looked at. -/
theorem layers_of_openings (rest : Text) :
    layers (Utf8.encodeAll (Json.openings (Json.maxDepth + 1) ++ rest)) =
      .error (.document .tooDeep) := by
  have hdetect : Json.detect (Utf8.encodeAll (Json.openings (Json.maxDepth + 1) ++ rest)) =
      (.utf8, 0) := rfl
  have hdecode : Json.decode (Utf8.encodeAll (Json.openings (Json.maxDepth + 1) ++ rest)) =
      .ok (Json.openings (Json.maxDepth + 1) ++ rest) := by
    rw [Json.decode, hdetect]
    exact Utf8.decode_encodeAll true _ (.inl rfl)
  rw [layers, Json.read, hdecode]
  dsimp only
  rw [Json.ofText_openings]

/-- Lists in lists that are never closed. -/
def deepLists : Bytes := List.replicate 5000 0x5B

theorem layers_deepLists : layers deepLists = .error (.document .tooDeep) := by
  have hopenings : deepLists = Utf8.encodeAll (Json.openings (Json.maxDepth + 1) ++
      Json.openings 4011) := by
    rw [Json.openings, Json.openings, List.replicate_append_replicate]
    exact (encodeAll_openings 5000).symm
  rw [hopenings, layers_of_openings]

/-- Not every fault is a parse error. -/
theorem layers_of_deepLists : layers deepLists = .error (.document .tooDeep) ∧
    ¬ ∀ bs, (∃ ds, layers bs = .ok ds) ∨ ∃ e, layers bs = .error e ∧ e.kind? = some .parse := by
  refine ⟨layers_deepLists, ?_⟩
  intro h
  rcases h deepLists with ⟨ds, hds⟩ | ⟨e, he, hkind⟩
  · rw [layers_deepLists] at hds
    cases hds
  · rw [layers_deepLists] at he
    cases he
    cases hkind

end Manifest

end LegacyImage
