import LegacyImage.ErrorKind
import LegacyImage.Manifest
import LegacyImage.Proofs.Digest.Spelling
import Mathlib.Data.List.Forall2

/-!
Which decoded documents list layers, said on the value alone. Either every entry of the list names a
digest and the listing has one digest an entry, in the same order, or the fault is told of the first
entry that does not, whatever comes after it.
-/

namespace LegacyImage

/-- The kind of error that a fault is to callers. Nesting past the limit is none of this
library's. -/
def ManifestError.kind? : ManifestError → Option ErrorKind
  | .document .tooDeep => none
  | _ => some .parse

namespace Json

/-- The text under the name of the digest in an entry, if the entry is an object and has one. -/
def blobSum? : Json → Option Text
  | .object members =>
    match Table.get? members (Text.ofString "blobSum") with
    | some (.str sum) => some sum
    | _ => none
  | _ => none

/-- An entry that names a digest. -/
def IsEntry (entry : Json) : Prop := ∃ sum, entry.blobSum? = some sum ∧ Digest.IsSpelled sum

/-- What a document has under the name of the list: nothing unless it is an object. -/
def fsLayers? : Json → Option Json
  | .object members => Table.get? members (Text.ofString "fsLayers")
  | _ => none

/-- The entries of the list, none if there is no list. -/
def entries (v : Json) : List Json :=
  match v.fsLayers? with
  | some (.array entries) => entries
  | _ => []

/-- An object without a list, with a null for it, or with a list of entries that name digests. -/
def IsListing (v : Json) : Prop :=
  (∃ members, v = .object members) ∧
    (v.fsLayers? = none ∨ v.fsLayers? = some .null ∨
      ∃ entries, v.fsLayers? = some (.array entries) ∧ ∀ entry ∈ entries, entry.IsEntry)

end Json

namespace Manifest

/-- What an entry and a digest have to do with each other: the entry names it, in any case. -/
def Names (entry : Json) (d : Digest) : Prop :=
  ∃ sum, entry.blobSum? = some sum ∧ Digest.IsSpelled sum ∧ d.toText = sum.lowerHex

/-- The digest of an object is read from the text it has under its name, if it has one. -/
theorem entryDigest_object (index : Nat) (members : List (Text × Json)) :
    entryDigest index (.object members) =
      match (Json.object members).blobSum?.bind Digest.parse? with
      | some d => .ok d
      | none => .error (.invalidDigest index
          ((Table.get? members (Text.ofString "blobSum")).getD .null)) := by
  simp only [entryDigest, Json.blobSum?]
  rcases Table.get? members (Text.ofString "blobSum") with _ | sum
  · rfl
  · cases sum <;> rfl

theorem entryDigest_eq_ok_iff {index : Nat} {entry : Json} {d : Digest} :
    entryDigest index entry = .ok d ↔ Names entry d := by
  have names : Names entry d ↔ entry.blobSum?.bind Digest.parse? = some d := by
    simp only [Names, Option.bind_eq_some_iff, Digest.parse?_eq_some_iff]
  rw [names]
  cases entry with
  | object members =>
    rw [entryDigest_object]
    cases (Json.object members).blobSum?.bind Digest.parse? <;> simp
  | _ => simp [entryDigest, Json.blobSum?]

theorem exists_names_iff {entry : Json} : (∃ d, Names entry d) ↔ entry.IsEntry := by
  constructor
  · rintro ⟨d, sum, hsum, hs, -⟩
    exact ⟨sum, hsum, hs⟩
  · rintro ⟨sum, hsum, hs⟩
    obtain ⟨d, hd⟩ := Digest.exists_parse?_of_isSpelled hs
    exact ⟨d, sum, hsum, Digest.parse?_eq_some_iff.mp hd⟩

theorem number_prefix (index : Nat) (s rest : Text) :
    Text.ofString "fsLayers[" ++ Text.ofNat index ++ Text.ofString "]" <+:
      Text.ofString "fsLayers[" ++ Text.ofNat index ++ (Text.ofString "]" ++ s) ++ rest :=
  ⟨s ++ rest, by simp only [List.append_assoc]⟩

/-- A fault of an entry is told with its number and is no fault of the document. -/
theorem entryDigest_error {index : Nat} {entry : Json} {e : ManifestError}
    (h : entryDigest index entry = .error e) :
    ¬ entry.IsEntry ∧ e.kind? = some .parse ∧
      Text.ofString "fsLayers[" ++ Text.ofNat index ++ Text.ofString "]" <+: e.message := by
  refine ⟨?_, ?_⟩
  · intro hentry
    obtain ⟨d, hd⟩ := exists_names_iff.mpr hentry
    rw [entryDigest_eq_ok_iff.mpr hd] at h
    cases h
  cases entry with
  | object members =>
    rw [entryDigest_object] at h
    split at h
    · cases h
    · obtain rfl := Except.error.inj h
      have e : Text.ofString "] has an invalid blobSum: " =
        Text.ofString "]" ++ Text.ofString " has an invalid blobSum: " := by decide
      refine ⟨rfl, ?_⟩
      rw [ManifestError.message, e]
      exact number_prefix ..
  | _ =>
    obtain rfl := Except.error.inj h
    have e : Text.ofString "] is not an object: " =
      Text.ofString "]" ++ Text.ofString " is not an object: " := by decide
    refine ⟨rfl, ?_⟩
    rw [ManifestError.message, e]
    exact number_prefix ..

/-! ## The list -/

/-- A list is read if every entry names a digest, and then as the digests in the same order. -/
theorem entryDigests_eq_ok_iff {index : Nat} {done : List Digest} {entries : List Json}
    {ds : List Digest} : entryDigests index done entries = .ok ds ↔
      ∃ named, ds = done.reverse ++ named ∧ List.Forall₂ Names entries named := by
  induction entries generalizing index done with
  | nil => simp [entryDigests, eq_comm]
  | cons entry rest ih =>
    unfold entryDigests
    cases he : entryDigest index entry with
    | error e =>
      simp only [reduceCtorEq, false_iff]
      rintro ⟨named, -, hn⟩
      cases hn with
      | cons h _ =>
        rw [entryDigest_eq_ok_iff.mpr h] at he
        cases he
    | ok d =>
      simp only [ih, List.reverse_cons, List.append_assoc, List.singleton_append]
      constructor
      · rintro ⟨named, hds, hn⟩
        exact ⟨d :: named, hds, .cons (entryDigest_eq_ok_iff.mp he) hn⟩
      · rintro ⟨named, hds, hn⟩
        cases hn with
        | @cons _ d' _ named h hn =>
          rw [entryDigest_eq_ok_iff.mpr h] at he
          obtain rfl := Except.ok.inj he
          exact ⟨named, hds, hn⟩

/-- The fault of a list is that of its first entry that names no digest. -/
theorem entryDigests_error {index : Nat} {done : List Digest} {entries : List Json}
    {e : ManifestError} (h : entryDigests index done entries = .error e) :
    ∃ before entry after, entries = before ++ entry :: after ∧
      (∀ other ∈ before, other.IsEntry) ∧
      entryDigest (index + before.length) entry = .error e := by
  induction entries generalizing index done with
  | nil => cases h
  | cons entry rest ih =>
    unfold entryDigests at h
    split at h
    · rename_i e' he
      obtain rfl := Except.error.inj h
      refine ⟨[], entry, rest, rfl, ?_, he⟩
      intro x hx
      cases hx
    · rename_i d hd
      obtain ⟨before, bad, after, rfl, hgood, hbad⟩ := ih h
      refine ⟨entry :: before, bad, after, rfl, ?_, ?_⟩
      · intro other hm
        rcases List.mem_cons.mp hm with rfl | hm
        · exact exists_names_iff.mp ⟨d, entryDigest_eq_ok_iff.mp hd⟩
        · exact hgood other hm
      · rw [List.length_cons, ← Nat.add_assoc, Nat.add_right_comm]
        exact hbad

/-- A list is read as digests that its entries name, one each. -/
theorem entryDigests_eq_ok {items : List Json} {ds : List Digest}
    (h : entryDigests 0 [] items = .ok ds) : List.Forall₂ Names items ds := by
  obtain ⟨named, rfl, hn⟩ := entryDigests_eq_ok_iff.mp h
  exact hn

theorem exists_entryDigests_iff {items : List Json} :
    (∃ ds, entryDigests 0 [] items = .ok ds) ↔ ∀ entry ∈ items, entry.IsEntry := by
  constructor
  · rintro ⟨ds, hds⟩ entry hm
    have hn := entryDigests_eq_ok hds
    obtain ⟨i, hi, rfl⟩ := List.mem_iff_getElem.mp hm
    exact exists_names_iff.mp ⟨_, hn.get hi (hn.length_eq ▸ hi)⟩
  · intro hall
    cases h : entryDigests 0 [] items with
    | ok ds => exact ⟨ds, rfl⟩
    | error e =>
      obtain ⟨before, bad, after, rfl, -, hbad⟩ := entryDigests_error h
      exact absurd (hall bad (by simp)) (entryDigest_error hbad).1

/-! ## The document -/

theorem layersOf_of_array {v : Json} {items : List Json} (h : v.fsLayers? = some (.array items)) :
    layersOf v = entryDigests 0 [] items := by
  cases v with
  | object members =>
    simp only [Json.fsLayers?] at h
    simp only [layersOf, h]
  | _ => cases h

theorem isListing_of_array {v : Json} {items : List Json}
    (h : v.fsLayers? = some (.array items)) :
    v.IsListing ↔ ∀ entry ∈ items, entry.IsEntry := by
  constructor
  · rintro ⟨-, hn | hn | ⟨items', hn, hall⟩⟩ <;> rw [h] at hn <;> cases hn
    exact hall
  · intro hall
    refine ⟨?_, .inr (.inr ⟨items, h, hall⟩)⟩
    cases v with
    | object members => exact ⟨members, rfl⟩
    | _ => cases h

/-- What a document without a list of layers comes to: no layers if there is nothing or a null in
its place, and else a fault. -/
theorem layersOf_of_not_array {v : Json} (h : ∀ items, v.fsLayers? ≠ some (.array items)) :
    (v.IsListing ∧ layersOf v = .ok []) ∨
      (¬ v.IsListing ∧ ∃ e, layersOf v = .error e ∧ e.kind? = some .parse) := by
  cases v with
  | object members =>
    simp only [Json.fsLayers?] at h
    rcases hg : Table.get? members (Text.ofString "fsLayers") with _ | value
    · exact .inl ⟨⟨⟨members, rfl⟩, .inl hg⟩, by simp only [layersOf, hg]⟩
    cases value with
    | null => exact .inl ⟨⟨⟨members, rfl⟩, .inr (.inl hg)⟩, by simp only [layersOf, hg]⟩
    | array items => exact absurd hg (h items)
    | _ =>
      refine .inr ⟨?_, _, by simp only [layersOf, hg]; rfl, rfl⟩
      rintro ⟨-, hn | hn | ⟨items, hn, -⟩⟩ <;> simp [Json.fsLayers?, hg] at hn
  | _ =>
    refine .inr ⟨?_, _, rfl, rfl⟩
    rintro ⟨⟨members, hv⟩, -⟩
    cases hv

theorem entries_of_not_array {v : Json} (h : ∀ items, v.fsLayers? ≠ some (.array items)) :
    v.entries = [] := by
  unfold Json.entries
  split
  · rename_i items hi
    exact absurd hi (h items)
  · rfl

theorem exists_layersOf_iff (v : Json) : (∃ ds, layersOf v = .ok ds) ↔ v.IsListing := by
  by_cases h : ∃ items, v.fsLayers? = some (.array items)
  · obtain ⟨items, h⟩ := h
    rw [layersOf_of_array h, isListing_of_array h, exists_entryDigests_iff]
  · rcases layersOf_of_not_array (not_exists.mp h) with ⟨hv, hok⟩ | ⟨hv, e, he, -⟩
    · constructor
      · intro _
        exact hv
      · intro _
        exact ⟨[], hok⟩
    · simp [he, hv]

/-- The layers are the digests that the entries name, in the same order. -/
theorem forall₂_names_of_layersOf {v : Json} {ds : List Digest} (h : layersOf v = .ok ds) :
    List.Forall₂ Names v.entries ds := by
  by_cases ha : ∃ items, v.fsLayers? = some (.array items)
  · obtain ⟨items, ha⟩ := ha
    rw [layersOf_of_array ha] at h
    simpa only [Json.entries, ha] using entryDigests_eq_ok h
  · rw [entries_of_not_array (not_exists.mp ha)]
    rcases layersOf_of_not_array (not_exists.mp ha) with ⟨-, hok⟩ | ⟨-, e, he, -⟩
    · rw [hok] at h
      cases h
      exact .nil
    · rw [he] at h
      cases h

theorem kind?_of_layersOf_error {v : Json} {e : ManifestError} (h : layersOf v = .error e) :
    e.kind? = some .parse := by
  by_cases ha : ∃ items, v.fsLayers? = some (.array items)
  · obtain ⟨items, ha⟩ := ha
    rw [layersOf_of_array ha] at h
    obtain ⟨before, bad, after, -, -, hbad⟩ := entryDigests_error h
    exact (entryDigest_error hbad).2.1
  · rcases layersOf_of_not_array (not_exists.mp ha) with ⟨-, hok⟩ | ⟨-, e', he', hk⟩
    · rw [hok] at h
      cases h
    · rw [he'] at h
      cases h
      exact hk

/-- The fault of a list is told of its first entry that names no digest. -/
theorem first_of_layersOf_error {v : Json} {items : List Json} {e : ManifestError}
    (ha : v.fsLayers? = some (.array items)) (h : layersOf v = .error e) :
    ∃ (i : Nat) (hi : i < items.length),
      ¬ items[i].IsEntry ∧ (∀ (j : Nat) (hj : j < i), items[j].IsEntry) ∧
      Text.ofString "fsLayers[" ++ Text.ofNat i ++ Text.ofString "]" <+: e.message := by
  rw [layersOf_of_array ha] at h
  obtain ⟨before, bad, after, rfl, hgood, hbad⟩ := entryDigests_error h
  obtain ⟨hnot, -, hmessage⟩ := entryDigest_error hbad
  refine ⟨before.length, by simp, by simpa using hnot, ?_, by simpa using hmessage⟩
  intro j hj
  rw [List.getElem_append_left hj]
  exact hgood _ (List.getElem_mem hj)

/-- A document that was decoded lists layers exactly if its value is a listing, and then one digest
an entry, in the same order, each in lowercase. Otherwise there is a parse error, and if there is a
list at all its message begins with the number of the first entry that names no digest. -/
theorem layers_of_read {bs : Bytes} {v : Json} (hv : Json.read bs = .ok v) :
    ((∃ ds, layers bs = .ok ds) ↔ v.IsListing) ∧
    (∀ ds, layers bs = .ok ds → ds.length = v.entries.length ∧
      ∀ (i : Nat) (hd : i < ds.length) (he : i < v.entries.length),
        ∃ sum, v.entries[i].blobSum? = some sum ∧ ds[i].toText = sum.lowerHex) ∧
    (∀ e, layers bs = .error e → e.kind? = some .parse ∧
      ∀ items, v.fsLayers? = some (.array items) → ∃ (i : Nat) (hi : i < items.length),
        ¬ items[i].IsEntry ∧ (∀ (j : Nat) (hj : j < i), items[j].IsEntry) ∧
        Text.ofString "fsLayers[" ++ Text.ofNat i ++ Text.ofString "]" <+: e.message) := by
  have hl : layers bs = layersOf v := by simp only [layers, hv]
  rw [hl]
  refine ⟨exists_layersOf_iff v, ?_, ?_⟩
  · intro ds hds
    have hn := forall₂_names_of_layersOf hds
    refine ⟨hn.length_eq.symm, ?_⟩
    intro i hd he
    obtain ⟨sum, hsum, -, htext⟩ := hn.get he hd
    exact ⟨sum, hsum, htext⟩
  · intro e he
    refine ⟨kind?_of_layersOf_error he, ?_⟩
    intro items ha
    exact first_of_layersOf_error ha he

/-- A list of an entry with a digest in capitals and of a number. -/
def halfListed : Bytes := Utf8.encodeAll (Text.ofString
  "\x7b\"fsLayers\": [\x7b\"blobSum\": \"sha256:E3B0C44298FC1C149AFBF4C8996FB92427AE41E4649B934CA495991B7852B855\"\x7d, 7]\x7d")

theorem layers_of_read_halfListed : ∃ v e, Json.read halfListed = .ok v ∧ ¬ v.IsListing ∧
    layers halfListed = .error e ∧ e.kind? = some .parse := by
  obtain ⟨v, hv⟩ : ∃ v, Json.read halfListed = .ok v := ⟨_, rfl⟩
  have hnone : (layers halfListed).toOption.isNone = true := by decide +kernel
  obtain ⟨hlisting, -, hfault⟩ := layers_of_read hv
  cases hl : layers halfListed with
  | ok ds =>
    rw [hl] at hnone
    cases hnone
  | error e =>
    refine ⟨v, e, hv, ?_, rfl, (hfault e hl).1⟩
    intro h
    obtain ⟨ds, hds⟩ := hlisting.mpr h
    rw [hl] at hds
    cases hds

end Manifest

end LegacyImage
