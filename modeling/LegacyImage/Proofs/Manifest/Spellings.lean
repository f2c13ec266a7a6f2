import LegacyImage.Proofs.Json.Detection
import LegacyImage.Proofs.Manifest.Listing

/-!
Manifests however they are written. The layers are those of the last list under its name, each of
them told by the last digest under its name, whatever else is in the document and however its white
space and its strings are written (`layers_of_written`).
-/

namespace LegacyImage

namespace Json

/-- The last of the values that an object as it is written has under a name. -/
def last? (ms : List (Text × Json)) (name : Text) : Option Json := Table.get? ms.reverse name

theorem get?_mergedMembers (ms : List (Text × Json)) (name : Text) :
    Table.get? (mergedMembers ms) name = (Table.get? ms name).map merged := by
  induction ms with
  | nil => rfl
  | cons m rest ih =>
    obtain ⟨k, v⟩ := m
    rw [mergedMembers, List.map_cons, Table.get?_cons, Table.get?_cons, ← mergedMembers, ih]
    split <;> rfl

/-- The last value stays. -/
theorem get?_merged (ms : List (Text × Json)) (name : Text) :
    Table.get? (Table.ofEntries (mergedMembers ms)) name = (last? ms name).map merged := by
  rw [Table.get?_ofEntries, last?, ← get?_mergedMembers, mergedMembers, mergedMembers,
    List.map_reverse]

end Json

namespace Manifest

/-- What an entry as it is written has to do with a text: it is an object, and the last value that it
has under the name of the digest is the text. -/
def HasSum (entry : Json) (sum : Text) : Prop :=
  ∃ ms, entry = .object ms ∧ Json.last? ms (Text.ofString "blobSum") = some (.str sum)

theorem blobSum?_merged {entry : Json} {sum : Text} (h : HasSum entry sum) :
    entry.merged.blobSum? = some sum := by
  obtain ⟨ms, rfl, hlast⟩ := h
  rw [Json.merged_object, Json.blobSum?, Json.get?_merged, hlast]
  rfl

/-- Entries with digests under their names name these digests. -/
theorem exists_names_of_hasSum {entries : List Json} {sums : List Text}
    (h : List.Forall₂ HasSum entries sums) (hspelled : ∀ sum ∈ sums, Digest.IsSpelled sum) :
    ∃ ds, List.Forall₂ Names (entries.map Json.merged) ds ∧
      ds.map Digest.toText = sums.map Text.lowerHex := by
  induction h with
  | nil => exact ⟨[], .nil, rfl⟩
  | @cons entry sum entries sums hsum _ ih =>
    obtain ⟨hfirst, hrest⟩ := List.forall_mem_cons.mp hspelled
    obtain ⟨d, hd⟩ := Digest.exists_parse?_of_isSpelled hfirst
    have htext : d.toText = sum.lowerHex := (Digest.isSpelled_of_parse? hd).2
    obtain ⟨ds, hds, htexts⟩ := ih hrest
    refine ⟨d :: ds, .cons ⟨sum, blobSum?_merged hsum, hfirst, htext⟩ hds, ?_⟩
    rw [List.map_cons, List.map_cons, htext, htexts]

/-- The layers of a document in UTF-8 are the digests, in lowercase, that its last list of layers
has in its entries, for every way to write it. -/
theorem layers_of_written {ms : List (Text × Json)} {entries : List Json} {sums : List Text}
    {mark : Bytes} {before t after : Text} (hmark : Json.IsMark mark) (hbefore : Json.IsBlank before)
    (hafter : Json.IsBlank after) (h : Json.Written (.value (.object ms)) t)
    (hfits : (Json.object ms).Fits Json.maxDepth)
    (hlist : Json.last? ms (Text.ofString "fsLayers") = some (.array entries))
    (hsums : List.Forall₂ HasSum entries sums) (hspelled : ∀ sum ∈ sums, Digest.IsSpelled sum) :
    ∃ ds, layers (mark ++ Utf8.encodeAll (before ++ (t ++ after))) = .ok ds ∧
      ds.map Digest.toText = sums.map Text.lowerHex := by
  have hread := Json.read_of_written hmark hbefore hafter h hfits
  have hlayers : (Json.object ms).merged.fsLayers? = some (.array (entries.map Json.merged)) := by
    rw [Json.merged_object, Json.fsLayers?, Json.get?_merged, hlist, Option.map_some,
      Json.merged_array]
  obtain ⟨ds, hnames, htexts⟩ := exists_names_of_hasSum hsums hspelled
  refine ⟨ds, ?_, htexts⟩
  simp only [layers, hread]
  rw [layersOf_of_array hlayers]
  exact entryDigests_eq_ok_iff.mpr ⟨ds, rfl, hnames⟩

/-- A digest in capitals. -/
def capitalSum : Text := Text.ofString "sha256:" ++ List.replicate 64 (CodePoint.ofChar 'A')

theorem isSpelled_capitalSum : Digest.IsSpelled capitalSum := by
  refine ⟨.sha256, List.replicate 64 (CodePoint.ofChar 'A'), rfl, List.length_replicate, ?_⟩
  intro c hc
  rw [List.eq_of_mem_replicate hc]
  decide

/-- A number in place of the list, and the list, whose entry has a null in place of its digest, and
its digest. -/
def respelled : List (Text × Json) :=
  [(Text.ofString "fsLayers", .int 7),
   (Text.ofString "fsLayers", .array [.object [(Text.ofString "blobSum", .null),
     (Text.ofString "blobSum", .str capitalSum)]])]

/-- These members with white space, and with an escape in a name. -/
def respelledText : Text :=
  Text.ofString "\x7b\"fsLayers\" : 7,\n\"fs\\u004Cayers\":[" ++
    Text.ofString "\x7b\"blobSum\":null,\"blobSum\":\"" ++ capitalSum ++ Text.ofString "\"\x7d]\x7d"

theorem written_respelled : Json.Written (.value (.object respelled)) respelledText := by
  have hnone := Json.isBlank_nil
  have hspace : Json.IsBlank (Text.ofString " ") := List.all_eq_true.mp rfl
  have hnewline : Json.IsBlank (Text.ofString "\n") := List.all_eq_true.mp rfl
  have hblobSum : Json.WrittenPieces _ (Text.ofString "blobSum") := Json.writtenPieces_plain rfl
  have hfsLayers : Json.WrittenPieces _ (Text.ofString "fsLayers") := Json.writtenPieces_plain rfl
  have hsum : Json.WrittenPieces _ capitalSum := Json.writtenPieces_plain rfl
  have hfs : Json.WrittenPieces _ (Text.ofString "fs") := Json.writtenPieces_plain rfl
  have hl : Json.WrittenPiece ⟨↑ 'L', true⟩ (↑ '\\' :: ↑ 'u' :: Text.ofString "004C") :=
    @Json.WrittenPiece.number _ 0x4C rfl rfl
  have hayers : Json.WrittenPieces _ (Text.ofString "ayers") := Json.writtenPieces_plain rfl
  have hnumber := Json.written_member hfsLayers (Json.Piece.joined_map_plain _) hspace hspace
    (.number ⟨false, 7, [], none, nofun⟩)
  have hnull := Json.written_member hblobSum (Json.Piece.joined_map_plain _) hnone hnone
    (.keyword List.mem_cons_self)
  have hdigest := Json.written_member hblobSum (Json.Piece.joined_map_plain _) hnone hnone
    (Json.written_str hsum (Json.Piece.joined_map_plain _))
  have hentry := Json.Written.object (.nextMember hnone hnull hnone (.lastMember hnone hdigest hnone))
  have hlist := Json.written_member (hfs.append (.cons hl hayers)) rfl hnone hnone
    (.array (.lastItem hnone hentry hnone))
  exact .object (.nextMember hnone hnumber hnone (.lastMember hnewline hlist hnone))

theorem layers_of_written_respelled :
    ∃ ds, layers (Json.utf8Mark ++ Utf8.encodeAll (Text.ofString "\n" ++ (respelledText ++ []))) =
        .ok ds ∧ ds.map Digest.toText = [capitalSum.lowerHex] := by
  have hnewline : Json.IsBlank (Text.ofString "\n") := List.all_eq_true.mp rfl
  have hshort : (Json.object respelled).Each Json.IsShort := by
    have hseven : (Text.ofNat 7).length ≤ Json.maxIntDigits := by decide
    simpa [Json.Each, Json.parts, Json.partsOfMembers, Json.partsOfItems, respelled,
      Json.IsShort] using hseven
  refine layers_of_written (.inr rfl) hnewline Json.isBlank_nil written_respelled
    ⟨by decide, hshort⟩ rfl (.cons ⟨_, rfl, rfl⟩ .nil) ?_
  simpa using isSpelled_capitalSum

end Manifest

end LegacyImage
