import LegacyImage.Proofs.Deflate.Stored
import LegacyImage.Proofs.Layer.Delivery

/-!
Layers whose blob is a gzip file that stores its content as it is, cut into blocks in any way and under
any header. With the checksum and the size of the content in its trailer the content is read back, and
its digest is the diff id; with any other trailer neither is given and nothing is remembered
(`Session.uncompressed_storedFile`).
-/

namespace LegacyImage

/-! ## Files -/

namespace Gzip

/-- A file of one member that stores its content, with a checksum and a size in its trailer. -/
def storedFile (header : Header) (blocks : Deflate.Stored) (sum : UInt32) (size : Nat) : Bytes :=
  0x1F :: 0x8B :: (header.rest ++ (blocks.toBytes ++ Member.trailerOf sum size))

/-- Such a file holds its content, if the trailer is right. -/
theorem content_storedFile (header : Header) (blocks : Deflate.Stored) (sum : UInt32) (size : Nat) :
    content (storedFile header blocks sum size) =
      if sum ≠ Checksum.ofBytes blocks.content then
        .error (.checksum sum (Checksum.ofBytes blocks.content))
      else if size % 2 ^ 32 ≠ blocks.content.length % 2 ^ 32 then .error .length
      else .ok blocks.content := by
  let m : Member := ⟨header, blocks.data⟩
  have hheld : (m.data.bytes.foldl Deflate.Inflater.feed .start).output.toList = blocks.content :=
    blocks.output_data
  have hsize : (m.data.bytes.foldl Deflate.Inflater.feed .start).output.size =
      blocks.content.length := by
    rw [← hheld, Array.length_toList]
  have hcontent := m.content_withTrailer (Member.length_trailerOf sum size)
  rw [Member.onTrailer_trailerOf, hheld, hsize] at hcontent
  refine hcontent.trans ?_
  split
  · rfl
  split
  · rfl
  · exact congrArg Except.ok blocks.output_data

end Gzip

/-! ## Layers -/

namespace Session

variable {s : Session} {k : Nat} {inner : Layer}

/-- What a caller of a layer gets whose blob stores its content, for a store whose streams come to the
end of the blob before they fail and give the first two bytes together. If the trailer is right, that
is the content, and its digest if there is room for a piece. Otherwise both fail with what is wrong with
the trailer, and nothing is remembered; if there is no room, the diff id fails all the same. -/
theorem uncompressed_storedFile [Room] (hlayer : s.layers[k]? = some (.derived inner none))
    (hn : 0 < s.chunkSize) (header : Gzip.Header) (blocks : Deflate.Stored) (sum : UInt32)
    (size : Nat)
    (hblob : s.store.blob? inner.reference = some (Gzip.storedFile header blocks sum size))
    (hend : s.store.ReachesEnd (Gzip.storedFile header blocks sum size))
    (hpairs : s.store.GivesPairs) :
    (sum = Checksum.ofBytes blocks.content →
      size % 2 ^ 32 = blocks.content.length % 2 ^ 32 →
      (s.step (.layer k .uncompressed)).1 = .bytes blocks.content ∧
        (s.chunkSize < Room.bound →
          (s.step (.layer k .diffId)).1 =
            .text (some (Digest.ofBytes blocks.content).toText))) ∧
    (sum ≠ Checksum.ofBytes blocks.content ∨
        size % 2 ^ 32 ≠ blocks.content.length % 2 ^ 32 →
      ∃ f : Gzip.Fault,
        (sum ≠ Checksum.ofBytes blocks.content ∧
            f = .checksum sum (Checksum.ofBytes blocks.content) ∨
          sum = Checksum.ofBytes blocks.content ∧ f = .length) ∧
          (s.step (.layer k .uncompressed)).1 = .failed f.told ∧
          (s.chunkSize < Room.bound →
            (s.step (.layer k .diffId)).1 = .failed f.told) ∧
          (∃ e, (s.step (.layer k .diffId)).1 = .failed e) ∧
          (s.step (.layer k .diffId)).2.layers = s.layers) := by
  obtain ⟨opened, store', hopen, h⟩ := Store.exists_delivers hblob hend hpairs
  have hcontent := Gzip.content_storedFile header blocks sum size
  refine ⟨?_, ?_⟩
  · intro hsum hsize
    rw [if_neg (not_not_intro hsum), if_neg (not_not_intro hsize)] at hcontent
    refine ⟨?_, ?_⟩
    · rw [step_uncompressed hlayer hopen h, hcontent]
      rfl
    · intro hroom
      rw [step_diffId_of_delivers hlayer hn hroom hopen h, hcontent]
  · intro hwrong
    obtain ⟨f, hf, hfault⟩ : ∃ f, (sum ≠ Checksum.ofBytes blocks.content ∧
          f = .checksum sum (Checksum.ofBytes blocks.content) ∨
        sum = Checksum.ofBytes blocks.content ∧ f = .length) ∧
        Gzip.content (Gzip.storedFile header blocks sum size) = .error f := by
      by_cases hsum : sum = Checksum.ofBytes blocks.content
      · rw [if_neg (not_not_intro hsum), if_pos (hwrong.resolve_left (not_not_intro hsum))]
          at hcontent
        exact ⟨_, Or.inr ⟨hsum, rfl⟩, hcontent⟩
      · rw [if_pos hsum] at hcontent
        exact ⟨_, Or.inl ⟨hsum, rfl⟩, hcontent⟩
    obtain ⟨hfailed, hlayers, -⟩ := step_diffId_of_content_error hlayer (Int.ne_of_gt hn) hopen
      (h.held ▸ hfault)
    refine ⟨f, hf, ?_, ?_, hfailed, hlayers⟩
    · rw [step_uncompressed hlayer hopen h, hfault]
      rfl
    · intro hroom
      rw [step_diffId_of_delivers hlayer hn hroom hopen h, hfault]

/-- The letter a as one stored block. -/
def storedLetter : Deflate.Stored := ⟨[], ⟨[0x61], 0, by decide⟩⟩

/-- A store in memory with a file, and a layer derived from it. -/
def fileSession [Room] (chunkSize : Int) (failAt maxRead : Option Nat) (file : Bytes) : Session :=
  let ref := some (Text.ofString "file")
  ((start chunkSize (.ofKind .memory failAt maxRead)).run
    [.putAs ref file, .storedLayer ref, .derive 0]).2

theorem storedFile_letter :
    Gzip.storedFile letterMember.header storedLetter 0xE8B7BE43 1 = letterFile := by decide

theorem uncompressed_storedFile_letter :
    ((fileSession 3 none none letterFile).step (.layer 1 .uncompressed)).1 = .bytes [0x61] ∧
      ((fileSession 3 none none letterFile).step (.layer 1 .diffId)).1 =
        .text (some (Digest.ofBytes [0x61]).toText) ∧
      ((fileSession 3 none none (Gzip.storedFile letterMember.header storedLetter 0xE8B7BE43 2)).step
        (.layer 1 .uncompressed)).1 = .failed (Gzip.Fault.told .length) := by
  have hsum : (0xE8B7BE43 : UInt32) = Checksum.ofBytes storedLetter.content := by decide
  have hlayer : ∀ file, (fileSession 3 none none file).layers[1]? =
      some (.derived (.stored (some (Text.ofString "file"))) none) := fun _ => rfl
  have hblob : ∀ file, (fileSession 3 none none file).store.blob? (some (Text.ofString "file")) =
      some file := fun _ => rfl
  obtain ⟨hright, -⟩ := uncompressed_storedFile (hlayer letterFile) (by decide)
    letterMember.header storedLetter 0xE8B7BE43 1
    ((hblob letterFile).trans (congrArg some storedFile_letter.symm)) (fun _ => nofun)
    (fun _ => nofun)
  obtain ⟨-, hwrong⟩ := uncompressed_storedFile (hlayer _) (by decide) letterMember.header
    storedLetter 0xE8B7BE43 2 (hblob _) (fun _ => nofun) (fun _ => nofun)
  obtain ⟨huncompressed, hdiffId⟩ := hright hsum rfl
  obtain ⟨f, ⟨hne, -⟩ | ⟨-, rfl⟩, hfailed, -⟩ := hwrong (Or.inr (by decide))
  · exact absurd hsum hne
  · exact ⟨huncompressed, hdiffId (by decide), hfailed⟩

/-- If there is no room for a piece there is no diff id, and streams that give one byte at a time, or fail
before the end, keep the content from being read at all. -/
theorem storedFile_of_noRoom_or_bad_stream :
    letterFile = Gzip.storedFile letterMember.header storedLetter
        (Checksum.ofBytes storedLetter.content) storedLetter.content.length ∧
      (fileSession (2 ^ 63) none none letterFile).layers[1]? =
        some (.derived (.stored (some (Text.ofString "file"))) none) ∧
      (fileSession (2 ^ 63) none none letterFile).store.blob? (some (Text.ofString "file")) =
        some letterFile ∧
      0 < (fileSession (2 ^ 63) none none letterFile).chunkSize ∧
      (∀ t, ((fileSession (2 ^ 63) none none letterFile).step (.layer 1 .diffId)).1 ≠ .text t) ∧
      (∀ w, ((fileSession 3 none (some 1) letterFile).step (.layer 1 .uncompressed)).1 ≠ .bytes w) ∧
      ∀ w, ((fileSession 3 (some 10) none letterFile).step (.layer 1 .uncompressed)).1 ≠ .bytes w := by
  refine ⟨by decide, rfl, rfl, by decide, step_diffId_of_noRoom rfl (by decide), ?_,
    step_uncompressed_of_failure rfl rfl rfl rfl (by decide)⟩
  intro w hw
  have hkind : ∀ dir, (fileSession 3 none (some 1) letterFile).store.kind ≠ .directory dir := by
    intro dir h
    cases h
  have hblob : (fileSession 3 none (some 1) letterFile).store.blob? (some (Text.ofString "file")) =
      some letterFile := rfl
  obtain ⟨opened, store', hopen, hshort⟩ :=
    Store.exists_startsShort hkind rfl hblob (fun _ => nofun)
  rw [step_uncompressed_of_startsShort rfl hopen hshort] at hw
  cases hw

end Session

end LegacyImage
