import LegacyImage.Proofs.Gzip.Joining
import LegacyImage.Proofs.Layer.Delivery

/-!
Blobs one after the other. A layer derived from two blobs with zero bytes between them has what the
first holds and then what the second holds, and the diff id of that (`Session.uncompressed_join`). An
empty second blob leaves the zero bytes at the end of the first.
-/

namespace LegacyImage.Session

variable {s : Session} {i j k : Nat} {first second both : Layer} {m₁ m₂ m₃ : Option Digest}
  {a b u w : Bytes}

/-- What a layer gives at once of a blob that is delivered is what the blob holds. -/
theorem content_of_uncompressed [Room] (hlayer : s.layers[k]? = some (.derived both m₃))
    {opened : Store.Opened} {store' : Store}
    (hopen : s.store.openBlob both.reference = (.ok opened, store'))
    (h : opened.blob.Delivers s.store.tree a) (hu : (s.step (.layer k .uncompressed)).1 = .bytes u) :
    Gzip.content a = .ok u := by
  rw [step_uncompressed hlayer hopen h] at hu
  cases hcontent : Gzip.content a with
  | error f =>
    rw [hcontent] at hu
    cases hu
  | ok v =>
    rw [hcontent] at hu
    cases hu
    rfl

/-- What the blob of a layer holds that delivers two others which a layer gives at once, with zero bytes
between them. Where streams give nothing at a time, that is nothing. -/
theorem exists_content_join [Room] (count : Nat) (hi : s.layers[i]? = some (.derived first m₁))
    (hj : s.layers[j]? = some (.derived second m₂))
    (ha : s.store.blob? first.reference = some a) (hb : s.store.blob? second.reference = some b)
    (hboth : s.store.blob? both.reference = some (a ++ List.replicate count 0 ++ b)) (hne : a ≠ [])
    (hu : (s.step (.layer i .uncompressed)).1 = .bytes u)
    (hw : (s.step (.layer j .uncompressed)).1 = .bytes w)
    (hend : s.store.ReachesEnd (a ++ List.replicate count 0 ++ b)) :
    ∃ opened store' file, s.store.openBlob both.reference = (.ok opened, store') ∧
      opened.blob.Delivers s.store.tree file ∧ Gzip.content file = .ok (u ++ w) := by
  have henda : s.store.ReachesEnd a := hend.of_length_le (by simp only [List.length_append]; omega)
  have hendb : s.store.ReachesEnd b := hend.of_length_le (by simp only [List.length_append]; omega)
  obtain hpairs | ⟨hkind, hzero | hone⟩ := s.store.givesPairs_or
  · obtain ⟨opened, store', hopen, h⟩ := Store.exists_delivers hboth hend hpairs
    obtain ⟨opened₁, store₁, hopen₁, h₁⟩ := Store.exists_delivers ha henda hpairs
    obtain ⟨opened₂, store₂, hopen₂, h₂⟩ := Store.exists_delivers hb hendb hpairs
    exact ⟨opened, store', _, hopen, h, Gzip.content_join hne
      (content_of_uncompressed hi hopen₁ h₁ hu) (content_of_uncompressed hj hopen₂ h₂ hw) count⟩
  · obtain ⟨opened, store', hopen, h⟩ := Store.exists_delivers_nil hkind hzero hboth hend
    obtain ⟨opened₁, store₁, hopen₁, h₁⟩ := Store.exists_delivers_nil hkind hzero ha henda
    obtain ⟨opened₂, store₂, hopen₂, h₂⟩ := Store.exists_delivers_nil hkind hzero hb hendb
    obtain rfl := Except.ok.inj (content_of_uncompressed hi hopen₁ h₁ hu)
    obtain rfl := Except.ok.inj (content_of_uncompressed hj hopen₂ h₂ hw)
    exact ⟨opened, store', [], hopen, h, rfl⟩
  · -- the first blob, which is not empty, would begin with its first byte alone
    obtain ⟨opened₁, store₁, hopen₁, hshort⟩ := Store.exists_startsShort hkind hone ha henda
    obtain ⟨byte, rest, rfl⟩ := List.exists_cons_of_ne_nil hne
    rw [step_uncompressed_of_startsShort hi hopen₁ hshort] at hu
    cases hu

/-- Of two blobs that layers give at once, the first not empty, a layer that is derived from both with
any number of zero bytes between them gives one content after the other, provided that the streams of
the store come to the end of all this before they fail. If there is room for a piece, the diff id is
that of one content after the other. -/
theorem uncompressed_join [Room] (count : Nat) (hi : s.layers[i]? = some (.derived first m₁))
    (hj : s.layers[j]? = some (.derived second m₂))
    (hk : s.layers[k]? = some (.derived both m₃))
    (ha : s.store.blob? first.reference = some a) (hb : s.store.blob? second.reference = some b)
    (hboth : s.store.blob? both.reference = some (a ++ List.replicate count 0 ++ b)) (hne : a ≠ [])
    (hu : (s.step (.layer i .uncompressed)).1 = .bytes u)
    (hw : (s.step (.layer j .uncompressed)).1 = .bytes w)
    (hend : s.store.ReachesEnd (a ++ List.replicate count 0 ++ b)) :
    (s.step (.layer k .uncompressed)).1 = .bytes (u ++ w) ∧
      (m₃ = none → 0 < s.chunkSize → s.chunkSize < Room.bound →
        (s.step (.layer k .diffId)).1 = .text (some (Digest.ofBytes (u ++ w)).toText)) := by
  obtain ⟨opened, store', file, hopen, h, hcontent⟩ :=
    exists_content_join count hi hj ha hb hboth hne hu hw hend
  refine ⟨?_, ?_⟩
  · rw [step_uncompressed hk hopen h, hcontent]
    rfl
  · rintro rfl hn hroom
    rw [step_diffId_of_delivers hk hn hroom hopen h, hcontent]

/-- A store in memory with a file that holds the letter a, and with that file twice and zero bytes
between, each with a layer derived from it. -/
def twiceSession [Room] (chunkSize : Int) (failAt : Option Nat) : Session :=
  let once := some (Text.ofString "once")
  let twice := some (Text.ofString "twice")
  ((start chunkSize (.ofKind .memory failAt none)).run
    [.putAs once letterFile, .storedLayer once, .derive 0,
      .putAs twice (letterFile ++ List.replicate 2 0 ++ letterFile), .storedLayer twice,
      .derive 2]).2

theorem uncompressed_twiceSession [Room] (chunkSize : Int) {failAt : Option Nat}
    (hfail : ∀ p, failAt = some p → letterFile.length < p) :
    ((twiceSession chunkSize failAt).step (.layer 1 .uncompressed)).1 = .bytes [0x61] := by
  have hblob : (twiceSession chunkSize failAt).store.blob? (some (Text.ofString "once")) =
      some letterFile := rfl
  obtain ⟨opened, store', hopen, h⟩ :=
    Store.exists_delivers hblob (fun _ => hfail) (fun _ => nofun)
  exact step_uncompressed rfl hopen h

theorem uncompressed_join_letterFile :
    ((twiceSession 3 none).step (.layer 3 .uncompressed)).1 = .bytes [0x61, 0x61] ∧
      ((twiceSession 3 none).step (.layer 3 .diffId)).1 =
        .text (some (Digest.ofBytes [0x61, 0x61]).toText) := by
  have hnever : ∀ p, (none : Option Nat) = some p → letterFile.length < p := nofun
  have hone := uncompressed_twiceSession 3 hnever
  obtain ⟨huncompressed, hdiffId⟩ := uncompressed_join (k := 3) 2 rfl rfl rfl rfl rfl rfl
    (by decide) hone hone (fun _ => nofun)
  exact ⟨huncompressed, hdiffId rfl (by decide) (by decide)⟩

/-- If there is no room for a piece, the content of both files has no diff id, and if the stream fails
between the end of the first file and the end of both, there is no such content. -/
theorem join_of_noRoom_or_failure :
    (twiceSession (2 ^ 63) none).layers[1]? =
        some (.derived (.stored (some (Text.ofString "once"))) none) ∧
      (twiceSession (2 ^ 63) none).layers[3]? =
        some (.derived (.stored (some (Text.ofString "twice"))) none) ∧
      (twiceSession (2 ^ 63) none).store.blob? (some (Text.ofString "once")) = some letterFile ∧
      (twiceSession (2 ^ 63) none).store.blob? (some (Text.ofString "twice")) =
        some (letterFile ++ List.replicate 2 0 ++ letterFile) ∧
      0 < (twiceSession (2 ^ 63) none).chunkSize ∧
      ((twiceSession (2 ^ 63) none).step (.layer 1 .uncompressed)).1 = .bytes [0x61] ∧
      (∀ t, ((twiceSession (2 ^ 63) none).step (.layer 3 .diffId)).1 ≠ .text t) ∧
      ((twiceSession 3 (some 30)).step (.layer 1 .uncompressed)).1 = .bytes [0x61] ∧
      ∀ w, ((twiceSession 3 (some 30)).step (.layer 3 .uncompressed)).1 ≠ .bytes w := by
  have hnever : ∀ p, (none : Option Nat) = some p → letterFile.length < p := nofun
  have hlater : ∀ p, (some 30 : Option Nat) = some p → letterFile.length < p := by
    intro p hp
    rw [← Option.some.inj hp]
    decide
  refine ⟨rfl, rfl, rfl, rfl, by decide, uncompressed_twiceSession (2 ^ 63) hnever,
    step_diffId_of_noRoom rfl (by decide), uncompressed_twiceSession 3 hlater,
    step_uncompressed_of_failure rfl rfl rfl rfl (by decide)⟩

end LegacyImage.Session
