import LegacyImage.Proofs.Gzip.Member
import LegacyImage.Proofs.Layer.Outcome
import LegacyImage.Proofs.Session.Steps
import LegacyImage.Proofs.Store.OpenFile

/-!
Layers whose blob was cut short. Where the blob is part of a gzip member, and not all of it nor
nothing, there is no diff id and no uncompressed content, however the content is read; the layer
remembers nothing and the stream is closed (`Session.cut_short`). Of a blob of no bytes, nothing is
the whole content.
-/

namespace LegacyImage

namespace Store

variable {store : Store} {ref : Reference} {content : Bytes}

/-- What a store has under a reference. -/
def blob? (store : Store) (ref : Reference) : Option Bytes :=
  match store.kind with
  | .directory dir =>
    ref.digest?.bind fun d => (store.tree.openAt (dir.pathOf d)).toOption.bind fun place =>
      (store.tree.content place).toOption
  | _ => Table.get? store.blobs ref

theorem blob?_directory {dir : BlobDirectory} (hkind : store.kind = .directory dir)
    (h : store.blob? ref = some content) :
    ∃ d place, ref.digest? = some d ∧ store.tree.openAt (dir.pathOf d) = .ok place ∧
      store.tree.content place = .ok content := by
  have hof_some : ∀ {ε α : Type} {result : Except ε α} {a : α},
      result.toOption = some a → result = .ok a := by
    rintro ε α (e | a) a' h
    · cases h
    · exact congrArg Except.ok (Option.some.inj h)
  unfold blob? at h
  rw [hkind] at h
  obtain ⟨d, hd, hopened⟩ := Option.bind_eq_some_iff.mp h
  obtain ⟨place, hplace, hcontent⟩ := Option.bind_eq_some_iff.mp hopened
  exact ⟨d, place, hd, hof_some hplace, hof_some hcontent⟩

theorem blob?_memory (hkind : ∀ dir, store.kind ≠ .directory dir) :
    store.blob? ref = Table.get? store.blobs ref := by
  unfold blob?
  split
  · rename_i dir h
    exact absurd h (hkind dir)
  · rfl

/-- A store opens what it has, and gives all of it if its streams give anything at a time. -/
theorem openBlob_of_blob? (hmax : store.maxRead ≠ some 0) (h : store.blob? ref = some content) :
    ∃ opened store', store.openBlob ref = (.ok opened, store') ∧
      opened.blob.held store.tree = content ∧
      (store.failAt ≠ some 0 → content = [] → opened.blob.IsSound) := by
  by_cases hdirectory : ∃ dir, store.kind = .directory dir
  · obtain ⟨dir, hkind⟩ := hdirectory
    obtain ⟨d, place, hd, hplace, hcontent⟩ := blob?_directory hkind h
    obtain ⟨id, store', hopen, -⟩ := openBlob_of_openAt hkind hd hplace
    exact ⟨_, store', hopen, OpenBlob.held_file hcontent, fun _ _ => rfl⟩
  · have hkind : ∀ dir, store.kind ≠ .directory dir := fun dir h => hdirectory ⟨dir, h⟩
    rw [blob?_memory hkind] at h
    rw [openBlob_memory hkind, h]
    have hheld : (Stream.ofBytes content store.failAt store.maxRead).held = content := if_neg hmax
    refine ⟨_, _, rfl, hheld, ?_⟩
    rintro hfail rfl
    refine ⟨rfl, ?_⟩
    intro p hp
    rw [hheld]
    refine Nat.pos_of_ne_zero fun hzero => hfail ?_
    rw [← hzero]
    exact hp

theorem tree_of_openBlob {opened : Opened} {store' : Store}
    (h : store.openBlob ref = (.ok opened, store')) : store.tree = store'.tree := by
  have hagrees := store.agrees_openBlob ref
  rw [h] at hagrees
  exact hagrees.tree

end Store

/-! ## Content that is no gzip file -/

namespace Layer

variable {store store' : Store} {inner : Layer} {opened : Store.Opened}

/-- Whether the diff id of a blob can be computed or not, the blob is closed. -/
theorem closed_diffId [Room] (chunkSize : Int)
    (hopen : store.openBlob inner.reference = (.ok opened, store')) :
    ((derived inner none).diffId chunkSize store).2.2.closed = store.closed.push true := by
  obtain ⟨e, store₁, h, -⟩ | ⟨opened₁, store₁, h, hid, -, hclosed⟩ :=
    store.openBlob_cases inner.reference
  · rw [hopen] at h
    cases h
  · unfold diffId uncompressed
    dsimp only
    rw [compressed_eq_openBlob, h]
    dsimp only
    split <;> exact Store.closed_close hid hclosed

/-- What is computed of a blob is the digest of what it holds. -/
theorem exists_content_of_openBlob [Room] {chunkSize : Int} (hsize : chunkSize ≠ 0)
    {ref : Reference}
    (hopen : store.openBlob ref = (.ok opened, store')) {d : Digest}
    (h : computed chunkSize store ref = .ok d) :
    ∃ u, Gzip.content (opened.blob.held store.tree) = .ok u ∧ d = .ofBytes u := by
  unfold computed at h
  rw [hopen] at h
  dsimp only at h
  split at h
  · cases h
  · rename_i tally htally
    cases h
    exact content_of_tallyOf hsize htally

theorem computed_of_content_error [Room] {chunkSize : Int} (hsize : chunkSize ≠ 0) {ref : Reference}
    (hopen : store.openBlob ref = (.ok opened, store')) {f : Gzip.Fault}
    (h : Gzip.content (opened.blob.held store.tree) = .error f) :
    ∃ e, computed chunkSize store ref = .error e := by
  cases hcomputed : computed chunkSize store ref with
  | error e => exact ⟨e, rfl⟩
  | ok d =>
    obtain ⟨u, hu, -⟩ := exists_content_of_openBlob hsize hopen hcomputed
    rw [h] at hu
    cases hu

theorem uncompressed_of_openBlob (hopen : store.openBlob inner.reference = (.ok opened, store'))
    (m : Option Digest) :
    (derived inner m).uncompressed store =
      (.ok ⟨opened.id, .start opened.blob⟩, store') := by
  unfold uncompressed
  dsimp only
  rw [compressed_eq_openBlob, hopen]

theorem readToEnd_of_content_error [Room] {size : Int} (hsize : size ≠ 0)
    (hopen : store.openBlob inner.reference = (.ok opened, store')) {f : Gzip.Fault}
    (h : Gzip.content (opened.blob.held store.tree) = .error f) (m : Option Digest) :
    ∃ e, (derived inner m).readToEnd store size = .error e := by
  have htree := Store.tree_of_openBlob hopen
  have htally := tallyOf_map_digest store'.tree size (.start opened.blob)
  unfold readToEnd
  rw [uncompressed_of_openBlob hopen]
  dsimp only
  cases hread : ((Gzip.Uncompressed.reader (OpenBlob.reader store'.tree)).readAll size
      (.start opened.blob)).1 with
  | error e => exact ⟨_, rfl⟩
  | ok w =>
    rw [hread] at htally
    cases htally' : tallyOf store'.tree size (.start opened.blob) with
    | error e =>
      rw [htally'] at htally
      cases htally
    | ok tally =>
      obtain ⟨u, hu, -⟩ := content_of_tallyOf hsize htally'
      rw [← htree, h] at hu
      cases hu

end Layer

namespace Session

variable {s : Session} {k : Nat} {inner : Layer} {opened : Store.Opened} {store' : Store}

/-- A layer whose blob is no gzip file has no diff id, and remembers none. -/
theorem step_diffId_of_content_error [Room] (hlayer : s.layers[k]? = some (.derived inner none))
    (hsize : s.chunkSize ≠ 0) (hopen : s.store.openBlob inner.reference = (.ok opened, store'))
    {f : Gzip.Fault} (h : Gzip.content (opened.blob.held s.store.tree) = .error f) :
    (∃ e, (s.step (.layer k .diffId)).1 = .failed e) ∧
      (s.step (.layer k .diffId)).2.layers = s.layers ∧
      (s.step (.layer k .diffId)).2.store.closed = s.store.closed.push true := by
  obtain ⟨e, he⟩ := Layer.computed_of_content_error hsize hopen h
  obtain ⟨hanswer, hafter, -, -⟩ := Layer.diffId_derived_none s.chunkSize s.store inner
  rw [step_diffId hlayer, hanswer, hafter, he]
  obtain ⟨hk, hget⟩ := List.getElem?_eq_some_iff.mp hlayer
  refine ⟨⟨e, rfl⟩, ?_, Layer.closed_diffId s.chunkSize hopen⟩
  dsimp only [Layer.remembering]
  rw [← hget, List.set_getElem_self]

theorem step_uncompressed_of_content_error [Room]
    (hlayer : s.layers[k]? = some (.derived inner none))
    (hopen : s.store.openBlob inner.reference = (.ok opened, store')) {f : Gzip.Fault}
    (h : Gzip.content (opened.blob.held s.store.tree) = .error f) :
    ∃ e, (s.step (.layer k .uncompressed)).1 = .failed e := by
  have htree := Store.tree_of_openBlob hopen
  have hbytes : ∀ w, (s.step (.layer k .uncompressed)).1 ≠ .bytes w := by
    intro w hw
    rw [step_layer s hlayer] at hw
    obtain ⟨_, _, heq, hread⟩ := (readUncompressed_eq_bytes_iff s _ w).mp hw
    rw [Layer.uncompressed_of_openBlob hopen] at heq
    cases heq
    obtain ⟨-, hcontent⟩ := (Gzip.Uncompressed.read_start_eq_ok_iff _ _ w).mp hread
    rw [← htree, h] at hcontent
    cases hcontent
  have hstep : (s.step (.layer k .uncompressed)).1 =
      bytesOutcome ((Handle.uncompressed opened.id (.start opened.blob)).read store'.tree (-1)).1 := by
    rw [step_layer s hlayer]
    dsimp only [callLayer, readUncompressed]
    rw [Layer.uncompressed_of_openBlob hopen]
  cases hread : ((Handle.uncompressed opened.id (.start opened.blob)).read store'.tree (-1)).1 with
  | error e =>
    rw [hread] at hstep
    exact ⟨e, hstep⟩
  | ok w =>
    rw [hread] at hstep
    exact absurd hstep (hbytes w)

/-- The diff id of a blob that holds nothing is that of nothing. -/
theorem step_diffId_of_held_nil [Room] (hlayer : s.layers[k]? = some (.derived inner none))
    (hn : 0 < s.chunkSize) (hroom : s.chunkSize < Room.bound)
    (hopen : s.store.openBlob inner.reference = (.ok opened, store'))
    (hheld : opened.blob.held s.store.tree = []) (hsound : opened.blob.IsSound) :
    (s.step (.layer k .diffId)).1 = .text (some (Digest.ofBytes []).toText) := by
  have htree := Store.tree_of_openBlob hopen
  have htwo : ((OpenBlob.reader s.store.tree).read 2 opened.blob).1 = .ok (([] : Bytes).take 2) := by
    obtain ⟨piece, b', hread⟩ := OpenBlob.read_of_isSound s.store.tree (by decide : (0 : Int) ≤ 2)
      (Room.lt_bound (by decide)) hsound
    have hsplit := (OpenBlob.held_read s.store.tree (by decide) hread).1
    rw [hheld] at hsplit
    obtain ⟨rfl, -⟩ := List.append_eq_nil_iff.mp hsplit.symm
    exact congrArg Prod.fst hread
  have hread : ((Gzip.Uncompressed.start opened.blob).read (OpenBlob.reader s.store.tree) (-1)).1 =
      .ok [] := Gzip.Uncompressed.read_start_eq hsound hheld htwo
  rw [step_layer s hlayer, callLayer_diffId_eq_text_iff]
  refine ⟨.ofBytes [], (Layer.diffId_eq_ok_iff hn s.store inner _).mpr ⟨hroom, _, _, [],
    Layer.uncompressed_of_openBlob hopen none, ?_, rfl⟩, rfl⟩
  rw [← htree]
  exact hread

/-- A layer that is derived from a part of a gzip member, for a store whose streams give anything at a
time. It has a diff id only if the part is empty, and then that of nothing, provided that there is room
for a piece and the stream does not fail at once. Of a part that is not empty there is no diff id and
nothing is remembered, while the stream is closed all the same, and the uncompressed content cannot be
read to the end, neither at once nor in pieces. -/
theorem cut_short [Room] (hlayer : s.layers[k]? = some (.derived inner none))
    (hmax : s.store.maxRead ≠ some 0) (hn : 0 < s.chunkSize) (m : Gzip.Member) {p : Bytes}
    (hp : p <+: m.toBytes) (hne : p ≠ m.toBytes) (hblob : s.store.blob? inner.reference = some p) :
    (∀ t, (s.step (.layer k .diffId)).1 = .text t →
      p = [] ∧ t = some (Digest.ofBytes []).toText) ∧
    (p = [] → s.chunkSize < Room.bound → s.store.failAt ≠ some 0 →
      (s.step (.layer k .diffId)).1 = .text (some (Digest.ofBytes []).toText)) ∧
    (p ≠ [] →
      (∃ e, (s.step (.layer k .diffId)).1 = .failed e) ∧
      (s.step (.layer k .diffId)).2.layers = s.layers ∧
      (s.step (.layer k .diffId)).2.store.closed = s.store.closed.push true ∧
      (∃ e, (s.step (.layer k .uncompressed)).1 = .failed e) ∧
      ∀ size : Int, 0 < size →
        ∃ e, (Layer.derived inner none).readToEnd s.store size = .error e) := by
  obtain ⟨opened, store', hopen, rfl, hsound⟩ := Store.openBlob_of_blob? hmax hblob
  refine ⟨?_, ?_, ?_⟩
  · intro t ht
    by_cases hnil : opened.blob.held s.store.tree = []
    · rw [step_layer s hlayer, callLayer_diffId_eq_text_iff,
        (Layer.diffId_derived_none s.chunkSize s.store inner).1] at ht
      obtain ⟨d, hd, rfl⟩ := ht
      obtain ⟨u, hu, rfl⟩ := Layer.exists_content_of_openBlob (Int.ne_of_gt hn) hopen hd
      rw [hnil, Gzip.content_nil] at hu
      cases hu
      exact ⟨hnil, rfl⟩
    · obtain ⟨f, hf⟩ := m.content_of_cut hp hne hnil
      obtain ⟨⟨e, he⟩, -⟩ := step_diffId_of_content_error hlayer (Int.ne_of_gt hn) hopen hf
      rw [he] at ht
      cases ht
  · intro hnil hroom hfail
    exact step_diffId_of_held_nil hlayer hn hroom hopen hnil (hsound hfail hnil)
  · intro hnil
    obtain ⟨f, hf⟩ := m.content_of_cut hp hne hnil
    obtain ⟨hfailed, hlayers, hclosed⟩ :=
      step_diffId_of_content_error hlayer (Int.ne_of_gt hn) hopen hf
    exact ⟨hfailed, hlayers, hclosed, step_uncompressed_of_content_error hlayer hopen hf,
      fun size hsize => Layer.readToEnd_of_content_error (Int.ne_of_gt hsize) hopen hf none⟩

/-- The file that holds the letter a, as a member. -/
def letterMember : Gzip.Member where
  header :=
    { flags := 0
      origin := [0, 0, 0, 0, 0, 0xFF]
      extra := []
      name := []
      comment := []
      check := [0, 0]
      length_origin := rfl
      length_extra := by decide
      zero_not_mem_name := List.not_mem_nil
      zero_not_mem_comment := List.not_mem_nil
      length_check := rfl }
  data :=
    { bytes := [1, 1, 0, 0xFE, 0xFF, 0x61]
      done := rfl
      not_done := by
        intro n hn
        match n, hn with
        | 0, _ | 1, _ | 2, _ | 3, _ | 4, _ | 5, _ => exact nofun }

theorem toBytes_letterMember : letterMember.toBytes = letterFile := by decide

/-- All of that file but the last byte. -/
theorem cut_short_letterFile :
    let letter := some (Text.ofString "letter")
    let s := ((start 3 (.ofKind .memory none none)).run
      [.putAs letter (letterFile.take 23), .storedLayer letter, .derive 0]).2
    (∃ e, (s.step (.layer 1 .diffId)).1 = .failed e) ∧
      (s.step (.layer 1 .diffId)).2.store.closed = #[true] ∧
      ∃ e, (s.step (.layer 1 .uncompressed)).1 = .failed e := by
  intro letter s
  have hp : letterFile.take 23 <+: letterMember.toBytes := by
    rw [toBytes_letterMember]
    exact List.take_prefix 23 letterFile
  have hne : letterFile.take 23 ≠ letterMember.toBytes := by
    rw [toBytes_letterMember]
    decide
  have hlayer : s.layers[1]? = some (.derived (.stored letter) none) := rfl
  obtain ⟨-, -, hcut⟩ :=
    cut_short hlayer (by decide) (by decide) letterMember hp hne rfl
  obtain ⟨hdiffId, -, hclosed, huncompressed, -⟩ := hcut (by decide)
  exact ⟨hdiffId, hclosed, huncompressed⟩

end Session

end LegacyImage
