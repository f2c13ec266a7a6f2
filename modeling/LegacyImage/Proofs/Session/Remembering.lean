import LegacyImage.Proofs.Session.Steps

/-!
Diff ids over whole runs. What a layer remembers is always the first answer it gave
(`remembered_run`), so it answers the same ever after and asks the store for nothing. What it is
going to answer depends on itself and on what is stored, which no call on another layer touches
(`alike_run`).
-/

namespace LegacyImage.Session

variable {s s' : Session} {k : Nat}

/-! ## First answers -/

/-- The diff id that the layer of that number remembers, as a text. -/
def remembered (s : Session) (k : Nat) : Option Text :=
  (s.layers[k]?.bind Layer.remembered?).map Digest.toText

/-- The diff id that a step and its outcome are the answer of the layer of that number with. -/
def answer? (k : Nat) : Step × Outcome → Option Text
  | (.layer n .diffId, .text t) => if n = k then t else none
  | _ => none

/-- The first diff id with which the layer of that number answered. -/
def firstAnswer (k : Nat) (history : List (Step × Outcome)) : Option Text :=
  history.findSome? (answer? k)

theorem answer?_of_ne {step : Step} (h : step ≠ .layer k .diffId) (outcome : Outcome) :
    answer? k (step, outcome) = none := by
  unfold answer?
  split
  · rename_i n t he
    cases he
    refine if_neg ?_
    intro hn
    exact h (by rw [hn])
  · rfl

theorem remembered_of_layers_eq (h : s'.layers[k]? = s.layers[k]?) :
    s'.remembered k = s.remembered k := by
  rw [remembered, remembered, h]

/-- New layers remember nothing. -/
theorem Extends.remembered (h : s.Extends s') (k : Nat) : s'.remembered k = s.remembered k := by
  obtain ⟨fresh, hlayers, hfresh⟩ := h.layers
  by_cases hk : k < s.layers.length
  · refine remembered_of_layers_eq ?_
    rw [hlayers, List.getElem?_append_left hk]
  · have hnone : s.layers[k]? = none := List.getElem?_eq_none (Nat.not_lt.mp hk)
    rw [Session.remembered, Session.remembered, hnone, hlayers,
      List.getElem?_append_right (Nat.not_lt.mp hk)]
    cases hl : fresh[k - s.layers.length]? with
    | none => rfl
    | some l =>
      rw [Option.bind_some, hfresh l (List.mem_of_getElem? hl)]
      rfl

theorem layer_of_set {l : Layer} (hlayer : s.layers[k]? = some l) (l' : Layer) :
    (s.layers.set k l')[k]? = some l' := by
  obtain ⟨hlt, -⟩ := List.getElem?_eq_some_iff.mp hlayer
  exact List.getElem?_set_self hlt

/-- What a layer remembers after it was asked is what it remembered, or else its answer. -/
theorem remembered_step_diffId [Room] {l : Layer} (hlayer : s.layers[k]? = some l) :
    (s.step (.layer k .diffId)).2.remembered k =
      (s.remembered k).or
        (answer? k (.layer k .diffId, (s.step (.layer k .diffId)).1)) := by
  rw [step_diffId hlayer, remembered, remembered, hlayer, layer_of_set hlayer]
  cases l with
  | stored ref => rfl
  | derived inner m =>
    cases m with
    | some d => rfl
    | none =>
      obtain ⟨hanswer, hafter, -, -⟩ := Layer.diffId_derived_none s.chunkSize s.store inner
      rw [hanswer, hafter]
      cases Layer.computed s.chunkSize s.store inner.reference with
      | error e => rfl
      | ok d => exact (if_pos rfl).symm

/-- A step that asks for the diff id of a number without a layer. -/
theorem step_diffId_of_none [Room] {n : Nat} (h : s.layers[n]? = none) :
    s.step (.layer n .diffId) = (.failed (.noSuchEntry n), s) :=
  withEntry_of_none h s _

/-- Asking a layer for its diff id touches no other. -/
theorem layers_step_diffId_of_ne [Room] {n : Nat} (hn : n ≠ k) (s : Session) :
    (s.step (.layer n .diffId)).2.layers[k]? = s.layers[k]? := by
  cases hlayer : s.layers[n]? with
  | none => rw [step_diffId_of_none hlayer]
  | some l =>
    rw [step_diffId hlayer]
    exact List.getElem?_set_ne hn

theorem remembered_step [Room] (s : Session) (step : Step) (k : Nat) :
    (s.step step).2.remembered k =
      (s.remembered k).or (answer? k (step, (s.step step).1)) := by
  by_cases hk : step = .layer k .diffId
  · subst hk
    cases hlayer : s.layers[k]? with
    | none =>
      rw [step_diffId_of_none hlayer]
      exact (Option.or_none).symm
    | some l => exact remembered_step_diffId hlayer
  · rw [answer?_of_ne hk, Option.or_none]
    by_cases hstoring : step.IsStoring
    · rw [step_of_isStoring hstoring]
      rfl
    by_cases hdiffId : ∃ n, step = .layer n .diffId
    · obtain ⟨n, rfl⟩ := hdiffId
      have hn : n ≠ k := by
        intro h
        exact hk (by rw [h])
      exact remembered_of_layers_eq (layers_step_diffId_of_ne hn s)
    · exact (extends_step hstoring fun n h => hdiffId ⟨n, h⟩).remembered k

/-- What a layer remembers after a run is what it remembered before, or else its first answer. -/
theorem remembered_run [Room] (s : Session) (steps : List Step) (k : Nat) :
    (s.run steps).2.remembered k =
      (s.remembered k).or (firstAnswer k (steps.zip (s.run steps).1)) := by
  induction steps generalizing s with
  | nil => exact (Option.or_none).symm
  | cons first rest ih =>
    have hrun : s.run (first :: rest) =
        ((s.step first).1 :: ((s.step first).2.run rest).1, ((s.step first).2.run rest).2) := rfl
    rw [hrun, List.zip_cons_cons, firstAnswer, List.findSome?_cons, ih, remembered_step,
      Option.or_assoc]
    congr 1
    cases answer? k (first, (s.step first).1) <;> rfl

/-! ## What stays as it is -/

theorem isLike_step [Room] (s : Session) (step : Step) :
    (s.step step).2.chunkSize = s.chunkSize ∧ s.store.IsLike (s.step step).2.store := by
  by_cases hstoring : step.IsStoring
  · rw [step_of_isStoring hstoring]
    exact ⟨rfl, s.store.isLike_afterStoring step⟩
  by_cases hdiffId : ∃ n, step = .layer n .diffId
  · obtain ⟨n, rfl⟩ := hdiffId
    cases hlayer : s.layers[n]? with
    | none =>
      rw [step_diffId_of_none hlayer]
      exact ⟨rfl, rfl, rfl, rfl⟩
    | some l =>
      rw [step_diffId hlayer]
      exact ⟨rfl, (l.agrees_diffId s.chunkSize s.store).isLike⟩
  · have hext := extends_step (s := s) hstoring fun n h => hdiffId ⟨n, h⟩
    exact ⟨hext.chunkSize, hext.store.isLike⟩

theorem isLike_run [Room] (s : Session) (steps : List Step) :
    (s.run steps).2.chunkSize = s.chunkSize ∧ s.store.IsLike (s.run steps).2.store := by
  induction steps generalizing s with
  | nil => exact ⟨rfl, rfl, rfl, rfl⟩
  | cons first rest ih =>
    obtain ⟨hchunk, hlike⟩ := s.isLike_step first
    obtain ⟨hchunk', hlike'⟩ := ih (s.step first).2
    exact ⟨hchunk'.trans hchunk, hlike.trans hlike'⟩

/-! ## Sessions that are alike to a layer -/

/-- Sessions that differ in nothing that the layer of that number can tell. -/
structure Alike (k : Nat) (s s' : Session) : Prop where
  chunkSize : s.chunkSize = s'.chunkSize
  store : s.store.Agrees s'.store
  layer : s.layers[k]? = s'.layers[k]?
  isSome : s.layers[k]?.isSome

theorem Extends.layer (h : s.Extends s') (hk : s.layers[k]?.isSome) :
    s'.layers[k]? = s.layers[k]? := by
  obtain ⟨fresh, hlayers, -⟩ := h.layers
  rw [hlayers, List.getElem?_append_left]
  exact (List.getElem?_eq_some_iff.mp (Option.eq_some_of_isSome hk)).1

theorem Alike.symm (h : Alike k s s') : Alike k s' s :=
  ⟨h.chunkSize.symm, h.store.symm, h.layer.symm, h.layer ▸ h.isSome⟩

theorem Alike.trans {s'' : Session} (h : Alike k s s') (h' : Alike k s' s'') : Alike k s s'' :=
  ⟨h.chunkSize.trans h'.chunkSize, h.store.trans h'.store, h.layer.trans h'.layer, h.isSome⟩

/-- What neither stores nor asks a layer itself makes no difference to it. -/
theorem alike_step [Room] (hk : s.layers[k]?.isSome) {step : Step} (hstoring : ¬ step.IsStoring)
    (hne : step ≠ .layer k .diffId) : Alike k s (s.step step).2 := by
  by_cases hdiffId : ∃ n, step = .layer n .diffId
  · obtain ⟨n, rfl⟩ := hdiffId
    have hn : n ≠ k := by
      intro h
      exact hne (by rw [h])
    have hlayers := (layers_step_diffId_of_ne hn s).symm
    cases hlayer : s.layers[n]? with
    | none =>
      rw [step_diffId_of_none hlayer]
      exact ⟨rfl, .refl s.store, rfl, hk⟩
    | some l =>
      rw [step_diffId hlayer] at hlayers ⊢
      exact ⟨rfl, l.agrees_diffId s.chunkSize s.store, hlayers, hk⟩
  · have hext := extends_step (s := s) hstoring fun n h => hdiffId ⟨n, h⟩
    exact ⟨hext.chunkSize.symm, hext.store, (hext.layer hk).symm, hk⟩

/-- Sessions that are alike to a layer give the same answer for it and stay alike. -/
theorem Alike.step_diffId [Room] (h : Alike k s s') :
    (s.step (.layer k .diffId)).1 = (s'.step (.layer k .diffId)).1 ∧
      Alike k (s.step (.layer k .diffId)).2 (s'.step (.layer k .diffId)).2 := by
  obtain ⟨l, hlayer⟩ := Option.isSome_iff_exists.mp h.isSome
  have hlayer' : s'.layers[k]? = some l := h.layer.symm.trans hlayer
  obtain ⟨hanswer, hafter⟩ := Layer.diffId_congr h.store s.chunkSize l
  rw [Session.step_diffId hlayer, Session.step_diffId hlayer', ← h.chunkSize, hanswer, hafter]
  have hstore := (l.agrees_diffId s.chunkSize s.store).symm.trans
    (h.store.trans (l.agrees_diffId s.chunkSize s'.store))
  refine ⟨rfl, rfl, hstore, ?_, ?_⟩
  · dsimp only
    rw [layer_of_set hlayer, layer_of_set hlayer']
  · rw [layer_of_set hlayer]
    rfl

theorem Alike.step [Room] (h : Alike k s s') (step : Step) :
    Alike k (s.step step).2 (s'.step step).2 := by
  by_cases hk : step = .layer k .diffId
  · subst hk
    exact h.step_diffId.2
  by_cases hstoring : step.IsStoring
  · rw [step_of_isStoring hstoring, step_of_isStoring hstoring]
    exact ⟨h.chunkSize, Store.afterStoring_congr h.store step, h.layer, h.isSome⟩
  · exact (alike_step h.isSome hstoring hk).symm.trans
      (h.trans (alike_step h.symm.isSome hstoring hk))

theorem alike_run [Room] (h : Alike k s s') (steps : List Step) :
    Alike k (s.run steps).2 (s'.run steps).2 := by
  induction steps generalizing s s' with
  | nil => exact h
  | cons first rest ih => exact ih (h.step first)

/-! ## Answers over a run -/

/-- A layer that remembers its diff id gives it and asks for nothing. -/
theorem step_diffId_of_remembered [Room] {inner : Layer} {m : Option Digest} {t : Text}
    (hlayer : s.layers[k]? = some (.derived inner m)) (h : s.remembered k = some t) :
    s.step (.layer k .diffId) = (.text (some t), s) := by
  rw [remembered, hlayer] at h
  cases m with
  | none => cases h
  | some d =>
    cases h
    have hset : s.layers.set k (.derived inner (some d)) = s.layers := by
      obtain ⟨hlt, he⟩ := List.getElem?_eq_some_iff.mp hlayer
      rw [← he]
      exact List.set_getElem_self hlt
    rw [step_diffId hlayer]
    dsimp only [Layer.diffId]
    rw [hset]

/-- A layer that remembers nothing asks a store in memory for its blob once. -/
theorem step_diffId_of_not_remembered [Room] {inner : Layer} {m : Option Digest}
    (hlayer : s.layers[k]? = some (.derived inner m)) (h : s.remembered k = none)
    (hkind : ∀ dir, s.store.kind ≠ .directory dir) :
    (s.step (.layer k .diffId)).2.store.asked = s.store.asked.push inner.reference ∧
      ((∃ e, (s.step (.layer k .diffId)).1 = .failed e ∧
        (s.step (.layer k .diffId)).2.layers = s.layers) ∨
      ∃ d, (s.step (.layer k .diffId)).1 = .text (some d.toText) ∧
        Layer.computed s.chunkSize s.store inner.reference = .ok d) := by
  rw [remembered, hlayer] at h
  cases m with
  | some d => cases h
  | none =>
    obtain ⟨hanswer, hafter, -, hasked⟩ := Layer.diffId_derived_none s.chunkSize s.store inner
    rw [step_diffId hlayer, hanswer, hafter]
    refine ⟨hasked.trans (Layer.openBlob_of_memory hkind inner.reference).1, ?_⟩
    cases Layer.computed s.chunkSize s.store inner.reference with
    | error e =>
      refine Or.inl ⟨e, rfl, ?_⟩
      obtain ⟨hlt, he⟩ := List.getElem?_eq_some_iff.mp hlayer
      dsimp only [Layer.remembering]
      rw [← he]
      exact List.set_getElem_self hlt
    | ok d => exact Or.inr ⟨d, rfl, rfl⟩

/-- The diff id of a layer over a whole run. After its first answer it gives that answer for ever,
and asks the store for nothing. Before, it asks once for its blob and fails without a trace, or
answers with the digest of what the blob holds then. What it is going to answer is the same with or
without any step that neither stores nor asks the layer itself. -/
theorem diffId_over_run [Room] {chunkSize : Int} {kind : StoreKind} {failAt maxRead : Option Nat}
    (hkind : ∀ dir, kind ≠ .directory dir) {steps : List Step} {outcomes : List Outcome}
    (hrun : (start chunkSize (.ofKind kind failAt maxRead)).run steps = (outcomes, s))
    {inner : Layer} {m : Option Digest} (hlayer : s.layers[k]? = some (.derived inner m)) :
    (∀ t, firstAnswer k (steps.zip outcomes) = some t →
      s.step (.layer k .diffId) = (.text (some t), s)) ∧
    (firstAnswer k (steps.zip outcomes) = none →
      (s.step (.layer k .diffId)).2.store.asked = s.store.asked.push inner.reference ∧
      ((∃ e, (s.step (.layer k .diffId)).1 = .failed e ∧
        (s.step (.layer k .diffId)).2.layers = s.layers) ∨
      ∃ d : Digest, (s.step (.layer k .diffId)).1 = .text (some d.toText) ∧
        (0 < chunkSize → maxRead ≠ some 0 → ∃ content u,
          Table.get? s.store.blobs inner.reference = some content ∧
            Gzip.content content = .ok u ∧ d = .ofBytes u))) ∧
    ∀ step : Step, ¬ step.IsStoring → step ≠ .layer k .diffId → ∀ rest : List Step,
      (((s.step step).2.run rest).2.step (.layer k .diffId)).1 =
        ((s.run rest).2.step (.layer k .diffId)).1 := by
  have hremembered := remembered_run (start chunkSize (.ofKind kind failAt maxRead)) steps k
  obtain ⟨hchunk, hlike⟩ := isLike_run (start chunkSize (.ofKind kind failAt maxRead)) steps
  rw [hrun] at hremembered hchunk hlike
  have hfirst : s.remembered k = firstAnswer k (steps.zip outcomes) := hremembered
  have hkind' : ∀ dir, s.store.kind ≠ .directory dir := by
    intro dir h
    exact hkind dir (hlike.kind.trans h)
  refine ⟨?_, ?_, ?_⟩
  · intro t ht
    exact step_diffId_of_remembered hlayer (hfirst.trans ht)
  · intro hnone
    obtain ⟨hasked, hanswer⟩ :=
      step_diffId_of_not_remembered hlayer (hfirst.trans hnone) hkind'
    refine ⟨hasked, hanswer.imp_right ?_⟩
    rintro ⟨d, houtcome, hcomputed⟩
    refine ⟨d, houtcome, ?_⟩
    intro hn hmax
    have hn' : 0 < s.chunkSize := hchunk ▸ hn
    have hmax' : s.store.maxRead ≠ some 0 := by
      intro h
      exact hmax (hlike.maxRead.trans h)
    exact Layer.content_of_computed hkind' hmax' (Int.ne_of_gt hn') hcomputed
  · intro step hstoring hne rest
    have hk : s.layers[k]?.isSome := by
      rw [hlayer]
      rfl
    exact (alike_run (alike_step hk hstoring hne) rest).symm.step_diffId.1

/-- A layer that is asked before its blob is there. -/
def lateLetter : List Step :=
  let ref := some (Text.ofString "letter")
  [.storedLayer ref, .derive 0, .layer 1 .diffId, .putAs ref letterFile]

/-- The failure left no trace, so that the next call asks again. -/
theorem diffId_over_run_lateLetter :
    let result := (start 3 (.ofKind .memory none none)).run lateLetter
    firstAnswer 1 (lateLetter.zip result.1) = none ∧
      (result.2.step (.layer 1 .diffId)).2.store.asked =
        #[some (Text.ofString "letter"), some (Text.ofString "letter")] := by
  have hkind : ∀ dir, StoreKind.memory ≠ .directory dir := by
    intro dir h
    cases h
  have hlayer : ((start 3 (.ofKind .memory none none)).run lateLetter).2.layers[1]? =
      some (.derived (.stored (some (Text.ofString "letter"))) none) := rfl
  have hover := diffId_over_run hkind rfl hlayer
  exact ⟨rfl, (hover.2.1 rfl).1⟩

end LegacyImage.Session
