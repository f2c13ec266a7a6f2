import LegacyImage.Document

/-!
What a document remembers: nothing until it is first asked for its value, and from then on what its
bytes are read as, unless that is a null or a fault. No answer shows it. Nor does it show what callers
make of the copies that they were given, since none of them lies where the value lies that is
remembered. So whatever became of a document, it answers like one that was never asked
(`answers_like_fresh`).
-/

namespace LegacyImage.Document

/-! ## What is remembered -/

/-- Whether an answer needs the value. -/
def Question.needsValue : Question → Bool
  | .bytes | .text | .digest => false
  | .json | .layers | .spoiled => true

/-- The answers to some questions in their order, and the document after them. -/
def answerAll (d : Document) : List Question → List Answer × Document
  | [] => ([], d)
  | first :: rest =>
    let (answer, d) := d.answer first
    let (answers, d) := d.answerAll rest
    (answer :: answers, d)

/-- What there is to remember of some bytes: what they are read as, if that is a value and not null. -/
def memorable (bytes : Bytes) : Option Json :=
  match Json.read bytes with
  | .ok .null | .error _ => none
  | .ok v => some v

/-- Whether a document remembers nothing, or what there is to remember of its bytes. -/
def IsCoherent (d : Document) : Prop := d.remembered = none ∨ d.remembered = memorable d.bytes

/-- The document when it remembers what there is to remember. -/
def informed (d : Document) : Document := { d with remembered := memorable d.bytes }

theorem isCoherent_ofBytes (bytes : Bytes) : (ofBytes bytes).IsCoherent := .inl rfl

theorem isCoherent_informed (d : Document) : d.informed.IsCoherent := .inr rfl

theorem eq_read_of_memorable {bytes : Bytes} {v : Json} (h : memorable bytes = some v) :
    Json.read bytes = .ok v ∧ v ≠ .null := by
  unfold memorable at h
  split at h
  · cases h
  · cases h
  · rename_i w hnull hread
    cases h
    refine ⟨hread, ?_⟩
    rintro rfl
    exact hnull rfl

variable {d : Document}

/-- What was remembered makes no difference to what the value is. -/
theorem decode_of_isCoherent (h : d.IsCoherent) : d.decode = (Json.read d.bytes, d.informed) := by
  obtain ⟨bytes, remembered⟩ := d
  change remembered = none ∨ remembered = memorable bytes at h
  change decode ⟨bytes, remembered⟩ = (Json.read bytes, ⟨bytes, memorable bytes⟩)
  cases hread : Json.read bytes with
  | error e =>
    have hmemorable : memorable bytes = none := by
      unfold memorable
      rw [hread]
    rw [hmemorable] at h ⊢
    obtain rfl : remembered = none := h.elim id id
    unfold decode
    dsimp only
    rw [hread]
  | ok v =>
    rcases h with rfl | rfl
    · unfold decode memorable
      dsimp only
      rw [hread]
      cases v <;> rfl
    · unfold decode memorable
      dsimp only
      rw [hread]
      cases v <;> dsimp only

/-- The copy that is handed out of the value of some bytes. -/
def copied (bytes : Bytes) : Except Json.ReadError Json :=
  (Json.read bytes).bind fun v => if v.depth ≤ maxCopyDepth then .ok v else .error .tooDeep

theorem json_of_isCoherent (h : d.IsCoherent) : d.json = (copied d.bytes, d.informed) := by
  unfold json copied
  rw [decode_of_isCoherent h]
  cases Json.read d.bytes <;> rfl

theorem layers_of_isCoherent (h : d.IsCoherent) :
    d.layers = (Manifest.layers d.bytes, d.informed) := by
  unfold layers Manifest.layers
  rw [decode_of_isCoherent h]
  cases Json.read d.bytes <;> rfl

/-- An answer is that of a document that was never asked, and all that it leaves behind is the value,
if it needed it. -/
theorem answer_of_isCoherent (h : d.IsCoherent) (question : Question) :
    d.answer question = (((ofBytes d.bytes).answer question).1,
      if question.needsValue then d.informed else d) := by
  have hjson := json_of_isCoherent h
  have hlayers := layers_of_isCoherent h
  have hfreshJson : (ofBytes d.bytes).json = (copied d.bytes, _) :=
    json_of_isCoherent (isCoherent_ofBytes d.bytes)
  have hfreshLayers : (ofBytes d.bytes).layers = (Manifest.layers d.bytes, _) :=
    layers_of_isCoherent (isCoherent_ofBytes d.bytes)
  unfold answer
  cases question with
  | bytes | text | digest => rfl
  | json | spoiled =>
    dsimp only
    rw [hjson, hfreshJson]
    cases copied d.bytes <;> rfl
  | layers =>
    dsimp only
    rw [hlayers, hfreshLayers]
    cases Manifest.layers d.bytes <;> rfl

theorem answerAll_of_isCoherent (h : d.IsCoherent) (questions : List Question) :
    d.answerAll questions = (questions.map fun question => ((ofBytes d.bytes).answer question).1,
      if questions.any Question.needsValue then d.informed else d) := by
  induction questions generalizing d with
  | nil => rfl
  | cons first rest ih =>
    unfold answerAll
    rw [answer_of_isCoherent h first]
    cases hneeds : first.needsValue with
    | true =>
      dsimp only [if_true]
      rw [if_pos rfl, ih d.isCoherent_informed]
      simp [hneeds, informed]
    | false =>
      dsimp only
      rw [if_neg Bool.false_ne_true, ih h]
      simp [hneeds]

/-! ## Where values lie -/

/-- A document and the cells in which values lie: the one that it remembers, and the copies that it
handed out. What lies in a cell can be changed by whoever was given the cell. -/
structure Holding where
  bytes : Bytes
  cells : List Json
  remembered : Option Nat
  handedOut : List Nat

namespace Holding

def ofBytes (bytes : Bytes) : Holding := ⟨bytes, [], none, []⟩

def value (h : Holding) (cell : Nat) : Json := h.cells.getD cell .null

/-- The document with what lies in the cell that it remembers. -/
def document (h : Holding) : Document := ⟨h.bytes, h.remembered.map h.value⟩

def put (h : Holding) (v : Json) : Nat × Holding :=
  (h.cells.length, { h with cells := h.cells ++ [v] })

/-- Puts a value into a new cell and gives the cell to a caller. -/
def handOut (h : Holding) (v : Json) : Nat × Holding :=
  let (cell, h) := h.put v
  (cell, { h with handedOut := h.handedOut ++ [cell] })

/-- Puts a value into a new cell and remembers the cell. -/
def remember (h : Holding) (v : Json) : Nat × Holding :=
  let (cell, h) := h.put v
  (cell, { h with remembered := some cell })

/-- The cell of the value, a new one unless it is remembered. -/
def decode (h : Holding) : Except Json.ReadError Nat × Holding :=
  match h.remembered with
  | some cell => (.ok cell, h)
  | none =>
    match Json.read h.bytes with
    | .error e => (.error e, h)
    | .ok .null =>
      let (cell, h) := h.put .null
      (.ok cell, h)
    | .ok v =>
      let (cell, h) := h.remember v
      (.ok cell, h)

/-- Hands out a copy of the value, in a new cell. It shares no part with what it was copied from. -/
def json (h : Holding) : Except Json.ReadError Nat × Holding :=
  match h.decode with
  | (.error e, h) => (.error e, h)
  | (.ok cell, h) =>
    if (h.value cell).depth ≤ maxCopyDepth then
      let (copy, h) := h.handOut (h.value cell)
      (.ok copy, h)
    else (.error .tooDeep, h)

/-- The layers that the document lists as a manifest. The value is read where it lies. -/
def layers (h : Holding) : Except ManifestError (List Digest) × Holding :=
  match h.decode with
  | (.ok cell, h) => (Manifest.layersOf (h.value cell), h)
  | (.error e, h) => (.error (.document e), h)

def change (h : Holding) (cell : Nat) (f : Json → Json) : Holding :=
  { h with cells := h.cells.modify cell f }

def answer (h : Holding) : Question → Answer × Holding
  | .json =>
    match h.json with
    | (.ok cell, h) => (.json (h.value cell), h)
    | (.error e, h) => (.notReadable (.document e), h)
  | .layers =>
    match h.layers with
    | (.ok ds, h) => (.layers ds, h)
    | (.error e, h) => (.notReadable e, h)
  | .spoiled =>
    match h.json with
    | (.ok cell, h) => (.json ((h.change cell spoil).value cell), h.change cell spoil)
    | (.error e, h) => (.notReadable (.document e), h)
  | question => ((h.document.answer question).1, h)

/-- What becomes of a document: it is asked, or one of the copies that it handed out is changed. -/
inductive Use
  | ask (question : Question)
  | change (copy : Nat) (f : Json → Json)

def Use.question? : Use → Option Question
  | .ask question => some question
  | .change .. => none

/-- The answers in the course of some uses, and what they leave. -/
def useAll (h : Holding) : List Use → List Answer × Holding
  | [] => ([], h)
  | .ask question :: rest =>
    let (answer, h) := h.answer question
    let (answers, h) := h.useAll rest
    (answer :: answers, h)
  | .change copy f :: rest =>
    match h.handedOut[copy]? with
    | some cell => (h.change cell f).useAll rest
    | none => h.useAll rest

/-! ## Copies lie apart -/

/-- Whether all cells that are known have a value in them, and what is remembered lies in none that was
handed out. -/
structure IsApart (h : Holding) : Prop where
  remembered_lt : ∀ cell, h.remembered = some cell → cell < h.cells.length
  handedOut_lt : ∀ cell ∈ h.handedOut, cell < h.cells.length
  not_handedOut : ∀ cell, h.remembered = some cell → cell ∉ h.handedOut

variable {h : Holding}

theorem isApart_ofBytes (bytes : Bytes) : (ofBytes bytes).IsApart := ⟨nofun, nofun, nofun⟩

theorem value_put_of_lt (v : Json) {cell : Nat} (hcell : cell < h.cells.length) :
    (h.put v).2.value cell = h.value cell := by
  simp [value, put, List.getElem?_append_left hcell]

theorem value_put (h : Holding) (v : Json) : (h.put v).2.value (h.put v).1 = v := by
  simp [value, put]

theorem put_lt (h : Holding) (v : Json) : (h.put v).1 < (h.put v).2.cells.length := by simp [put]

theorem document_put (hapart : h.IsApart) (v : Json) : (h.put v).2.document = h.document := by
  refine congrArg (Document.mk h.bytes) ?_
  change h.remembered.map _ = h.remembered.map _
  cases hremembered : h.remembered with
  | none => rfl
  | some cell => exact congrArg some (value_put_of_lt v (hapart.remembered_lt cell hremembered))

theorem IsApart.put (hapart : h.IsApart) (v : Json) : (h.put v).2.IsApart := by
  have hlength : (h.put v).2.cells.length = h.cells.length + 1 := by simp [Holding.put]
  refine ⟨?_, ?_, hapart.not_handedOut⟩
  · intro cell hcell
    rw [hlength]
    exact Nat.lt_succ_of_lt (hapart.remembered_lt cell hcell)
  · intro cell hcell
    rw [hlength]
    exact Nat.lt_succ_of_lt (hapart.handedOut_lt cell hcell)

theorem IsApart.handOut (hapart : h.IsApart) (v : Json) : (h.handOut v).2.IsApart := by
  have hput := hapart.put v
  refine ⟨hput.remembered_lt, ?_, ?_⟩
  · intro cell hcell
    rcases List.mem_append.1 hcell with hcell | hcell
    · exact hput.handedOut_lt cell hcell
    · exact List.mem_singleton.1 hcell ▸ put_lt h v
  · intro cell hremembered hcell
    rcases List.mem_append.1 hcell with hcell | hcell
    · exact hapart.not_handedOut cell hremembered hcell
    -- What was remembered before lies in a cell that was there before the new one.
    · have hlt := hapart.remembered_lt cell hremembered
      rw [List.mem_singleton.1 hcell] at hlt
      exact Nat.lt_irrefl _ hlt

theorem document_remember (h : Holding) (v : Json) :
    (h.remember v).2.document = ⟨h.bytes, some v⟩ :=
  congrArg (fun v => (⟨h.bytes, some v⟩ : Document)) (value_put h v)

theorem IsApart.remember (hapart : h.IsApart) (v : Json) : (h.remember v).2.IsApart := by
  refine ⟨?_, (hapart.put v).handedOut_lt, ?_⟩
  · rintro _ ⟨⟩
    exact put_lt h v
  -- The new cell is none of those that were handed out before it was there.
  · rintro _ ⟨⟩ hmem
    exact Nat.lt_irrefl _ (hapart.handedOut_lt _ hmem)

/-- Changing what lies in a cell changes no other. -/
theorem value_change_of_ne {cell other : Nat} (hne : cell ≠ other) (f : Json → Json) :
    (h.change cell f).value other = h.value other := by
  simp [value, change, hne]

theorem value_change_self {cell : Nat} (hcell : cell < h.cells.length) (f : Json → Json) :
    (h.change cell f).value cell = f (h.value cell) := by
  simp [value, change, hcell]

/-- Changing a copy changes nothing about the document. -/
theorem document_change (hapart : h.IsApart) {cell : Nat} (hcell : cell ∈ h.handedOut)
    (f : Json → Json) : (h.change cell f).document = h.document := by
  refine congrArg (Document.mk h.bytes) ?_
  change h.remembered.map _ = h.remembered.map _
  cases hremembered : h.remembered with
  | none => rfl
  | some other =>
    have hne : cell ≠ other := by
      rintro rfl
      exact hapart.not_handedOut cell hremembered hcell
    exact congrArg some (value_change_of_ne hne f)

theorem IsApart.change (hapart : h.IsApart) (cell : Nat) (f : Json → Json) :
    (h.change cell f).IsApart := by
  have hlength : (h.change cell f).cells.length = h.cells.length := List.length_modify ..
  refine ⟨?_, ?_, hapart.not_handedOut⟩
  · intro other hother
    rw [hlength]
    exact hapart.remembered_lt other hother
  · intro other hother
    rw [hlength]
    exact hapart.handedOut_lt other hother

/-! ## What is asked of cells -/

/-- The cell of the value has the value in it. -/
theorem decode_of_isApart (hapart : h.IsApart) :
    h.document.decode = (h.decode.1.map h.decode.2.value, h.decode.2.document) ∧
      h.decode.2.IsApart := by
  cases hremembered : h.remembered with
  | some cell =>
    have hcell : h.decode = (.ok cell, h) := by
      unfold decode
      rw [hremembered]
    have hvalue : h.document.decode = (.ok (h.value cell), h.document) := by
      unfold document
      rw [hremembered]
      rfl
    rw [hcell, hvalue]
    exact ⟨rfl, hapart⟩
  | none =>
    have hdocument : h.document = ⟨h.bytes, none⟩ := by
      unfold document
      rw [hremembered]
      rfl
    cases hread : Json.read h.bytes with
    | error e =>
      have hcell : h.decode = (.error e, h) := by
        unfold decode
        rw [hremembered, hread]
      have hvalue : h.document.decode = (.error e, h.document) := by
        rw [hdocument]
        unfold Document.decode
        rw [hread]
      rw [hcell, hvalue]
      exact ⟨rfl, hapart⟩
    | ok v =>
      by_cases hnull : v = .null
      · subst hnull
        have hcell : h.decode = (.ok (h.put .null).1, (h.put .null).2) := by
          unfold decode
          rw [hremembered, hread]
        have hvalue : h.document.decode = (.ok .null, h.document) := by
          rw [hdocument]
          unfold Document.decode
          rw [hread]
        rw [hcell, hvalue, document_put hapart]
        exact ⟨by simp only [Except.map, value_put], hapart.put _⟩
      · have hcell : h.decode = (.ok (h.remember v).1, (h.remember v).2) := by
          unfold decode
          rw [hremembered, hread]
          cases v with
          | null => exact absurd rfl hnull
          | _ => rfl
        have hvalue : h.document.decode = (.ok v, ⟨h.bytes, some v⟩) := by
          rw [hdocument]
          unfold Document.decode
          rw [hread]
          cases v with
          | null => exact absurd rfl hnull
          | _ => rfl
        have hput : (h.remember v).2.value (h.remember v).1 = v := value_put h v
        rw [hcell, hvalue, document_remember]
        exact ⟨by simp only [Except.map, hput], hapart.remember v⟩

/-- What is handed out is a copy of the value, apart from it. -/
theorem json_of_isApart (hapart : h.IsApart) :
    h.document.json = (h.json.1.map h.json.2.value, h.json.2.document) ∧ h.json.2.IsApart ∧
      ∀ cell, h.json.1 = .ok cell → cell ∈ h.json.2.handedOut := by
  obtain ⟨hdecode, hdecoded⟩ := decode_of_isApart hapart
  unfold json Document.json
  rw [hdecode]
  generalize h.decode = decoded at hdecoded
  obtain ⟨found, after⟩ := decoded
  cases found with
  | error e => exact ⟨rfl, hdecoded, nofun⟩
  | ok cell =>
    dsimp only [Except.map] at hdecoded ⊢
    by_cases hdepth : (after.value cell).depth ≤ maxCopyDepth
    · have hvalue := value_put after (after.value cell)
      have hdocument := document_put hdecoded (after.value cell)
      rw [if_pos hdepth, if_pos hdepth]
      refine ⟨?_, hdecoded.handOut _, ?_⟩
      · exact Prod.ext (congrArg Except.ok hvalue.symm) hdocument.symm
      · rintro _ ⟨⟩
        exact List.mem_append_right _ List.mem_cons_self
    · rw [if_neg hdepth, if_neg hdepth]
      exact ⟨rfl, hdecoded, nofun⟩

theorem layers_of_isApart (hapart : h.IsApart) :
    h.document.layers = (h.layers.1, h.layers.2.document) ∧ h.layers.2.IsApart := by
  obtain ⟨hdecode, hdecoded⟩ := decode_of_isApart hapart
  unfold layers Document.layers
  rw [hdecode]
  generalize h.decode = decoded at hdecoded
  obtain ⟨found, after⟩ := decoded
  cases found with
  | error e => exact ⟨rfl, hdecoded⟩
  | ok cell => exact ⟨rfl, hdecoded⟩

/-- An answer is that of the document, and leaves what it leaves. -/
theorem answer_of_isApart (hapart : h.IsApart) (question : Question) :
    h.document.answer question =
        ((h.answer question).1, (h.answer question).2.document) ∧
      (h.answer question).2.IsApart := by
  obtain ⟨hjson, hcopied, hhandedOut⟩ := json_of_isApart hapart
  obtain ⟨hlayers, hlisted⟩ := layers_of_isApart hapart
  cases question with
  | bytes | text | digest => exact ⟨rfl, hapart⟩
  | json =>
    unfold answer Document.answer
    dsimp only
    rw [hjson]
    generalize h.json = copied at hcopied
    obtain ⟨found, after⟩ := copied
    cases found with
    | error e => exact ⟨rfl, hcopied⟩
    | ok cell => exact ⟨rfl, hcopied⟩
  | layers =>
    unfold answer Document.answer
    dsimp only
    rw [hlayers]
    generalize h.layers = listed at hlisted
    obtain ⟨found, after⟩ := listed
    cases found with
    | error e => exact ⟨rfl, hlisted⟩
    | ok ds => exact ⟨rfl, hlisted⟩
  | spoiled =>
    unfold answer Document.answer
    dsimp only
    rw [hjson]
    generalize h.json = copied at hcopied hhandedOut
    obtain ⟨found, after⟩ := copied
    cases found with
    | error e => exact ⟨rfl, hcopied⟩
    | ok cell =>
      have hcell : cell ∈ after.handedOut := hhandedOut cell rfl
      have hvalue := value_change_self (hcopied.handedOut_lt cell hcell) spoil
      have hdocument := document_change hcopied hcell spoil
      exact ⟨Prod.ext (congrArg Answer.json hvalue.symm) hdocument.symm, hcopied.change cell spoil⟩

/-! ## Whatever became of it -/

theorem useAll_of_isApart (hapart : h.IsApart) (uses : List Use) :
    h.document.answerAll (uses.filterMap Use.question?) =
        ((h.useAll uses).1, (h.useAll uses).2.document) ∧
      (h.useAll uses).2.IsApart := by
  induction uses generalizing h with
  | nil => exact ⟨rfl, hapart⟩
  | cons first rest ih =>
    cases first with
    | ask question =>
      obtain ⟨hanswer, hafter⟩ := answer_of_isApart hapart question
      obtain ⟨hrest, hdone⟩ := ih hafter
      refine ⟨?_, hdone⟩
      change h.document.answerAll (question :: rest.filterMap Use.question?) = _
      unfold answerAll
      rw [hanswer]
      dsimp only
      rw [hrest]
      rfl
    | change copy f =>
      rw [List.filterMap_cons_none rfl]
      unfold useAll
      cases hcopy : h.handedOut[copy]? with
      | none => exact ih hapart
      | some cell =>
        have hcell : cell ∈ h.handedOut := List.mem_of_getElem? hcopy
        rw [← document_change hapart hcell f]
        exact ih (hapart.change cell f)

end Holding

/-- However a document is asked and whatever becomes of the copies that it handed out, its answers are
those of a document that remembers its value itself, and every one is what it would be as the first.
What is remembered at any time is nothing as long as no question needed the value, or if the bytes are
read as null or as no value at all, and else the value that they are read as. -/
theorem answers_like_fresh (bytes : Bytes) (uses : List Holding.Use) :
    let asked (uses : List Holding.Use) : List Question := uses.filterMap Holding.Use.question?
    ((Holding.ofBytes bytes).useAll uses).1 = ((ofBytes bytes).answerAll (asked uses)).1 ∧
    ((Holding.ofBytes bytes).useAll uses).1 =
      (asked uses).map (fun question => ((Holding.ofBytes bytes).answer question).1) ∧
    ∀ n, let d := ((Holding.ofBytes bytes).useAll (uses.take n)).2.document
      d.bytes = bytes ∧
      d.remembered =
        (if (asked (uses.take n)).any Question.needsValue then memorable bytes else none) ∧
      (d.remembered = none ∨ ∃ v, d.remembered = some v ∧ Json.read bytes = .ok v ∧ v ≠ .null) := by
  intro asked
  have hapart := Holding.isApart_ofBytes bytes
  have hcourse (uses : List Holding.Use) : (ofBytes bytes).answerAll (asked uses) =
      (((Holding.ofBytes bytes).useAll uses).1, ((Holding.ofBytes bytes).useAll uses).2.document) :=
    (Holding.useAll_of_isApart hapart uses).1
  have hall := answerAll_of_isCoherent (isCoherent_ofBytes bytes)
  refine ⟨(congrArg Prod.fst (hcourse uses)).symm, ?_, ?_⟩
  · have hfresh (question : Question) : ((ofBytes bytes).answer question).1 =
        ((Holding.ofBytes bytes).answer question).1 :=
      congrArg Prod.fst (Holding.answer_of_isApart hapart question).1
    calc ((Holding.ofBytes bytes).useAll uses).1
        = ((ofBytes bytes).answerAll (asked uses)).1 := (congrArg Prod.fst (hcourse uses)).symm
      _ = (asked uses).map (fun question => ((ofBytes bytes).answer question).1) :=
          congrArg Prod.fst (hall _)
      _ = (asked uses).map (fun question => ((Holding.ofBytes bytes).answer question).1) :=
          List.map_congr_left fun question _ => hfresh question
  · intro n d
    have hd : d = if (asked (uses.take n)).any Question.needsValue then (ofBytes bytes).informed
        else ofBytes bytes :=
      (congrArg Prod.snd (hcourse (uses.take n))).symm.trans (congrArg Prod.snd (hall _))
    have hremembered : d.remembered =
        if (asked (uses.take n)).any Question.needsValue then memorable bytes else none := by
      rw [hd]
      split <;> rfl
    refine ⟨?_, hremembered, ?_⟩
    · rw [hd]
      split <;> rfl
    · cases hvalue : d.remembered with
      | none => exact .inl rfl
      | some v =>
        rw [hvalue] at hremembered
        split at hremembered
        · exact .inr ⟨v, rfl, eq_read_of_memorable hremembered.symm⟩
        · cases hremembered

/-- A null is handed out and not remembered. -/
example : ((ofBytes [0x6E, 0x75, 0x6C, 0x6C]).answer .json).2.remembered = none := rfl

end LegacyImage.Document
