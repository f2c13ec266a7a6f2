import LegacyImage.Deflate.Inflater

/-!
An inflater only ever adds to its output, so what was handed out of it stays what it was, whatever
comes after.
-/

namespace LegacyImage.Deflate.Inflater

theorem prefix_of_output_eq {s t : Inflater} (h : t.output = s.output) :
    s.output.toList <+: t.output.toList := h ▸ List.prefix_rfl

theorem prefix_copyBack (distance length : Nat) (output : Array UInt8) :
    output.toList <+: (copyBack distance length output).toList := by
  induction length generalizing output with
  | zero => exact List.prefix_rfl
  | succ length ih =>
    refine List.IsPrefix.trans ?_ (ih _)
    rw [Array.toList_push]
    exact List.prefix_append _ _

theorem prefix_copy (s : Inflater) (codes : Codes) (length distance : Nat) :
    s.output.toList <+: (s.copy codes length distance).output.toList := by
  unfold copy
  split
  · exact List.prefix_rfl
  · exact prefix_copyBack ..

theorem prefix_onNumber (s : Inflater) (value : Nat) (field : Field) :
    s.output.toList <+: (s.onNumber value field).output.toList := by
  cases field with
  | block =>
    unfold onNumber
    dsimp only
    split <;> exact List.prefix_rfl
  | counts =>
    unfold onNumber
    dsimp only
    split <;> exact List.prefix_rfl
  | codeLength counts done =>
    unfold onNumber
    dsimp only
    split
    · exact List.prefix_rfl
    · split
      · exact prefix_of_output_eq (output_nextLength ..)
      · exact List.prefix_rfl
  | lengthRun counts code done symbol =>
    unfold onNumber
    dsimp only
    split
    · split
      · exact List.prefix_rfl
      · exact prefix_of_output_eq (output_repeatLength ..)
    · split <;> exact prefix_of_output_eq (output_repeatLength ..)
  | lengthTail codes base => exact List.prefix_rfl
  | distanceTail codes length base => exact prefix_copy ..

theorem prefix_expect (s : Inflater) (field : Field) (width : Nat) :
    s.output.toList <+: (s.expect field width).output.toList := by
  unfold expect
  split
  · exact prefix_onNumber ..
  · exact List.prefix_rfl

theorem prefix_onSymbol (s : Inflater) (value : Nat) (alphabet : Alphabet) :
    s.output.toList <+: (s.onSymbol value alphabet).output.toList := by
  cases alphabet with
  | lengths counts code done =>
    unfold onSymbol
    dsimp only
    split
    · exact prefix_of_output_eq (output_nextLength ..)
    · exact prefix_expect ..
  | literals codes =>
    unfold onSymbol
    dsimp only
    split
    · simp only [nextLiteral, Array.toList_push]
      exact List.prefix_append _ _
    · split
      · exact List.prefix_rfl
      · split
        · exact prefix_expect ..
        · exact List.prefix_rfl
  | distances codes length =>
    unfold onSymbol
    dsimp only
    split
    · exact prefix_expect ..
    · exact List.prefix_rfl

theorem prefix_feedBit (s : Inflater) (bit : Bool) :
    s.output.toList <+: (s.feedBit bit).output.toList := by
  unfold feedBit
  split
  · dsimp only
    split
    · exact List.prefix_rfl
    · exact prefix_onNumber ⟨_, _, .done⟩ _ _
  · split
    · split
      · exact prefix_onSymbol ⟨_, _, .done⟩ _ _
      · exact List.prefix_rfl
      · exact List.prefix_rfl
    · exact List.prefix_rfl
  · exact List.prefix_rfl

theorem prefix_feedBits (s : Inflater) (bits : List Bool) :
    s.output.toList <+: (bits.foldl feedBit s).output.toList := by
  induction bits generalizing s with
  | nil => exact List.prefix_rfl
  | cons bit bits ih => exact (prefix_feedBit s bit).trans (ih _)

theorem prefix_onStoredLengths (s : Inflater) (got : Bytes) :
    s.output.toList <+: (s.onStoredLengths got).output.toList := by
  unfold onStoredLengths
  split
  · exact List.prefix_rfl
  · dsimp only
    split
    · exact List.prefix_rfl
    · split <;> exact List.prefix_rfl

/-- A byte of data only adds to the output. -/
theorem prefix_feed (s : Inflater) (b : UInt8) :
    s.output.toList <+: (s.feed b).output.toList := by
  unfold feed
  split
  · exact prefix_onStoredLengths ⟨_, _, .done⟩ _
  · dsimp only
    split <;> simp only [endBlock, Array.toList_push] <;> exact List.prefix_append _ _
  · exact prefix_feedBits ..

end LegacyImage.Deflate.Inflater
