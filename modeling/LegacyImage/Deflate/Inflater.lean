import LegacyImage.Deflate.Code

/-!
Decompression of deflate data, a byte at a time. An inflater is told each byte once and holds what
came out so far, so the way in which the data is cut plays no part. A fault is kept: an inflater
that failed or is done takes no notice of further bytes.
-/

namespace LegacyImage.Deflate

inductive Fault
  | blockType
  | storedLengths
  | tooManySymbols
  | codeLengthsSet
  | lengthRepeat
  | missingEndOfBlock
  | literalsSet
  | distancesSet
  | literal
  | distance
  | distanceTooFar
deriving DecidableEq, Repr

def Fault.message : Fault → String
  | .blockType => "invalid block type"
  | .storedLengths => "invalid stored block lengths"
  | .tooManySymbols => "too many length or distance symbols"
  | .codeLengthsSet => "invalid code lengths set"
  | .lengthRepeat => "invalid bit length repeat"
  | .missingEndOfBlock => "invalid code -- missing end-of-block"
  | .literalsSet => "invalid literal/lengths set"
  | .distancesSet => "invalid distances set"
  | .literal => "invalid literal/length code"
  | .distance => "invalid distance code"
  | .distanceTooFar => "invalid distance too far back"

structure Codes where
  literals : Code
  distances : Code

structure Counts where
  literals : Nat
  distances : Nat
  codeLengths : Nat

/-- What a number of a fixed count of bits stands for. Lists of lengths have the last one first. -/
inductive Field
  | block
  | counts
  | codeLength (counts : Counts) (done : List Nat)
  | lengthRun (counts : Counts) (code : Code) (done : List Nat) (symbol : Nat)
  | lengthTail (codes : Codes) (base : Nat)
  | distanceTail (codes : Codes) (length base : Nat)

/-- What a symbol stands for. -/
inductive Alphabet
  | lengths (counts : Counts) (code : Code) (done : List Nat)
  | literals (codes : Codes)
  | distances (codes : Codes) (length : Nat)

/-- Where an inflater stands: in the bits of a number or a symbol, in the bytes of a stored block,
or at the end. -/
inductive Phase
  | number (field : Field) (width got value : Nat)
  | symbol (alphabet : Alphabet) (node : Code)
  | storedLengths (got : Bytes)
  | stored (left : Nat)
  | done
  | failed (fault : Fault)

/-- An inflater: all that came out, whether the block at hand is the last, and where it stands. -/
structure Inflater where
  output : Array UInt8
  final : Bool
  phase : Phase

namespace Inflater

def start : Inflater := ⟨#[], false, .number .block 3 0 0⟩

/-! ## Codes -/

/-- The code words of blocks that describe none: 288 literals and lengths, 32 distances. -/
def fixedCodes : Codes where
  literals := Code.ofLengths (List.replicate 144 8 ++ List.replicate 112 9 ++
    List.replicate 24 7 ++ List.replicate 8 8)
  distances := Code.ofLengths (List.replicate 32 5)

/-- The order in which the lengths of the words for lengths are given. -/
def codeLengthOrder : List Nat :=
  [16, 17, 18, 0, 8, 7, 9, 6, 10, 5, 11, 4, 12, 3, 13, 2, 14, 1, 15]

/-- The code for lengths. If none has a word, every bit means a length of zero. -/
def codeOfLengths (done : List Nat) : Except Fault Code :=
  let given := codeLengthOrder.zip done.reverse
  let lengths := (List.range 19).map fun s => (given.lookup s).getD 0
  if lengths.all (· = 0) then .ok (.branch (.symbol 0) (.symbol 0))
  else if Code.isComplete lengths then .ok (Code.ofLengths lengths)
  else .error .codeLengthsSet

def codesOf (counts : Counts) (done : List Nat) : Except Fault Codes :=
  let lengths := done.reverse
  let literals := lengths.take counts.literals
  let distances := lengths.drop counts.literals
  if literals.getD 256 0 = 0 then .error .missingEndOfBlock
  else if !Code.isCompleteOrSingle literals then .error .literalsSet
  else if !Code.isCompleteOrSingle distances then .error .distancesSet
  else .ok ⟨Code.ofLengths literals, Code.ofLengths distances⟩

/-- The least length of each symbol from 257 on, and how many bits add to it. -/
def lengthTable : List (Nat × Nat) :=
  [(3, 0), (4, 0), (5, 0), (6, 0), (7, 0), (8, 0), (9, 0), (10, 0), (11, 1), (13, 1), (15, 1),
   (17, 1), (19, 2), (23, 2), (27, 2), (31, 2), (35, 3), (43, 3), (51, 3), (59, 3), (67, 4),
   (83, 4), (99, 4), (115, 4), (131, 5), (163, 5), (195, 5), (227, 5), (258, 0)]

/-- The least distance of each symbol, and how many bits add to it. -/
def distanceTable : List (Nat × Nat) :=
  [(1, 0), (2, 0), (3, 0), (4, 0), (5, 1), (7, 1), (9, 2), (13, 2), (17, 3), (25, 3), (33, 4),
   (49, 4), (65, 5), (97, 5), (129, 6), (193, 6), (257, 7), (385, 7), (513, 8), (769, 8),
   (1025, 9), (1537, 9), (2049, 10), (3073, 10), (4097, 11), (6145, 11), (8193, 12), (12289, 12),
   (16385, 13), (24577, 13)]

/-! ## Steps -/

def fail (s : Inflater) (fault : Fault) : Inflater := { s with phase := .failed fault }

/-- The start of the next block, or the end. -/
def endBlock (s : Inflater) : Inflater :=
  { s with phase := if s.final then .done else .number .block 3 0 0 }

def nextLiteral (s : Inflater) (codes : Codes) : Inflater :=
  { s with phase := .symbol (.literals codes) codes.literals }

/-- Repeats `length` bytes from `distance` bytes back, which the copy itself may reach into. -/
def copyBack (distance : Nat) : Nat → Array UInt8 → Array UInt8
  | 0, output => output
  | length + 1, output =>
    copyBack distance length (output.push (output.getD (output.size - distance) 0))

def maxCopy : Nat := 258

def copy (s : Inflater) (codes : Codes) (length distance : Nat) : Inflater :=
  if s.output.size < distance then s.fail .distanceTooFar
  else
    let ⟨output, final, _⟩ := s
    nextLiteral ⟨copyBack distance (min length maxCopy) output, final, .done⟩ codes

def nextDistance (s : Inflater) (codes : Codes) (length : Nat) : Inflater :=
  { s with phase := .symbol (.distances codes length) codes.distances }

/-- On to the next code length, unless that was the last. -/
def nextLength (s : Inflater) (counts : Counts) (code : Code) (done : List Nat) : Inflater :=
  if done.length < counts.literals + counts.distances then
    { s with phase := .symbol (.lengths counts code done) code }
  else match codesOf counts done with
    | .ok codes => s.nextLiteral codes
    | .error fault => s.fail fault

/-- Adds a length a number of times, which must not be more than are missing. -/
def repeatLength (s : Inflater) (counts : Counts) (code : Code) (done : List Nat)
    (length times : Nat) : Inflater :=
  if counts.literals + counts.distances < done.length + times then s.fail .lengthRepeat
  else s.nextLength counts code (List.replicate times length ++ done)

def onNumber (s : Inflater) (value : Nat) : Field → Inflater
  | .block =>
    let s := { s with final := value % 2 = 1 }
    match value / 2 with
    | 0 => { s with phase := .storedLengths [] }
    | 1 => s.nextLiteral fixedCodes
    | 2 => { s with phase := .number .counts 14 0 0 }
    | _ => s.fail .blockType
  | .counts =>
    let counts : Counts := ⟨257 + value % 32, 1 + value / 32 % 32, 4 + value / 1024⟩
    if 286 < counts.literals ∨ 30 < counts.distances then s.fail .tooManySymbols
    else { s with phase := .number (.codeLength counts []) 3 0 0 }
  | .codeLength counts done =>
    let done := value :: done
    if done.length < counts.codeLengths then
      { s with phase := .number (.codeLength counts done) 3 0 0 }
    else match codeOfLengths done with
      | .ok code => s.nextLength counts code []
      | .error fault => s.fail fault
  | .lengthRun counts code done symbol =>
    if symbol = 16 then
      match done with
      | [] => s.fail .lengthRepeat
      | last :: _ => s.repeatLength counts code done last (3 + value)
    else if symbol = 17 then s.repeatLength counts code done 0 (3 + value)
    else s.repeatLength counts code done 0 (11 + value)
  | .lengthTail codes base => s.nextDistance codes (base + value)
  | .distanceTail codes length base => s.copy codes length (base + value)

/-- Waits for a number, which is zero if it has no bits. -/
def expect (s : Inflater) (field : Field) (width : Nat) : Inflater :=
  if width = 0 then s.onNumber 0 field else { s with phase := .number field width 0 0 }

def onSymbol (s : Inflater) (value : Nat) : Alphabet → Inflater
  | .lengths counts code done =>
    if value < 16 then s.nextLength counts code (value :: done)
    else s.expect (.lengthRun counts code done value)
      (if value = 16 then 2 else if value = 17 then 3 else 7)
  | .literals codes =>
    if value < 256 then
      let ⟨output, final, phase⟩ := s
      nextLiteral ⟨output.push (UInt8.ofNat value), final, phase⟩ codes
    else if value = 256 then s.endBlock
    else match lengthTable[value - 257]? with
      | some (base, width) => s.expect (.lengthTail codes base) width
      | none => s.fail .literal
  | .distances codes length =>
    match distanceTable[value]? with
    | some (base, width) => s.expect (.distanceTail codes length base) width
    | none => s.fail .distance

def noSymbol : Alphabet → Fault
  | .lengths .. => .codeLengthsSet
  | .literals _ => .literal
  | .distances .. => .distance

/-- Takes a bit. Between blocks of bits, the rest of a byte means nothing. -/
def feedBit (s : Inflater) (bit : Bool) : Inflater :=
  match s with
  | ⟨output, final, .number field width got value⟩ =>
    let value := if bit then value + 2 ^ got else value
    if got + 1 < width then ⟨output, final, .number field width (got + 1) value⟩
    else onNumber ⟨output, final, .done⟩ value field
  | ⟨output, final, .symbol alphabet node⟩ =>
    match node with
    | .branch zero one =>
      match if bit then one else zero with
      | .symbol value => onSymbol ⟨output, final, .done⟩ value alphabet
      | .branch zero one => ⟨output, final, .symbol alphabet (.branch zero one)⟩
      | .none => ⟨output, final, .failed (noSymbol alphabet)⟩
    | _ => ⟨output, final, .failed (noSymbol alphabet)⟩
  | s => s

/-- The bits of a byte, the least significant first. -/
def bitsOf (b : UInt8) : List Bool :=
  [b &&& 1 != 0, b &&& 2 != 0, b &&& 4 != 0, b &&& 8 != 0, b &&& 16 != 0, b &&& 32 != 0,
   b &&& 64 != 0, b &&& 128 != 0]

/-- Takes the four bytes that begin a stored block, two for its length and two for the
complement. -/
def onStoredLengths (s : Inflater) (got : Bytes) : Inflater :=
  if got.length < 4 then { s with phase := .storedLengths got }
  else
    let length := Bytes.toNatLE (got.take 2)
    if length + Bytes.toNatLE (got.drop 2) ≠ 0xFFFF then s.fail .storedLengths
    else if length = 0 then s.endBlock
    else { s with phase := .stored length }

def feed (s : Inflater) (b : UInt8) : Inflater :=
  match s with
  | ⟨output, final, .storedLengths got⟩ => onStoredLengths ⟨output, final, .done⟩ (got ++ [b])
  | ⟨output, final, .stored left⟩ =>
    let output := output.push b
    if left ≤ 1 then endBlock ⟨output, final, .done⟩ else ⟨output, final, .stored (left - 1)⟩
  | s => (bitsOf b).foldl feedBit s

/-- Whether the end of the data has come, good or bad. -/
def isOver (s : Inflater) : Bool :=
  match s.phase with
  | .done | .failed _ => true
  | _ => false

/-- Whether a copy was asked for from before the first byte. -/
def reachesTooFar (s : Inflater) : Bool :=
  match s.phase with
  | .failed .distanceTooFar => true
  | _ => false

/-- Whether the next byte goes straight to the output. -/
def isCopying (s : Inflater) : Bool :=
  match s.phase with
  | .stored _ => true
  | _ => false

/-! ## How much a byte can yield -/

/-- The most output that one byte of data can yield: eight copies of the greatest length. -/
def maxYield : Nat := 8 * maxCopy

theorem size_copyBack (distance length : Nat) (output : Array UInt8) :
    (copyBack distance length output).size = output.size + length := by
  induction length generalizing output with
  | zero => rfl
  | succ length ih => rw [copyBack, ih, Array.size_push]; omega

theorem size_copy_le (s : Inflater) (codes : Codes) (length distance : Nat) :
    (s.copy codes length distance).output.size ≤ s.output.size + maxCopy := by
  unfold copy
  split
  · exact Nat.le_add_right _ _
  · simp only [nextLiteral, size_copyBack]
    omega

theorem output_nextLength (s : Inflater) (counts : Counts) (code : Code) (done : List Nat) :
    (s.nextLength counts code done).output = s.output := by
  unfold nextLength
  split
  · rfl
  · split <;> rfl

theorem output_repeatLength (s : Inflater) (counts : Counts) (code : Code) (done : List Nat)
    (length times : Nat) : (s.repeatLength counts code done length times).output = s.output := by
  unfold repeatLength
  split
  · rfl
  · exact output_nextLength ..

theorem size_onNumber_le (s : Inflater) (value : Nat) (field : Field) :
    (s.onNumber value field).output.size ≤ s.output.size + maxCopy := by
  cases field with
  | block =>
    unfold onNumber
    dsimp only
    split <;> exact Nat.le_add_right _ _
  | counts =>
    unfold onNumber
    dsimp only
    split <;> exact Nat.le_add_right _ _
  | codeLength counts done =>
    unfold onNumber
    dsimp only
    split
    · exact Nat.le_add_right _ _
    · split
      · rw [output_nextLength]
        exact Nat.le_add_right _ _
      · exact Nat.le_add_right _ _
  | lengthRun counts code done symbol =>
    unfold onNumber
    dsimp only
    split
    · split
      · exact Nat.le_add_right _ _
      · rw [output_repeatLength]
        exact Nat.le_add_right _ _
    · split <;> (rw [output_repeatLength]; exact Nat.le_add_right _ _)
  | lengthTail codes base => exact Nat.le_add_right _ _
  | distanceTail codes length base => exact size_copy_le ..

theorem size_expect_le (s : Inflater) (field : Field) (width : Nat) :
    (s.expect field width).output.size ≤ s.output.size + maxCopy := by
  unfold expect
  split
  · exact size_onNumber_le ..
  · exact Nat.le_add_right _ _

theorem size_onSymbol_le (s : Inflater) (value : Nat) (alphabet : Alphabet) :
    (s.onSymbol value alphabet).output.size ≤ s.output.size + maxCopy := by
  cases alphabet with
  | lengths counts code done =>
    unfold onSymbol
    dsimp only
    split
    · rw [output_nextLength]
      exact Nat.le_add_right _ _
    · exact size_expect_le ..
  | literals codes =>
    unfold onSymbol
    dsimp only
    split
    · simp only [nextLiteral, Array.size_push, maxCopy]
      omega
    · split
      · exact Nat.le_add_right _ _
      · split
        · exact size_expect_le ..
        · exact Nat.le_add_right _ _
  | distances codes length =>
    unfold onSymbol
    dsimp only
    split
    · exact size_expect_le ..
    · exact Nat.le_add_right _ _

theorem size_feedBit_le (s : Inflater) (bit : Bool) :
    (s.feedBit bit).output.size ≤ s.output.size + maxCopy := by
  unfold feedBit
  split
  · dsimp only
    split
    · exact Nat.le_add_right _ _
    · exact size_onNumber_le ..
  · split
    · split
      · exact size_onSymbol_le ..
      · exact Nat.le_add_right _ _
      · exact Nat.le_add_right _ _
    · exact Nat.le_add_right _ _
  · exact Nat.le_add_right _ _

theorem size_feedBits_le (s : Inflater) (bits : List Bool) :
    (bits.foldl feedBit s).output.size ≤ s.output.size + bits.length * maxCopy := by
  induction bits generalizing s with
  | nil => simp
  | cons bit bits ih =>
    have h₁ := size_feedBit_le s bit
    have h₂ := ih (s.feedBit bit)
    rw [List.foldl_cons, List.length_cons, Nat.add_mul]
    omega

theorem size_onStoredLengths (s : Inflater) (got : Bytes) :
    (s.onStoredLengths got).output.size = s.output.size := by
  unfold onStoredLengths
  split
  · rfl
  · dsimp only
    split
    · rfl
    · split <;> rfl

theorem size_feed_le (s : Inflater) (b : UInt8) :
    (s.feed b).output.size ≤ s.output.size + maxYield := by
  unfold feed
  split
  · rw [size_onStoredLengths]
    exact Nat.le_add_right _ _
  · dsimp only
    split <;> simp [endBlock, maxYield, maxCopy]
  · exact size_feedBits_le _ (bitsOf b)

end Inflater

end LegacyImage.Deflate
