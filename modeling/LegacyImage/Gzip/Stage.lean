import LegacyImage.Checksum
import LegacyImage.Deflate.Inflater
import LegacyImage.Text.Quoted

/-!
The format of a gzip file, a byte at a time: a header with optional parts, deflate data, a trailer
with the checksum and the size of what came out, then zero bytes and perhaps a further member. Flags
without a meaning and the checksum of the header are taken as they are.
-/

namespace LegacyImage.Gzip

inductive Fault
  | notGzip (found : Bytes)
  | unknownMethod
  | truncated
  | data (fault : Deflate.Fault)
  | checksum (stored computed : UInt32)
  | length
deriving DecidableEq

def Fault.message : Fault → Text
  | .notGzip found =>
    Text.ofString "Not a gzipped file (" ++ Text.quotedBytes found ++ Text.ofString ")"
  | .unknownMethod => Text.ofString "Unknown compression method"
  | .truncated =>
    Text.ofString "Compressed file ended before the end-of-stream marker was reached"
  | .data fault =>
    Text.ofString "Error -3 while decompressing data: " ++ Text.ofString fault.message
  | .checksum stored computed =>
    Text.ofString "CRC check failed 0x" ++ Text.ofHex stored.toNat ++ Text.ofString " != 0x" ++
      Text.ofHex computed.toNat
  | .length => Text.ofString "Incorrect length of data produced"

/-- The parts of a header that may be there, in the order in which they come. -/
structure Flags where
  extra : Bool
  name : Bool
  comment : Bool
  check : Bool
deriving DecidableEq, Repr

/-- The flags in the fourth byte of a header. -/
def Flags.ofByte (b : UInt8) : Flags := ⟨b &&& 4 != 0, b &&& 8 != 0, b &&& 16 != 0, b &&& 2 != 0⟩

/-- Where the reader of a gzip file stands. Bytes in `got` are in their order. -/
inductive Stage
  | start
  | magic (first : UInt8)
  | fixed (got : Bytes)
  | extraLength (flags : Flags) (got : Bytes)
  | extra (flags : Flags) (left : Nat)
  | name (flags : Flags)
  | comment (flags : Flags)
  | headerCheck (left : Nat)
  | body (inflater : Deflate.Inflater)
  | trailer (output : Array UInt8) (got : Bytes)
  | padding

namespace Stage

/-! ## Between the parts of a header -/

def afterComment (flags : Flags) : Stage :=
  if flags.check then .headerCheck 2 else .body .start

def afterName (flags : Flags) : Stage :=
  if flags.comment then .comment flags else afterComment flags

def afterExtra (flags : Flags) : Stage :=
  if flags.name then .name flags else afterName flags

/-- What follows the part of the header that is always there. -/
def afterFixed (flags : Flags) : Stage :=
  if flags.extra then .extraLength flags [] else afterExtra flags

/-! ## Steps -/

/-- Takes the ten bytes of a header but the first two. -/
def onFixed (got : Bytes) : Except Fault Stage :=
  if got.length < 8 then .ok (.fixed got)
  else if got.head? ≠ some 8 then .error .unknownMethod
  else .ok (afterFixed (Flags.ofByte (got.getD 1 0)))

/-- Takes the eight bytes of a trailer, once they are there. -/
def onTrailer (output : Array UInt8) (got : Bytes) : Except Fault Stage :=
  if got.length < 8 then .ok (.trailer output got)
  else
    let stored := UInt32.ofNat (Bytes.toNatLE (got.take 4))
    let computed := Checksum.ofBytes output.toList
    if stored ≠ computed then .error (.checksum stored computed)
    else if Bytes.toNatLE (got.drop 4) ≠ output.size % 2 ^ 32 then .error .length
    else .ok .padding

/-- Where compressed data has come to: a fault, the trailer, or further data. -/
def ofInflater (inflater : Deflate.Inflater) : Except Fault Stage :=
  match inflater.phase with
  | .failed fault => .error (.data fault)
  | .done => .ok (.trailer inflater.output [])
  | _ => .ok (.body inflater)

def step (b : UInt8) : Stage → Except Fault Stage
  | .start => .ok (.magic b)
  | .magic first =>
    if first = 0x1F ∧ b = 0x8B then .ok (.fixed []) else .error (.notGzip [first, b])
  | .fixed got => onFixed (got ++ [b])
  | .extraLength flags got =>
    let got := got ++ [b]
    if got.length < 2 then .ok (.extraLength flags got)
    else if Bytes.toNatLE got = 0 then .ok (afterExtra flags)
    else .ok (.extra flags (Bytes.toNatLE got))
  | .extra flags left => .ok (if left ≤ 1 then afterExtra flags else .extra flags (left - 1))
  | .name flags => .ok (if b = 0 then afterName flags else .name flags)
  | .comment flags => .ok (if b = 0 then afterComment flags else .comment flags)
  | .headerCheck left => .ok (if left ≤ 1 then .body .start else .headerCheck (left - 1))
  | .body inflater => ofInflater (inflater.feed b)
  | .trailer output got => onTrailer output (got ++ [b])
  | .padding => .ok (if b = 0 then .padding else .magic b)

/-- How many more bytes the part at hand is known to have. -/
def wanted : Stage → Nat
  | .start => 2
  | .fixed got => 8 - got.length
  | .extraLength _ got => 2 - got.length
  | .extra _ left => left
  | .headerCheck left => left
  | .trailer _ got => 8 - got.length
  | _ => 1

/-- Where reading goes on after a fault: a header is given up, a trailer is read again. -/
def resume : Stage → Stage
  | .body inflater => .body inflater
  | .trailer output _ => .trailer output []
  | _ => .start

def outputSize : Stage → Nat
  | .body inflater => inflater.output.size
  | _ => 0

theorem outputSize_afterComment (flags : Flags) : (afterComment flags).outputSize = 0 := by
  unfold afterComment
  split <;> rfl

theorem outputSize_afterName (flags : Flags) : (afterName flags).outputSize = 0 := by
  unfold afterName
  split
  · rfl
  · exact outputSize_afterComment flags

theorem outputSize_afterExtra (flags : Flags) : (afterExtra flags).outputSize = 0 := by
  unfold afterExtra
  split
  · rfl
  · exact outputSize_afterName flags

theorem outputSize_onFixed {got : Bytes} {next : Stage} (h : onFixed got = .ok next) :
    next.outputSize = 0 := by
  unfold onFixed at h
  split at h
  · cases h; rfl
  split at h
  · cases h
  · cases h
    unfold afterFixed
    split
    · rfl
    · exact outputSize_afterExtra _

theorem outputSize_onTrailer {output : Array UInt8} {got : Bytes} {next : Stage}
    (h : onTrailer output got = .ok next) : next.outputSize = 0 := by
  unfold onTrailer at h
  split at h
  · cases h; rfl
  dsimp only at h
  split at h
  · cases h
  split at h
  · cases h
  · cases h; rfl

/-- A byte adds no more to the output than it can yield. -/
theorem outputSize_step_le {stage next : Stage} {b : UInt8} (h : stage.step b = .ok next) :
    next.outputSize ≤ stage.outputSize + Deflate.Inflater.maxYield := by
  unfold step at h
  split at h
  · cases h; exact Nat.zero_le _
  · split at h <;> cases h
    exact Nat.zero_le _
  · rw [outputSize_onFixed h]
    exact Nat.zero_le _
  · dsimp only at h
    split at h
    · cases h; exact Nat.zero_le _
    split at h
    · cases h
      rw [outputSize_afterExtra]
      exact Nat.zero_le _
    · cases h; exact Nat.zero_le _
  · cases h
    split
    · rw [outputSize_afterExtra]
      exact Nat.zero_le _
    · exact Nat.zero_le _
  · cases h
    split
    · rw [outputSize_afterName]
      exact Nat.zero_le _
    · exact Nat.zero_le _
  · cases h
    split
    · rw [outputSize_afterComment]
      exact Nat.zero_le _
    · exact Nat.zero_le _
  · cases h
    split <;> exact Nat.zero_le _
  · unfold ofInflater at h
    split at h
    · cases h
    · cases h
      exact Nat.zero_le _
    · cases h
      exact Deflate.Inflater.size_feed_le ..
  · rw [outputSize_onTrailer h]
    exact Nat.zero_le _
  · cases h
    split <;> exact Nat.zero_le _

end Stage

end LegacyImage.Gzip
