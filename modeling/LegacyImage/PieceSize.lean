import LegacyImage.Text

/-!
The sizes of pieces. A size is a signed number of 64 bits. A stream in memory takes every such size,
for it gives no more than it has, and reads all there is for any number below zero. A buffered
stream takes -1, for all there is, and the numbers from zero up, and makes room for the whole piece
before it reads more than it holds ready.
-/

namespace LegacyImage

inductive SizeFault
  | notAWord
  | negative
  | tooLong
  | noRoom
deriving DecidableEq, Repr

def SizeFault.message : SizeFault → Text
  | .notAWord => Text.ofString "cannot fit 'int' into an index-sized integer"
  | .negative => Text.ofString "read length must be non-negative or -1"
  | .tooLong => Text.ofString "byte string is too large"
  | .noRoom => []

namespace PieceSize

/-- Words are below this number, and not below its opposite. -/
def wordBound : Nat := 2 ^ 63

/-- The size of the longest byte string, which has a word's room together with its header. -/
def maxLength : Nat := wordBound - 34

def isWord (size : Int) : Bool := -wordBound ≤ size && size < wordBound

/-- What is wrong with a size that a buffered stream is asked for. -/
def fault? (size : Int) : Option SizeFault :=
  if isWord size then if size < -1 then some .negative else none
  else some .notAWord

end PieceSize

/-- A machine, by the room that it has for one piece. Pieces below a bound have it, among them the
longest field of a gzip header. -/
class Room where
  bound : Nat
  le_bound : 2 ^ 16 ≤ bound
  bound_le : bound ≤ PieceSize.maxLength + 1

/-- There is room for small pieces on every machine. -/
theorem Room.lt_bound [Room] {size : Int} (h : size < 2 ^ 16) : size < Room.bound := by
  have hbound := Room.le_bound
  omega

/-- A machine with room for what is shorter than 32 GiB. -/
instance (priority := low) Room.atHand : Room := ⟨2 ^ 35, by decide, by decide⟩

namespace PieceSize

/-- What is wrong with a size for which room is to be made. -/
def roomFault? [Room] (size : Nat) : Option SizeFault :=
  if maxLength < size then some .tooLong
  else if Room.bound ≤ size then some .noRoom
  else none

theorem neg_one_le_of_fault? {size : Int} (h : fault? size = none) : -1 ≤ size := by
  unfold fault? at h
  split at h
  · split at h
    · cases h
    · omega
  · cases h

end PieceSize

end LegacyImage
