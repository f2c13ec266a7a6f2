import LegacyImage.PieceSize
import LegacyImage.Reader

/-!
Streams over bytes in memory. A stream may be set to fail once it has given so many bytes, and to
give at most so many at a time. Reading nothing always succeeds on an open stream, and a closed
stream fails every read. Of a size only what the bounds leave of it has to be a word, so every size
below zero reads all there is; a closed stream, which bounds nothing, looks at the size itself.
-/

namespace LegacyImage

/-- A stream: what is left of its content, how many bytes it has given, where it fails, how much it
gives at a time, and whether it is closed. -/
structure Stream where
  rest : Bytes
  position : Nat
  failAt : Option Nat
  maxRead : Option Nat
  closed : Bool
deriving DecidableEq

namespace Stream

inductive Fault
  | closed
  | reset
  | size (fault : SizeFault)
deriving DecidableEq, Repr

def Fault.message : Fault → Text
  | .closed => Text.ofString "I/O operation on closed file."
  | .reset => Text.ofString "connection reset"
  | .size fault => fault.message

def ofBytes (content : Bytes) (failAt maxRead : Option Nat) : Stream :=
  ⟨content, 0, failAt, maxRead, false⟩

def close (s : Stream) : Stream := { s with closed := true }

/-- The bounds on the next piece: the size asked for unless negative, the most that the stream
gives at a time, and the distance to the failure. -/
def bounds (size : Int) (s : Stream) : List Nat :=
  (if size < 0 then [] else [size.toNat]) ++ s.maxRead.toList ++
    (s.failAt.map (· - s.position)).toList

/-- Whether the bounds leave a size that is no word. -/
def exceedsWords (size : Int) (s : Stream) : Bool :=
  (s.bounds size).min?.any (PieceSize.wordBound ≤ ·)

/-- The next piece: all that is left, within the bounds. -/
def piece (size : Int) (s : Stream) : Bytes :=
  match (s.bounds size).min? with
  | none => s.rest
  | some n => s.rest.take n

def read (size : Int) (s : Stream) : Except Fault Bytes × Stream :=
  if s.closed then (.error (if PieceSize.isWord size then .closed else .size .notAWord), s)
  else if size = 0 then (.ok [], s)
  else if s.failAt.any (· ≤ s.position) then (.error .reset, s)
  else if s.exceedsWords size then (.error (.size .notAWord), s)
  else
    let got := s.piece size
    (.ok got, { s with rest := s.rest.drop got.length, position := s.position + got.length })

theorem piece_prefix (size : Int) (s : Stream) : s.piece size <+: s.rest := by
  unfold piece
  split
  · exact List.prefix_rfl
  · exact List.take_prefix _ _

/-- A read gives the bytes that come next, and moves on by as many. -/
theorem rest_read {size : Int} {s s' : Stream} {got : Bytes} (h : s.read size = (.ok got, s')) :
    got ++ s'.rest = s.rest ∧ s'.position = s.position + got.length := by
  unfold read at h
  split at h
  · cases h
  split at h
  · cases h
    exact ⟨rfl, rfl⟩
  split at h
  · cases h
  split at h
  · cases h
  · cases h
    refine ⟨?_, rfl⟩
    obtain ⟨rest, e⟩ := s.piece_prefix size
    show s.piece size ++ s.rest.drop (s.piece size).length = s.rest
    rw [← e, List.drop_left]

theorem eq_of_read_error {size : Int} {s s' : Stream} {fault : Fault}
    (h : s.read size = (.error fault, s')) : s' = s := by
  unfold read at h
  split at h
  · cases h; rfl
  split at h
  · cases h
  split at h
  · cases h; rfl
  split at h
  · cases h; rfl
  · cases h

theorem length_rest_read {size : Int} {s s' : Stream} {got : Bytes}
    (h : s.read size = (.ok got, s')) : s'.rest.length + got.length ≤ s.rest.length := by
  rw [← (rest_read h).1, List.length_append]
  omega

def reader : Reader Stream Fault where
  read size s := s.read size
  remaining s := s.rest.length
  remaining_read h := length_rest_read h

end Stream

end LegacyImage
