import LegacyImage.Store.Tree
import LegacyImage.Stream

/-!
Open blobs: a stream in memory, or a file that is read where it lies. A file is read ahead in whole
blocks, so what is changed in it while it is open shows only beyond what was read.
-/

namespace LegacyImage

/-- An open file: the way to it, what was read ahead, the place after that, and whether it is
closed. -/
structure OpenFile where
  names : List Text
  ahead : Bytes
  offset : Nat
  closed : Bool

inductive OpenBlob
  | memory (stream : Stream)
  | file (file : OpenFile)

namespace OpenBlob

inductive Fault
  | memory (fault : Stream.Fault)
  | closedFile
  | size (fault : SizeFault)
deriving DecidableEq, Repr

def Fault.message : Fault → Text
  | .memory fault => fault.message
  | .closedFile => Text.ofString "read of closed file"
  | .size fault => fault.message

def blockSize : Nat := 4096

/-- How much of a file to read so that `missing` bytes are there. -/
def wholeBlocks (missing : Nat) : Nat := (missing + (blockSize - 1)) / blockSize * blockSize

def readFile [Room] (content : Bytes) (size : Int) (f : OpenFile) : Except Fault Bytes × OpenFile :=
  match PieceSize.fault? size with
  | some fault => (.error (.size fault), f)
  | none =>
    if f.closed then (.error .closedFile, f)
    else if size = -1 then
      let more := content.drop f.offset
      (.ok (f.ahead ++ more), { f with ahead := [], offset := f.offset + more.length })
    else
      let n := size.toNat
      let first := f.ahead.take n
      if first.length = n then (.ok first, { f with ahead := f.ahead.drop n })
      else match PieceSize.roomFault? n with
        | some fault => (.error (.size fault), f)
        | none =>
          let missing := n - f.ahead.length
          let more := (content.drop f.offset).take (wholeBlocks missing)
          (.ok (f.ahead ++ more.take missing),
            { f with ahead := more.drop missing, offset := f.offset + more.length })

/-- The content of the file that is open; a file does not go away. -/
def contentOf (tree : Tree) (f : OpenFile) : Bytes :=
  match tree.content f.names with
  | .ok content => content
  | .error _ => []

def read [Room] (tree : Tree) (size : Int) : OpenBlob → Except Fault Bytes × OpenBlob
  | .memory s =>
    match s.read size with
    | (.ok piece, s) => (.ok piece, .memory s)
    | (.error e, s) => (.error (.memory e), .memory s)
  | .file f =>
    match readFile (contentOf tree f) size f with
    | (.ok piece, f) => (.ok piece, .file f)
    | (.error e, f) => (.error e, .file f)

def close : OpenBlob → OpenBlob
  | .memory s => .memory s.close
  | .file f => .file { f with closed := true }

def isClosed : OpenBlob → Bool
  | .memory s => s.closed
  | .file f => f.closed

def remaining (tree : Tree) : OpenBlob → Nat
  | .memory s => s.rest.length
  | .file f => f.ahead.length + ((contentOf tree f).length - f.offset)

theorem length_readFile [Room] {content : Bytes} {size : Int} {f f' : OpenFile} {piece : Bytes}
    (h : readFile content size f = (.ok piece, f')) :
    f'.names = f.names ∧ f'.ahead.length + (content.length - f'.offset) + piece.length ≤
      f.ahead.length + (content.length - f.offset) := by
  unfold readFile at h
  split at h
  · cases h
  split at h
  · cases h
  split at h
  · cases h
    simp
    omega
  dsimp only at h
  split at h
  · cases h
    simp
    omega
  split at h
  · cases h
  · cases h
    simp
    omega

/-- Open blobs as readers, while the files are as they are. -/
def reader [Room] (tree : Tree) : Reader OpenBlob Fault where
  read size b := b.read tree size
  remaining b := b.remaining tree
  remaining_read {size b piece b'} h := by
    unfold read at h
    split at h
    · rename_i s
      split at h
      · rename_i s' hr
        cases h
        exact Stream.length_rest_read hr
      · cases h
    · rename_i f
      split at h
      · rename_i f' hr
        cases h
        obtain ⟨hn, hl⟩ := length_readFile hr
        simpa [remaining, contentOf, hn] using hl
      · cases h

end OpenBlob

end LegacyImage
