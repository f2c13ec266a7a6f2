import LegacyImage.Reader.Hashing
import LegacyImage.Stream

/-!
Iterating over a stream through a hashing reader, by single reads and by iterations that share the
stream. An iteration that fails has delivered what came before.
-/

namespace LegacyImage

/-- A hashing reader over a stream, and whether its current iteration goes on. -/
structure Iterating where
  state : Hashing Stream
  live : Bool

namespace Iterating

/-- What can be asked: a piece, the next piece of the current iteration, a new iteration, and an
iteration of its own from here to the end. -/
inductive Request
  | read (size : Int)
  | next
  | restart
  | iterate

inductive Reply
  | piece (bytes : Bytes)
  | exhausted
  | restarted
  | pieces (delivered : List Bytes) (fault : Option Stream.Fault)
  | failed (fault : Stream.Fault)

def reader : Reader (Hashing Stream) Stream.Fault := Stream.reader.hashing

/-- A new reader over a stream, with an iteration begun. -/
def start (s : Stream) : Iterating := ⟨.start s, true⟩

/-- Serves a request. An iteration that came to the end or failed gives nothing more. -/
def serve (chunkSize : Int) (it : Iterating) : Request → Reply × Iterating
  | .read size =>
    match reader.read size it.state with
    | (.ok bs, r) => (.piece bs, ⟨r, it.live⟩)
    | (.error e, r) => (.failed e, ⟨r, it.live⟩)
  | .next =>
    if it.live then
      match reader.read chunkSize it.state with
      | (.ok [], r) => (.exhausted, ⟨r, false⟩)
      | (.ok bs, r) => (.piece bs, ⟨r, true⟩)
      | (.error e, r) => (.failed e, ⟨r, false⟩)
    else (.exhausted, it)
  | .restart => (.restarted, ⟨it.state, true⟩)
  | .iterate =>
    let d := reader.drain chunkSize it.state
    (.pieces d.pieces d.fault, ⟨d.state, it.live⟩)

end Iterating

end LegacyImage
