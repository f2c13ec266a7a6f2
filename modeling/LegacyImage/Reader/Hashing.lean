import LegacyImage.Digest
import LegacyImage.Reader

/-!
Readers that hash what passes through them. The hash and the count are those of all pieces so far,
however they were asked for; a read that fails leaves both as they are.
-/

namespace LegacyImage

/-- A hash in progress of what a reader has given, and how many bytes that was. -/
structure Tally where
  hash : Hash.Running (Hash.Sha2.Chain UInt32)
  size : Nat

namespace Tally

def empty : Tally := ⟨Hash.Sha2.sha256.init, 0⟩

def add (t : Tally) (piece : Bytes) : Tally :=
  ⟨Hash.Sha2.sha256.absorb t.hash piece, t.size + piece.length⟩

def digest (t : Tally) : Digest :=
  ⟨.sha256, Hash.Sha2.sha256.finish t.hash, Hash.Sha2.length_toBytes _⟩

/-- A piece counts like its parts one after the other. -/
theorem add_append (t : Tally) (a b : Bytes) : t.add (a ++ b) = (t.add a).add b := by
  simp only [add, Hash.Blockwise.absorb_append, List.length_append, Nat.add_assoc]

@[simp] theorem add_nil (t : Tally) : t.add [] = t := rfl

theorem digest_add_empty (bs : Bytes) : (empty.add bs).digest = .ofBytes bs := rfl

theorem size_add_empty (bs : Bytes) : (empty.add bs).size = bs.length := Nat.zero_add _

end Tally

/-- The state of a hashing reader: that of the reader under it, and its tally. -/
structure Hashing (σ : Type) where
  inner : σ
  tally : Tally

def Hashing.start {σ : Type} (inner : σ) : Hashing σ := ⟨inner, .empty⟩

def Reader.hashing {σ ε : Type} (r : Reader σ ε) : Reader (Hashing σ) ε where
  read size s :=
    match r.read size s.inner with
    | (.ok piece, inner) => (.ok piece, ⟨inner, s.tally.add piece⟩)
    | (.error e, inner) => (.error e, ⟨inner, s.tally⟩)
  remaining s := r.remaining s.inner
  remaining_read h := by
    split at h
    · rename_i inner hr
      cases h
      exact r.remaining_read hr
    · cases h

end LegacyImage
