import LegacyImage.Bytes

/-!
Hash functions that digest a message block by block, fed a byte at a time. The message may come in
any pieces: absorbing one piece and then another is absorbing both at once (`absorb_append`), so a
running hash and a hash of the whole message agree.
-/

namespace LegacyImage.Hash

/-- A hash function with chaining state `σ`: blocks of `blockSize` bytes, and a final block that
ends with the length of the message in bits, in `lengthSize` bytes. -/
structure Blockwise (σ : Type) where
  start : σ
  blockSize : Nat
  lengthSize : Nat
  compress : σ → Bytes → σ
  output : σ → Bytes

/-- A hash in progress: the state after the complete blocks, the bytes after them (newest first)
and the number of bytes so far. -/
structure Running (σ : Type) where
  chain : σ
  pending : Bytes
  count : Nat

namespace Blockwise

variable {σ : Type} (h : Blockwise σ)

def init : Running σ := ⟨h.start, [], 0⟩

/-- Takes one byte; a block that is complete goes into the state. -/
@[specialize] def absorbByte (r : Running σ) (b : UInt8) : Running σ :=
  if (r.count + 1) % h.blockSize = 0 then
    ⟨h.compress r.chain (b :: r.pending).reverse, [], r.count + 1⟩
  else ⟨r.chain, b :: r.pending, r.count + 1⟩

@[specialize] def absorb (r : Running σ) (bs : Bytes) : Running σ := bs.foldl h.absorbByte r

/-- What closes a message of `count` bytes: a one bit, zeros up to the end of a block less the
length field, and the length in bits. -/
def closing (count : Nat) : Bytes :=
  let zeros := (2 * h.blockSize - 1 - h.lengthSize - count % h.blockSize) % h.blockSize
  0x80 :: (List.replicate zeros 0 ++ Bytes.ofNatBE h.lengthSize (8 * count))

@[specialize] def finish (r : Running σ) : Bytes :=
  h.output (h.absorb r (h.closing r.count)).chain

@[specialize] def hash (message : Bytes) : Bytes := h.finish (h.absorb h.init message)

@[simp] theorem absorb_nil (r : Running σ) : h.absorb r [] = r := rfl

theorem absorb_append (r : Running σ) (a b : Bytes) :
    h.absorb r (a ++ b) = h.absorb (h.absorb r a) b := by
  simp [absorb]

end Blockwise

end LegacyImage.Hash
