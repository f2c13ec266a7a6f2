import LegacyImage.Hash.Blockwise

/-!
The SHA-2 family: one compression function over words of 32 or 64 bits. The narrow member takes its
constants from the high halves of the wide one's, which are the leading fractional bits of the same
roots of primes.
-/

namespace LegacyImage.Hash.Sha2

/-- What the compression function needs of a word, and by how much it rotates and shifts. -/
class Word (w : Type) extends Add w, AndOp w, XorOp w, Complement w where
  /-- The size in bytes. -/
  size : Nat
  ofNat : Nat → w
  toNat : w → Nat
  bigSigma0 : w → w
  bigSigma1 : w → w
  smallSigma0 : w → w
  smallSigma1 : w → w

@[inline] def rotate32 (x n : UInt32) : UInt32 := (x >>> n) ||| (x <<< (32 - n))

@[inline] def rotate64 (x n : UInt64) : UInt64 := (x >>> n) ||| (x <<< (64 - n))

instance : Word UInt32 where
  size := 4
  ofNat := UInt32.ofNat
  toNat := UInt32.toNat
  bigSigma0 x := rotate32 x 2 ^^^ rotate32 x 13 ^^^ rotate32 x 22
  bigSigma1 x := rotate32 x 6 ^^^ rotate32 x 11 ^^^ rotate32 x 25
  smallSigma0 x := rotate32 x 7 ^^^ rotate32 x 18 ^^^ (x >>> 3)
  smallSigma1 x := rotate32 x 17 ^^^ rotate32 x 19 ^^^ (x >>> 10)

instance : Word UInt64 where
  size := 8
  ofNat := UInt64.ofNat
  toNat := UInt64.toNat
  bigSigma0 x := rotate64 x 28 ^^^ rotate64 x 34 ^^^ rotate64 x 39
  bigSigma1 x := rotate64 x 14 ^^^ rotate64 x 18 ^^^ rotate64 x 41
  smallSigma0 x := rotate64 x 1 ^^^ rotate64 x 8 ^^^ (x >>> 7)
  smallSigma1 x := rotate64 x 19 ^^^ rotate64 x 61 ^^^ (x >>> 6)

structure Chain (w : Type) where
  a : w
  b : w
  c : w
  d : w
  e : w
  f : w
  g : w
  h : w

namespace Chain

variable {w : Type}

def toList (s : Chain w) : List w := [s.a, s.b, s.c, s.d, s.e, s.f, s.g, s.h]

variable [Word w]

@[specialize] def add (s t : Chain w) : Chain w :=
  ⟨s.a + t.a, s.b + t.b, s.c + t.c, s.d + t.d, s.e + t.e, s.f + t.f, s.g + t.g, s.h + t.h⟩

@[specialize] def round (s : Chain w) (k x : w) : Chain w :=
  let t1 := s.h + Word.bigSigma1 s.e + ((s.e &&& s.f) ^^^ (~~~s.e &&& s.g)) + k + x
  let t2 := Word.bigSigma0 s.a + ((s.a &&& s.b) ^^^ (s.a &&& s.c) ^^^ (s.b &&& s.c))
  ⟨t1 + t2, s.a, s.b, s.c, s.d + t1, s.e, s.f, s.g⟩

def toBytes (s : Chain w) : Bytes :=
  s.toList.flatMap fun x => Bytes.ofNatBE (Word.size w) (Word.toNat x)

end Chain

section Compression

variable {w : Type} [Word w]

@[specialize] def wordsOf : Bytes → Nat → List w
  | _, 0 => []
  | block, n + 1 =>
    Word.ofNat (Bytes.toNatBE (block.take (Word.size w))) :: wordsOf (block.drop (Word.size w)) n

@[specialize] def nextWord (ws : Array w) : w :=
  let back (n : Nat) : w := ws.getD (ws.size - n) (Word.ofNat 0)
  Word.smallSigma1 (back 2) + back 7 + Word.smallSigma0 (back 15) + back 16

/-- The schedule of a block, as long as the list of round constants. -/
@[specialize] def schedule (rounds : Nat) (block : Bytes) : Array w :=
  (List.range (rounds - 16)).foldl (fun ws _ => ws.push (nextWord ws)) (wordsOf block 16).toArray

/-- All the rounds, then the old chaining words added to the new. -/
@[specialize] def compress (constants : Array w) (s : Chain w) (block : Bytes) : Chain w :=
  let ws : Array w := schedule constants.size block
  s.add ((List.range constants.size).foldl
    (fun t i => t.round (constants.getD i (Word.ofNat 0)) (ws.getD i (Word.ofNat 0))) s)

end Compression

/-- The leading 64 fractional bits of the cube roots of the first eighty primes. -/
def wideConstants : Array UInt64 := #[
    0x428a2f98d728ae22, 0x7137449123ef65cd, 0xb5c0fbcfec4d3b2f, 0xe9b5dba58189dbbc,
    0x3956c25bf348b538, 0x59f111f1b605d019, 0x923f82a4af194f9b, 0xab1c5ed5da6d8118,
    0xd807aa98a3030242, 0x12835b0145706fbe, 0x243185be4ee4b28c, 0x550c7dc3d5ffb4e2,
    0x72be5d74f27b896f, 0x80deb1fe3b1696b1, 0x9bdc06a725c71235, 0xc19bf174cf692694,
    0xe49b69c19ef14ad2, 0xefbe4786384f25e3, 0x0fc19dc68b8cd5b5, 0x240ca1cc77ac9c65,
    0x2de92c6f592b0275, 0x4a7484aa6ea6e483, 0x5cb0a9dcbd41fbd4, 0x76f988da831153b5,
    0x983e5152ee66dfab, 0xa831c66d2db43210, 0xb00327c898fb213f, 0xbf597fc7beef0ee4,
    0xc6e00bf33da88fc2, 0xd5a79147930aa725, 0x06ca6351e003826f, 0x142929670a0e6e70,
    0x27b70a8546d22ffc, 0x2e1b21385c26c926, 0x4d2c6dfc5ac42aed, 0x53380d139d95b3df,
    0x650a73548baf63de, 0x766a0abb3c77b2a8, 0x81c2c92e47edaee6, 0x92722c851482353b,
    0xa2bfe8a14cf10364, 0xa81a664bbc423001, 0xc24b8b70d0f89791, 0xc76c51a30654be30,
    0xd192e819d6ef5218, 0xd69906245565a910, 0xf40e35855771202a, 0x106aa07032bbd1b8,
    0x19a4c116b8d2d0c8, 0x1e376c085141ab53, 0x2748774cdf8eeb99, 0x34b0bcb5e19b48a8,
    0x391c0cb3c5c95a63, 0x4ed8aa4ae3418acb, 0x5b9cca4f7763e373, 0x682e6ff3d6b2b8a3,
    0x748f82ee5defb2fc, 0x78a5636f43172f60, 0x84c87814a1f0ab72, 0x8cc702081a6439ec,
    0x90befffa23631e28, 0xa4506cebde82bde9, 0xbef9a3f7b2c67915, 0xc67178f2e372532b,
    0xca273eceea26619c, 0xd186b8c721c0c207, 0xeada7dd6cde0eb1e, 0xf57d4f7fee6ed178,
    0x06f067aa72176fba, 0x0a637dc5a2c898a6, 0x113f9804bef90dae, 0x1b710b35131c471b,
    0x28db77f523047d84, 0x32caab7b40c72493, 0x3c9ebe0a15c9bebc, 0x431d67c49c100d4c,
    0x4cc5d4becb3e42b6, 0x597f299cfc657e2a, 0x5fcb6fab3ad6faec, 0x6c44198c4a475817]

/-- The leading 32 fractional bits of the cube roots of the first sixty-four primes. -/
def narrowConstants : Array UInt32 :=
  (wideConstants.take 64).map fun k : UInt64 => (k >>> 32).toUInt32

/-- The leading fractional bits of the square roots of the first eight primes. -/
def start512 : Chain UInt64 :=
  ⟨0x6a09e667f3bcc908, 0xbb67ae8584caa73b, 0x3c6ef372fe94f82b, 0xa54ff53a5f1d36f1,
    0x510e527fade682d1, 0x9b05688c2b3e6c1f, 0x1f83d9abfb41bd6b, 0x5be0cd19137e2179⟩

/-- The leading fractional bits of the square roots of the ninth to the sixteenth prime. -/
def start384 : Chain UInt64 :=
  ⟨0xcbbb9d5dc1059ed8, 0x629a292a367cd507, 0x9159015a3070dd17, 0x152fecd8f70e5939,
    0x67332667ffc00b31, 0x8eb44a8768581511, 0xdb0c2e0d64f98fa7, 0x47b5481dbefa4fa4⟩

/-- The high halves of the words that start the widest hash. -/
def start256 : Chain UInt32 :=
  let half (x : UInt64) : UInt32 := (x >>> 32).toUInt32
  let s := start512
  ⟨half s.a, half s.b, half s.c, half s.d, half s.e, half s.f, half s.g, half s.h⟩

def sha256 : Blockwise (Chain UInt32) where
  start := start256
  blockSize := 64
  lengthSize := 8
  compress := compress narrowConstants
  output := Chain.toBytes

def sha512 : Blockwise (Chain UInt64) where
  start := start512
  blockSize := 128
  lengthSize := 16
  compress := compress wideConstants
  output := Chain.toBytes

/-- The first forty-eight bytes of the wide hash from another start. -/
def sha384 : Blockwise (Chain UInt64) where
  start := start384
  blockSize := 128
  lengthSize := 16
  compress := compress wideConstants
  output s := s.toBytes.take 48

theorem length_toBytes {w : Type} [Word w] (s : Chain w) : s.toBytes.length = 8 * Word.size w := by
  simp [Chain.toBytes, Chain.toList]
  omega

theorem length_hash_sha256 (message : Bytes) : (sha256.hash message).length = 32 :=
  length_toBytes _

theorem length_hash_sha512 (message : Bytes) : (sha512.hash message).length = 64 :=
  length_toBytes _

theorem length_hash_sha384 (message : Bytes) : (sha384.hash message).length = 48 := by
  simp [Blockwise.hash, Blockwise.finish, sha384, length_toBytes]
  decide

end LegacyImage.Hash.Sha2
