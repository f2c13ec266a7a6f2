/-!
Byte strings: their reading as numbers in either byte order, and the fixed-width byte form of a
number. Writing a number in `n` bytes and reading it back gives the number modulo `256 ^ n`.
-/

-- `^` on numbers is the core library's everywhere, also where another power is in scope
attribute [instance (2000), default_instance 20000] instPowNat

namespace LegacyImage

abbrev Bytes := List UInt8

namespace Bytes

def toNatBE (bs : Bytes) : Nat := bs.foldl (fun n b => 256 * n + b.toNat) 0

def toNatLE (bs : Bytes) : Nat := bs.foldr (fun b n => b.toNat + 256 * n) 0

/-- The low `count` bytes of a number, least significant first. -/
def ofNatLE : Nat → Nat → Bytes
  | 0, _ => []
  | count + 1, n => UInt8.ofNat n :: ofNatLE count (n / 256)

/-- The low `count` bytes of a number, most significant first. -/
def ofNatBE (count n : Nat) : Bytes := (ofNatLE count n).reverse

@[simp] theorem length_ofNatLE (count n : Nat) : (ofNatLE count n).length = count := by
  induction count generalizing n with
  | zero => rfl
  | succ count ih => simp [ofNatLE, ih]

@[simp] theorem length_ofNatBE (count n : Nat) : (ofNatBE count n).length = count := by
  simp [ofNatBE]

@[simp] theorem toNatLE_nil : toNatLE [] = 0 := rfl

@[simp] theorem toNatLE_cons (b : UInt8) (bs : Bytes) :
    toNatLE (b :: bs) = b.toNat + 256 * toNatLE bs := rfl

theorem toNatLE_ofNatLE (count n : Nat) : toNatLE (ofNatLE count n) = n % 256 ^ count := by
  induction count generalizing n with
  | zero => simp [ofNatLE, Nat.mod_one]
  | succ count ih =>
    have e : 256 ^ (count + 1) = 256 * 256 ^ count := Nat.pow_succ'
    rw [ofNatLE, toNatLE_cons, ih, e, Nat.mod_mul, UInt8.toNat_ofNat']

theorem toNatBE_reverse (bs : Bytes) : toNatBE bs.reverse = toNatLE bs := by
  rw [toNatBE, toNatLE, List.foldl_reverse]
  congr 1
  funext b n
  omega

theorem toNatBE_ofNatBE (count n : Nat) : toNatBE (ofNatBE count n) = n % 256 ^ count := by
  rw [ofNatBE, toNatBE_reverse, toNatLE_ofNatLE]

end Bytes

end LegacyImage
