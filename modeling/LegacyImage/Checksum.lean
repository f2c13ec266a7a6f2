import LegacyImage.Bytes

/-!
The cyclic redundancy check of 32 bits that gzip uses, a byte at a time.
-/

namespace LegacyImage.Checksum

/-- Moves the remainder on by one bit. -/
def shift (c : UInt32) : UInt32 :=
  if c &&& 1 = 1 then (c >>> 1) ^^^ 0xEDB88320 else c >>> 1

def update (c : UInt32) (b : UInt8) : UInt32 :=
  shift (shift (shift (shift (shift (shift (shift (shift (c ^^^ b.toUInt32))))))))

def ofBytes (bs : Bytes) : UInt32 := ~~~(bs.foldl update 0xFFFFFFFF)

end LegacyImage.Checksum
