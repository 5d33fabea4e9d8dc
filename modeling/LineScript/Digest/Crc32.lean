import LineScript.Text.Utf8

/-!
# CRC-32

The remainder of bytes, read with the lowest bit first, by a fixed polynomial.
-/

namespace LineScript.Digest.Crc32

open Text

/-- One bit of division. -/
def shift (r : UInt32) : UInt32 := if r &&& 1 = 1 then (r >>> 1) ^^^ 0xedb88320 else r >>> 1

def absorb (r : UInt32) (b : UInt8) : UInt32 :=
  shift (shift (shift (shift (shift (shift (shift (shift (r ^^^ b.toUInt32))))))))

def checksum (bs : Bytes) : UInt32 := ~~~(bs.foldl absorb 0xffffffff)

end LineScript.Digest.Crc32
