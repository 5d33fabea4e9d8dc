import LineScript.Text.Utf8
import LineScript.Text.Quoted

/-!
# Blocks and words

What the digests share: bytes are padded to whole blocks, and blocks are read as words.
-/

namespace LineScript.Digest

open Text

/-- The lowest bytes of a number, the lowest first. -/
def littleEndian (n : Nat) : Nat → Bytes
  | 0 => []
  | width + 1 => UInt8.ofNat n :: littleEndian (n / 256) width

/-- The lowest bytes of a number, the lowest last. -/
def bigEndian (n width : Nat) : Bytes := (littleEndian n width).reverse

/-- The number whose lowest byte comes first. -/
def ofLittleEndian (bs : Bytes) : Nat := bs.foldr (fun b n => b.toNat + 256 * n) 0

/-- The number whose lowest byte comes last. -/
def ofBigEndian (bs : Bytes) : Nat := bs.foldl (fun n b => 256 * n + b.toNat) 0

def blockSize : Nat := 64

/-- Bytes with a mark, zeros and the length in bits, so that there are only whole blocks. -/
def pad (lengthBytes : Nat → Bytes) (bs : Bytes) : Bytes :=
  bs ++ 0x80 :: List.replicate ((119 - bs.length % blockSize) % blockSize) 0 ++ lengthBytes (8 * bs.length)

/-- Pieces of equal size, as many as `fuel` allows. -/
def pieces (size : Nat) : Nat → Bytes → List Bytes
  | 0, _ => []
  | fuel + 1, bs => if bs.isEmpty then [] else bs.take size :: pieces size fuel (bs.drop size)

def blocks (bs : Bytes) : List Bytes := pieces blockSize (bs.length / blockSize + 1) bs

/-- The sixteen words of a block. -/
def words (read : Bytes → Nat) (block : Bytes) : Array UInt32 :=
  ((pieces 4 16 block).map fun w => UInt32.ofNat (read w)).toArray

def rotateLeft (x : UInt32) (n : UInt32) : UInt32 := (x <<< n) ||| (x >>> (32 - n))

def rotateRight (x : UInt32) (n : UInt32) : UInt32 := (x >>> n) ||| (x <<< (32 - n))

/-- The word so many places before the end. -/
def back (ws : Array UInt32) (n : Nat) : UInt32 := ws.getD (ws.size - n) 0

/-- Adds words made from the ones before. -/
def extend (next : Array UInt32 → UInt32) : Nat → Array UInt32 → Array UInt32
  | 0, ws => ws
  | n + 1, ws => extend next n (ws.push (next ws))

def hex (bs : Bytes) : String := String.ofList (bs.flatMap fun b => hexDigits 2 b.toNat)

end LineScript.Digest
