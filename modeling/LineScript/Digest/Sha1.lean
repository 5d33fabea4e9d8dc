import LineScript.Digest.Basic

/-!
# SHA-1

Five words are mixed with the eighty words that a block is stretched to.
-/

namespace LineScript.Digest.Sha1

open Text

structure State where
  a : UInt32
  b : UInt32
  c : UInt32
  d : UInt32
  e : UInt32

def start : State := ⟨0x67452301, 0xefcdab89, 0x98badcfe, 0x10325476, 0xc3d2e1f0⟩

/-- What a round makes of three words, and its constant. -/
def mix (s : State) (i : Nat) : UInt32 × UInt32 :=
  match i / 20 with
  | 0 => ((s.b &&& s.c) ||| (~~~s.b &&& s.d), 0x5a827999)
  | 1 => (s.b ^^^ s.c ^^^ s.d, 0x6ed9eba1)
  | 2 => ((s.b &&& s.c) ||| (s.b &&& s.d) ||| (s.c &&& s.d), 0x8f1bbcdc)
  | _ => (s.b ^^^ s.c ^^^ s.d, 0xca62c1d6)

def step (ws : Array UInt32) (s : State) (i : Nat) : State :=
  let (f, k) := mix s i
  ⟨rotateLeft s.a 5 + f + s.e + k + ws.getD i 0, s.a, rotateLeft s.b 30, s.c, s.d⟩

def next (ws : Array UInt32) : UInt32 :=
  rotateLeft (back ws 3 ^^^ back ws 8 ^^^ back ws 14 ^^^ back ws 16) 1

def absorb (s : State) (block : Bytes) : State :=
  let ws := extend next 64 (words ofBigEndian block)
  let r := (List.range 80).foldl (step ws) s
  ⟨s.a + r.a, s.b + r.b, s.c + r.c, s.d + r.d, s.e + r.e⟩

def digest (bs : Bytes) : Bytes :=
  let s := (blocks (pad (bigEndian · 8) bs)).foldl absorb start
  [s.a, s.b, s.c, s.d, s.e].flatMap fun w => bigEndian w.toNat 4

end LineScript.Digest.Sha1
