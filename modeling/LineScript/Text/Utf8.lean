/-!
# Text as bytes

Characters are stored in one to four bytes. Reading refuses a byte that cannot start a character, one
that cannot continue it, longer forms than needed, surrogates and a character cut off at the end, and
tells which bytes were at fault.
-/

namespace LineScript.Text

abbrev Bytes := List UInt8

def encodeChar (c : Char) : Bytes :=
  let n := c.toNat
  if n < 0x80 then [UInt8.ofNat n]
  else if n < 0x800 then [UInt8.ofNat (0xc0 + n / 64), UInt8.ofNat (0x80 + n % 64)]
  else if n < 0x10000 then
    [UInt8.ofNat (0xe0 + n / 4096), UInt8.ofNat (0x80 + n / 64 % 64), UInt8.ofNat (0x80 + n % 64)]
  else
    [UInt8.ofNat (0xf0 + n / 262144), UInt8.ofNat (0x80 + n / 4096 % 64), UInt8.ofNat (0x80 + n / 64 % 64),
      UInt8.ofNat (0x80 + n % 64)]

def encode (s : List Char) : Bytes := s.flatMap encodeChar

inductive DecodeProblem where
  | start
  | continuation
  | cutOff
  deriving DecidableEq

/-- `count` bytes from `position` on are no character. -/
structure DecodeError where
  problem : DecodeProblem
  position : Nat
  count : Nat
  deriving DecidableEq

def isContinuation (b : UInt8) : Bool := b.toNat / 64 = 2

/-- Whether the second byte fits a lead byte: no overlong form, no surrogate, nothing past the end. -/
def secondFits (lead second : UInt8) : Bool :=
  isContinuation second &&
    (if lead = 0xe0 then second ≥ 0xa0
    else if lead = 0xed then second < 0xa0
    else if lead = 0xf0 then second ≥ 0x90
    else if lead = 0xf4 then second < 0x90
    else true)

/-- Bytes of a character by its first byte. -/
def leadLength (b : UInt8) : Option Nat :=
  if b < 0x80 then some 1
  else if 0xc2 ≤ b && b < 0xe0 then some 2
  else if 0xe0 ≤ b && b < 0xf0 then some 3
  else if 0xf0 ≤ b && b < 0xf5 then some 4
  else none

def payload (b : UInt8) : Nat := b.toNat % 64

/-- One character at the front, with the number of its bytes, or what is wrong and with how many. -/
def decodeChar : Bytes → Except (DecodeProblem × Nat) (Char × Nat)
  | [] => .error (.cutOff, 0)
  | a :: rest =>
    match leadLength a, rest with
    | none, _ => .error (.start, 1)
    | some 1, _ => .ok (Char.ofNat a.toNat, 1)
    | some 2, [] => .error (.cutOff, 1)
    | some 2, b :: _ =>
      if secondFits a b then .ok (Char.ofNat (a.toNat % 32 * 64 + payload b), 2) else .error (.continuation, 1)
    | some 3, [] => .error (.cutOff, 1)
    | some 3, [b] => if secondFits a b then .error (.cutOff, 2) else .error (.continuation, 1)
    | some 3, b :: c :: _ =>
      if !secondFits a b then .error (.continuation, 1)
      else if !isContinuation c then .error (.continuation, 2)
      else .ok (Char.ofNat (a.toNat % 16 * 4096 + payload b * 64 + payload c), 3)
    | some _, [] => .error (.cutOff, 1)
    | some _, [b] => if secondFits a b then .error (.cutOff, 2) else .error (.continuation, 1)
    | some _, [b, c] =>
      if !secondFits a b then .error (.continuation, 1)
      else if !isContinuation c then .error (.continuation, 2)
      else .error (.cutOff, 3)
    | some _, b :: c :: d :: _ =>
      if !secondFits a b then .error (.continuation, 1)
      else if !isContinuation c then .error (.continuation, 2)
      else if !isContinuation d then .error (.continuation, 3)
      else .ok (Char.ofNat (a.toNat % 8 * 262144 + payload b * 4096 + payload c * 64 + payload d), 4)

/-- Characters from `position` on; `skip` counts bytes of a character already read. -/
def decodeFrom : Nat → Nat → Bytes → Except DecodeError (List Char)
  | _, _, [] => .ok []
  | k + 1, position, _ :: bs => decodeFrom k (position + 1) bs
  | 0, position, b :: bs =>
    match decodeChar (b :: bs) with
    | .ok (c, n) =>
      match decodeFrom (n - 1) (position + 1) bs with
      | .ok cs => .ok (c :: cs)
      | .error e => .error e
    | .error (p, n) => .error ⟨p, position, n⟩

def decode (bs : Bytes) : Except DecodeError (List Char) := decodeFrom 0 0 bs

/-- Reads on past faults: each one gives `fill`. -/
def decodeLossy (fill : List Char) : Nat → Bytes → List Char
  | _, [] => []
  | k + 1, _ :: bs => decodeLossy fill k bs
  | 0, b :: bs =>
    match decodeChar (b :: bs) with
    | .ok (c, n) => c :: decodeLossy fill (n - 1) bs
    | .error (_, n) => fill ++ decodeLossy fill (n - 1) bs

def DecodeProblem.label : DecodeProblem → String
  | .start => "invalid start byte"
  | .continuation => "invalid continuation byte"
  | .cutOff => "unexpected end of data"

/-- A carriage return, with a line feed after it or not, is read as a line feed. -/
def universalNewlines : List Char → List Char
  | [] => []
  | '\r' :: '\n' :: cs => '\n' :: universalNewlines cs
  | c :: cs => (if c = '\r' then '\n' else c) :: universalNewlines cs

end LineScript.Text
