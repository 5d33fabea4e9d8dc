import LineScript.Text.Utf8

/-!
# Base 64

Bytes as a text of 64 digits, three bytes in four digits. Reading passes over everything that is no digit, and
stops at the padding that completes a group.
-/

namespace LineScript.Base64

open Text

/-- The digit of a number below 64. -/
def digit (n : Nat) : Char :=
  if n < 26 then Char.ofNat (65 + n)
  else if n < 52 then Char.ofNat (71 + n)
  else if n < 62 then Char.ofNat (n - 4)
  else if n = 62 then '+'
  else '/'

def encode : Bytes → List Char
  | [] => []
  | [a] =>
    let n := a.toNat * 16
    [digit (n / 64), digit (n % 64), '=', '=']
  | [a, b] =>
    let n := (a.toNat * 256 + b.toNat) * 4
    [digit (n / 4096), digit (n / 64 % 64), digit (n % 64), '=']
  | a :: b :: c :: rest =>
    let n := (a.toNat * 256 + b.toNat) * 256 + c.toNat
    digit (n / 262144) :: digit (n / 4096 % 64) :: digit (n / 64 % 64) :: digit (n % 64) :: encode rest

/-- The number of a digit, given as a byte. -/
def value? (b : UInt8) : Option Nat :=
  let n := b.toNat
  if 65 ≤ n && n ≤ 90 then some (n - 65)
  else if 97 ≤ n && n ≤ 122 then some (n - 71)
  else if 48 ≤ n && n ≤ 57 then some (n + 4)
  else if n = 43 then some 62
  else if n = 47 then some 63
  else none

inductive Problem where
  /-- One digit is left over; the number counts all digits. -/
  | lonely (digits : Nat)
  /-- The last group is not completed. -/
  | padding
  deriving DecidableEq

def Problem.message : Problem → String
  | .lonely n =>
    "Invalid base64-encoded string: number of data characters (" ++ toString n ++
      ") cannot be 1 more than a multiple of 4"
  | .padding => "Incorrect padding"

/-- Reads bytes. `held` are the digits of the group that is being read, `pads` the marks of padding right
before, and `done` how many bytes have been read. -/
def decodeFrom (held : List Nat) (pads done : Nat) : Bytes → Except Problem Bytes
  | [] =>
    match held.length with
    | 0 => .ok []
    | 1 => .error (.lonely (done / 3 * 4 + 1))
    | _ => .error .padding
  | b :: bs =>
    if b.toNat = 61 then
      if held.length ≥ 2 then
        if held.length + (pads + 1) ≥ 4 then .ok [] else decodeFrom held (pads + 1) done bs
      else decodeFrom held pads done bs
    else
      match value? b, held with
      | none, _ => decodeFrom held pads done bs
      | some n, [] => decodeFrom [n] 0 done bs
      | some n, [a] => do
        return UInt8.ofNat (a * 4 + n / 16) :: (← decodeFrom [a, n] 0 (done + 1) bs)
      | some n, [a, b] => do
        return UInt8.ofNat (b % 16 * 16 + n / 4) :: (← decodeFrom [a, b, n] 0 (done + 1) bs)
      | some n, _ :: _ :: c :: _ => do
        return UInt8.ofNat (c % 4 * 64 + n) :: (← decodeFrom [] 0 (done + 1) bs)

def decode (bs : Bytes) : Except Problem Bytes := decodeFrom [] 0 0 bs

end LineScript.Base64
