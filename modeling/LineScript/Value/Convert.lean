import LineScript.Value.Formatting
import LineScript.Text.Casing
import LineScript.Text.Utf8

/-!
# Conversions between values

Whole numbers, double precision numbers and texts from other values, and the elements that a value can
be run through.
-/

namespace LineScript.Value

open Number

/-- A whole number that stands for itself. -/
def indexOf (v : Value) : Except Fault Int :=
  match count? v with
  | some n => .ok n
  | none => .error (.notInteger v.typeName)

def sizeLimit : Int := Nat.pow 2 63

/-- A whole number that fits into a machine word. -/
def sizeOf (v : Value) : Except Fault Int := do
  let n ← indexOf v
  if n ≥ sizeLimit || n < -sizeLimit then
    throw (.primitive .overflow "Python int too large to convert to C ssize_t")
  return n

def elements (store : Store) (v : Value) : Except Fault (List Value) :=
  match v with
  | .list ref => .ok (store.items ref)
  | .tuple vs => .ok vs
  | .str s => .ok (s.toList.map fun c => .str (String.singleton c))
  | .bytes bs => .ok (bs.map fun b => .int b.toNat)
  | v => .error (.notIterable v.typeName)

def lengthOf (store : Store) (v : Value) : Except Fault Nat :=
  match v with
  | .list ref => .ok (store.items ref).length
  | .tuple vs => .ok vs.length
  | .str s => .ok s.toList.length
  | .bytes bs => .ok bs.length
  | v => .error (.type ("object of type '" ++ v.typeName ++ "' has no len()"))

/-- Characters of a numeral given as bytes. -/
def charsOfBytes (bs : List UInt8) : List Char := bs.map fun b => Char.ofNat b.toNat

def readIntValue (base : Nat) (chars : List Char) (quoted : String) : Except Fault Value :=
  match readInt base chars with
  | .value n => .ok (.int n)
  | .malformed => .error (.invalidInt base quoted)
  | .tooLong n => .error (.digitLimitReading n)

def quotedBytesString (bs : List UInt8) : String := String.ofList (Text.quotedBytes bs)

/-- A whole number from a number or a numeral. -/
def toInt (v : Value) : Except Fault Value :=
  match v with
  | .bool b => .ok (.int (if b then 1 else 0))
  | .int n => .ok (.int n)
  | .float x => do return .int (← floatToInt x)
  | .str s => readIntValue 10 s.toList (Fault.quote s)
  | .bytes bs => readIntValue 10 (charsOfBytes bs) (quotedBytesString bs)
  | v => .error (.type ("int() argument must be a string, a bytes-like object or a real number, not '" ++
      v.typeName ++ "'"))

def toIntBase (v base : Value) : Except Fault Value := do
  let n ← indexOf base
  if (n ≠ 0 && n < 2) || n > 36 then throw (.value "int() base must be >= 2 and <= 36, or 0")
  match v with
  | .str s => readIntValue n.toNat s.toList (Fault.quote s)
  | .bytes bs => readIntValue n.toNat (charsOfBytes bs) (quotedBytesString bs)
  | _ => throw (.type "int() can't convert non-string with explicit base")

def readFloatValue (chars : List Char) (quoted : String) : Except Fault Value :=
  match readFloat chars with
  | some x => .ok (.float x)
  | none => .error (.invalidFloat quoted)

def toFloat (v : Value) : Except Fault Value :=
  match v with
  | .bool b => .ok (.float (if b then 1.0 else 0.0))
  | .int n => do return .float (← intToFloat n)
  | .float x => .ok (.float x)
  | .str s => readFloatValue s.toList (Fault.quote s)
  | .bytes bs => readFloatValue (charsOfBytes bs) (quotedBytesString bs)
  | v => .error (.type ("float() argument must be a string or a real number, not '" ++ v.typeName ++ "'"))

inductive Encoding where
  | utf8 | ascii | latin1

def Encoding.ofName? (name : String) : Option Encoding :=
  match String.ofList (name.toList.map fun c => if c = '_' || c = ' ' then '-' else c.toLower) with
  | "utf-8" | "utf8" | "u8" | "utf" | "cp65001" => some .utf8
  | "ascii" | "us-ascii" | "646" => some .ascii
  | "latin-1" | "latin1" | "iso-8859-1" | "iso8859-1" | "8859" | "l1" | "latin" => some .latin1
  | _ => Option.none

def decodeFault (codec : String) (bs : List UInt8) (position count : Nat) (reason : String) : Fault :=
  let place :=
    if count = 1 then
      "byte 0x" ++ String.ofList (Text.hexDigits 2 ((bs.drop position).headD 0).toNat) ++ " in position " ++
        toString position
    else "bytes in position " ++ toString position ++ "-" ++ toString (position + count - 1)
  .primitive .decode ("'" ++ codec ++ "' codec can't decode " ++ place ++ ": " ++ reason)

def decodeUtf8 (bs : List UInt8) : Except Fault (List Char) :=
  match Text.decode bs with
  | .ok cs => .ok cs
  | .error e => .error (decodeFault "utf-8" bs e.position e.count e.problem.label)

def decodeAscii (bs : List UInt8) : Except Fault (List Char) :=
  match bs.findIdx? (128 ≤ ·.toNat) with
  | none => .ok (charsOfBytes bs)
  | some i => .error (decodeFault "ascii" bs i 1 "ordinal not in range(128)")

/-- Bytes as text; `errors` says what becomes of bytes that are not. -/
def decodeBytes (encoding errors : String) (bs : List UInt8) : Except Fault (List Char) :=
  let fill := match errors with
    | "ignore" => some []
    | "replace" => some ['�']
    | _ => Option.none
  match Encoding.ofName? encoding, fill with
  | none, _ => .error (.primitive .lookup ("unknown encoding: " ++ encoding))
  | some .latin1, _ => .ok (charsOfBytes bs)
  | some .utf8, none => decodeUtf8 bs
  | some .ascii, none => decodeAscii bs
  | some .utf8, some f => .ok (Text.decodeLossy f 0 bs)
  | some .ascii, some f =>
    .ok (bs.flatMap fun b => if b.toNat < 128 then [Char.ofNat b.toNat] else f)

/-- Bounds of a part of a sequence of length `n`: negative ones count from the end. -/
def clampBound (n : Nat) (i : Int) : Nat :=
  if i < 0 then (i + n).toNat else i.toNat

end LineScript.Value
