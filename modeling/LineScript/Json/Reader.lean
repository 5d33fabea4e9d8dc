import LineScript.Json.Basic

/-!
# Reading JSON

Reading stops at the first problem and says what was expected and where. Beyond the standard, `NaN`,
`Infinity` and `-Infinity` are numbers; of several fields of one name the last counts, at the first one's
place.
-/

namespace LineScript.Json

inductive Problem where
  | value
  | propertyName
  | colon
  | comma
  | unterminated
  | control
  | escape
  | unicodeEscape
  | extra
  | byteOrderMark
  deriving DecidableEq

def Problem.message : Problem → String
  | .value => "Expecting value"
  | .propertyName => "Expecting property name enclosed in double quotes"
  | .colon => "Expecting ':' delimiter"
  | .comma => "Expecting ',' delimiter"
  | .unterminated => "Unterminated string starting at"
  | .control => "Invalid control character at"
  | .escape => "Invalid \\escape"
  | .unicodeEscape => "Invalid \\uXXXX escape"
  | .extra => "Extra data"
  | .byteOrderMark => "Unexpected UTF-8 BOM (decode using utf-8-sig)"

inductive ReadError where
  | unexpected (problem : Problem) (position : Nat)
  /-- A whole number has too many digits. -/
  | digits (count : Nat)
  deriving DecidableEq

/-- What is left to read, and how much has been read. -/
structure Cursor where
  pos : Nat
  rest : List Char

def isSpace (c : Char) : Bool := c = ' ' || c = '\t' || c = '\n' || c = '\r'

def Cursor.drop (k : Cursor) (n : Nat) : Cursor := ⟨k.pos + n, k.rest.drop n⟩

def Cursor.skip (k : Cursor) : Cursor := k.drop (k.rest.takeWhile isSpace).length

abbrev Read := Except ReadError

def fail (p : Problem) (pos : Nat) : Read α := .error (.unexpected p pos)

def isHex (c : Char) : Bool := c.isDigit || ('a' ≤ c && c ≤ 'f') || ('A' ≤ c && c ≤ 'F')

/-- Four hexadecimal digits at the front of a text that goes on after them. -/
def unit? (s : List Char) : Option Nat :=
  let ds := s.take 4
  if ds.length = 4 && ds.all isHex then some (Text.hexValue ds) else none

def isHigh (n : Nat) : Bool := 0xd800 ≤ n && n < 0xdc00

def isLow (n : Nat) : Bool := 0xdc00 ≤ n && n < 0xe000

def simpleEscape? : Char → Option Char
  | '"' => some '"'
  | '\\' => some '\\'
  | '/' => some '/'
  | 'b' => some '\x08'
  | 'f' => some '\x0c'
  | 'n' => some '\n'
  | 'r' => some '\r'
  | 't' => some '\t'
  | _ => none

/-- A character given by its number at `k`, after the letter that says so, and what follows it. -/
def readUnit (k : Cursor) : Read (Char × Cursor) :=
  match unit? k.rest with
  | none => fail .unicodeEscape (k.pos - 1)
  | some n =>
    let after := k.drop 4
    if after.rest.isEmpty then fail .unicodeEscape (k.pos - 1)
    else if isHigh n then
      match after.rest with
      | '\\' :: 'u' :: low =>
        if low.length ≤ 4 then .ok (Char.ofNat n, after)
        else match unit? low with
          | none => fail .unicodeEscape (after.pos + 1)
          | some m =>
            if isLow m then .ok (Char.ofNat (0x10000 + (n - 0xd800) * 1024 + (m - 0xdc00)), after.drop 6)
            else .ok (Char.ofNat n, after)
      | _ => .ok (Char.ofNat n, after)
    else .ok (Char.ofNat n, after)

/-- A text after its opening quote, which stands at `begin`. -/
def readString (start : Nat) : Nat → List Char → Cursor → Read (String × Cursor)
  | 0, _, _ => fail .unterminated start
  | n + 1, acc, k =>
    match k.rest with
    | [] => fail .unterminated start
    | '"' :: _ => .ok (String.ofList acc.reverse, k.drop 1)
    | '\\' :: 'u' :: _ => do
      let (c, k) ← readUnit (k.drop 2)
      readString start n (c :: acc) k
    | '\\' :: c :: _ =>
      match simpleEscape? c with
      | some c => readString start n (c :: acc) (k.drop 2)
      | none => fail .escape k.pos
    | '\\' :: [] => fail .unterminated start
    | c :: _ => if c.toNat ≤ 0x1f then fail .control k.pos else readString start n (c :: acc) (k.drop 1)

def minusPart : List Char → List Char
  | '-' :: _ => ['-']
  | _ => []

/-- The digits at the front, of which a zero is the only one. -/
def wholePart : List Char → List Char
  | '0' :: _ => ['0']
  | r => r.takeWhile Char.isDigit

/-- A point with digits after it. -/
def fractionPart : List Char → List Char
  | '.' :: r => if (r.takeWhile Char.isDigit).isEmpty then [] else '.' :: r.takeWhile Char.isDigit
  | _ => []

def signPart : List Char → List Char
  | '+' :: _ => ['+']
  | '-' :: _ => ['-']
  | _ => []

/-- The mark of an exponent, its sign and its digits. -/
def exponentPart : List Char → List Char
  | e :: r =>
    if e = 'e' || e = 'E' then
      let sign := signPart r
      let digits := (r.drop sign.length).takeWhile Char.isDigit
      if digits.isEmpty then [] else e :: sign ++ digits
    else []
  | [] => []

/-- The longest numeral at the front: sign and digits, whether it has a fraction or an exponent. -/
def numeral? (s : List Char) : Option (List Char × Bool) :=
  let sign := minusPart s
  let rest := s.drop sign.length
  let whole := wholePart rest
  if whole.isEmpty then none
  else
    let rest := rest.drop whole.length
    let fraction := fractionPart rest
    let exponent := exponentPart (rest.drop fraction.length)
    some (sign ++ whole ++ fraction ++ exponent, !(fraction ++ exponent).isEmpty)

def readNumber (k : Cursor) : Read (Json × Cursor) :=
  match numeral? k.rest with
  | none => fail .value k.pos
  | some (s, true) => .ok (.float ((Number.readFloat s).getD 0.0), k.drop s.length)
  | some (s, false) =>
    match Number.readInt 10 s with
    | .value n => .ok (.int n, k.drop s.length)
    | .tooLong n => .error (.digits n)
    | .malformed => fail .value k.pos

def readName (k : Cursor) : Read (String × Cursor) :=
  match k.rest with
  | '"' :: _ => do
    let (name, k) ← readString k.pos (k.rest.length + 1) [] (k.drop 1)
    let k := k.skip
    match k.rest with
    | ':' :: _ => return (name, (k.drop 1).skip)
    | _ => fail .colon k.pos
  | _ => fail .propertyName k.pos

def words : List (List Char × Json) :=
  [("null".toList, .null), ("true".toList, .bool true), ("false".toList, .bool false),
   ("NaN".toList, .float Number.nan), ("Infinity".toList, .float Number.infinity),
   ("-Infinity".toList, .float (-Number.infinity))]

mutual

def readValue : Nat → Cursor → Read (Json × Cursor)
  | 0, k => fail .value k.pos
  | n + 1, k =>
    match k.rest with
    | '"' :: _ => do
      let (s, k) ← readString k.pos (k.rest.length + 1) [] (k.drop 1)
      return (.str s, k)
    | '[' :: _ =>
      let k := (k.drop 1).skip
      match k.rest with
      | ']' :: _ => .ok (.arr [], k.drop 1)
      | _ => readItems n [] k
    | '\x7b' :: _ =>
      let k := (k.drop 1).skip
      match k.rest with
      | '\x7d' :: _ => .ok (.obj [], k.drop 1)
      | _ => readFields n [] k
    | _ =>
      match words.find? fun (w, _) => w.isPrefixOf k.rest with
      | some (w, j) => .ok (j, k.drop w.length)
      | none => readNumber k

def readItems : Nat → List Json → Cursor → Read (Json × Cursor)
  | 0, _, k => fail .value k.pos
  | n + 1, acc, k => do
    let (j, k) ← readValue n k
    let k := k.skip
    match k.rest with
    | ']' :: _ => return (.arr (j :: acc).reverse, k.drop 1)
    | ',' :: _ => readItems n (j :: acc) (k.drop 1).skip
    | _ => fail .comma k.pos

def readFields : Nat → List (String × Json) → Cursor → Read (Json × Cursor)
  | 0, _, k => fail .value k.pos
  | n + 1, acc, k => do
    let (name, k) ← readName k
    let (j, k) ← readValue n k
    let k := k.skip
    let acc := Table.set acc name j
    match k.rest with
    | '\x7d' :: _ => return (.obj acc, k.drop 1)
    | ',' :: _ => readFields n acc (k.drop 1).skip
    | _ => fail .comma k.pos

end

def read (s : List Char) : Read Json := do
  if s.head? = some '\ufeff' then fail .byteOrderMark 0
  let (j, k) ← readValue (2 * s.length + 2) (Cursor.mk 0 s).skip
  let k := k.skip
  if k.rest.isEmpty then return j else fail .extra k.pos

/-- Where a problem is: line, column and distance from the start. -/
def positionText (s : List Char) (pos : Nat) : String :=
  let before := s.take pos
  let line := before.count '\n' + 1
  let column := (before.reverse.takeWhile (· ≠ '\n')).length + 1
  "line " ++ toString line ++ " column " ++ toString column ++ " (char " ++ toString pos ++ ")"

def ReadError.fault (s : List Char) : ReadError → Fault
  | .unexpected p pos => .primitive .json (p.message ++ ": " ++ positionText s pos)
  | .digits n => .digitLimitReading n

/-- Reads a text, with the fault of one that is no JSON. -/
def ofText (s : List Char) : Except Fault Json :=
  match read s with
  | .ok j => .ok j
  | .error e => .error (e.fault s)

end LineScript.Json
