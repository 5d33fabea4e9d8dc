import LineScript.Number.Decimal
import LineScript.Text.Pieces

/-!
# Numerals

Reading whole numbers and decimal fractions from text, and the limit on the length of numerals. Digits
of any script count, white space around a numeral is passed over, and one underscore may stand between
two digits.
-/

namespace LineScript.Number

/-- Decimal numerals of whole numbers have at most this many digits. -/
def maxDigits : Nat := 4300

/-- The decimal numeral of a whole number, unless it is too long. -/
def intText? (n : Int) : Option (List Char) :=
  if n.natAbs < Nat.pow 10 maxDigits then some (signText (n < 0) ++ decimalText n.natAbs) else none

def digitValue (c : Char) : Option Nat :=
  if c.isDigit then some (c.toNat - 48)
  else if 'a' ≤ c && c ≤ 'z' then some (c.toNat - 87)
  else if 'A' ≤ c && c ≤ 'Z' then some (c.toNat - 55)
  else none

def isDigitOf (base : Nat) (c : Char) : Bool := (digitValue c).any (· < base)

def ofDigits (base : Nat) (ds : List Char) : Nat :=
  ds.foldl (fun n d => n * base + (digitValue d).getD 0) 0

/-- Digits in which single underscores may stand between two digits: the digits without them and the
rest. `none` if an underscore is not followed by a digit. -/
def digitTail (p : Char → Bool) : List Char → Option (List Char × List Char)
  | [] => some ([], [])
  | '_' :: c :: cs =>
    if p c then (digitTail p cs).map fun (ds, rest) => (c :: ds, rest) else none
  | c :: cs =>
    if c = '_' then none
    else if p c then (digitTail p cs).map fun (ds, rest) => (c :: ds, rest)
    else some ([], c :: cs)

/-- Digits of other scripts as the usual ones and other blanks as spaces. A text of the first 128
characters stays as it is. -/
def plainDigits (s : List Char) : List Char :=
  if s.all (·.toNat < 128) then s
  else s.map fun c =>
    if c.toNat < 128 then (if Text.isBlank c then ' ' else c)
    else if Text.isBlank c then ' '
    else match Text.decimalValue? c with
      | some d => Char.ofNat (48 + d)
      | none => '?'

def isNumeralBlank (c : Char) : Bool := c = ' ' || (9 ≤ c.toNat && c.toNat ≤ 13)

inductive IntReading where
  | value (n : Int)
  | malformed
  | tooLong (digits : Nat)

/-- The base that the marks `0x`, `0o`, `0b` stand for. -/
def markedBase (c : Char) : Option Nat :=
  if c = 'x' || c = 'X' then some 16
  else if c = 'o' || c = 'O' then some 8
  else if c = 'b' || c = 'B' then some 2
  else none

/-- Reads the digits of a numeral without sign. In base 0 the mark tells the base, and a numeral
without mark may not start with a zero unless it is zero. -/
def readMagnitude (base : Nat) (s : List Char) : Nat × Bool × List Char :=
  match s with
  | '0' :: c :: rest =>
    match markedBase c with
    | some b =>
      if base = 0 || base = b then
        (b, false, match rest with
          | '_' :: more => more
          | _ => rest)
      else (if base = 0 then 10 else base, base = 0, s)
    | none => (if base = 0 then 10 else base, base = 0, s)
  | _ => (if base = 0 then 10 else base, false, s)

/-- Whether a numeral is marked as negative, and what follows its sign. -/
def splitSign : List Char → Bool × List Char
  | '-' :: r => (true, r)
  | '+' :: r => (false, r)
  | r => (false, r)

/-- Reads a whole number in the given base (2 to 36, or 0). -/
def readInt (base : Nat) (s : List Char) : IntReading :=
  let s := (plainDigits s).dropWhile isNumeralBlank
  let (negative, s) := splitSign s
  let (base, onlyZero, body) := readMagnitude base s
  match body with
  | [] => .malformed
  | c :: _ =>
    if !isDigitOf base c then .malformed else
    match digitTail (isDigitOf base) body with
    | none => .malformed
    | some (ds, rest) =>
      if !(rest.dropWhile isNumeralBlank).isEmpty then .malformed
      else if base ∉ [2, 4, 8, 16, 32] && ds.length > maxDigits then .tooLong ds.length
      else
        let n := ofDigits base ds
        if onlyZero && n ≠ 0 then .malformed
        else .value (if negative then -(n : Int) else n)

/-- The digits after a point at the front, and what follows them. -/
def readPlaces (s : List Char) : List Char × List Char :=
  match s with
  | '.' :: r => (r.takeWhile Char.isDigit, r.dropWhile Char.isDigit)
  | r => ([], r)

/-- The exponent at the front, zero if there is none, and what follows it. -/
def readExponent (s : List Char) : Int × List Char :=
  let exponent (negative : Bool) (r : List Char) : Int × List Char :=
    let ds := r.takeWhile Char.isDigit
    if ds.isEmpty then (0, s)
    else
      let e : Int := ofDigits 10 ds
      (if negative then -e else e, r.drop ds.length)
  match s with
  | c :: '-' :: r => if c = 'e' || c = 'E' then exponent true r else (0, s)
  | c :: '+' :: r => if c = 'e' || c = 'E' then exponent false r else (0, s)
  | c :: r => if c = 'e' || c = 'E' then exponent false r else (0, s)
  | [] => (0, s)

/-- Reads digits, point and exponent: the digits without the point, the exponent and the rest. -/
def readDecimal (s : List Char) : Option (Nat × Int × List Char) :=
  let whole := s.takeWhile Char.isDigit
  let (places, s) := readPlaces (s.drop whole.length)
  if whole.isEmpty && places.isEmpty then none
  else
    let (exponent, rest) := readExponent s
    some (ofDigits 10 (whole ++ places), -(places.length : Int) + exponent, rest)

/-- Takes out underscores that stand between two digits; `none` if one stands elsewhere. -/
def dropUnderscores (last : Char) : List Char → Option (List Char)
  | [] => if last = '_' then none else some []
  | c :: cs =>
    if c = '_' then (if last.isDigit then dropUnderscores c cs else none)
    else if last = '_' && !c.isDigit then none
    else (dropUnderscores c cs).map (c :: ·)

/-- Reads a number: decimal, or one of the words for infinity and not-a-number in any case. -/
def readFloat (s : List Char) : Option Float :=
  let s := Text.trim isNumeralBlank (plainDigits s)
  match (if s.contains '_' then dropUnderscores ' ' s else some s) with
  | none => none
  | some s =>
    let (negative, body) := splitSign s
    let word := body.map Char.toLower
    if word = "inf".toList || word = "infinity".toList then some (withSign negative infinity)
    else if word = "nan".toList then some nan
    else match readDecimal body with
      | some (digits, e, []) => some (withSign negative (ofDecimal digits e))
      | _ => none

end LineScript.Number
