import LineScript.Value.Render
import LineScript.Value.Compare

/-!
# Filling in a text

`text % value` replaces each `%` specification of the text by a value: flags, least width, precision
and a conversion letter. A tuple supplies one value for each specification, any other value one alone.
-/

namespace LineScript.Value

open Number

structure Flags where
  left : Bool := false
  sign : Bool := false
  blank : Bool := false
  alternate : Bool := false
  zero : Bool := false

structure Spec where
  flags : Flags := {}
  width : Option Nat := Option.none
  precision : Option Nat := Option.none
  letter : Char

/-- Values still to be filled in: those of a tuple, or one alone. -/
inductive Supply where
  | many (vs : List Value)
  | single (v : Value) (used : Bool)

def Supply.next : Supply → Option (Value × Supply)
  | .many (v :: vs) => some (v, .many vs)
  | .many [] => Option.none
  | .single v false => some (v, .single v true)
  | .single _ true => Option.none

def Supply.left : Supply → Bool
  | .many vs => !vs.isEmpty
  | .single _ used => !used

def notEnough : Fault := .type "not enough arguments for format string"

def incompleteFormat : Fault := .value "incomplete format"

def readFlags : Flags → List Char → Flags × List Char
  | f, '-' :: cs => readFlags { f with left := true } cs
  | f, '+' :: cs => readFlags { f with sign := true } cs
  | f, ' ' :: cs => readFlags { f with blank := true } cs
  | f, '#' :: cs => readFlags { f with alternate := true } cs
  | f, '0' :: cs => readFlags { f with zero := true } cs
  | f, cs => (f, cs)

/-- A width or precision: its name, the first number that is too large, and how the machine calls such a number. -/
structure SizeLimit where
  name : String
  bound : Nat
  word : String

def widthLimit : SizeLimit := ⟨"width", Nat.pow 2 63, "ssize_t"⟩

def precisionLimit : SizeLimit := ⟨"precision", Nat.pow 2 31, "int"⟩

def SizeLimit.given (l : SizeLimit) (n : Int) : Except Fault Int :=
  if n < l.bound && -n ≤ l.bound then .ok n
  else .error (.primitive .overflow ("Python int too large to convert to C " ++ l.word))

def SizeLimit.written (l : SizeLimit) (n : Nat) : Except Fault Int :=
  if n < l.bound then .ok n else .error (.value (l.name ++ " too big"))

/-- A number in the specification, or `*` for a value that gives it. -/
def readSize (limit : SizeLimit) (supply : Supply) (cs : List Char) :
    Except Fault (Option Int × Supply × List Char) := do
  match cs with
  | '*' :: cs =>
    match supply.next with
    | none => throw notEnough
    | some (.int n, s) => return (some (← limit.given n), s, cs)
    | some (.bool b, s) => return (some (if b then 1 else 0), s, cs)
    | some _ => throw (.type "* wants int")
  | cs =>
    let ds := cs.takeWhile Char.isDigit
    if ds.isEmpty then return (Option.none, supply, cs)
    else return (some (← limit.written (ofDigits 10 ds)), supply, cs.drop ds.length)

def readSpec (supply : Supply) (cs : List Char) : Except Fault (Spec × Supply × List Char) := do
  let (flags, cs) := readFlags {} cs
  let (width, supply, cs) ← readSize widthLimit supply cs
  let flags := if width.any (· < 0) then { flags with left := true } else flags
  let (precision, supply, cs) ← match cs with
    | '.' :: cs => do
      let (p, supply, cs) ← readSize precisionLimit supply cs
      pure (some (p.getD 0).toNat, supply, cs)
    | cs => pure (Option.none, supply, cs)
  let cs := match cs with
    | c :: r => if c = 'h' || c = 'l' || c = 'L' then r else cs
    | [] => []
  match cs with
  | [] => throw incompleteFormat
  | c :: cs => return (⟨flags, width.map Int.natAbs, precision, c⟩, supply, cs)

/-- Puts a converted text into its field: the sign and a base mark come before filled-in zeros. -/
def Spec.lay (s : Spec) (isNumber : Bool) (t : List Char) : List Char :=
  let t := if isNumber then t else match s.precision with
    | some p => t.take p
    | none => t
  let (sign, body) := if !isNumber then ([], t) else match t with
    | '-' :: r => (['-'], r)
    | r => (if s.flags.sign then ['+'] else if s.flags.blank then [' '] else [], r)
  let marked := s.flags.alternate && (s.letter = 'x' || s.letter = 'X' || s.letter = 'o')
  let mark := if marked && isNumber then body.take 2 else []
  let body := body.drop mark.length
  let used := sign.length + mark.length + body.length
  let pad := (s.width.getD 0) - used
  if s.flags.left then sign ++ mark ++ body ++ List.replicate pad ' '
  else if isNumber && s.flags.zero then sign ++ mark ++ List.replicate pad '0' ++ body
  else List.replicate pad ' ' ++ sign ++ mark ++ body

/-- Puts one character into its field, whatever the precision. -/
def Spec.layChar (s : Spec) (c : Char) : List Char := { s with precision := Option.none }.lay false [c]

/-- Digits of a magnitude in base 8, 10 or 16. -/
def baseDigits (base n : Nat) : List Char := Nat.toDigits base n

/-- A whole number in the notation that the letter asks for, with at least `precision` digits. -/
def wholeText (s : Spec) (n : Int) : Except Fault (List Char) := do
  let base := match s.letter with
    | 'o' => 8
    | 'x' | 'X' => 16
    | _ => 10
  let ds ← if base = 10 then
      match intText? n.natAbs with
      | some ds => pure ds
      | none => throw Fault.digitLimit
    else pure (baseDigits base n.natAbs)
  let ds := List.replicate ((s.precision.getD 0) - ds.length) '0' ++ ds
  let mark := if s.flags.alternate && base ≠ 10 then ['0', if base = 8 then 'o' else 'x'] else []
  let t := signText (n < 0) ++ mark ++ ds
  return if s.letter = 'X' then t.map Char.toUpper else t

def floatToInt (x : Float) : Except Fault Int :=
  if x.isNaN then .error (.value "cannot convert float NaN to integer")
  else if x.isInf then .error (.primitive .overflow "cannot convert float infinity to integer")
  else .ok (truncate x)

/-- A double precision number in fixed, scientific or general notation. -/
def realText (s : Spec) (x : Float) : List Char :=
  let p := s.precision.getD 6
  let body :=
    if x.isNaN then "nan".toList
    else if x.isInf then "inf".toList
    else match s.letter.toLower with
      | 'e' => scientificDigits x p s.flags.alternate
      | 'g' => generalDigits x p s.flags.alternate
      | _ =>
        let t := fixedDigits x p
        if s.flags.alternate && p = 0 then t ++ ['.'] else t
  let t := signText (signBit x && !x.isNaN) ++ body
  if s.letter.isUpper then t.map Char.toUpper else t

/-- The text of a value with characters beyond the first 128 escaped. -/
def escapedText (t : List Char) : List Char :=
  t.flatMap fun c =>
    if c.toNat < 128 then [c]
    else if c.toNat < 0x100 then '\\' :: 'x' :: Text.hexDigits 2 c.toNat
    else if c.toNat < 0x10000 then '\\' :: 'u' :: Text.hexDigits 4 c.toNat
    else '\\' :: 'U' :: Text.hexDigits 8 c.toNat

def wrongNumber (letter : Char) (integer : Bool) (v : Value) : Fault :=
  .type ("%" ++ String.singleton letter ++ " format: " ++
    (if integer then "an integer" else "a real number") ++ " is required, not " ++ v.typeName)

def realOf (v : Value) : Except Fault Float :=
  match v.num? with
  | some (.int n) => intToFloat n
  | some (.float x) => .ok x
  | _ => .error (.type ("must be real number, not " ++ v.typeName))

def charOf : Value → Except Fault Char
  | .str s =>
    match s.toList with
    | [c] => .ok c
    | _ => .error (.type "%c requires int or char")
  | v =>
    match count? v with
    | some n =>
      if 0 ≤ n && n < 0x110000 then .ok (Char.ofNat n.toNat)
      else .error (.primitive .overflow "%c arg not in range(0x110000)")
    | none => .error (.type "%c requires int or char")

def integerFor (s : Spec) (v : Value) : Except Fault Int :=
  let integer := s.letter = 'o' || s.letter = 'x' || s.letter = 'X'
  match v with
  | .bool b => .ok (if b then 1 else 0)
  | .int n => .ok n
  | .float x => if integer then .error (wrongNumber s.letter true v) else floatToInt x
  | v => .error (wrongNumber s.letter integer v)

def unsupportedLetter (c : Char) (position : Nat) : Fault :=
  let shown := if 31 ≤ c.toNat && c.toNat ≤ 126 then c else '?'
  .value ("unsupported format character '" ++ String.singleton shown ++ "' (0x" ++
    String.ofList (Nat.toDigits 16 c.toNat) ++ ") at index " ++ toString position)

/-- One value under one specification; `position` is the place of the letter. -/
def convert (store : Store) (s : Spec) (position : Nat) (v : Value) : Except Fault (List Char) :=
  match s.letter with
  | 's' => do return s.lay false (← display store v).toList
  | 'r' => do return s.lay false (← render store v).toList
  | 'a' => do return s.lay false (escapedText (← render store v).toList)
  | 'd' | 'i' | 'u' | 'o' | 'x' | 'X' => do return s.lay true (← wholeText s (← integerFor s v))
  | 'e' | 'E' | 'f' | 'F' | 'g' | 'G' => do return s.lay true (realText s (← realOf v))
  | 'c' => do return s.layChar (← charOf v)
  | c => .error (unsupportedLetter c position)

/-- Values that look up keys instead of supplying themselves. -/
def isMapping : Value → Bool
  | .list _ | .bytes _ => true
  | _ => false

def mappingLookup : Value → Fault
  | .list _ => .type "list indices must be integers or slices, not str"
  | _ => .type "byte indices must be integers or slices, not str"

/-- Whether the brackets around a key close; `depth` counts those open. -/
def keyCloses : Nat → List Char → Bool
  | 0, _ => true
  | _ + 1, [] => false
  | depth + 1, c :: cs =>
    keyCloses (if c = '(' then depth + 2 else if c = ')' then depth else depth + 1) cs

/-- Fills in the specifications from left to right; `position` counts characters passed. -/
def fillFrom (convert : Spec → Nat → Value → Except Fault (List Char)) (mapping : Option Value) :
    Nat → Nat → Supply → List Char → Except Fault (List Char × Supply)
  | 0, _, supply, _ => .ok ([], supply)
  | _ + 1, _, supply, [] => .ok ([], supply)
  | fuel + 1, position, supply, '%' :: cs =>
    match cs with
    | '%' :: rest => do
      let (t, supply) ← fillFrom convert mapping fuel (position + 2) supply rest
      return ('%' :: t, supply)
    | '(' :: rest =>
      match mapping with
      | none => .error (.type "format requires a mapping")
      | some m => .error (if keyCloses 1 rest then mappingLookup m else .value "incomplete format key")
    | _ => do
      let (spec, supply, rest) ← readSpec supply cs
      let place := position + (cs.length - rest.length)
      match supply.next with
      | none => throw notEnough
      | some (v, supply) =>
        if (spec.width.getD 0) > maxLength then throw outOfMemory
        let t ← convert spec place v
        let (more, supply) ← fillFrom convert mapping fuel (place + 1) supply rest
        return (t ++ more, supply)
  | fuel + 1, position, supply, c :: cs => do
    let (t, supply) ← fillFrom convert mapping fuel (position + 1) supply cs
    return (c :: t, supply)

def Supply.of : Value → Supply
  | .tuple vs => .many vs
  | v => .single v false

/-- `text % value`. -/
def fill (store : Store) (text : List Char) (v : Value) : Except Fault (List Char) := do
  let mapping := if isMapping v then some v else Option.none
  let (t, supply) ← fillFrom (convert store) mapping (text.length + 1) 0 (.of v) text
  if supply.left && mapping.isNone then
    throw (.type "not all arguments converted during string formatting")
  return t

/-- One value under one specification of a format made of bytes. -/
def convertByte (store : Store) (s : Spec) (position : Nat) (v : Value) : Except Fault (List Char) :=
  match s.letter with
  | 's' | 'b' =>
    match v with
    | .bytes bs => .ok (s.lay false (bs.map fun b => Char.ofNat b.toNat))
    | v => .error (.type ("%b requires a bytes-like object, or an object that implements __bytes__, not '" ++
        v.typeName ++ "'"))
  | 'r' | 'a' => do return s.lay false (escapedText (← render store v).toList)
  | 'c' =>
    match v with
    | .bytes [b] => .ok (s.layChar (Char.ofNat b.toNat))
    | v =>
      match count? v with
      | some n =>
        if 0 ≤ n && n < 256 then .ok (s.layChar (Char.ofNat n.toNat))
        else .error (.primitive .overflow "%c arg not in range(256)")
      | none => .error (.type "%c requires an integer in range(256) or a single byte")
  | 'e' | 'E' | 'f' | 'F' | 'g' | 'G' =>
    match v.num? with
    | some (.int _) | some (.float _) => do return s.lay true (realText s (← realOf v))
    | _ => .error (.type ("float argument required, not " ++ v.typeName))
  | _ => convert store s position v

/-- `bytes % value`. -/
def fillBytes (store : Store) (bs : List UInt8) (v : Value) : Except Fault (List UInt8) := do
  let mapping := match v with
    | .list _ => some v
    | _ => Option.none
  let text := bs.map fun b => Char.ofNat b.toNat
  let (t, supply) ← fillFrom (convertByte store) mapping (text.length + 1) 0 (.of v) text
  if supply.left && mapping.isNone then
    throw (.type "not all arguments converted during bytes formatting")
  return t.map fun c => UInt8.ofNat c.toNat

end LineScript.Value
