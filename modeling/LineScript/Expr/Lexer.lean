import LineScript.Expr.Token
import LineScript.Number.Numeral

/-!
# Reading tokens

A text is cut into tokens from left to right, each as long as possible. Line ends count only outside
brackets, a line may not be indented, and brackets nest at most 200 deep. Any text that cannot be cut
gives `none`.
-/

namespace LineScript.Expr

open Text Number

/-- Characters that cannot follow a number directly, unless they start one of the words that may. -/
def endsNumber (rest : List Char) : Bool :=
  ["and", "else", "for", "if", "in", "is", "or", "not"].any (fun w => w.toList.isPrefixOf rest) ||
    match rest with
    | [] => true
    | c :: _ => !(c.isAlphanum || c = '_' || 128 ≤ c.toNat)

/-- Digits after a base mark, where an underscore may also stand before the first digit. -/
def lexMarked (base : Nat) (cs : List Char) : Option (Literal × List Char) :=
  let body := match cs with
    | '_' :: r => r
    | r => r
  match digitTail (isDigitOf base) body with
  | some (d :: ds, rest) =>
    if endsNumber rest then some (.int (ofDigits base (d :: ds)), rest) else none
  | _ => none

/-- The end of a number, which an imaginary mark may still stand at. -/
def lexNumberEnd (v : Literal) (x : Float) (rest : List Char) : Option (Literal × List Char) :=
  match rest with
  | c :: r =>
    if c = 'j' || c = 'J' then (if endsNumber r then some (.imaginary x, r) else none)
    else if endsNumber rest then some (v, rest) else none
  | [] => some (v, [])

/-- The digits of an exponent, which moves the point of a decimal on. -/
def lexPower (n : Nat) (shift : Int) (negative : Bool) (cs : List Char) : Option (Literal × List Char) :=
  match digitTail Char.isDigit cs with
  | some (e, rest) =>
    let e : Int := ofDigits 10 e
    let x := ofDecimal n (shift + if negative then -e else e)
    lexNumberEnd (.float x) x rest
  | none => none

/-- The exponent and the end of a number, its digits already read. -/
def lexExponent (ds : List Char) (shift : Int) (isInt : Bool) (cs : List Char) : Option (Literal × List Char) :=
  let n := ofDigits 10 ds
  let plain := lexNumberEnd (if isInt then .int n else .float (ofDecimal n shift)) (ofDecimal n shift)
  match cs with
  | c :: d :: r =>
    if c = 'e' || c = 'E' then
      if d.isDigit then lexPower n shift false (d :: r)
      else if d = '+' || d = '-' then
        (if (r.head?.any Char.isDigit) then lexPower n shift (d = '-') r else none)
      else plain cs
    else plain cs
  | _ => plain cs

/-- A whole part, its digits already read, then fraction, exponent and imaginary mark. -/
def lexFraction (whole : List Char) (cs : List Char) : Option (Literal × List Char) :=
  match cs with
  | '.' :: r =>
    if r.head?.any Char.isDigit then
      match digitTail Char.isDigit r with
      | some (ds, rest) => lexExponent (whole ++ ds) (-(ds.length : Int)) false rest
      | none => none
    else lexExponent whole 0 false r
  | _ => lexExponent whole 0 true cs

/-- A numeral of whole numbers starts with no zero, unless it is zero, and is not too long. -/
def checkWhole (whole : List Char) : Literal × List Char → Option (Literal × List Char)
  | (.int n, rest) =>
    if whole.length > maxDigits then none
    else if whole.head? = some '0' && n ≠ 0 then none
    else some (.int n, rest)
  | r => some r

/-- A number that starts with a digit, or with a point before a digit. -/
def lexNumber (cs : List Char) : Option (Literal × List Char) :=
  match cs with
  | '.' :: _ => lexFraction [] cs
  | '0' :: c :: r =>
    match markedBase c with
    | some base => lexMarked base r
    | none => (digitTail Char.isDigit cs).bind fun (whole, rest) =>
      (lexFraction whole rest).bind (checkWhole whole)
  | _ => (digitTail Char.isDigit cs).bind fun (whole, rest) =>
    (lexFraction whole rest).bind (checkWhole whole)

/-- Up to the closing quote of a string on one line: the text before it and the rest. -/
def scanLine (q : Char) : List Char → Option (List Char × List Char)
  | [] => none
  | '\\' :: c :: cs => (scanLine q cs).map fun (b, rest) => ('\\' :: c :: b, rest)
  | c :: cs =>
    if c = q then some ([], cs)
    else if c = '\n' || c = '\\' then none
    else (scanLine q cs).map fun (b, rest) => (c :: b, rest)

/-- Up to three closing quotes. -/
def scanTriple (q : Char) : List Char → Option (List Char × List Char)
  | [] => none
  | '\\' :: c :: cs => (scanTriple q cs).map fun (b, rest) => ('\\' :: c :: b, rest)
  | c :: cs =>
    if c = q && [q, q].isPrefixOf cs then some ([], cs.drop 2)
    else if c = '\\' then none
    else (scanTriple q cs).map fun (b, rest) => (c :: b, rest)

def isHex (c : Char) : Bool := isDigitOf 16 c

def isOctal (c : Char) : Bool := isDigitOf 8 c

def simpleEscape : Char → Option Char
  | '\\' => some '\\'
  | '\x27' => some '\x27'
  | '"' => some '"'
  | 'a' => some '\x07'
  | 'b' => some '\x08'
  | 'f' => some '\x0c'
  | 'n' => some '\n'
  | 'r' => some '\r'
  | 't' => some '\t'
  | 'v' => some '\x0b'
  | _ => none

/-- Number of hexadecimal digits that an escape asks for. -/
def hexEscape (unicode : Bool) : Char → Option Nat
  | 'x' => some 2
  | 'u' => if unicode then some 4 else none
  | 'U' => if unicode then some 8 else none
  | _ => none

/-- Reads escapes as code points; `k` more characters belong to an escape already read. Unknown escapes
stand for themselves. -/
def unescapeGo (unicode : Bool) : Nat → List Char → Option (List Nat)
  | _, [] => some []
  | k + 1, _ :: cs => unescapeGo unicode k cs
  | 0, c :: cs =>
    if c ≠ '\\' then (unescapeGo unicode 0 cs).map (c.toNat :: ·) else
    match cs with
    | [] => some [c.toNat]
    | d :: rest =>
      if d = '\n' then unescapeGo unicode 1 cs else
      match simpleEscape d with
      | some e => (unescapeGo unicode 1 cs).map (e.toNat :: ·)
      | none =>
        if isOctal d then
          let ds := (cs.take 3).takeWhile isOctal
          (unescapeGo unicode ds.length cs).map (ofDigits 8 ds :: ·)
        else match hexEscape unicode d with
          | some w =>
            let ds := rest.take w
            let n := ofDigits 16 ds
            if ds.length = w && ds.all isHex && n < 0x110000 then
              (unescapeGo unicode (w + 1) cs).map (n :: ·)
            else none
          | none =>
            if unicode && d = 'N' then none
            else (unescapeGo unicode 0 cs).map (c.toNat :: ·)

def unescapeText (s : List Char) : Option (List Char) :=
  (unescapeGo true 0 s).map fun ns => ns.map Char.ofNat

/-- Bytes are written with the first 128 characters only. -/
def unescapeBytes (raw : Bool) (s : List Char) : Option (List UInt8) :=
  if s.any (128 ≤ ·.toNat) then none
  else if raw then some (s.map fun c => UInt8.ofNat c.toNat)
  else (unescapeGo false 0 s).map fun ns => ns.map UInt8.ofNat

structure StringMarks where
  raw : Bool
  bytes : Bool
  formatted : Bool

/-- The letters that may stand before a quote. -/
def stringMarks (p : List Char) : Option StringMarks :=
  match String.ofList (p.map Char.toLower) with
  | "" => some ⟨false, false, false⟩
  | "u" => some ⟨false, false, false⟩
  | "r" => some ⟨true, false, false⟩
  | "b" => some ⟨false, true, false⟩
  | "br" => some ⟨true, true, false⟩
  | "rb" => some ⟨true, true, false⟩
  | "f" => some ⟨false, false, true⟩
  | "fr" => some ⟨true, false, true⟩
  | "rf" => some ⟨true, false, true⟩
  | _ => none

def lexString (m : StringMarks) (cs : List Char) : Option (Token × List Char) :=
  match cs with
  | [] => none
  | q :: r =>
    let scanned := if [q, q].isPrefixOf r then scanTriple q (r.drop 2) else scanLine q r
    scanned.bind fun (body, rest) =>
      let part : Option StringPart :=
        if m.bytes then (unescapeBytes m.raw body).map .bytes
        else if m.formatted then some (.formatted m.raw body)
        else if m.raw then some (.text body)
        else (unescapeText body).map .text
      part.map fun p => (.string p, rest)

/-- Characters that belong to one word as far as cutting goes. -/
def inWord (c : Char) : Bool := c.isAlphanum || c = '_' || 128 ≤ c.toNat

def validName : List Char → Bool
  | [] => false
  | c :: cs => isNameStart c && cs.all isNameChar

/-- A name, a keyword, or a string with letters before its quote. -/
def lexWord (cs : List Char) : Option (Token × List Char) :=
  let w := cs.takeWhile inWord
  let rest := cs.drop w.length
  let quoteFollows := rest.head?.any fun c => c = '"' || c = '\x27'
  match (if quoteFollows then stringMarks w else none) with
  | some m => lexString m rest
  | none => if validName w then some (.word (String.ofList w), rest) else none

/-- Symbols of three, two and one characters, the longest first. -/
def lexSym : List Char → Option (Sym × List Char)
  | '*' :: '*' :: '=' :: r => some (.augmented, r)
  | '/' :: '/' :: '=' :: r => some (.augmented, r)
  | '<' :: '<' :: '=' :: r => some (.augmented, r)
  | '>' :: '>' :: '=' :: r => some (.augmented, r)
  | '.' :: '.' :: '.' :: r => some (.ellipsis, r)
  | '*' :: '*' :: r => some (.power, r)
  | '/' :: '/' :: r => some (.floorDiv, r)
  | '<' :: '<' :: r => some (.shl, r)
  | '>' :: '>' :: r => some (.shr, r)
  | '=' :: '=' :: r => some (.eqEq, r)
  | '!' :: '=' :: r => some (.notEq, r)
  | '<' :: '=' :: r => some (.ltE, r)
  | '>' :: '=' :: r => some (.gtE, r)
  | '-' :: '>' :: r => some (.arrow, r)
  | ':' :: '=' :: r => some (.walrus, r)
  | '<' :: '>' :: _ => none
  | '+' :: '=' :: r => some (.augmented, r)
  | '-' :: '=' :: r => some (.augmented, r)
  | '*' :: '=' :: r => some (.augmented, r)
  | '/' :: '=' :: r => some (.augmented, r)
  | '%' :: '=' :: r => some (.augmented, r)
  | '&' :: '=' :: r => some (.augmented, r)
  | '|' :: '=' :: r => some (.augmented, r)
  | '^' :: '=' :: r => some (.augmented, r)
  | '@' :: '=' :: r => some (.augmented, r)
  | '(' :: r => some (.lparen, r)
  | ')' :: r => some (.rparen, r)
  | '[' :: r => some (.lbrack, r)
  | ']' :: r => some (.rbrack, r)
  | '\x7b' :: r => some (.lbrace, r)
  | '\x7d' :: r => some (.rbrace, r)
  | ',' :: r => some (.comma, r)
  | ':' :: r => some (.colon, r)
  | '.' :: r => some (.dot, r)
  | ';' :: r => some (.semicolon, r)
  | '+' :: r => some (.plus, r)
  | '-' :: r => some (.minus, r)
  | '*' :: r => some (.star, r)
  | '/' :: r => some (.slash, r)
  | '|' :: r => some (.bar, r)
  | '&' :: r => some (.amp, r)
  | '<' :: r => some (.lt, r)
  | '>' :: r => some (.gt, r)
  | '=' :: r => some (.assign, r)
  | '%' :: r => some (.percent, r)
  | '~' :: r => some (.tilde, r)
  | '^' :: r => some (.caret, r)
  | '@' :: r => some (.at, r)
  | _ => none

def Sym.opens : Sym → Bool
  | .lparen | .lbrack | .lbrace => true
  | _ => false

def Sym.closes : Sym → Bool
  | .rparen | .rbrack | .rbrace => true
  | _ => false

def maxNesting : Nat := 200

/-- One token at a character that is neither blank, line end, comment nor backslash. -/
def lexToken (cs : List Char) : Option (Token × List Char) :=
  match cs with
  | [] => none
  | c :: r =>
    if c.isDigit || (c = '.' && r.head?.any Char.isDigit) then
      (lexNumber cs).map fun (v, rest) => (.number v, rest)
    else if c = '"' || c = '\x27' then lexString ⟨false, false, false⟩ cs
    else if inWord c then lexWord cs
    else (lexSym cs).map fun (s, rest) => (.sym s, rest)

/-- The start of a line outside brackets: a blank line is passed over, any other may not be indented. -/
def lineStart (indented : Bool) : List Char → Option (List Char)
  | [] => if indented then none else some []
  | '\\' :: '\n' :: cs => if cs.isEmpty then none else lineStart indented cs
  | c :: cs =>
    if c = ' ' || c = '\t' then lineStart true cs
    else if c = '\x0c' then lineStart false cs
    else if c = '\n' then lineStart false cs
    else if c = '#' then
      lineComment cs
    else if indented then none
    else some (c :: cs)
where
  lineComment : List Char → Option (List Char)
    | [] => some []
    | '\n' :: cs => lineStart false cs
    | _ :: cs => lineComment cs

/-- The tokens of a text, `depth` brackets deep, with one unit of fuel for each step. -/
def lexGo : Nat → Nat → List Char → Option (List Token)
  | _, _, [] => some []
  | 0, _, _ => none
  | n + 1, depth, c :: cs =>
    if c = ' ' || c = '\t' || c = '\x0c' then lexGo n depth cs
    else if c = '#' then lexGo n depth (cs.dropWhile (· ≠ '\n'))
    else if c = '\\' then
      match cs with
      | '\n' :: d :: r => lexGo n depth (d :: r)
      | _ => none
    else if c = '\n' then
      if depth = 0 then
        (lineStart false cs).bind fun r => (lexGo n 0 r).map (.newline :: ·)
      else lexGo n depth cs
    else
      (lexToken (c :: cs)).bind fun (t, rest) =>
        let depth' := match t with
          | .sym s => if s.opens then depth + 1 else if s.closes then depth - 1 else depth
          | _ => depth
        if depth' > maxNesting then none else (lexGo n depth' rest).map (t :: ·)

/-- A carriage return, with a line feed after it or not, ends a line. -/
def lineFeeds : List Char → List Char
  | [] => []
  | '\r' :: '\n' :: cs => '\n' :: lineFeeds cs
  | c :: cs => (if c = '\r' then '\n' else c) :: lineFeeds cs

def lex (s : List Char) : Option (List Token) :=
  if s.contains '\x00' then none
  else (lineStart false (lineFeeds s)).bind fun r => lexGo (r.length + 1) 0 r

end LineScript.Expr
