import LineScript.Text.Classes

/-!
# Quoted texts

A text is quoted with single quotes unless it holds a single quote and no double quote. The quote, the
backslash and characters that cannot be printed are written by escapes.
-/

namespace LineScript.Text

def hexDigit (n : Nat) : Char := Char.ofNat (if n < 10 then 48 + n else 87 + n)

/-- `n` in hexadecimal with exactly `w` digits. -/
def hexDigits : Nat → Nat → List Char
  | 0, _ => []
  | w + 1, n => hexDigits w (n / 16) ++ [hexDigit (n % 16)]

def quoteFor (hasSingle hasDouble : Bool) : Char := if hasSingle && !hasDouble then '"' else '\x27'

def escapeChar (q c : Char) : List Char :=
  if c = q || c = '\\' then ['\\', c]
  else if c = '\t' then ['\\', 't']
  else if c = '\n' then ['\\', 'n']
  else if c = '\r' then ['\\', 'r']
  else if isPrintable c then [c]
  else if c.toNat < 0x100 then '\\' :: 'x' :: hexDigits 2 c.toNat
  else if c.toNat < 0x10000 then '\\' :: 'u' :: hexDigits 4 c.toNat
  else '\\' :: 'U' :: hexDigits 8 c.toNat

def quoted (s : List Char) : List Char :=
  let q := quoteFor (s.contains '\x27') (s.contains '"')
  q :: s.flatMap (escapeChar q) ++ [q]

def escapeByte (q : Char) (b : UInt8) : List Char :=
  let c := Char.ofNat b.toNat
  if c = q || c = '\\' then ['\\', c]
  else if c = '\t' then ['\\', 't']
  else if c = '\n' then ['\\', 'n']
  else if c = '\r' then ['\\', 'r']
  else if 32 ≤ b.toNat && b.toNat < 127 then [c]
  else '\\' :: 'x' :: hexDigits 2 b.toNat

/-- Bytes are quoted like texts, after a `b`, and bytes beyond the printable ones by their value. -/
def quotedBytes (bs : List UInt8) : List Char :=
  let q := quoteFor (bs.contains 39) (bs.contains 34)
  'b' :: q :: bs.flatMap (escapeByte q) ++ [q]

end LineScript.Text
