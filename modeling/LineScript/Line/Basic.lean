import LineScript.Text.Pieces

/-!
# Lines

A line of a script loses its comments and the white space around it. The dots it then starts with say how
deep it is nested; the rest is its code.
-/

namespace LineScript.Line

/-- What stands outside comments. A comment that is not closed goes on to the end. -/
def uncommented (inside : Bool) : List Char → List Char
  | [] => []
  | c :: cs =>
    if inside then uncommented (c ≠ '\x7d') cs
    else if c = '\x7b' then uncommented true cs
    else c :: uncommented false cs

def stripComments (s : List Char) : List Char := Text.trim Text.isBlank (uncommented false s)

def isDot (c : Char) : Bool := c = '.'

def splitIndent (s : List Char) : Nat × List Char := ((s.takeWhile isDot).length, s.dropWhile isDot)

end LineScript.Line

namespace LineScript

/-- A line of a block: its depth and its code. -/
structure Line where
  indent : Nat
  code : List Char
  deriving DecidableEq

/-- The line as it was written, without comments. -/
def Line.text (l : Line) : List Char := List.replicate l.indent '.' ++ l.code

end LineScript
