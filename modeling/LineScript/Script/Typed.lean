import LineScript.Session

/-!
# Typed text

Text that the user types is a number if it looks like one.
-/

namespace LineScript.Typed

open Text

def dashes (s : List Char) : List Char := trimLeft (· = '-') s

/-- Digits with at most one point among them. -/
def isPointed (s : List Char) : Bool := Value.allChars isDigit (replaceMax ['.'] [] (some 1) s)

/-- Digits after any number of dashes. -/
def isDashed (s : List Char) : Bool := Value.allChars isDigit (dashes s)

def orText (s : List Char) (r : Except Fault Value) : Except Fault Value :=
  match r with
  | .ok v => .ok v
  | .error f => if f.isValue then .ok (.ofText s) else .error f

def lineValue (s : List Char) : Except Fault Value :=
  orText s (
    if s.contains '.' && isPointed s then Value.toFloat (.ofText s)
    else if isDashed s then Value.toInt (.ofText s)
    else .ok (.ofText s))

/-- The value of a text that a widget shows: digits alone are a number with a fraction there. -/
def widgetValue (s : List Char) : Except Fault Value :=
  orText s (
    if isPointed s then Value.toFloat (.ofText s)
    else if isDashed s then Value.toInt (.ofText s)
    else .ok (.ofText s))

end LineScript.Typed
