/-!
# Quotes in lines

Splitting at characters outside quotes. A quote is closed by the mark that opened it, and the other mark
has no meaning inside.
-/

namespace LineScript.Line

/-- The mark that is open. -/
abbrev Mark := Option Char

def isMark (c : Char) : Bool := c = '"' || c = '\x27'

def Mark.after (mark : Mark) (c : Char) : Mark :=
  match mark with
  | some q => if c = q then none else some q
  | none => if isMark c then some c else none

/-- Pieces between delimiters outside quotes; `piece` is the one being read, backwards. -/
def splitFrom (d : Char) (mark : Mark) (piece : List Char) : List Char → List (List Char)
  | [] => [piece.reverse]
  | c :: cs =>
    if c = d && mark.isNone && !isMark c then piece.reverse :: splitFrom d none [] cs
    else splitFrom d (mark.after c) (c :: piece) cs

def splitOutsideQuotes (s : List Char) (d : Char) : List (List Char) := splitFrom d none [] s

/-- The piece read so far, unless it is empty. -/
def flush (piece : List Char) : List (List Char) := if piece.isEmpty then [] else [piece.reverse]

/-- Words and quoted texts. A quoted text is a token of its own, also right beside a word. -/
def tokensFrom (mark : Mark) (piece : List Char) : List Char → List (List Char)
  | [] => flush piece
  | c :: cs =>
    match mark with
    | some q =>
      if c = q then (c :: piece).reverse :: tokensFrom none [] cs else tokensFrom mark (c :: piece) cs
    | none =>
      if isMark c then flush piece ++ tokensFrom (some c) [c] cs
      else if c = ' ' then flush piece ++ tokensFrom none [] cs
      else tokensFrom none (c :: piece) cs

def printTokens (s : List Char) : List (List Char) := tokensFrom none [] s

/-- Words that may hold quoted parts, between spaces outside quotes. -/
def argumentsFrom (mark : Mark) (piece : List Char) : List Char → List (List Char)
  | [] => flush piece
  | c :: cs =>
    if c = ' ' && mark.isNone then flush piece ++ argumentsFrom none [] cs
    else argumentsFrom (mark.after c) (c :: piece) cs

def arguments (s : List Char) : List (List Char) := argumentsFrom none [] s

/-- Whether a text starts and ends with the same mark. -/
def isQuoted (s : List Char) : Bool :=
  match s.head?, s.getLast? with
  | some a, some b => isMark a && a = b
  | _, _ => false

def inner (s : List Char) : List Char := (s.drop 1).dropLast

end LineScript.Line
