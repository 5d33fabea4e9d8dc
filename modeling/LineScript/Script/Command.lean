import LineScript.Text.Casing
import LineScript.Text.Pieces

/-!
# Commands

What a line of code asks for, by how it starts, ends and what it holds. The first fitting kind counts.
-/

namespace LineScript

inductive Command where
  | eval
  | input
  | inputAssign
  | shorthand
  | alternative
  | exit
  | package
  | define
  | loop
  | condition
  /-- The line belongs to the loop that is being read. -/
  | collect
  /-- The line belongs to a block that does not run. -/
  | skip
  | goto
  | runFile
  | call
  | printInput
  | assign
  | print
  | fiveAndFive
  | nineAndTen
  | version
  | element
  | expression
  deriving DecidableEq

namespace Command

open Text

def starts (code : List Char) (word : String) : Bool := startsWith code word.toList

def ends (code : List Char) (word : String) : Bool := endsWith code word.toList

def holds (code : List Char) (part : String) : Bool := Text.contains code part.toList

/-- Words that no call starts with. -/
def callStops : List String :=
  ["def", "while", "if", "print", "input", "alias", "else", "exit", "gpd", "goto", "guython", "read", "write",
   "import"]

def isInput (code : List Char) : Bool :=
  (starts code "input\"" && ends code "\"") || (starts code "input'" && ends code "'")

def isInputAssign (code : List Char) : Bool :=
  (holds code "=input\"" && code.count '"' = 2) || (holds code "=input '" && code.count '\x27' = 2)

def isCall (code : List Char) : Bool :=
  (holds code "_ " || ends code "_") && !callStops.any (starts code)

/-- The kind of a line. `inLoop` says that it belongs to a loop that is being read, and `skipped` that it
belongs to a block that does not run. -/
def of (inLoop skipped : Bool) (code : List Char) : Command :=
  if starts code "eval " then .eval
  else if isInput code then .input
  else if isInputAssign code then .inputAssign
  else if starts code "alias " then .shorthand
  else if starts code "else" then .alternative
  else if starts code "exit_" then .exit
  else if starts code "gpd " then .package
  else if starts code "def" then .define
  else if starts code "while" then .loop
  else if starts code "if" then .condition
  else if inLoop then .collect
  else if skipped then .skip
  else if starts code "goto" then .goto
  else if starts code "guython" then .runFile
  else if isCall code then .call
  else if starts code "printinput" || starts code "print input" then .printInput
  else if holds code "=" && !starts code "print" && code ≠ "5+5=4".toList then .assign
  else if starts code "print" then .print
  else if code = "5+5=4".toList then .fiveAndFive
  else if code = "9+10".toList then .nineAndTen
  else if code = "ver".toList then .version
  else if holds code "[" && holds code "]" && !holds code "=" then .element
  else .expression

end Command

/-- Replaces the aliases that a line starts with, one after the other. -/
def applyAliases (aliases : List (String × String)) (code : List Char) : List Char :=
  aliases.foldl (fun code (name, target) =>
    if Text.startsWith code (name.toList ++ [' ']) then
      Text.replaceMax name.toList target.toList (some 1) code
    else code) code

end LineScript
