import LineScript.Fault

/-!
# Versions

A version is three numbers with dots between them, after an optional letter and before a build mark.
-/

namespace LineScript.Version

def current : String := "v2.2.0b2582"

/-- The numbers at the start of a text, as many as asked for, with dots between them. -/
def numbers? : Nat → List Char → Option (List Char)
  | 0, _ => none
  | n + 1, s =>
    let digits := s.takeWhile Text.isDecimal
    if digits.isEmpty then none
    else if n = 0 then some digits
    else
      match s.dropWhile Text.isDecimal with
      | '.' :: rest => (numbers? n rest).map fun more => digits ++ '.' :: more
      | _ => none

def core? (s : List Char) : Option (List Char) :=
  numbers? 3 (match s with
    | 'v' :: rest => rest
    | s => s)

/-- A text that starts with no version has no part to look at. -/
def notVersion : Fault := .primitive .attribute "'NoneType' object has no attribute 'group'"

/-- The three numbers of a version, which the text must start with. -/
def core (s : String) : Except Fault String :=
  match core? s.toList with
  | some v => .ok (String.ofList v)
  | none => .error notVersion

/-- Only a text has a version. -/
def notText (typeName : String) : Fault :=
  .type ("expected string or bytes-like object, got '" ++ typeName ++ "'")

end LineScript.Version
