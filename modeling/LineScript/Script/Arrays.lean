import LineScript.Session
import LineScript.Line.Quotes

/-!
# Arrays

Array literals, access to elements and assignment to them.
-/

namespace LineScript.Run

open Text Line

def arrayElement (element : List Char) : Run Value :=
  wrapping (.arrayElement (String.ofList element)) (value element)

/-- The array that a literal stands for. Blank elements do not count. -/
def arrayLiteral (expr : List Char) : Run Value := do
  if !(startsWith expr ['['] && endsWith expr [']']) then malformed .array
  let content := strip (inner expr)
  if content.isEmpty then act (Act.evaluate (Eval.newList []))
  else
    Pkg.touch
    let elements := ((splitOutsideQuotes content ',').map strip).filter (!·.isEmpty)
    let values ← elements.mapM arrayElement
    act (Act.evaluate (Eval.newList values))

/-- A whole number as an index: a flag counts as one. -/
def indexValue (v : Value) : Run Int :=
  match Value.count? v with
  | some n => return n
  | none => broken (.indexType v.shortTypeName)

/-- The place that an index stands for in a list. -/
def elementPlace (index : Value) (n : Int) (size : Nat) : Run Nat := do
  if n < 0 || n ≥ size then
    broken (.indexBounds (← display index) ((size : Int) - 1))
  return n.toNat

def elementAt (current : Value) (index : Value) : Run Value := do
  let n ← indexValue index
  match current with
  | .list ref =>
    let items := (← world).store.items ref
    let i ← elementPlace index n items.length
    return items.getD i .nothing
  | v => broken (.notAnArray v.shortTypeName)

/-- Follows the indices in brackets at the front of a text. What follows them does not count. -/
def followIndices : Nat → Value → List Char → Run Value
  | 0, current, _ => return current
  | n + 1, current, rest =>
    match rest with
    | '[' :: _ =>
      match cut? [']'] rest with
      | none => malformed .missingBracket
      | some (head, rest) => do
        let next ← wrappingForeign .accessingIndex (do elementAt current (← value (head.drop 1)))
        followIndices n next rest
    | _ => return current

/-- The name in front of the first bracket, and the rest from the bracket on. -/
def splitBracket? (code : List Char) : Option (String × List Char) :=
  if code.contains '[' then
    some (String.ofList (strip (code.takeWhile (· ≠ '['))), code.dropWhile (· ≠ '['))
  else none

def variableNamed (x : String) : Run Value := do
  match (← session).vars.find? x with
  | some v => return v
  | none => broken (.variableNotFound x)

def accessArray (code : List Char) : Run Value := do
  match splitBracket? code with
  | none => malformed .arrayAccess
  | some (name, rest) =>
    let v ← variableNamed name
    Pkg.touch
    followIndices (rest.length + 1) v rest

/-- Replaces an element. Only the first index counts. -/
def assignElement (target : List Char) (v : Value) : Run Unit := do
  match splitBracket? target with
  | none => malformed .arrayAssignment
  | some (name, _) =>
    match ← variableNamed name with
    | .list ref =>
      match find? [']'] target with
      | none => malformed .missingBracket
      | some stop =>
        let start := (target.takeWhile (· ≠ '[')).length + 1
        let indexText := (target.take stop).drop start
        wrappingForeign .assigningIndex do
          let index ← evaluate indexText
          let n ← indexValue index
          let items := (← world).store.items ref
          let i ← elementPlace index n items.length
          act (modify fun w => { w with store := w.store.setItems ref (items.set i v) })
          note ("Set " ++ name ++ "[" ++ (← display index) ++ "] = " ++ (← display v))
    | _ => broken (.notAnArrayVariable name)

end LineScript.Run
