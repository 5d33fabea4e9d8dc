import LineScript.Script.Arrays
import LineScript.Script.Command
import LineScript.Script.Typed

/-!
# Simple statements

Assignment, printing, input, aliases, conditions and jumps.
-/

namespace LineScript.Run

open Text Line

def assign (code : List Char) : Run Unit := do
  match cut? ['='] code with
  | none => malformed .assignment
  | some (target, expr) =>
    let name := strip target
    if !isValidName name then malformed (.variableName (String.ofList name))
    let name := String.ofList name
    wrapping .assigning do
      let v ← evaluate (strip expr)
      setVariable name v
      note ("Assigned " ++ name ++ " = " ++ (← display v))

def errorMark : String := "[Error]"

/-- The text that a token of a print statement stands for. -/
def printToken (token : List Char) : Run String :=
  if isQuoted token then return String.ofList (inner token)
  else recover (do display (← evaluate token)) fun _ => return errorMark

/-- The text of a chunk: its tokens without anything between them. -/
def printChunk (chunk : List Char) : Run String := do
  let pieces ← (printTokens (strip chunk)).mapM fun t => printToken (strip t)
  return "".intercalate pieces

/-- Prints chunks between commas, with a blank between them. -/
def print (code : List Char) (importing : Bool) : Run Unit := do
  if importing then return ()
  let rest := strip (code.drop 5)
  if rest.isEmpty then Act.say ""
  else
    let chunks ← (splitOutsideQuotes rest ',').mapM printChunk
    Act.say (" ".intercalate chunks)

def printInput (importing : Bool) : Run Unit := do
  if importing then return ()
  recover (do
    let line ← Act.ask ""
    Act.say line
    note ("Print input: " ++ line))
    fun f => if f.isKind .endOfInput then Act.say "" else fail f

/-- Name and prompt of an input assignment. The last character of the prompt is its quote. -/
def splitInput? (code : List Char) : Option (List Char × List Char) :=
  ((cut? "=input\"".toList code).or (cut? "=input '".toList code)).map fun (target, rest) =>
    (strip target, rest.dropLast)

def inputAssign (code : List Char) (importing : Bool) : Run Unit := do
  if importing then return ()
  match splitInput? code with
  | none => malformed .inputAssignment
  | some (name, prompt) =>
    if !isValidName name then malformed (.variableName (String.ofList name))
    let name := String.ofList name
    recover (do
      let line ← Act.ask (String.ofList prompt)
      let v ← check (Typed.lineValue line.toList)
      setVariable name v
      note ("Assigned to " ++ name ++ ": " ++ (← display v)))
      fun f => if f.isKind .endOfInput then setVariable name (.str "") else fail f

def input (code : List Char) (importing : Bool) : Run Value := do
  if importing then return .nothing
  let prompt := if Command.isInput code then (code.drop 6).dropLast else []
  recover (do
    let line ← Act.ask (String.ofList prompt)
    Act.say line
    return .str line)
    fun f => do
      if f.isKind .endOfInput then
        Act.say ""
        return .str ""
      else fail f

/-- Makes a name stand for a text at the start of lines. -/
def defineAlias (code : List Char) : Run Unit := do
  let rest := (cut? "alias".toList code).map fun (_, rest) => strip rest
  match rest.bind (cut? ['=']) with
  | none => malformed .aliasForm
  | some (name, target) =>
    let name := strip name
    let target := strip target
    if !isValidName name then malformed (.aliasName (String.ofList name))
    if target.isEmpty then malformed .aliasTarget
    let name := String.ofList name
    let target := String.ofList target
    adjust fun s => { s with aliases := s.aliases.set name target }
    note ("Alias created: " ++ name ++ " -> " ++ target)

/-- What follows a command word, with a blank between them or not. -/
def afterWord (word : String) (code : List Char) : List Char := strip (code.drop word.length)

def flagText (b : Bool) : String := if b then "True" else "False"

/-- Opens a block that runs if a condition holds. -/
def condition (code : List Char) (indent : Nat) : Run Unit := do
  let cond := if Command.starts code "if" then afterWord "if" code else []
  if cond.isEmpty then malformed .ifCondition
  wrapping .ifCondition do
    let v ← evaluate cond
    let holds := v.truthy (← world).store
    adjust fun s => { s with ifs := ⟨holds, indent⟩ :: s.ifs, elses := ⟨!holds, indent⟩ :: s.elses }
    note ("If condition '" ++ String.ofList cond ++ "' evaluated to: " ++ flagText holds)

/-- Opens the block that runs if the last condition did not hold. -/
def alternative (indent : Nat) : Run Unit := do
  match (← session).elses with
  | [] => malformed .elseWithoutIf
  | b :: _ =>
    if indent ≤ b.indent then malformed .elseIndent
    adjust fun s => { s with ifs := ⟨b.active, indent⟩ :: s.ifs }

def goto (code : List Char) : Run Unit := do
  if !Command.starts code "goto" then malformed .gotoWord
  let digits := afterWord "goto" code
  if !Value.allChars isDigit digits then malformed .goto
  match ← check (Value.toInt (.ofText digits)) with
  | .int n =>
    note ("Goto statement: jumping to line " ++ toString n)
    fail (.jump n.toNat)
  | _ => malformed .goto

def eval (run : Runner) (code : List Char) (importing : Bool) : Run Unit := do
  if importing then return ()
  wrappingForeign .evalFailed do
    match ← evaluate (afterWord "eval" code) with
    | .str s =>
      note ("Evaluating code: " ++ s)
      run s.toList false (← session).lineNumber
    | v => broken (.evalType v.shortTypeName)

/-- Prints a value and keeps it, unless it is nothing. -/
def showValue (v : Value) : Run Unit := do
  match v with
  | .nothing => return ()
  | v =>
    Act.say (← display v)
    adjust fun s => { s with lastOutput := v }

def showElement (code : List Char) (importing : Bool) : Run Unit := do
  if importing then return ()
  showValue (← accessArray code)

def showExpression (code : List Char) (importing : Bool) : Run Unit := do
  if importing then return ()
  wrappingForeign .evaluating do showValue (← evaluate code)

end LineScript.Run
