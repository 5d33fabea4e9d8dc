import LineScript.Script.Arrays
import LineScript.Script.Command

/-!
# Functions

A definition names a function and its parameters; the deeper lines after it are its body. A call binds the
parameters, runs the body and gives the parameters back what they stood for before.
-/

namespace LineScript.Run

open Text Line

/-- Parts between commas; an empty text has none. -/
def commaParts (s : List Char) : List (List Char) := if s.isEmpty then [] else (splitOn [','] s).map strip

def define (code : List Char) (indent : Nat) : Run Unit := do
  if !Command.starts code "def" || !code.contains '_' then malformed .functionForm
  match cut? ['_'] (strip (code.drop 3)) with
  | none => malformed .functionUnderscore
  | some (name, rest) =>
    let name := strip name
    let params := commaParts (strip rest)
    if !isValidName name then malformed (.functionName (String.ofList name))
    match params.find? fun p => !p.isEmpty && !isValidName p with
    | some p => malformed (.argumentName (String.ofList p))
    | none => pure ()
    let name := String.ofList name
    adjust fun s =>
      { s with
        functions := s.functions.set name ⟨params.map String.ofList, []⟩
        defining := some (name, indent)
        pending := [] }

/-- An array literal as an argument, which is shown; none if it is not well formed. -/
def arrayArgument? (arg : List Char) : Run (Option Value) := do
  if startsWith arg ['['] && endsWith arg [']'] then
    recover (do
      let v ← arrayLiteral arg
      Act.say ("DEBUG: Array literal result: " ++ (← display v))
      return some v)
      fun _ => return none
  else return none

/-- A numeral: with a point it has a fraction. -/
def numeral? (arg : List Char) : Except Fault (Option Value) :=
  match if arg.contains '.' then Value.toFloat (.ofText arg) else Value.toInt (.ofText arg) with
  | .ok v => .ok (some v)
  | .error f => if f.isValue then .ok none else .error f

/-- The value of an argument: a quoted text, a numeral, a variable, an array literal, or else an expression. -/
def argument (arg : List Char) : Run Value := do
  let arg := strip arg
  if isQuoted arg then return .ofText (inner arg)
  match ← check (numeral? arg) with
  | some v => return v
  | none =>
    match (← session).vars.find? (String.ofList arg) with
    | some v => return v
    | none =>
      match ← arrayArgument? arg with
      | some v => return v
      | none => wrapping (.cannotEvaluate (String.ofList arg)) (evaluate arg)

/-- Binds parameters to arguments, one after the other. -/
def bindFrom (i : Nat) : List (String × List Char) → Run Unit
  | [] => return ()
  | (param, arg) :: rest => do
    recover (do setVariable param (← argument arg)) fun f => do
      Act.say ("DEBUG: Error evaluating argument: " ++ f.message)
      broken (.argument i (String.ofList arg) f.message)
    bindFrom (i + 1) rest

/-- Gives a parameter back what it stood for. -/
def restoreOne (saved : Env) (env : Env) (param : String) : Env :=
  match saved.find? param with
  | some v => env.set param v
  | none => env.erase param

def restore (saved : Env) (params : List String) (env : Env) : Env := params.foldl (restoreOne saved) env

def splitCall (code : List Char) : List Char × List (List Char) :=
  match cut? [' '] code with
  | some (name, rest) => (name, commaParts (strip rest))
  | none => (strip code, [])

def runBody (run : Runner) (importing : Bool) : List Line → Run Unit
  | [] => return ()
  | l :: ls => do
    run l.text importing (← session).lineNumber
    runBody run importing ls

def call (run : Runner) (code : List Char) (importing : Bool) : Run Unit := do
  let (name, args) := splitCall code
  if !endsWith name ['_'] then broken (.callForm (String.ofList name))
  let name := String.ofList name.dropLast
  let s ← session
  match s.functions.find? name with
  | none => broken (.functionNotFound name (Pkg.quotedList s.functions.names))
  | some f =>
    if args.length ≠ f.params.length then broken (.arity name f.params.length args.length)
    let saved := s.vars
    ensuring (do
      bindFrom 1 (f.params.zip args)
      runBody run importing f.body)
      (adjust fun s => { s with vars := restore saved f.params s.vars })

end LineScript.Run
