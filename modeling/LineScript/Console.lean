import LineScript.Script.Interpreter
import LineScript.Update

/-!
# The command line

Runs a script file, or reads lines from the user and runs each.
-/

namespace LineScript.Console

open Text

inductive Request where
  | leave
  | toggleDebug
  | showVariables
  | runFile (path : List Char)
  | line
  deriving DecidableEq

def Request.of (line : List Char) : Request :=
  let word := String.ofList (lower line)
  if word = "exit" then .leave
  else if word = "debug" then .toggleDebug
  else if word = "vars" then .showVariables
  else if startsWith line "guython ".toList then .runFile (strip (line.drop 8))
  else .line

def toggleDebug : Run Unit := do
  let debug := !(← Run.session).debug
  Run.setDebug debug
  Act.say ("Debug mode: " ++ (if debug then "ON" else "OFF"))

def showVariables : Run Unit := do
  (← Run.session).vars.forM fun (x, v) => do
    Act.say ("  " ++ x ++ " = " ++ (← Run.display v))

def runNamed (path : List Char) : Run Unit := do
  if !Run.isScriptName path then Act.say "Error: Invalid file type."
  else if !(← Run.world).disk.isFile path then
    Act.say ("Error: File not found: " ++ String.ofList path)
  else Run.program (← Run.act (Act.readLines path))

/-- Answers a line of the user; whether the console goes on. -/
def respond (line : List Char) : Run Bool := do
  match Request.of line with
  | .leave => return false
  | .toggleDebug => do
    toggleDebug
    return true
  | .showVariables => do
    showVariables
    return true
  | .runFile path => do
    runNamed path
    return true
  | .line => do
    Run.line line false 0
    Run.closeAllLoops Run.line
    return true

/-- What the console says when something stops a line; whether it goes on. -/
def handle : Stop → Run Bool
  | .interrupted => do
    Act.say "\nKeyboardInterrupt: Use 'exit' to quit."
    return true
  | .fault f => do
    if f.isKind .endOfInput then
      Act.say "\nGoodbye!"
      return false
    else
      Act.say ("Error: " ++ f.message)
      return true
  | s => throw s

/-- Reads and answers lines. Each round takes a line from the user or ends, so there are no more rounds than
lines, and one. -/
def loop : Nat → Run Unit
  | 0 => return ()
  | n + 1 => do
    let more ← tryCatch (do respond (strip (← Run.act (Act.ask ">>> ")).toList)) handle
    if more then loop n

def interactive : Run Unit := do
  Act.say ("Guython Interpreter " ++ Version.current)
  Act.say "Type 'exit' to quit, 'debug' to toggle debug mode, 'vars' to show variables."
  Update.run
  loop ((← Run.world).input.length + 1)

def leave {α : Type} (text : String) : Run α := do
  Act.say text
  throw (.exited 1)

def script (path : String) : Run Unit := do
  if !Run.isScriptName path.toList then leave "Error: Invalid file type. File must be .gy or .guy"
  if !(← Run.world).disk.isFile path.toList then leave ("Error: File not found: " ++ path)
  Run.recover (do Run.program (← Run.act (Act.readLines path.toList)))
    fun f => leave ("Fatal error: " ++ f.message)

/-- Runs what a session does in a world of its own. -/
def inSession (x : Run Unit) : Act Unit := do
  let s ← Run.start
  let (r, s) := x.run { s with depot := { s.depot with world := ← get } }
  set s.depot.world
  match r with
  | .ok () => return ()
  | .error e => throw e

def run (args : List String) : Act Unit :=
  inSession (match args with
    | path :: _ => script path
    | [] => interactive)

end LineScript.Console
