import LineScript.Script.Blocks
import LineScript.Script.Files
import LineScript.Script.Functions
import LineScript.Script.Packages
import LineScript.Script.Windows
import LineScript.Version

/-!
# Running lines and programs

A line is stripped of comments, closes the blocks it is not part of, and is then run by its kind. An error of
a line is told, and the program goes on. A jump is taken by the program that is running.

Lines run lines: by calls, loops, files and packages. Each level of that gets a runner for the next one, and
the last level refuses to run anything.
-/

namespace LineScript.Run

open Text Line

/-- A program may jump so many times. -/
def maxJumps : Nat := 1000

/-- After so many jumps a program is given up even if programs it ran have reset the count. -/
def patience : Nat := 1000000

/-- Runs lines up to the first jump, whose target it gives. -/
def runLines (run : Runner) (n : Nat) : List (List Char) → Run (Option Nat)
  | [] => return none
  | line :: rest => do
    let jump ← recover (do run line false n; return none) fun
      | .jump target => return some target
      | f => fail f
    match jump with
    | some target => return some target
    | none => runLines run (n + 1) rest

/-- Counts a jump and makes sure that it leads to a line. -/
def takeJump (target lines : Nat) : Run Unit := do
  if target < 1 || target > lines then broken (.gotoRange target lines)
  adjust fun s => { s with jumps := s.jumps + 1 }
  if (← session).jumps > maxJumps then broken (.gotoLimit maxJumps)
  note ("Goto jump to line " ++ toString target)

/-- Runs a program from a line on. -/
def runFrom (run : Runner) (lines : List (List Char)) : Nat → Nat → Run Unit
  | 0, _ => throw .endless
  | fuel + 1, start => do
    match ← runLines run (start + 1) (lines.drop start) with
    | none => return ()
    | some target =>
      takeJump target lines.length
      runFrom run lines fuel (target - 1)

def programWith (run : Runner) (lines : List (List Char)) : Run Unit := do
  adjust fun s => { s with jumps := 0 }
  runFrom run lines patience 0
  closeAllLoops run

def runFile (run : Runner) (code : List Char) (importing : Bool) : Run Unit := do
  if importing then return ()
  let path := strip (code.drop 8)
  let shown := String.ofList path
  if !isScriptName path then malformed .fileType
  if !(← world).disk.isFile path then broken (.fileNotFound shown)
  wrapping (.executing shown) do
    needAllowed path
    programWith run (← act (Act.readLines path))

def sayAll (importing : Bool) (lines : List String) : Run Unit := do
  if !importing then lines.forM fun line => (Act.say line : Run Unit)

/-- There is no loop statement: a loop line is an error of the interpreter. -/
def noLoop : Fault :=
  .primitive .attribute "'GuythonInterpreter' object has no attribute '_handle_while'"

/-- Adds a line to the innermost loop. -/
def collect (line : Line) : Run Unit :=
  adjust fun s =>
    match s.loops with
    | [] => s
    | l :: rest => { s with loops := { l with body := l.body ++ [line] } :: rest }

def execute (run : Runner) (command : Command) (code : List Char) (indent : Nat) (importing : Bool) :
    Run Unit := do
  match command with
  | .eval => eval run code importing
  | .input => do
    let _ ← input code importing
  | .inputAssign => inputAssign code importing
  | .shorthand => defineAlias code
  | .alternative => alternative indent
  | .exit => throw (.exited 0)
  | .package => packageCommand (programWith run) (code.drop 4)
  | .define => define code indent
  | .loop => fail noLoop
  | .condition => condition code indent
  | .collect => collect ⟨indent, code⟩
  | .skip => note ("Skipping line due to false if condition: " ++ String.ofList code)
  | .goto => goto code
  | .runFile => runFile run code importing
  | .call => call run code importing
  | .printInput => printInput importing
  | .assign => assign code
  | .print => print code importing
  | .fiveAndFive => sayAll importing ["chatgpt actually said this bruh 😭"]
  | .nineAndTen => sayAll importing ["21", "you stupid", "its 19"]
  | .version => sayAll importing ["Guython " ++ Version.current]
  | .element => showElement code importing
  | .expression => showExpression code importing

def process (run : Runner) (code : List Char) (indent : Nat) (importing : Bool) : Run Unit := do
  let s ← session
  let code := applyAliases s.aliases code
  let inLoop := s.loops.head?.any fun l => l.indent < indent
  let skipped := s.ifs.head?.any fun b => !b.active && b.indent < indent
  execute run (.of inLoop skipped code) code indent importing

/-- Adds a line to the function being defined; false if the line is not deep enough to belong to it. -/
def capture (line : Line) : Run Bool := do
  match (← session).defining with
  | none => return false
  | some (name, indent) =>
    if line.indent > indent then
      adjust fun s => { s with pending := s.pending ++ [line] }
      return true
    else
      adjust fun s =>
        { s with
          functions := match s.functions.find? name with
            | some f => s.functions.set name { f with body := s.pending }
            | none => s.functions
          defining := none
          pending := [] }
      return false

def report (line : List Char) (n : Int) (heading : String) (f : Fault) : Run Unit := do
  let label := "[Line " ++ toString n ++ "] "
  let margin := label.length + (line.takeWhile (· = ' ')).length
  Act.say (label ++ String.ofList line)
  Act.say (String.ofList (List.replicate margin ' ') ++ "^")
  Act.say (heading ++ ": " ++ f.message)

/-- Handles what a line raises: jumps pass, errors are told unless the line is only imported. -/
def handle (line : List Char) (importing : Bool) (n : Int) (f : Fault) : Run Unit := do
  match f with
  | .jump target => fail (.jump target)
  | f =>
    if importing then return ()
    report line n (if f.isLanguage then "GuythonError" else "Unexpected error") f

/-- Runs a line, and lines that it runs by `run`. -/
def lineWith (run : Runner) (line : List Char) (importing : Bool) (n : Int) : Run Unit := do
  let line := trimRight (· = '\n') line
  let stripped := stripComments line
  adjust fun s => { s with lineNumber := n }
  if stripped.isEmpty then return ()
  let (indent, code) := splitIndent stripped
  recover (do
    if !(← capture ⟨indent, code⟩) then
      closeBlocks run indent
      process run code indent importing)
    (handle line importing n)

/-- Runners by how deep lines may run lines. -/
def runner : Nat → Runner
  | 0 => fun _ _ _ => fail (.tooDeep "")
  | depth + 1 => lineWith (runner depth)

/-- Levels of lines that run lines. -/
def maxLevels : Nat := 300

def line : Runner := runner maxLevels

def program (lines : List (List Char)) : Run Unit := programWith line lines

def start : Act Session := do
  let index ← Pkg.init
  return { depot := { index } }

end LineScript.Run
