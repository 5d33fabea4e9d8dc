import LineScript.Script.Statements

/-!
# Blocks

A line that is not deeper than the header of a block closes the block. A loop runs when it is closed.
-/

namespace LineScript.Run

/-- A loop runs at most so many times. -/
def maxIterations : Nat := 10000

/-- Opens a loop, which collects the lines deeper than `indent`. -/
def openLoop (condition : List Char) (indent : Nat) : Run Unit :=
  adjust fun s => { s with loops := { condition, indent } :: s.loops }

def runPass (run : Runner) : List Line → Run Unit
  | [] => return ()
  | l :: ls => do
    run l.text false 0
    runPass run ls

def conditionHolds (condition : List Char) : Run Bool := do
  let v ← value condition
  return v.truthy (← world).store

/-- Runs a loop as long as its condition holds; `n` more passes are allowed. -/
def repeatLoop (run : Runner) (condition : List Char) (body : List Line) : Nat → Run Unit
  | 0 => do
    if ← conditionHolds condition then broken (.loopLimit maxIterations)
  | n + 1 => do
    if ← conditionHolds condition then
      runPass run body
      Pkg.touch
      repeatLoop run condition body n

/-- Runs a loop. A jump out of it is an error. -/
def executeLoop (run : Runner) (condition : List Char) (body : List Line) : Run Unit := do
  Pkg.touch
  wrappingForeign .loopFailed (repeatLoop run condition body maxIterations)

/-- Takes the innermost loop off and runs it, unless `keep` holds of it; at most `n` times. -/
def closeLoops (run : Runner) (keep : Loop → Bool) : Nat → Run Unit
  | 0 => return ()
  | n + 1 => do
    match (← session).loops with
    | [] => return ()
    | l :: rest =>
      if keep l then return ()
      adjust fun s => { s with loops := rest }
      executeLoop run l.condition l.body
      closeLoops run keep n

/-- Closes the conditional blocks whose header is at least so deep. -/
def closeIfs (indent : Nat) : Run Unit := do
  let s ← session
  let closed := s.ifs.takeWhile fun b => indent ≤ b.indent
  adjust fun s => { s with ifs := s.ifs.dropWhile fun b => indent ≤ b.indent }
  closed.forM fun b =>
    note ("Closed if block: was_active=" ++ flagText b.active ++ ", indent=" ++ toString b.indent)

/-- Closes the blocks that a line of the given depth ends. -/
def closeBlocks (run : Runner) (indent : Nat) : Run Unit := do
  closeIfs indent
  closeLoops run (fun l => l.indent < indent) (← session).loops.length

def closeAllLoops (run : Runner) : Run Unit := do
  closeLoops run (fun _ => false) (← session).loops.length

end LineScript.Run
