import LineScript.Package.Manager
import LineScript.Window.Registry
import LineScript.Line.Basic
import LineScript.Line.Name

/-!
# Sessions

The state of an interpreter: variables, functions, open blocks and a definition in progress, together with
windows, packages and the outside.
-/

namespace LineScript

structure Func where
  params : List String
  body : List Line := []

/-- A conditional block: whether its lines run, and the depth of its header. -/
structure Branch where
  active : Bool
  indent : Nat
  deriving DecidableEq

/-- A loop that is being read: its condition, the depth of its header and its lines so far. -/
structure Loop where
  condition : List Char
  indent : Nat
  body : List Line := []

structure Session where
  vars : Env := []
  /-- Inside an imported script that has imported another one: the variables it will be known by. From then
  on the script works on a copy. -/
  exported : Option Env := none
  functions : Table Func := []
  /-- Open loops, the innermost first. -/
  loops : List Loop := []
  /-- Open conditional blocks, the innermost first. -/
  ifs : List Branch := []
  /-- What an alternative would be, the latest first. -/
  elses : List Branch := []
  defining : Option (String × Nat) := none
  pending : List Line := []
  lineNumber : Int := 0
  debug : Bool := false
  jumps : Nat := 0
  aliases : Table String := []
  lastOutput : Value := .nothing
  screen : Window.Screen := {}
  depot : Depot := {}

/-- Steps of an interpreter. What a step has done stays done when it stops early. -/
abbrev Run := ExceptT Stop (StateM Session)

/-- How a line is run: the line, whether it is only imported, and its number. -/
abbrev Runner := List Char → Bool → Int → Run Unit

namespace Run

variable {α : Type}

def session : Run Session := get

def adjust (f : Session → Session) : Run Unit := modify f

def fail (f : Fault) : Run α := throw (.fault f)

def malformed (c : Malformed) : Run α := fail (.malformed c)

def broken (c : Runtime) : Run α := fail (.runtime c)

def check (x : Except Fault α) : Run α :=
  match x with
  | .ok a => return a
  | .error f => fail f

/-- Handles a fault. Interruption and exit pass. -/
def recover (x : Run α) (h : Fault → Run α) : Run α :=
  tryCatch x fun
    | .fault f => h f
    | s => throw s

/-- Does `last` after `x`, however `x` ends. -/
def ensuring (x : Run α) (last : Run Unit) : Run α := do
  let r ← tryCatch (do return Except.ok (← x)) fun s => return Except.error s
  last
  match r with
  | .ok a => return a
  | .error s => throw s

def pkg (x : Pkg α) : Run α := do
  let s ← get
  let (r, depot) := x.run s.depot
  set { s with depot }
  match r with
  | .ok a => return a
  | .error e => throw e

def act (x : Act α) : Run α := pkg (Pkg.act x)

/-- Calls on windows; what they do is noted with all other effects. -/
def gui (x : Window.Gui α) : Run α := do
  let s ← get
  let (r, screen) := x.run { s.screen with log := [] }
  set { s with screen := { screen with log := [] } }
  screen.log.forM fun e => act (Act.emit e)
  check r

instance : MonadLift Pkg Run where
  monadLift := pkg

instance : MonadLift Act Run where
  monadLift := act

def world : Run World := do return (← session).depot.world

def setVariable (x : String) (v : Value) : Run Unit :=
  adjust fun s => { s with vars := s.vars.set x v }

def setDebug (debug : Bool) : Run Unit := adjust fun s => { s with debug }

def note (text : String) : Run Unit := do
  if (← session).debug then Act.say ("[DEBUG] " ++ text)

def value (s : List Char) : Run Value := do
  let env := (← session).vars
  act (Act.evaluate (Expr.evaluate env s))

/-- Prepares for evaluating and evaluates. -/
def evaluate (s : List Char) : Run Value := do
  Pkg.touch
  value s

def display (v : Value) : Run String := act (Act.display v)

def wrapping (wrap : String → Runtime) (x : Run α) : Run α := recover x fun f => broken (wrap f.message)

/-- Wraps a fault that is not one of the language. -/
def wrappingForeign (wrap : String → Runtime) (x : Run α) : Run α :=
  recover x fun f => if f.isLanguage then fail f else broken (wrap f.message)

end Run

end LineScript
