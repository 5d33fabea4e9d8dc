import LineScript.Value.Convert
import LineScript.Json.Reader
import LineScript.Disk.Access

/-!
# The outside

What a program can see and change besides its own variables: the disk, the keyboard, the screen, the
network and the machine it runs on. Everything that happens is a value of `World`, so that a run is a
function of the world it starts in.
-/

namespace LineScript

inductive Typed where
  | line (s : String)
  /-- The key that interrupts. -/
  | interrupt

inductive Reply where
  | page (status : Nat) (body : String)
  | failure (message : String)

/-- Whether the machine is one on which folders are removed by a shell command, and whether that works. -/
inductive Shell where
  | absent
  | works
  | fails
  deriving DecidableEq

/-- What a chooser of colours or files hands out. -/
inductive Choice where
  | color (name : Option String)
  | file (path : Value)

/-- What the machine says about itself. -/
structure Machine where
  system : String := "Linux"
  release : String := "1.0"
  architecture : String := "x86_64"
  processor : String := ""
  runtime : String := "3.11.6"

structure World where
  disk : Disk := []
  store : Store := {}
  output : String := ""
  input : List Typed := []
  remote : Table Reply := []
  choices : List Choice := []
  /-- Paths that a script may not open. -/
  denied : List String := []
  /-- Optional libraries that are installed. -/
  modules : List String := []
  /-- The system that updates are looked for. -/
  platform : String := "Linux"
  machine : Machine := {}
  /-- When the files were changed last, in seconds since 1970. -/
  modified : Int := 1700000000
  shell : Shell := .absent
  /-- How many random picks have been made. -/
  picks : Nat := 0

/-- Why a run ends early. -/
inductive Stop where
  | fault (f : Fault)
  | interrupted
  | exited (status : Int)
  /-- A program has jumped so often that it is given up. -/
  | endless
  deriving DecidableEq

/-- Acts in the world. What an act has done stays done when it stops early. -/
abbrev Act := ExceptT Stop (StateM World)

namespace Act

variable {α : Type}

def fail (f : Fault) : Act α := throw (.fault f)

def evaluate (x : Eval α) : Act α := do
  let w ← get
  let (r, store) := x.run w.store
  set { w with store }
  match r with
  | .ok a => return a
  | .error f => fail f

def check (x : Except Fault α) : Act α :=
  match x with
  | .ok a => return a
  | .error f => fail f

/-- Handles a fault. Interruption and exit pass. -/
def recover (x : Act α) (h : Fault → Act α) : Act α :=
  tryCatch x fun
    | .fault f => h f
    | s => throw s

def write (s : String) : Act Unit := modify fun w => { w with output := w.output ++ s }

def say (s : String) : Act Unit := write (s ++ "\n")

def emit (e : Effect) : Act Unit := modify fun w => { w with store := w.store.emit e }

def ask (prompt : String) : Act String := do
  write prompt
  let w ← get
  match w.input with
  | [] => fail .endOfInput
  | .line s :: rest =>
    set { w with input := rest }
    return s
  | .interrupt :: rest =>
    set { w with input := rest }
    throw .interrupted

def display (v : Value) : Act String := do check (v.display (← get).store)

def alter (f : Disk → Except Fault Disk) : Act Unit := do
  let w ← get
  let disk ← check (f w.disk)
  set { w with disk }

/-- Changes the disk as far as it goes: what is done before a fault stays. -/
def alterPartly (f : Disk → Disk × Option Fault) : Act Unit := do
  let w ← get
  let (disk, fault) := f w.disk
  set { w with disk }
  match fault with
  | none => return ()
  | some f => fail f

def readBytes (p : List Char) : Act Text.Bytes := do check ((← get).disk.read p)

/-- A whole text file, with line ends made equal. -/
def readText (p : List Char) : Act (List Char) := do
  let bs ← readBytes p
  return Text.universalNewlines (← check (Value.decodeUtf8 bs))

/-- Size of the pieces in which a file is read line by line. -/
def pieceSize : Nat := 8192

/-- Text in pieces. The start of a character that a piece cuts off is read with the next piece; positions in
faults count from the start of what is read together. -/
def decodePieces : Nat → Text.Bytes → Text.Bytes → List Char × Option Fault
  | 0, _, _ => ([], none)
  | n + 1, pending, bs =>
    if bs.isEmpty then
      match Value.decodeUtf8 pending with
      | .ok cs => (cs, none)
      | .error f => ([], some f)
    else
      let piece := pending ++ bs.take pieceSize
      match Text.decode piece with
      | .ok cs =>
        let (rest, f) := decodePieces n [] (bs.drop pieceSize)
        (cs ++ rest, f)
      | .error e =>
        if e.problem = .cutOff then
          let (rest, f) := decodePieces n (piece.drop e.position) (bs.drop pieceSize)
          match Text.decode (piece.take e.position) with
          | .ok cs => (cs ++ rest, f)
          | .error _ => (rest, f)
        else ([], some (Value.decodeFault "utf-8" piece e.position e.count e.problem.label))

/-- Complete lines of a file read line by line, and the fault that ends the reading early. -/
def linesOf (bs : Text.Bytes) : List (List Char) × Option Fault :=
  let (cs, f) := decodePieces (bs.length + 2) [] bs
  let lines := Text.fileLines (Text.universalNewlines cs)
  (if f.isSome then lines.filter (·.getLast? = some '\n') else lines, f)

/-- All lines of a file, read line by line. -/
def readLines (p : List Char) : Act (List (List Char)) := do
  match linesOf (← readBytes p) with
  | (lines, none) => return lines
  | (_, some f) => fail f

/-- Asks the user whether something is to be done; only one letter agrees. -/
def agrees (prompt : String) : Act Bool := do
  return Text.lower (← ask prompt).toList = ['y']

def pick (xs : List Char) : Act Char := do
  let w ← get
  set { w with picks := w.picks + 1 }
  return xs.getD (w.picks % xs.length) ' '

/-- Answer of the network. `key` is how the address is known. -/
def fetch (key : String) : Act Reply := do
  emit (.http key)
  match (← get).remote.find? key with
  | some r => return r
  | none => return .page 404 ""

end Act

end LineScript
