import LineScript.Fault
import LineScript.Table

/-!
# Values

A list is a reference into the store, since several names may hold the same list and an element can be
replaced; every other value is what it is. The store also keeps what evaluating an expression can leave
behind outside: the effects, in order, and the clock.
-/

namespace LineScript

inductive Builtin where
  | abs | round | int | float | str | len | max | min | sum | sqrt | sin | cos | tan
  deriving DecidableEq

def Builtin.label : Builtin → String
  | .abs => "abs"
  | .round => "round"
  | .int => "int"
  | .float => "float"
  | .str => "str"
  | .len => "len"
  | .max => "max"
  | .min => "min"
  | .sum => "sum"
  | .sqrt => "sqrt"
  | .sin => "sin"
  | .cos => "cos"
  | .tan => "tan"

/-- The functions come from a bundled library, or the package has none. -/
inductive Library where
  | text | time | easygui | empty
  deriving DecidableEq

/-- Operations that belong to a text, a list or a number. -/
inductive Method where
  | upper | lower | title | capitalize | strip | lstrip | rstrip | split | replace | find | index | count
  | startswith | endswith | join | isdigit | isalpha | isnumeric | isalnum | isspace | zfill | center | ljust | rjust
  | listCount | listIndex | copy | pop | append | extend | insert | remove | reverse | clear
  | conjugate
  deriving DecidableEq

inductive Value where
  | nothing
  | bool (b : Bool)
  | int (n : Int)
  | float (x : Float)
  | complex (re im : Float)
  | str (s : String)
  | bytes (bs : List UInt8)
  | ellipsis
  | list (ref : Nat)
  | tuple (items : List Value)
  /-- The variables of an imported script. -/
  | record (members : List (String × Value))
  /-- An imported package with a library of functions; `load` tells apart what was loaded when. -/
  | package (name path : String) (lib : Library) (load : Nat)
  | builtin (f : Builtin)
  | libraryFn (lib : Library) (load : Nat) (name : String)
  | method (self : Value) (m : Method)
  deriving Inhabited

namespace Value

def typeName : Value → String
  | .nothing => "NoneType"
  | .bool _ => "bool"
  | .int _ => "int"
  | .float _ => "float"
  | .complex _ _ => "complex"
  | .str _ => "str"
  | .bytes _ => "bytes"
  | .ellipsis => "ellipsis"
  | .list _ => "list"
  | .tuple _ => "tuple"
  | .record _ => "types.SimpleNamespace"
  | .package _ _ _ _ => "module"
  | .builtin .int | .builtin .float | .builtin .str => "type"
  | .builtin _ => "builtin_function_or_method"
  | .libraryFn _ _ _ => "function"
  | .method _ _ => "builtin_function_or_method"

/-- The name without the module that a type belongs to. -/
def shortTypeName : Value → String
  | .record _ => "SimpleNamespace"
  | v => v.typeName

/-- How a value is named where a text was expected as argument. -/
def argumentName : Value → String
  | .nothing => "None"
  | v => v.typeName

def isCallable : Value → Bool
  | .builtin _ | .libraryFn _ _ _ | .method _ _ => true
  | _ => false

def ofText (s : List Char) : Value := .str (String.ofList s)

end Value

/-- Variables in the order of their first assignment. -/
abbrev Env := Table Value

/-- What a window toolkit is told: names, numbers, flags, pairs and functions. -/
inductive Arg where
  | text (s : String)
  | number (n : Int)
  | flag (b : Bool)
  | value (v : Value)
  | pair (a b : Arg)
  | callback
  | absent

/-- Effects on the outside, as they happen. -/
inductive Effect where
  | http (key : String)
  | run (argv : List String)
  | runShell (command : String)
  | popen (argv : List String)
  | system (command : String)
  | sleep (seconds : Value)
  | browser (url : String)
  | fileDialog (types : String)
  | startFile (file : String)
  | model (entries : List Value)
  | modelOptions (name method : String) (options : List (String × Value))
  | widget (object method : String) (args : List Arg) (options : List (String × Arg))

structure Store where
  lists : Array (List Value) := #[]
  effects : List Effect := []
  /-- Seconds since 1970. -/
  clock : Int := 0
  /-- How many packages have been loaded. -/
  loads : Nat := 0
  /-- Loads of the window library that have opened an application. -/
  apps : List Nat := []

namespace Store

def items (s : Store) (ref : Nat) : List Value := (s.lists[ref]?).getD []

def setItems (s : Store) (ref : Nat) (vs : List Value) : Store :=
  { s with lists := s.lists.setIfInBounds ref vs }

def alloc (s : Store) (vs : List Value) : Value × Store :=
  (.list s.lists.size, { s with lists := s.lists.push vs })

def emit (s : Store) (e : Effect) : Store := { s with effects := s.effects ++ [e] }

end Store

/-- Computations that read and change the store and may fail. -/
abbrev Eval := ExceptT Fault (StateM Store)

def Eval.fail (f : Fault) : Eval α := throw f

def Eval.newList (vs : List Value) : Eval Value := do
  let s ← get
  let (v, s) := s.alloc vs
  set s
  return v

end LineScript
