import LineScript.Expr.Parser
import LineScript.Value.Call

/-!
# Evaluation

An expression is first respelled, so that an underscore at the end of a word calls it, then read and
evaluated. Operands are evaluated from left to right, and so are the arguments of a call.
-/

namespace LineScript.Expr

open Value

/-- Names that every expression knows. -/
def builtins : List (String × Value) :=
  ([.abs, .round, .int, .float, .str, .len, .max, .min, .sum, .sqrt, .sin, .cos, .tan] : List Builtin).map
    (fun b => (b.label, .builtin b)) ++
  [("pi", .float (Float.ofBits 0x400921fb54442d18)), ("e", .float (Float.ofBits 0x4005bf0a8b145769))]

def Literal.value : Literal → Value
  | .none => .nothing
  | .bool b => .bool b
  | .int n => .int n
  | .float x => .float x
  | .imaginary x => .complex 0.0 x
  | .str s => .str s
  | .bytes bs => .bytes bs
  | .ellipsis => .ellipsis

def BinOp.apply (op : BinOp) (l r : Value) : Eval Value :=
  match op with
  | .add => Value.add l r
  | .mult => Value.mul l r
  | .sub => numeric "-" (fun p => .ok (subNum p)) l r
  | .div => numeric "/" divNum l r
  | .floorDiv => numeric "//" (floorDivNum (unsupported "//" l r)) l r
  | .pow => numeric "** or pow()" powNum l r
  | .mod => do
    match l with
    | .str s => return .ofText (← fill (← get) s.toList r)
    | .bytes bs => return .bytes (← fillBytes (← get) bs r)
    | _ => numeric "%" (modNum (unsupported "%" l r)) l r
  | op => throw (.runtime (.unsupportedOperation op.label))

def CompareOp.apply (op : CompareOp) (l r : Value) : Eval Bool := do
  let store ← get
  match op with
  | .eq => equal store l r
  | .notEq => return !(← equal store l r)
  | .lt => ordered store .lt l r
  | .ltE => ordered store .le l r
  | .gt => ordered store .gt l r
  | .gtE => ordered store .ge l r
  | op => throw (.runtime (.unsupportedComparison op.label))

/-- Comparisons of values, as opposed to identity and membership. -/
def CompareOp.isOrder : CompareOp → Bool
  | .eq | .notEq | .lt | .ltE | .gt | .gtE => true
  | _ => false

/-- A variable hides a name that every expression knows. -/
def lookup (env : Env) (x : String) : Except Fault Value :=
  match env.find? x, builtins.lookup x with
  | some v, _ => .ok v
  | none, some v => .ok v
  | none, none => .error (.runtime (.undefined x))

def member (v : Value) (x : String) : Except Fault Value :=
  match attribute? v x with
  | some w => .ok w
  | none => .error (.runtime (.noAttribute x))

/-- Keyword arguments by name; of two with one name the last counts. -/
def gather : List (Option String × Value) → List (Option String × Value) → List (Option String × Value)
  | acc, [] => acc
  | acc, (k, v) :: rest =>
    if (acc.lookup k).isSome then gather (acc.map fun (k', w) => if k' = k then (k', v) else (k', w)) rest
    else gather (acc ++ [(k, v)]) rest

def named : List (Option String × Value) → Except Fault (List (String × Value))
  | [] => .ok []
  | (some k, v) :: rest => do return (k, v) :: (← named rest)
  | (none, _) :: _ => .error (.type "keywords must be strings")

/-- Calls a value; a failure of the call says that it was one. -/
def applyTo (f : Value) (args : List Value) (kwargs : List (Option String × Value)) : Eval Value := do
  if !f.isCallable then throw (.runtime (.notCallable (← display (← get) f)))
  tryCatch (do f.call ⟨args, ← named (gather [] kwargs)⟩) fun e => throw (.runtime (.calling e.message))

mutual

def eval (env : Env) : Expr → Eval Value
  | .literal v => return v.value
  | .name x => lookup env x
  | .attribute e x => do member (← eval env e) x
  | .call f args kwargs => do
    let f ← eval env f
    let args ← evalAll env args
    let kwargs ← evalKeywords env kwargs
    applyTo f args kwargs
  | .binary op l r => do
    let l ← eval env l
    let r ← eval env r
    op.apply l r
  | .compare l rest => do
    let l ← eval env l
    evalChain env true l rest
  | .other form => throw (.runtime (.unsupportedForm form.label))

def evalAll (env : Env) : List Expr → Eval (List Value)
  | [] => return []
  | e :: es => do
    let v ← eval env e
    return v :: (← evalAll env es)

def evalKeywords (env : Env) : List (Option String × Expr) → Eval (List (Option String × Value))
  | [] => return []
  | (k, e) :: rest => do
    let v ← eval env e
    return (k, v) :: (← evalKeywords env rest)

/-- Compares neighbours. Every operand is evaluated, and nothing is compared once a comparison has failed. -/
def evalChain (env : Env) (holds : Bool) (l : Value) : List (CompareOp × Expr) → Eval Value
  | [] => return .bool holds
  | (op, e) :: rest => do
    let r ← eval env e
    let holds ← if holds || !op.isOrder then op.apply l r else pure false
    evalChain env holds r rest

end

/-- Respells one run of word characters: its last underscore, unless it is the first character, becomes a
pair of brackets. -/
def respellWord (w : List Char) : List Char :=
  let tail := w.reverse.takeWhile (· ≠ '_')
  let head := w.take (w.length - tail.length - 1)
  if tail.length = w.length || head.isEmpty then w else head ++ ['(', ')'] ++ tail.reverse

/-- Respells the words of a text, of which `word` is the one being read, backwards. -/
def respellFrom (word : List Char) : List Char → List Char
  | [] => respellWord word.reverse
  | c :: cs => if Text.isWord c then respellFrom (c :: word) cs else respellWord word.reverse ++ c :: respellFrom [] cs

/-- Underscores that end a name become calls. -/
def respell (s : List Char) : List Char := respellFrom [] s

def invalidSyntax : Fault := .primitive .unreadable "invalid syntax"

def readAndEval (env : Env) (s : List Char) : Eval Value :=
  match parse s with
  | some e => eval env e
  | none => throw invalidSyntax

def evaluate (env : Env) (s : List Char) : Eval Value :=
  tryCatch (readAndEval env (respell s)) fun e => throw (.runtime (.evaluating e.message))

/-- The value of an expression in which a caret raises to a power. -/
def evaluatePlain (env : Env) (s : List Char) : Eval Value :=
  let s := Text.replace ['^'] ['*', '*'] s
  tryCatch (readAndEval env s) fun _ => throw (.runtime (.invalidExpression (String.ofList s)))

end LineScript.Expr
