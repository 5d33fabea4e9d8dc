import LineScript.Value.Library

/-!
# Calls

The functions that every expression can use, and calling a value.
-/

namespace LineScript.Value

open Number

def callAbs (v : Value) : Except Fault Value :=
  match v with
  | .bool b => .ok (.int (if b then 1 else 0))
  | .int n => .ok (.int n.natAbs)
  | .float x => .ok (.float x.abs)
  | .complex re im =>
    let r := hypot re im
    if r.isInf && isFinite re && isFinite im then
      .error (.primitive .overflow "absolute value too large")
    else .ok (.float r)
  | v => .error (.type ("bad operand type for abs(): '" ++ v.typeName ++ "'"))

/-- The multiple of a power of ten nearest to a whole number; a half goes to the even one. -/
def roundTens (n : Int) (places : Nat) : Int :=
  if places > (decimalText n.natAbs).length + 1 then 0
  else
    let unit := Nat.pow 10 places
    let r : Int := roundDiv n.natAbs unit * unit
    if n < 0 then -r else r

def roundInt (n : Int) (digits : Int) : Int := if digits ≥ 0 then n else roundTens n digits.natAbs

/-- A double has no decimal digits past the 323rd place and none above the 308th. -/
def roundFloat (x : Float) (digits : Int) : Except Fault Float :=
  if !isFinite x || digits > 323 then .ok x
  else if digits < -308 then .ok (withSign (signBit x) 0.0)
  else
    let r := roundPlaces x digits
    if r.isInf then .error (.primitive .overflow "rounded value too large to represent") else .ok r

def callRound (a : Args) : Except Fault Value := do
  let slots ← a.named "round" ["number", "ndigits"] 0 1
  let digits : Option Value := match slots with
    | [_, some .nothing] | [_, none] => none
    | [_, d] => d
    | _ => none
  match (slots.headD none).getD .nothing, digits with
  | .int n, none => return .int n
  | .bool b, none => return .int (if b then 1 else 0)
  | .float x, none => do
    let _ ← floatToInt x
    return .int (roundWhole x)
  | .int n, some d => return .int (roundInt n (← indexOf d))
  | .bool b, some d => return .int (roundInt (if b then 1 else 0) (← indexOf d))
  | .float x, some d => return .float (← roundFloat x (← indexOf d))
  | v, _ => throw (.type ("type " ++ v.typeName ++ " doesn't define __round__ method"))

def callInt (a : Args) : Except Fault Value := do
  match ← a.named "int" ["", "base"] 1 0 with
  | [none, none] => return .int 0
  | [none, some _] => throw (.type "int() missing string argument")
  | [some v, none] => toInt v
  | [some v, some b] => toIntBase v b
  | _ => return .int 0

def callFloat (a : Args) : Except Fault Value := do
  match ← a.between "float" "float" 0 1 with
  | [v] => toFloat v
  | _ => return .float 0.0

/-- Text of a value, or bytes read as text when an encoding or a treatment of errors is given. -/
def callStr (store : Store) (a : Args) : Except Fault Value := do
  let slots ← a.named "str" ["object", "encoding", "errors"] 0 0
  let word (name : String) : Option Value → Except Fault Unit
    | none | some (.str _) => .ok ()
    | some v => .error (.type ("str() argument '" ++ name ++ "' must be str, not " ++ v.argumentName))
  let text (default : String) : Option Value → String
    | some (.str s) => s
    | _ => default
  let encoding := slots.getD 1 none
  let errors := slots.getD 2 none
  word "encoding" encoding
  word "errors" errors
  match slots.headD none with
  | none => return .str ""
  | some v =>
    if encoding.isNone && errors.isNone then return .str (← display store v)
    else match v with
      | .bytes bs => return .ofText (← decodeBytes (text "utf-8" encoding) (text "strict" errors) bs)
      | .str _ => throw (.type "decoding str is not supported")
      | v => throw (.type ("decoding to str: need a bytes-like object, " ++ v.typeName ++ " found"))

def callSum (a : Args) : Eval Value := do
  let slots ← a.named "sum" ["", "start"] 1 1
  let items ← elements (← get) ((slots.headD none).getD .nothing)
  let start := (slots.getD 1 none).getD (.int 0)
  match start with
  | .str _ => throw (.type "sum() can't sum strings [use ''.join(seq) instead]")
  | .bytes _ => throw (.type "sum() can't sum bytes [use b''.join(seq) instead]")
  | _ => items.foldlM add start

/-- Real functions of one argument; `domain` says where they are defined. -/
def callReal (b : Builtin) (domain : Float → Bool) (f : Float → Float) (a : Args) : Except Fault Value := do
  let x ← realOf (← a.one ("math." ++ b.label))
  if x.isNaN then return .float x
  if !domain x then throw (.value "math domain error")
  return .float (f x)

/-- The elements that `max` or `min` chooses from, and the value for none. -/
def choices (name : String) (a : Args) (default : Option Value) : Eval (List Value) := do
  match a.positional with
  | [v] => elements (← get) v
  | vs =>
    if default.isSome then
      throw (.type ("Cannot specify a default for " ++ name ++ "() with multiple positional arguments"))
    return vs

/-- The first element whose key no other element's key passes. -/
def choose (op : OrderOp) (key : Value → Eval Value) (items : List Value) : Eval (Option Value) := do
  let best ← items.foldlM (fun (best : Option (Value × Value)) item => do
    let k ← key item
    match best with
    | none => return some (item, k)
    | some (_, bestKey) => if ← ordered (← get) op k bestKey then return some (item, k) else return best) none
  return best.map Prod.fst

def callExtreme (op : OrderOp) (b : Builtin) (call : Value → Value → Eval Value) (a : Args) : Eval Value := do
  let name := b.label
  if a.positional.isEmpty then throw (.type (name ++ " expected at least 1 argument, got 0"))
  let slots ← Args.named name ["key", "default"] 0 0 ⟨[], a.keywords⟩
  let default := slots.getD 1 none
  let items ← choices name a default
  let key : Value → Eval Value := match slots.headD none with
    | none | some .nothing => fun v => return v
    | some f => call f
  match ← choose op key items, default with
  | some v, _ => return v
  | none, some d => return d
  | none, none => throw (.value (name ++ "() arg is an empty sequence"))

/-- Calls a function; `call` is how `max` and `min` call the function that gives a key. -/
def callBuiltin (call : Value → Value → Eval Value) (b : Builtin) (a : Args) : Eval Value := do
  match b with
  | .abs => callAbs (← a.one "abs")
  | .round => callRound a
  | .int => callInt a
  | .float => callFloat a
  | .str => callStr (← get) a
  | .len => return .int (← lengthOf (← get) (← a.one "len"))
  | .max => callExtreme .gt b call a
  | .min => callExtreme .lt b call a
  | .sum => callSum a
  | .sqrt => callReal b (0.0 ≤ ·) Float.sqrt a
  | .sin => callReal b isFinite Float.sin a
  | .cos => callReal b isFinite Float.cos a
  | .tan => callReal b isFinite Float.tan a

def notCallable (v : Value) : Fault := .type ("'" ++ v.typeName ++ "' object is not callable")

/-- Calls a value with one argument and no keywords. No key is asked for below it. -/
def callKey (f v : Value) : Eval Value :=
  match f with
  | .builtin b => callBuiltin (fun f _ => throw (notCallable f)) b ⟨[v], []⟩
  | .libraryFn lib load name => callLibrary lib load name ⟨[v], []⟩
  | .method self m => callMethod self m ⟨[v], []⟩
  | f => throw (notCallable f)

def call (f : Value) (a : Args) : Eval Value :=
  match f with
  | .builtin b => callBuiltin callKey b a
  | .libraryFn lib load name => callLibrary lib load name a
  | .method self m => callMethod self m a
  | f => throw (notCallable f)

end LineScript.Value
