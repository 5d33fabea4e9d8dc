import LineScript.Value.Compare
import LineScript.Value.Render

/-!
# JSON values

Data of package indexes and of answers from the network. Names of an object keep their order. Such data
comes from outside, so every look into it may meet a value of another kind, and says so.
-/

namespace LineScript

inductive Json where
  | null
  | bool (b : Bool)
  | int (n : Int)
  | float (x : Float)
  | str (s : String)
  | arr (items : List Json)
  | obj (fields : List (String × Json))
  deriving Inhabited

namespace Json

def typeName : Json → String
  | .null => "NoneType"
  | .bool _ => "bool"
  | .int _ => "int"
  | .float _ => "float"
  | .str _ => "str"
  | .arr _ => "list"
  | .obj _ => "dict"

mutual

/-- The value as it is shown inside others. -/
def render : Json → Except Fault String
  | .null => .ok "None"
  | .bool b => .ok (if b then "True" else "False")
  | .int n => Value.intString n
  | .float x => .ok (Value.floatString x)
  | .str s => .ok (Fault.quote s)
  | .arr items => do return "[" ++ Value.joinComma (← renderAll items) ++ "]"
  | .obj fields => do return "\x7b" ++ Value.joinComma (← renderFields fields) ++ "\x7d"

def renderAll : List Json → Except Fault (List String)
  | [] => .ok []
  | j :: js => do
    let s ← render j
    return s :: (← renderAll js)

def renderFields : List (String × Json) → Except Fault (List String)
  | [] => .ok []
  | (k, j) :: rest => do
    let s ← render j
    return (Fault.quote k ++ ": " ++ s) :: (← renderFields rest)

end

def display : Json → Except Fault String
  | .str s => .ok s
  | j => render j

mutual

def beq : Json → Json → Bool
  | .null, .null => true
  | .str a, .str b => a = b
  | .arr a, .arr b => beqAll a b
  | .obj a, .obj b => a.length = b.length && beqFields a b
  | .bool a, .bool b => a = b
  | .bool a, .int n => n = (if a then 1 else 0)
  | .int n, .bool a => n = (if a then 1 else 0)
  | .int a, .int b => a = b
  | .int a, .float x => Value.equalNums (.int a) (.float x)
  | .float x, .int a => Value.equalNums (.int a) (.float x)
  | .float x, .float y => x == y
  | .bool a, .float x => Value.equalNums (.int (if a then 1 else 0)) (.float x)
  | .float x, .bool a => Value.equalNums (.int (if a then 1 else 0)) (.float x)
  | _, _ => false

def beqAll : List Json → List Json → Bool
  | [], [] => true
  | a :: as, b :: bs => beq a b && beqAll as bs
  | _, _ => false

/-- Every field of the first is in the second with an equal value. -/
def beqFields : List (String × Json) → List (String × Json) → Bool
  | [], _ => true
  | (k, a) :: rest, b => (b.lookup k).any (fun v => beq a v) && beqFields rest b

end

def notIterable (j : Json) : Fault := .notIterable j.typeName

def noAttribute (j : Json) (name : String) : Fault :=
  .primitive .attribute ("'" ++ j.typeName ++ "' object has no attribute '" ++ name ++ "'")

/-- Whether a name is in an object, an element in a list or a part in a text. -/
def hasName (j : Json) (x : String) : Except Fault Bool :=
  match j with
  | .obj fields => .ok (fields.lookup x).isSome
  | .arr items => .ok (items.any (beq (.str x)))
  | .str s => .ok (Text.contains s.toList x.toList)
  | j => .error (.type ("argument of type '" ++ j.typeName ++ "' is not iterable"))

def need (j : Json) (x : String) : Except Fault Json :=
  match j with
  | .obj fields =>
    match fields.lookup x with
    | some v => .ok v
    | none => .error (.primitive .key (Fault.quote x))
  | .arr _ => .error (.type "list indices must be integers or slices, not str")
  | .str _ => .error (.type "string indices must be integers, not 'str'")
  | j => .error (.type ("'" ++ j.typeName ++ "' object is not subscriptable"))

def get? (j : Json) (x : String) : Except Fault (Option Json) :=
  match j with
  | .obj fields => .ok (fields.lookup x)
  | j => .error (noAttribute j "get")

def fields (j : Json) (method : String) : Except Fault (List (String × Json)) :=
  match j with
  | .obj fields => .ok fields
  | j => .error (noAttribute j method)

/-- What a value can be run through for: elements, names or characters. -/
def elements (j : Json) : Except Fault (List Json) :=
  match j with
  | .arr items => .ok items
  | .obj fields => .ok (fields.map fun (k, _) => .str k)
  | .str s => .ok (s.toList.map fun c => .str (String.singleton c))
  | j => .error (notIterable j)

def truthy : Json → Bool
  | .null => false
  | .bool b => b
  | .int n => n ≠ 0
  | .float x => !(x == 0.0)
  | .str s => !s.isEmpty
  | .arr items => !items.isEmpty
  | .obj fields => !fields.isEmpty

def setField (j : Json) (x : String) (v : Json) : Except Fault Json :=
  match j with
  | .obj fields => .ok (.obj (Table.set fields x v))
  | .arr _ => .error (.type "list indices must be integers or slices, not str")
  | j => .error (.type ("'" ++ j.typeName ++ "' object does not support item assignment"))

def deleteField (j : Json) (x : String) : Except Fault Json :=
  match j with
  | .obj fields =>
    if (fields.lookup x).isSome then .ok (.obj (Table.erase fields x))
    else .error (.primitive .key (Fault.quote x))
  | .arr _ => .error (.type "list indices must be integers or slices, not str")
  | j => .error (.type ("'" ++ j.typeName ++ "' object does not support item deletion"))

end Json

end LineScript
