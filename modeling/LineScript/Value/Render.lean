import LineScript.Value.Basic

/-!
# Texts of values

`render` writes a value as part of another (texts in quotes), `display` writes it alone. Both fail only
on whole numbers whose numeral would be too long and on values nested too deep.
-/

namespace LineScript.Value

/-- Values nested deeper than this are not followed. -/
def maxDepth : Nat := 1000

def builtinText : Builtin → String
  | .int => "<class 'int'>"
  | .float => "<class 'float'>"
  | .str => "<class 'str'>"
  | f => "<built-in function " ++ f.label ++ ">"

def floatString (x : Float) : String := String.ofList (Number.floatText x)

/-- An imaginary number alone, or both parts in parentheses. -/
def complexString (re im : Float) : String :=
  let part (x : Float) := String.ofList (Number.layoutFloat Number.complexLayout x)
  if re == 0.0 && !Number.signBit re then part im ++ "j"
  else
    let sign := if Number.signBit im && !im.isNaN then "" else "+"
    "(" ++ part re ++ sign ++ part im ++ "j)"

def intString (n : Int) : Except Fault String :=
  match Number.intText? n with
  | some t => .ok (String.ofList t)
  | none => .error .digitLimit

def joinComma (parts : List String) : String := ", ".intercalate parts

/-- Text of a value inside another one; `seen` are the lists being written. -/
def renderFrom (store : Store) : Nat → List Nat → Value → Except Fault String
  | 0, _, _ => .error (.tooDeep " while getting the repr of an object")
  | n + 1, seen, v =>
    match v with
    | .nothing => .ok "None"
    | .bool true => .ok "True"
    | .bool false => .ok "False"
    | .int n => intString n
    | .float x => .ok (floatString x)
    | .complex re im => .ok (complexString re im)
    | .str s => .ok (Fault.quote s)
    | .bytes bs => .ok (String.ofList (Text.quotedBytes bs))
    | .ellipsis => .ok "Ellipsis"
    | .list ref =>
      if seen.contains ref then .ok "[...]"
      else do
        let parts ← (store.items ref).mapM (renderFrom store n (ref :: seen))
        return "[" ++ joinComma parts ++ "]"
    | .tuple items => do
      let parts ← items.mapM (renderFrom store n seen)
      match parts with
      | [p] => return "(" ++ p ++ ",)"
      | ps => return "(" ++ joinComma ps ++ ")"
    | .record members => do
      let parts ← members.mapM fun (x, v) => do return x ++ "=" ++ (← renderFrom store n seen v)
      return "namespace(" ++ joinComma parts ++ ")"
    | .package name path _ _ => .ok ("<module '" ++ name ++ "' from '" ++ path ++ "'>")
    | .builtin f => .ok (builtinText f)
    | .libraryFn _ _ name => .ok ("<function " ++ name ++ ">")
    | .method self _ => .ok ("<built-in method of " ++ self.typeName ++ " object>")

def render (store : Store) (v : Value) : Except Fault String := renderFrom store maxDepth [] v

def display (store : Store) : Value → Except Fault String
  | .str s => .ok s
  | v => render store v

end LineScript.Value
