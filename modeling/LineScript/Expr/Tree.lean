/-!
# Expressions

The tree of an expression. Names, literals, calls, attributes, arithmetic and comparisons have a
meaning; every other form of the grammar is kept by its kind alone, since evaluating it is an error
that names the kind.
-/

namespace LineScript.Expr

inductive Literal where
  | none
  | bool (b : Bool)
  | int (n : Nat)
  | float (x : Float)
  | imaginary (x : Float)
  | str (s : String)
  | bytes (bs : List UInt8)
  | ellipsis

inductive BinOp where
  | add | sub | mult | div | floorDiv | mod | pow
  | matMult | lShift | rShift | bitOr | bitXor | bitAnd
  deriving DecidableEq

inductive CompareOp where
  | eq | notEq | lt | ltE | gt | gtE
  | is | isNot | isIn | notIn
  deriving DecidableEq

/-- Forms that can be read and have no meaning. -/
inductive Form where
  | boolOp | namedExpr | unaryOp | lambda | ifExp | dict | set | listComp | setComp | dictComp
  | generatorExp | await | yield | yieldFrom | joinedStr | subscript | starred | list | tuple
  deriving DecidableEq

def Form.label : Form → String
  | .boolOp => "BoolOp"
  | .namedExpr => "NamedExpr"
  | .unaryOp => "UnaryOp"
  | .lambda => "Lambda"
  | .ifExp => "IfExp"
  | .dict => "Dict"
  | .set => "Set"
  | .listComp => "ListComp"
  | .setComp => "SetComp"
  | .dictComp => "DictComp"
  | .generatorExp => "GeneratorExp"
  | .await => "Await"
  | .yield => "Yield"
  | .yieldFrom => "YieldFrom"
  | .joinedStr => "JoinedStr"
  | .subscript => "Subscript"
  | .starred => "Starred"
  | .list => "List"
  | .tuple => "Tuple"

def BinOp.label : BinOp → String
  | .add => "Add"
  | .sub => "Sub"
  | .mult => "Mult"
  | .div => "Div"
  | .floorDiv => "FloorDiv"
  | .mod => "Mod"
  | .pow => "Pow"
  | .matMult => "MatMult"
  | .lShift => "LShift"
  | .rShift => "RShift"
  | .bitOr => "BitOr"
  | .bitXor => "BitXor"
  | .bitAnd => "BitAnd"

def CompareOp.label : CompareOp → String
  | .eq => "Eq"
  | .notEq => "NotEq"
  | .lt => "Lt"
  | .ltE => "LtE"
  | .gt => "Gt"
  | .gtE => "GtE"
  | .is => "Is"
  | .isNot => "IsNot"
  | .isIn => "In"
  | .notIn => "NotIn"

end LineScript.Expr

namespace LineScript

/-- Keyword arguments carry their name; an unpacked mapping has none. -/
inductive Expr where
  | literal (v : Expr.Literal)
  | name (x : String)
  | attribute (e : Expr) (x : String)
  | call (f : Expr) (args : List Expr) (kwargs : List (Option String × Expr))
  | binary (op : Expr.BinOp) (l r : Expr)
  | compare (l : Expr) (rest : List (Expr.CompareOp × Expr))
  | other (form : Expr.Form)

end LineScript
