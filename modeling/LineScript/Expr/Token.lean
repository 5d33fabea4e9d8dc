import LineScript.Expr.Tree

/-!
# Tokens of expressions
-/

namespace LineScript.Expr

inductive Sym where
  | lparen | rparen | lbrack | rbrack | lbrace | rbrace
  | comma | colon | dot | semicolon
  | plus | minus | star | slash | bar | amp | lt | gt | assign | percent
  | eqEq | notEq | ltE | gtE | tilde | caret | shl | shr | power | floorDiv | at
  | arrow | ellipsis | walrus
  | augmented
  deriving DecidableEq

/-- The literal parts that stand side by side to make one string. -/
inductive StringPart where
  | text (s : List Char)
  | bytes (bs : List UInt8)
  | formatted (raw : Bool) (body : List Char)

inductive Token where
  | word (w : String)
  | number (v : Literal)
  | string (p : StringPart)
  | sym (s : Sym)
  | newline

def keywords : List String :=
  ["False", "None", "True", "and", "as", "assert", "async", "await", "break", "class", "continue", "def",
   "del", "elif", "else", "except", "finally", "for", "from", "global", "if", "import", "in", "is",
   "lambda", "nonlocal", "not", "or", "pass", "raise", "return", "try", "while", "with", "yield"]

def isKeyword (w : String) : Bool := keywords.contains w

end LineScript.Expr
