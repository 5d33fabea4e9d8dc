import LineScript.Expr.Eval

/-!
# Names

Names that can be given to variables, functions and aliases.
-/

namespace LineScript.Line

def isNameStart (c : Char) : Bool := c.isAlpha || c = '_'

def isNameChar (c : Char) : Bool := c.isAlphanum || c = '_'

/-- A letter or an underscore, then letters, digits and underscores; a line feed may follow. -/
def isWordForm (s : List Char) : Bool :=
  match s with
  | [] => false
  | c :: cs =>
    isNameStart c && (cs.all isNameChar || (cs.getLast? = some '\n' && cs.dropLast.all isNameChar))

def reservedWords : List String := ["import", "print", "if", "while", "def", "goto", "eval"]

/-- Whether a name can be given. Names that every expression knows and some commands cannot. -/
def isValidName (s : List Char) : Bool :=
  let name := String.ofList s
  isWordForm s && !(Expr.builtins.lookup name).isSome && !reservedWords.contains name

end LineScript.Line
