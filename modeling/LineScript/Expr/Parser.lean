import LineScript.Expr.Lexer

/-!
# Reading expressions

Recursive descent over tokens, from conditional expressions down to atoms. Binary operators bind by
level and to the left; `**` binds to the right and tighter than a sign before it. Every function takes
fuel, one unit a call; `parse` gives enough for any text.
-/

namespace LineScript.Expr.Parse

open Text

/-- An expression, and whether it may stand as the target of a loop in a comprehension. -/
structure Parsed where
  expr : Expr
  target : Bool

def Parsed.of (e : Expr) : Parsed := ⟨e, false⟩

def Parsed.form (f : Form) : Parsed := ⟨.other f, false⟩

abbrev Rest (α : Type) := Option (α × List Token)

/-- Binary operators by level, from the loosest (0) to the tightest (5). -/
def binaryAt : Nat → Sym → Option BinOp
  | 0, .bar => some .bitOr
  | 1, .caret => some .bitXor
  | 2, .amp => some .bitAnd
  | 3, .shl => some .lShift
  | 3, .shr => some .rShift
  | 4, .plus => some .add
  | 4, .minus => some .sub
  | 5, .star => some .mult
  | 5, .slash => some .div
  | 5, .floorDiv => some .floorDiv
  | 5, .percent => some .mod
  | 5, .at => some .matMult
  | _, _ => none

/-- The level above all binary operators, where signs are read. -/
def signLevel : Nat := 6

def compareOp? : List Token → Option (CompareOp × List Token)
  | .sym .eqEq :: ts => some (.eq, ts)
  | .sym .notEq :: ts => some (.notEq, ts)
  | .sym .lt :: ts => some (.lt, ts)
  | .sym .ltE :: ts => some (.ltE, ts)
  | .sym .gt :: ts => some (.gt, ts)
  | .sym .gtE :: ts => some (.gtE, ts)
  | .word "is" :: .word "not" :: ts => some (.isNot, ts)
  | .word "is" :: ts => some (.is, ts)
  | .word "in" :: ts => some (.isIn, ts)
  | .word "not" :: .word "in" :: ts => some (.notIn, ts)
  | _ => none

def startsClause : List Token → Bool
  | .word "for" :: _ => true
  | .word "async" :: .word "for" :: _ => true
  | _ => false

/-- What has been seen of the parameters of a `lambda`. -/
structure LambdaState where
  /-- A plain parameter stands before. -/
  any : Bool := false
  slash : Bool := false
  default : Bool := false
  star : Bool := false
  /-- A lone `*` still asks for a named parameter. -/
  needName : Bool := false
  closed : Bool := false

/-- Strings side by side: all bytes, or texts of which any may be formatted. -/
def joinParts : List StringPart → Option (Sum Literal (List (Bool × List Char)))
  | ps =>
    let isBytes : StringPart → Bool
      | .bytes _ => true
      | _ => false
    if ps.all isBytes then
      some (.inl (.bytes (ps.flatMap fun | .bytes b => b | _ => [])))
    else if ps.any isBytes then none
    else
      let formatted := ps.filterMap fun | .formatted raw b => some (raw, b) | _ => none
      if formatted.isEmpty then
        some (.inl (.str (String.ofList (ps.flatMap fun | .text s => s | _ => []))))
      else some (.inr formatted)

def takeStrings : List Token → List StringPart × List Token
  | .string p :: ts => let (ps, rest) := takeStrings ts; (p :: ps, rest)
  | ts => ([], ts)

/-- Literal text of a formatted string up to a brace: the text and the rest. At the outer level a
doubled brace stands for itself; there a closing brace alone is refused. -/
def formattedText (raw outer : Bool) : List Char → Option (List Char × List Char)
  | [] => some ([], [])
  | [c] =>
    if c = '\x7d' && outer then none
    else if c = '\x7b' || c = '\x7d' then some ([], [c])
    else some ([c], [])
  | c :: d :: r =>
    if c = '\\' && !raw then
      if d = '\x7b' || d = '\x7d' then
        (formattedText raw outer (d :: r)).map fun (t, rest) => (c :: t, rest)
      else (formattedText raw outer r).map fun (t, rest) => (c :: d :: t, rest)
    else if c = '\x7b' || c = '\x7d' then
      if outer && d = c then (formattedText raw outer r).map fun (t, rest) => (c :: t, rest)
      else if outer && c = '\x7d' then none
      else some ([], c :: d :: r)
    else (formattedText raw outer (d :: r)).map fun (t, rest) => (c :: t, rest)

/-- Where an embedded expression ends: at `!`, `:`, `=` or a closing brace outside strings and
brackets. `quote` is the string being passed over and whether it has three quotes, `stack` holds the
open brackets, and `skip` counts characters already looked at. -/
def embeddedEnd (quote : Option (Char × Bool)) (stack : List Char) : Nat → List Char →
    Option (List Char × List Char)
  | _, [] => none
  | k + 1, c :: cs => (embeddedEnd quote stack k cs).map fun (e, rest) => (c :: e, rest)
  | 0, c :: cs =>
    let keep (r : Option (List Char × List Char)) := r.map fun (e, rest) => (c :: e, rest)
    if c = '\\' then none else
    match quote with
    | some (q, true) =>
      if c = q && [q, q].isPrefixOf cs then keep (embeddedEnd none stack 2 cs)
      else keep (embeddedEnd quote stack 0 cs)
    | some (q, false) => keep (embeddedEnd (if c = q then none else quote) stack 0 cs)
    | none =>
      if c = '"' || c = '\x27' then
        if [c, c].isPrefixOf cs then keep (embeddedEnd (some (c, true)) stack 2 cs)
        else keep (embeddedEnd (some (c, false)) stack 0 cs)
      else if c = '(' || c = '[' || c = '\x7b' then
        if stack.length ≥ maxNesting then none else keep (embeddedEnd none (c :: stack) 0 cs)
      else if c = '#' then none
      else if stack.isEmpty && (c = '!' || c = '=' || c = '<' || c = '>') && cs.head? = some '=' then
        keep (embeddedEnd none stack 1 cs)
      else if stack.isEmpty && (c = '!' || c = ':' || c = '=' || c = '\x7d') then some ([], c :: cs)
      else if c = ')' || c = ']' || c = '\x7d' then
        match stack with
        | [] => none
        | o :: more =>
          if (o = '(' && c = ')') || (o = '[' && c = ']') || (o = '\x7b' && c = '\x7d') then
            keep (embeddedEnd none more 0 cs)
          else none
      else keep (embeddedEnd none stack 0 cs)

/-- Whether a name bound by `:=` stands at the front, outside parentheses. -/
def bareBinding : List Token → Bool
  | .word _ :: .sym .walrus :: _ => true
  | _ => false

mutual

def expression : Nat → List Token → Rest Parsed
  | 0, _ => none
  | n + 1, .word "lambda" :: ts =>
    (lambdaParams n {} ts).bind fun ts => (expression n ts).map fun (_, ts) => (.form .lambda, ts)
  | n + 1, ts => (disjunction n ts).bind fun (a, ts) =>
    match ts with
    | .word "if" :: rest =>
      match disjunction n rest with
      | some (_, .word "else" :: rest) => (expression n rest).map fun (_, ts) => (.form .ifExp, ts)
      | _ => some (a, ts)
    | _ => some (a, ts)

/-- Parameters of a `lambda` up to and past the colon. -/
def lambdaParams : Nat → LambdaState → List Token → Option (List Token)
  | 0, _, _ => none
  | _ + 1, st, .sym .colon :: ts => if st.needName then none else some ts
  | n + 1, st, ts =>
    if st.closed then none else
    let next (st : LambdaState) : List Token → Option (List Token)
      | .sym .comma :: ts => lambdaParams n st ts
      | .sym .colon :: ts => if st.needName then none else some ts
      | _ => none
    match ts with
    | .sym .slash :: ts =>
      if st.any && !st.slash && !st.star then next { st with slash := true } ts else none
    | .sym .power :: .word w :: ts =>
      if isKeyword w || st.needName then none else next { st with closed := true } ts
    | .sym .star :: .word w :: ts =>
      if st.star || isKeyword w then none else next { st with star := true } ts
    | .sym .star :: .sym .comma :: ts =>
      if st.star then none else lambdaParams n { st with star := true, needName := true } ts
    | .word w :: .sym .assign :: ts =>
      if isKeyword w then none
      else (expression n ts).bind fun (_, ts) =>
        next { st with any := true, default := !st.star || st.default, needName := false } ts
    | .word w :: ts =>
      if isKeyword w || (st.default && !st.star) then none
      else next { st with any := true, needName := false } ts
    | _ => none

def disjunction : Nat → List Token → Rest Parsed
  | 0, _ => none
  | n + 1, ts => (conjunction n ts).bind fun (a, ts) =>
    match ts with
    | .word "or" :: ts => (disjunction n ts).map fun (_, ts) => (.form .boolOp, ts)
    | _ => some (a, ts)

def conjunction : Nat → List Token → Rest Parsed
  | 0, _ => none
  | n + 1, ts => (inversion n ts).bind fun (a, ts) =>
    match ts with
    | .word "and" :: ts => (conjunction n ts).map fun (_, ts) => (.form .boolOp, ts)
    | _ => some (a, ts)

def inversion : Nat → List Token → Rest Parsed
  | 0, _ => none
  | n + 1, .word "not" :: ts => (inversion n ts).map fun (_, ts) => (.form .unaryOp, ts)
  | n + 1, ts => (binary n 0 ts).bind fun (a, ts) =>
    (compareRest n ts).map fun (rest, ts) =>
      (if rest.isEmpty then a else .of (.compare a.expr rest), ts)

/-- The comparisons that follow a first operand. -/
def compareRest : Nat → List Token → Rest (List (CompareOp × Expr))
  | 0, _ => none
  | n + 1, ts =>
    match compareOp? ts with
    | none => some ([], ts)
    | some (op, ts) => (binary n 0 ts).bind fun (b, ts) =>
      (compareRest n ts).map fun (rest, ts) => ((op, b.expr) :: rest, ts)

/-- Operands joined by binary operators of the given level or tighter. -/
def binary : Nat → Nat → List Token → Rest Parsed
  | 0, _, _ => none
  | n + 1, level, ts =>
    if level < signLevel then
      (binary n (level + 1) ts).bind fun (a, ts) => binaryRest n level a ts
    else factor n ts

/-- The operators of one level that follow a first operand, taken to the left. -/
def binaryRest : Nat → Nat → Parsed → List Token → Rest Parsed
  | 0, _, _, _ => none
  | n + 1, level, a, .sym s :: ts =>
    match binaryAt level s with
    | some op => (binary n (level + 1) ts).bind fun (b, ts) =>
      binaryRest n level (.of (.binary op a.expr b.expr)) ts
    | none => some (a, .sym s :: ts)
  | _ + 1, _, a, ts => some (a, ts)

def factor : Nat → List Token → Rest Parsed
  | 0, _ => none
  | n + 1, .sym .plus :: ts => (factor n ts).map fun (_, ts) => (.form .unaryOp, ts)
  | n + 1, .sym .minus :: ts => (factor n ts).map fun (_, ts) => (.form .unaryOp, ts)
  | n + 1, .sym .tilde :: ts => (factor n ts).map fun (_, ts) => (.form .unaryOp, ts)
  | n + 1, ts => (awaited n ts).bind fun (a, ts) =>
    match ts with
    | .sym .power :: ts => (factor n ts).map fun (b, ts) => (.of (.binary .pow a.expr b.expr), ts)
    | _ => some (a, ts)

def awaited : Nat → List Token → Rest Parsed
  | 0, _ => none
  | n + 1, .word "await" :: ts => (primary n ts).map fun (_, ts) => (.form .await, ts)
  | n + 1, ts => primary n ts

def primary : Nat → List Token → Rest Parsed
  | 0, _ => none
  | n + 1, ts => (atom n ts).bind fun (a, ts) => trailers n a ts

/-- Attributes, calls and subscripts after an atom. -/
def trailers : Nat → Parsed → List Token → Rest Parsed
  | 0, _, _ => none
  | n + 1, a, .sym .dot :: .word w :: ts =>
    if isKeyword w then none else trailers n ⟨.attribute a.expr w, true⟩ ts
  | n + 1, a, .sym .lparen :: ts =>
    (callArgs n ts).bind fun ((args, kwargs), ts) => trailers n (.of (.call a.expr args kwargs)) ts
  | n + 1, _, .sym .lbrack :: ts =>
    (slices n ts).bind fun ts => trailers n ⟨.other .subscript, true⟩ ts
  | _ + 1, _, .sym .dot :: _ => none
  | _ + 1, a, ts => some (a, ts)

/-- Arguments up to and past the closing parenthesis; a lone generator needs no parentheses of its
own. -/
def callArgs : Nat → List Token → Rest (List Expr × List (Option String × Expr))
  | 0, _ => none
  | n + 1, ts =>
    match named n ts with
    | some (_, rest) =>
      if startsClause rest then
        match clauses n rest with
        | some (.sym .rparen :: ts) => some (([.other .generatorExp], []), ts)
        | _ => none
      else arguments n 0 ts
    | none => arguments n 0 ts

/-- Arguments in three phases: 0 takes any, 1 (after a keyword) no plain ones, 2 (after `**`) only
keywords and `**`. -/
def arguments : Nat → Nat → List Token → Rest (List Expr × List (Option String × Expr))
  | 0, _, _ => none
  | _ + 1, _, .sym .rparen :: ts => some (([], []), ts)
  | n + 1, phase, ts =>
    let next (phase : Nat) : List Token → Rest (List Expr × List (Option String × Expr))
      | .sym .comma :: ts => arguments n phase ts
      | .sym .rparen :: ts => some (([], []), ts)
      | _ => none
    match ts with
    | .sym .star :: ts =>
      if phase = 2 then none
      else (expression n ts).bind fun (_, ts) =>
        (next phase ts).map fun ((args, kws), ts) => ((.other .starred :: args, kws), ts)
    | .sym .power :: ts =>
      (expression n ts).bind fun (e, ts) =>
        (next 2 ts).map fun ((args, kws), ts) => ((args, (none, e.expr) :: kws), ts)
    | .word w :: .sym .assign :: ts =>
      if isKeyword w then none
      else (expression n ts).bind fun (e, ts) =>
        (next (max phase 1) ts).map fun ((args, kws), ts) => ((args, (some w, e.expr) :: kws), ts)
    | ts =>
      if phase ≠ 0 then none
      else (named n ts).bind fun (e, ts) =>
        (next 0 ts).map fun ((args, kws), ts) => ((e.expr :: args, kws), ts)

/-- An expression, or a name bound by `:=`. -/
def named : Nat → List Token → Rest Parsed
  | 0, _ => none
  | n + 1, .word w :: .sym .walrus :: ts =>
    if isKeyword w then none else (expression n ts).map fun (_, ts) => (.form .namedExpr, ts)
  | n + 1, ts => (expression n ts).bind fun (e, ts) =>
    match ts with
    | .sym .walrus :: _ => none
    | _ => some (e, ts)

/-- Subscripts up to and past the closing bracket, at least one. -/
def slices : Nat → List Token → Option (List Token)
  | 0, _ => none
  | n + 1, ts =>
    let next : List Token → Option (List Token)
      | .sym .rbrack :: ts => some ts
      | .sym .comma :: .sym .rbrack :: ts => some ts
      | .sym .comma :: ts => slices n ts
      | _ => none
    match ts with
    | .sym .star :: ts => (expression n ts).bind fun (_, ts) => next ts
    | .sym .colon :: ts => (sliceBounds n 2 ts).bind next
    | ts => (named n ts).bind fun (_, rest) =>
      match rest with
      | .sym .colon :: rest => if bareBinding ts then none else (sliceBounds n 2 rest).bind next
      | _ => next rest

/-- The bounds after a colon, `k` bounds at most. -/
def sliceBounds : Nat → Nat → List Token → Option (List Token)
  | 0, _, _ => none
  | _ + 1, 0, _ => none
  | n + 1, k + 1, ts =>
    let next : List Token → Option (List Token)
      | .sym .colon :: ts => if k = 0 then none else sliceBounds n k ts
      | ts => some ts
    match ts with
    | .sym .colon :: _ | .sym .comma :: _ | .sym .rbrack :: _ => next ts
    | _ => (expression n ts).bind fun (_, ts) => next ts

/-- The clauses of a comprehension, one or more. -/
def clauses : Nat → List Token → Option (List Token)
  | 0, _ => none
  | n + 1, .word "async" :: ts => clauses n ts
  | n + 1, .word "for" :: ts =>
    (targets n ts).bind fun ts => (disjunction n ts).bind fun (_, ts) =>
      (conditions n ts).bind fun ts => if startsClause ts then clauses n ts else some ts
  | _ + 1, _ => none

def conditions : Nat → List Token → Option (List Token)
  | 0, _ => none
  | n + 1, .word "if" :: ts => (disjunction n ts).bind fun (_, ts) => conditions n ts
  | _ + 1, ts => some ts

/-- Targets of a loop up to and past `in`. -/
def targets : Nat → List Token → Option (List Token)
  | 0, _ => none
  | n + 1, ts =>
    let ts := match ts with
      | .sym .star :: ts => ts
      | ts => ts
    (primary n ts).bind fun (e, ts) =>
      if !e.target then none
      else match ts with
        | .word "in" :: ts => some ts
        | .sym .comma :: .word "in" :: ts => some ts
        | .sym .comma :: ts => targets n ts
        | _ => none

/-- Items of a display up to and past its closing symbol: whether all may be targets. -/
def items : Nat → Sym → List Token → Rest Bool
  | 0, _, _ => none
  | n + 1, close, ts =>
    match ts with
    | .sym s :: rest =>
      if s = close then some (true, rest) else itemsFrom n close ts
    | _ => itemsFrom n close ts

def itemsFrom : Nat → Sym → List Token → Rest Bool
  | 0, _, _ => none
  | n + 1, close, ts =>
    (item n ts).bind fun (e, ts) =>
      match ts with
      | .sym .comma :: ts => (items n close ts).map fun (all, ts) => (all && e.target, ts)
      | .sym s :: ts => if s = close then some (e.target, ts) else none
      | _ => none

/-- One item of a display; a starred one may be a target. -/
def item : Nat → List Token → Rest Parsed
  | 0, _ => none
  | n + 1, .sym .star :: ts => (binary n 0 ts).map fun (e, ts) => (⟨.other .starred, e.target⟩, ts)
  | n + 1, ts => named n ts

/-- Pairs of a mapping up to and past the closing brace. -/
def pairs : Nat → List Token → Option (List Token)
  | 0, _ => none
  | _ + 1, .sym .rbrace :: ts => some ts
  | n + 1, ts =>
    let next : List Token → Option (List Token)
      | .sym .comma :: ts => pairs n ts
      | .sym .rbrace :: ts => some ts
      | _ => none
    match ts with
    | .sym .power :: ts => (binary n 0 ts).bind fun (_, ts) => next ts
    | ts => (expression n ts).bind fun (_, ts) =>
      match ts with
      | .sym .colon :: ts => (expression n ts).bind fun (_, ts) => next ts
      | _ => none

def atom : Nat → List Token → Rest Parsed
  | 0, _ => none
  | _ + 1, .word "None" :: ts => some (.of (.literal .none), ts)
  | _ + 1, .word "True" :: ts => some (.of (.literal (.bool true)), ts)
  | _ + 1, .word "False" :: ts => some (.of (.literal (.bool false)), ts)
  | _ + 1, .word w :: ts => if isKeyword w then none else some (⟨.name w, true⟩, ts)
  | _ + 1, .number v :: ts => some (.of (.literal v), ts)
  | n + 1, .string p :: ts =>
    let (ps, rest) := takeStrings (.string p :: ts)
    match joinParts ps with
    | none => none
    | some (.inl v) => some (.of (.literal v), rest)
    | some (.inr bodies) =>
      if bodies.all fun (raw, b) => (formatted n raw 0 b).any List.isEmpty then
        some (.form .joinedStr, rest)
      else none
  | _ + 1, .sym .ellipsis :: ts => some (.of (.literal .ellipsis), ts)
  | n + 1, .sym .lparen :: ts => parenthesised n ts
  | n + 1, .sym .lbrack :: ts => bracketed n ts
  | n + 1, .sym .lbrace :: ts => braced n ts
  | _ + 1, _ => none

/-- A group, a tuple or a generator after its opening parenthesis. -/
def parenthesised : Nat → List Token → Rest Parsed
  | 0, _ => none
  | _ + 1, .sym .rparen :: ts => some (⟨.other .tuple, true⟩, ts)
  | n + 1, .word "yield" :: .word "from" :: ts =>
    (expression n ts).bind fun (_, ts) =>
      match ts with
      | .sym .rparen :: ts => some (.form .yieldFrom, ts)
      | _ => none
  | _ + 1, .word "yield" :: .sym .rparen :: ts => some (.form .yield, ts)
  | n + 1, .word "yield" :: ts =>
    (yielded n ts).bind fun ts =>
      match ts with
      | .sym .rparen :: ts => some (.form .yield, ts)
      | _ => none
  | n + 1, ts => (item n ts).bind fun (e, ts) =>
    let starred := match e.expr with
      | .other .starred => true
      | _ => false
    match ts with
    | .sym .rparen :: ts => if starred then none else some (e, ts)
    | .sym .comma :: ts => (items n .rparen ts).map fun (all, ts) => (⟨.other .tuple, all && e.target⟩, ts)
    | _ =>
      if starred || !startsClause ts then none
      else (clauses n ts).bind fun ts =>
        match ts with
        | .sym .rparen :: ts => some (.form .generatorExp, ts)
        | _ => none

/-- What a `yield` may give: one or more expressions, any of them starred. -/
def yielded : Nat → List Token → Option (List Token)
  | 0, _ => none
  | n + 1, ts =>
    let one := match ts with
      | .sym .star :: ts => (binary n 0 ts)
      | ts => expression n ts
    one.bind fun (_, ts) =>
      match ts with
      | .sym .comma :: .sym .rparen :: ts => some (.sym .rparen :: ts)
      | .sym .comma :: ts => yielded n ts
      | ts => some ts

/-- A list or a list comprehension after its opening bracket. -/
def bracketed : Nat → List Token → Rest Parsed
  | 0, _ => none
  | _ + 1, .sym .rbrack :: ts => some (⟨.other .list, true⟩, ts)
  | n + 1, ts =>
    match item n ts with
    | some (⟨.other .starred, _⟩, _) => (items n .rbrack ts).map fun (all, ts) => (⟨.other .list, all⟩, ts)
    | some (_, rest) =>
      if startsClause rest then
        match clauses n rest with
        | some (.sym .rbrack :: ts) => some (.form .listComp, ts)
        | _ => none
      else (items n .rbrack ts).map fun (all, ts) => (⟨.other .list, all⟩, ts)
    | none => none

/-- A mapping, a set or a comprehension of either after the opening brace. -/
def braced : Nat → List Token → Rest Parsed
  | 0, _ => none
  | _ + 1, .sym .rbrace :: ts => some (.form .dict, ts)
  | n + 1, .sym .power :: ts => (pairs n (.sym .power :: ts)).map fun ts => (.form .dict, ts)
  | n + 1, ts =>
    match item n ts with
    | some (⟨.other .starred, _⟩, _) => (items n .rbrace ts).map fun (_, ts) => (.form .set, ts)
    | some (_, .sym .colon :: rest) =>
      if bareBinding ts then none else
      match expression n rest with
      | some (_, rest) =>
        if startsClause rest then
          match clauses n rest with
          | some (.sym .rbrace :: ts) => some (.form .dictComp, ts)
          | _ => none
        else (pairs n ts).map fun ts => (.form .dict, ts)
      | none => none
    | some (_, rest) =>
      if startsClause rest then
        match clauses n rest with
        | some (.sym .rbrace :: ts) => some (.form .setComp, ts)
        | _ => none
      else (items n .rbrace ts).map fun (_, ts) => (.form .set, ts)
    | none => none

/-- The pieces of a formatted string, `level` deep in format specifications; the rest starts with the
closing brace of the outer piece, if there is one. -/
def formatted : Nat → Bool → Nat → List Char → Option (List Char)
  | 0, _, _, _ => none
  | n + 1, raw, level, cs =>
    (formattedText raw (level = 0) cs).bind fun (t, rest) =>
      if !raw && (unescapeText t).isNone then none
      else match rest with
        | '\x7b' :: rest => if level ≥ 2 then none
          else (embedded n raw level rest).bind fun rest => formatted n raw level rest
        | rest => some rest

/-- An embedded expression with its conversion and format specification, up to and past the brace. -/
def embedded : Nat → Bool → Nat → List Char → Option (List Char)
  | 0, _, _, _ => none
  | n + 1, raw, level, cs =>
    (embeddedEnd none [] 0 cs).bind fun (e, rest) =>
      if e.all isBlank || !embeddedOk n e then none else
      let rest := match rest with
        | '=' :: r => r
        | r => r
      let rest := match rest with
        | '!' :: c :: r => if c = 's' || c = 'r' || c = 'a' then some r else none
        | '!' :: [] => none
        | r => some r
      rest.bind fun rest =>
        match rest with
        | '\x7d' :: r => some r
        | ':' :: r => (formatted n raw (level + 1) r).bind fun r =>
          match r with
          | '\x7d' :: r => some r
          | _ => none
        | _ => none

/-- An embedded expression is read as if it stood in parentheses. -/
def embeddedOk : Nat → List Char → Bool
  | 0, _ => false
  | n + 1, e =>
    match lex ('(' :: e ++ [')']) with
    | some (.sym .lparen :: ts) =>
      match parenthesised n ts with
      | some (_, []) => true
      | _ => false
    | _ => false

end

/-- Expressions separated by commas: more than one, or a comma at the end, make a tuple. -/
def expressions (n : Nat) (ts : List Token) : Rest Expr :=
  (expression n ts).bind fun (e, ts) =>
    match ts with
    | .sym .comma :: ts => (tupleRest n ts).map fun ts => (.other .tuple, ts)
    | _ => some (e.expr, ts)
where
  tupleRest : Nat → List Token → Option (List Token)
    | 0, _ => none
    | n + 1, ts =>
      match ts with
      | [] => some []
      | .newline :: _ => some ts
      | _ => (expression n ts).bind fun (_, ts) =>
        match ts with
        | .sym .comma :: ts => tupleRest n ts
        | ts => some ts

end LineScript.Expr.Parse

namespace LineScript.Expr

/-- Fuel for a text: more than the steps that any of its characters can take part in. -/
def parseFuel (s : List Char) : Nat := 40 * (s.length + 4)

/-- Reads a whole text as one expression; only line ends may follow it. -/
def parse (s : List Char) : Option Expr :=
  (lex s).bind fun ts =>
    match Parse.expressions (parseFuel s) ts with
    | some (e, rest) =>
      if rest.all fun | .newline => true | _ => false then some e else none
    | none => none

end LineScript.Expr
