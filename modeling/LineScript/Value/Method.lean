import LineScript.Value.Convert
import LineScript.Value.Arguments

/-!
# Methods

Attributes that values have, and what their methods do.
-/

namespace LineScript

namespace Method

def textMethods : List (String × Method) :=
  [("upper", .upper), ("lower", .lower), ("title", .title), ("capitalize", .capitalize), ("strip", .strip),
   ("lstrip", .lstrip), ("rstrip", .rstrip), ("split", .split), ("replace", .replace), ("find", .find),
   ("index", .index), ("count", .count), ("startswith", .startswith), ("endswith", .endswith),
   ("join", .join), ("isdigit", .isdigit), ("isalpha", .isalpha), ("isnumeric", .isnumeric),
   ("isalnum", .isalnum), ("isspace", .isspace), ("zfill", .zfill), ("center", .center), ("ljust", .ljust),
   ("rjust", .rjust)]

def listMethods : List (String × Method) :=
  [("count", .listCount), ("index", .listIndex), ("copy", .copy), ("pop", .pop), ("append", .append),
   ("extend", .extend), ("insert", .insert), ("remove", .remove), ("reverse", .reverse), ("clear", .clear)]

def label : Method → String
  | .listCount => "count"
  | .listIndex => "index"
  | m =>
    match (textMethods ++ listMethods).find? fun p => p.2 = m with
    | some p => p.1
    | none => "conjugate"

end Method

namespace Value

open Number Text

def textLibrary : List String :=
  ["capitalize", "countsubstring", "endswith", "isnumeric", "lstrip", "lstripchars", "removewhitespace",
   "replace", "reverse", "rstrip", "rstripchars", "startswith", "strip", "stripchars", "titlecase",
   "tolower", "toupper"]

def timeLibrary : List String :=
  ["current_time", "day_of_week", "formatted_time", "future_date", "sleep", "timestamp", "timezone"]

def libraryFunctions : Library → List String
  | .text => textLibrary
  | .time => timeLibrary
  | .easygui => ["App", "run", "text"]
  | .empty => []

def attribute? (v : Value) (x : String) : Option Value :=
  match v with
  | .str _ => (Method.textMethods.lookup x).map (.method v)
  | .list _ => (Method.listMethods.lookup x).map (.method v)
  | .bool b =>
    let n : Value := .int (if b then 1 else 0)
    match x with
    | "real" | "numerator" => some n
    | "imag" => some (.int 0)
    | "denominator" => some (.int 1)
    | "conjugate" => some (.method v .conjugate)
    | _ => Option.none
  | .int n =>
    match x with
    | "real" | "numerator" => some (.int n)
    | "imag" => some (.int 0)
    | "denominator" => some (.int 1)
    | "conjugate" => some (.method v .conjugate)
    | _ => Option.none
  | .float y =>
    match x with
    | "real" => some (.float y)
    | "imag" => some (.float 0.0)
    | "conjugate" => some (.method v .conjugate)
    | _ => Option.none
  | .complex re im =>
    match x with
    | "real" => some (.float re)
    | "imag" => some (.float im)
    | "conjugate" => some (.method v .conjugate)
    | _ => Option.none
  | .record members => members.lookup x
  | .package _ _ lib load =>
    if (libraryFunctions lib).contains x then some (.libraryFn lib load x) else Option.none
  | _ => Option.none

/-- A bound of a search: a whole number or nothing. -/
def searchBound (orNone : Bool) (default : Int) : Option Value → Except Fault Int
  | none => .ok default
  | some .nothing =>
    if orNone then .ok default
    else .error (.type "slice indices must be integers or have an __index__ method")
  | some v =>
    match count? v with
    | some n => .ok n
    | none => .error (.type ("slice indices must be integers or " ++ (if orNone then "None or " else "") ++
        "have an __index__ method"))

/-- A part of a text to search: where it starts, and its characters; none if it starts past its end. -/
def searchPart (s : List Char) (start stop : Int) : Option (Nat × List Char) :=
  let n := s.length
  let i := clampBound n start
  let j := min (clampBound n stop) n
  if i > j then Option.none else some (i, (s.take j).drop i)

def textOf (v : Value) : Except Fault (List Char) :=
  match v with
  | .str s => .ok s.toList
  | v => .error (.type ("must be str, not " ++ v.typeName))

/-- Searches that take a text and the part to look in. -/
def searchArgs (short : String) (a : Args) : Except Fault (Value × Int × Int) := do
  let (sub, start, stop) ← a.finds ("str." ++ short) short
  let i ← searchBound true 0 start
  let j ← searchBound true (Nat.pow 2 63) stop
  return (sub, i, j)

def findIn (s : List Char) (short : String) (a : Args) : Except Fault (Option Nat) := do
  let (sub, i, j) ← searchArgs short a
  let sub ← textOf sub
  return (searchPart s i j).bind fun (start, part) => (find? sub part).map (· + start)

def countIn (s : List Char) (a : Args) : Except Fault Nat := do
  let (sub, i, j) ← searchArgs "count" a
  let sub ← textOf sub
  return match searchPart s i j with
    | some (_, part) => count sub part
    | none => 0

/-- Whether a text starts (or ends) with a text, or with one of a tuple. -/
def affix (short : String) (test : List Char → List Char → Bool) (s : List Char) (a : Args) :
    Except Fault Value := do
  let (sub, i, j) ← searchArgs short a
  let check (p : List Char) : Bool := (searchPart s i j).any fun (_, part) => test part p
  match sub with
  | .str p => return .bool (check p.toList)
  | .tuple ps =>
    let hit ← ps.foldlM (fun hit p =>
      if hit then .ok true
      else match p with
        | .str p => .ok (check p.toList)
        | p => .error (Fault.type ("tuple for " ++ short ++ " must only contain str, not " ++ p.typeName))) false
    return .bool hit
  | v => throw (.type (short ++ " first arg must be str or a tuple of str, not " ++ v.typeName))

/-- Characters to trim: white space unless they are given. -/
def trimSet (short : String) (a : Args) : Except Fault (Char → Bool) := do
  match ← a.between ("str." ++ short) short 0 1 with
  | [] | [.nothing] => return isBlank
  | [.str cs] => return fun c => cs.toList.contains c
  | _ => throw (.type (short ++ " arg must be None or str"))

def splitText (s : List Char) (a : Args) : Except Fault (List (List Char)) := do
  let slots ← a.named "split" ["sep", "maxsplit"] 0 0
  let limit ← match slots with
    | [_, some m] => sizeOf m
    | _ => .ok (-1)
  match slots with
  | some (.str sep) :: _ =>
    if sep.isEmpty then throw (.value "empty separator")
    return if limit < 0 then splitOn sep.toList s else splitOnMax sep.toList limit.toNat s
  | some .nothing :: _ | none :: _ => return if limit < 0 then words s else wordsMax limit.toNat s
  | some v :: _ => throw (.type ("must be str or None, not " ++ v.typeName))
  | [] => return []

def replaceText (s : List Char) (a : Args) : Except Fault (List Char) := do
  let arg (i : Nat) (v : Value) : Except Fault (List Char) := match v with
    | .str t => .ok t.toList
    | v => .error (.type ("replace() argument " ++ toString i ++ " must be str, not " ++ v.argumentName))
  match ← a.between "str.replace" "replace" 2 3 with
  | [old, new] => return replace (← arg 1 old) (← arg 2 new) s
  | [old, new, limit] =>
    let old ← arg 1 old
    let new ← arg 2 new
    let n ← sizeOf limit
    return replaceMax old new (if n < 0 then none else some n.toNat) s
  | _ => return s

/-- The width of a padded text, which has to fit into memory. -/
def widthOf (v : Value) : Except Fault Nat := do
  let w := (← sizeOf v).toNat
  if w > maxLength then throw outOfMemory else return w

/-- Least width and the character to fill with. -/
def padArgs (short : String) (a : Args) : Except Fault (Nat × Char) := do
  match ← a.between ("str." ++ short) short 1 2 with
  | [w] => return (← widthOf w, ' ')
  | [w, f] =>
    discard (sizeOf w)
    match f with
    | .str f =>
      match f.toList with
      | [c] => return (← widthOf w, c)
      | _ => throw (.type "The fill character must be exactly one character long")
    | v => throw (.type ("The fill character must be a unicode character, not " ++ v.typeName))
  | _ => return (0, ' ')

/-- Zeros before the digits and after a sign. -/
def zeroFilled (width : Nat) (s : List Char) : List Char :=
  match s with
  | '-' :: r => '-' :: padLeft (width - 1) '0' r
  | '+' :: r => '+' :: padLeft (width - 1) '0' r
  | s => padLeft width '0' s

def joinTexts (store : Store) (sep : List Char) (v : Value) : Except Fault (List Char) := do
  let items ← match elements store v with
    | .ok vs => .ok vs
    | .error _ => .error (.type "can only join an iterable")
  let texts ← items.zipIdx.mapM fun (v, i) => match v with
    | .str s => .ok s.toList
    | v => .error (Fault.type ("sequence item " ++ toString i ++ ": expected str instance, " ++ v.typeName ++
        " found"))
  return joinWith sep texts

/-- Every character has the property, and there is one. -/
def allChars (p : Char → Bool) (s : List Char) : Bool := !s.isEmpty && s.all p

def callText (s : List Char) (m : Method) (a : Args) : Eval Value := do
  let name := "str." ++ m.label
  let simple (v : Value) : Eval Value := do a.zero name; return v
  match m with
  | .upper => simple (.ofText (upper s))
  | .lower => simple (.ofText (lower s))
  | .title => simple (.ofText (title s))
  | .capitalize => simple (.ofText (capitalize s))
  | .isdigit => simple (.bool (allChars isDigit s))
  | .isalpha => simple (.bool (allChars isLetter s))
  | .isnumeric => simple (.bool (allChars isNumeral s))
  | .isalnum => simple (.bool (allChars isAlnum s))
  | .isspace => simple (.bool (allChars isBlank s))
  | .strip => return .ofText (trim (← trimSet "strip" a) s)
  | .lstrip => return .ofText (trimLeft (← trimSet "lstrip" a) s)
  | .rstrip => return .ofText (trimRight (← trimSet "rstrip" a) s)
  | .split => do
    let pieces ← splitText s a
    Eval.newList (pieces.map .ofText)
  | .replace => return .ofText (← replaceText s a)
  | .find => do
    match ← findIn s "find" a with
    | some i => return .int i
    | none => return .int (-1)
  | .index => do
    match ← findIn s "index" a with
    | some i => return .int i
    | none => throw (.value "substring not found")
  | .count => return .int (← countIn s a)
  | .startswith => affix "startswith" Text.startsWith s a
  | .endswith => affix "endswith" Text.endsWith s a
  | .join => do
    let v ← a.one name
    return .ofText (← joinTexts (← get) s v)
  | .zfill => do
    let v ← a.one name
    return .ofText (zeroFilled (← widthOf v) s)
  | .center => do
    let (w, f) ← padArgs "center" a
    return .ofText (centered w f s)
  | .ljust => do
    let (w, f) ← padArgs "ljust" a
    return .ofText (padRight w f s)
  | .rjust => do
    let (w, f) ← padArgs "rjust" a
    return .ofText (padLeft w f s)
  | _ => throw (.tooDeep "")

/-- The first place from `i` on whose element equals `v`. -/
def indexFrom (store : Store) (v : Value) (i : Nat) : List Value → Except Fault (Option Nat)
  | [] => .ok none
  | w :: ws => do if ← equal store w v then return some i else indexFrom store v (i + 1) ws

def countEqual (store : Store) (v : Value) (ws : List Value) : Except Fault Nat :=
  ws.foldlM (fun n w => do return if ← equal store w v then n + 1 else n) 0

/-- The place that a whole number of either sign stands for in a list of `n`. -/
def place? (n : Nat) (i : Int) : Option Nat :=
  let i := if i < 0 then i + n else i
  if 0 ≤ i && i < n then some i.toNat else none

def popItem (ref : Nat) (a : Args) : Eval Value := do
  let args ← a.between "list.pop" "pop" 0 1
  let i ← match args with
    | [v] => sizeOf v
    | _ => (.ok (-1) : Except Fault Int)
  let store ← get
  let vs := store.items ref
  if vs.isEmpty then throw (.primitive .index "pop from empty list")
  match place? vs.length i with
  | none => throw (.primitive .index "pop index out of range")
  | some i =>
    set (store.setItems ref (vs.eraseIdx i))
    return vs.getD i .nothing

def callList (ref : Nat) (m : Method) (a : Args) : Eval Value := do
  let name := "list." ++ m.label
  let store ← get
  let vs := store.items ref
  let put (ws : List Value) : Eval Value := do set (store.setItems ref ws); return .nothing
  match m with
  | .listCount => do
    let v ← a.one name
    return .int (← countEqual store v vs)
  | .listIndex => do
    let args ← a.between name "index" 1 3
    let v := args.getD 0 .nothing
    let i ← searchBound false 0 (args[1]?)
    let j ← searchBound false (Nat.pow 2 63) (args[2]?)
    let start := clampBound vs.length i
    let upto := min (clampBound vs.length j) vs.length
    match ← indexFrom store v start ((vs.take upto).drop start) with
    | some k => return .int k
    | none => throw (.value ((← render store v) ++ " is not in list"))
  | .copy => do
    a.zero name
    Eval.newList vs
  | .pop => popItem ref a
  | .append => do
    let v ← a.one name
    put (vs ++ [v])
  | .extend => do
    let v ← a.one name
    put (vs ++ (← elements store v))
  | .insert => do
    match ← a.between name "insert" 2 2 with
    | [i, v] =>
      let i ← sizeOf i
      let k := min (clampBound vs.length i) vs.length
      put (vs.take k ++ v :: vs.drop k)
    | _ => return .nothing
  | .remove => do
    let v ← a.one name
    match ← indexFrom store v 0 vs with
    | some k => put (vs.eraseIdx k)
    | none => throw (.value "list.remove(x): x not in list")
  | .reverse => do
    a.zero name
    put vs.reverse
  | .clear => do
    a.zero name
    put []
  | _ => throw (.tooDeep "")

def callMethod (self : Value) (m : Method) (a : Args) : Eval Value :=
  match self with
  | .str s => callText s.toList m a
  | .list ref => callList ref m a
  | .complex re im => do
    a.zero "complex.conjugate"
    return .complex re (-im)
  | .bool b => do
    a.zero "int.conjugate"
    return .int (if b then 1 else 0)
  | v => do
    a.zero (v.typeName ++ ".conjugate")
    return v

end Value

end LineScript
