import LineScript.Value.Basic

/-!
# Arguments of calls

How the arguments of a call are matched with what a function takes, and the faults that say so.
-/

namespace LineScript.Value

structure Args where
  positional : List Value
  keywords : List (String × Value)

namespace Args

def total (a : Args) : Nat := a.positional.length + a.keywords.length

def plural (n : Nat) : String := if n = 1 then "" else "s"

/-- The function takes positional arguments only. -/
def onlyPositional (owner : String) (a : Args) : Except Fault (List Value) :=
  if a.keywords.isEmpty then .ok a.positional
  else .error (.type (owner ++ "() takes no keyword arguments"))

/-- Exactly one positional argument. -/
def one (owner : String) (a : Args) : Except Fault Value := do
  match ← a.onlyPositional owner with
  | [v] => return v
  | vs => throw (.type (owner ++ "() takes exactly one argument (" ++ toString vs.length ++ " given)"))

/-- No argument at all. -/
def zero (owner : String) (a : Args) : Except Fault Unit := do
  match ← a.onlyPositional owner with
  | [] => return ()
  | vs => throw (.type (owner ++ "() takes no arguments (" ++ toString vs.length ++ " given)"))

/-- Between `lo` and `hi` positional arguments; `short` is the name without its owner. -/
def between (owner short : String) (lo hi : Nat) (a : Args) : Except Fault (List Value) := do
  let vs ← a.onlyPositional owner
  if vs.length < lo then
    throw (.type (short ++ " expected at least " ++ toString lo ++ " argument" ++ plural lo ++ ", got " ++
      toString vs.length))
  else if vs.length > hi then
    throw (.type (short ++ " expected at most " ++ toString hi ++ " argument" ++ plural hi ++ ", got " ++
      toString vs.length))
  else return vs

/-- A text to look for and the part of a text to look in. -/
def finds (owner short : String) (a : Args) : Except Fault (Value × Option Value × Option Value) := do
  match ← a.onlyPositional owner with
  | [] => throw (.type (short ++ "() takes at least 1 argument (0 given)"))
  | [v] => return (v, none, none)
  | [v, s] => return (v, some s, none)
  | [v, s, e] => return (v, some s, some e)
  | vs => throw (.type (short ++ "() takes at most 3 arguments (" ++ toString vs.length ++ " given)"))

/-- Parameters by name: the first `unnamed` of them cannot be given by name, `required` must be given.
The result has one entry for each parameter. -/
def named (owner : String) (params : List String) (unnamed required : Nat) (a : Args) :
    Except Fault (List (Option Value)) := do
  let n := params.length
  if a.total > n then
    throw (.type (owner ++ "() takes at most " ++ toString n ++ " " ++
      (if a.positional.isEmpty then "keyword " else "") ++ "argument" ++ plural n ++ " (" ++
      toString a.total ++ " given)"))
  let least := min unnamed required
  if a.positional.length < least then
    throw (.type (owner ++ "() takes at least " ++ toString least ++ " positional argument" ++ plural least ++
      " (" ++ toString a.positional.length ++ " given)"))
  let slots := params.zipIdx.map fun (p, i) =>
    match a.positional[i]? with
    | some v => some v
    | none => if i < unnamed then none else a.keywords.lookup p
  match (params.zip slots).zipIdx.find? fun ((_, v), i) => i < required && v.isNone with
  | some ((p, _), i) =>
    throw (.type (owner ++ "() missing required argument '" ++ p ++ "' (pos " ++ toString (i + 1) ++ ")"))
  | none => pure ()
  match (params.take a.positional.length).zipIdx.find? fun (p, i) =>
      unnamed ≤ i && (a.keywords.lookup p).isSome with
  | some (p, i) =>
    throw (.type ("argument for " ++ owner ++ "() given by name ('" ++ p ++ "') and position (" ++
      toString (i + 1) ++ ")"))
  | none => pure ()
  match a.keywords.find? fun (k, _) => !(params.drop unnamed).contains k with
  | some (k, _) => throw (.type ("'" ++ k ++ "' is an invalid keyword argument for " ++ owner ++ "()"))
  | none => return slots

/-- Names in quotes, as a list in words. -/
def nameList : List String → String
  | [] => ""
  | [x] => "'" ++ x ++ "'"
  | [x, y] => "'" ++ x ++ "' and '" ++ y ++ "'"
  | xs => ", ".intercalate (xs.dropLast.map fun x => "'" ++ x ++ "'") ++ ", and '" ++ xs.getLastD "" ++ "'"

/-- Arguments of a library function, whose last parameters may have defaults. -/
def bind (name : String) (params : List (String × Option Value)) (a : Args) : Except Fault (List Value) := do
  let names := params.map Prod.fst
  let filled := names.take a.positional.length
  let bad (k : String) : Option Fault :=
    if !names.contains k then some (.type (name ++ "() got an unexpected keyword argument '" ++ k ++ "'"))
    else if filled.contains k then some (.type (name ++ "() got multiple values for argument '" ++ k ++ "'"))
    else none
  match a.keywords.findSome? fun (k, _) => bad k with
  | some f => throw f
  | none => pure ()
  let n := params.length
  let given := a.positional.length
  if given > n then
    let least := (params.filter fun (_, d) => d.isNone).length
    let range := if least = n then toString n else "from " ++ toString least ++ " to " ++ toString n
    let word := if n = 1 then " positional argument but " else " positional arguments but "
    let were := if given = 1 then " was given" else " were given"
    throw (.type (name ++ "() takes " ++ range ++ word ++ toString given ++ were))
  let slots := params.zipIdx.map fun ((p, d), i) =>
    (p, match a.positional[i]? with
      | some v => some v
      | none => (a.keywords.lookup p).or d)
  let missing := (slots.filter fun (_, v) => v.isNone).map Prod.fst
  if !missing.isEmpty then
    throw (.type (name ++ "() missing " ++ toString missing.length ++ " required positional argument" ++
      plural missing.length ++ ": " ++ nameList missing))
  return slots.filterMap Prod.snd

end Args

end LineScript.Value
