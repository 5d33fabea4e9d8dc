import LineScript.Text.Pieces

/-!
# Paths

Names of files as texts, with slashes between folders.
-/

namespace LineScript.Path

/-- The name of the folder that a program runs in. -/
def here : List Char := ['$', 'C', 'W', 'D']

def isSlash (c : Char) : Bool := c = '/'

/-- An absolute second path stands alone. -/
def join (a b : List Char) : List Char :=
  if b.head?.any isSlash then b
  else if a.isEmpty || a.getLast?.any isSlash then a ++ b
  else a ++ '/' :: b

/-- What follows the last slash. -/
def base (p : List Char) : List Char := (p.reverse.takeWhile (!isSlash ·)).reverse

/-- What precedes the last slash. -/
def parent (p : List Char) : List Char :=
  let head := p.take (p.length - (base p).length)
  if head.all isSlash then head else Text.trimRight isSlash head

/-- A path and its extension. A dot that the last name starts with belongs to the name. -/
def splitExtension (p : List Char) : List Char × List Char :=
  let name := base p
  let lead := name.takeWhile (· = '.')
  let rest := name.drop lead.length
  let tail := rest.reverse.takeWhile (· ≠ '.')
  if tail.length = rest.length then (p, [])
  else (p.take (p.length - tail.length - 1), '.' :: tail.reverse)

/-- Names on the way to a file. A slash at the end asks for a folder. -/
def steps (p : List Char) : List String :=
  let names := ((Text.splitOn ['/'] p).filter (!·.isEmpty)).map String.ofList
  if p.getLast?.any isSlash then names ++ ["."] else names

/-- Names from the folder of the program on; none for a path that leads elsewhere. -/
def local? (p : List Char) : Option (List String) :=
  if p = here then some ["."]
  else if Text.startsWith p (here ++ ['/']) then some (steps (p.drop here.length))
  else if p.head?.any isSlash then none
  else some (steps p)

def normalStep (done : List String) (x : String) : List String :=
  if x = "." then done
  else if x = ".." then done.dropLast
  else done ++ [x]

/-- The path from the folder of the program on, without detours. -/
def absolute (p : List Char) : List Char :=
  match local? p with
  | some names =>
    let names := names.foldl normalStep []
    Text.joinWith ['/'] (here :: names.map String.toList)
  | none =>
    let names := (steps p).foldl normalStep []
    '/' :: Text.joinWith ['/'] (names.map String.toList)

/-- Leaves a folder, unless there is none to leave. -/
def tidyStep (rooted : Bool) (done : List (List Char)) (x : List Char) : List (List Char) :=
  if x.isEmpty || x = ['.'] then done
  else if x = ['.', '.'] then
    match done.getLast? with
    | none => if rooted then [] else [x]
    | some y => if y = ['.', '.'] then done ++ [x] else done.dropLast
  else done ++ [x]

/-- The path without empty names and detours. Two slashes at the start stay two. -/
def tidy (p : List Char) : List Char :=
  let lead := (p.takeWhile isSlash).length
  let lead := if lead > 2 then 1 else lead
  let names := (Text.splitOn ['/'] p).foldl (tidyStep (lead > 0)) []
  let path := List.replicate lead '/' ++ Text.joinWith ['/'] names
  if path.isEmpty then ['.'] else path

end LineScript.Path
