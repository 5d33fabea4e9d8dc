import LineScript.Script.Statements

/-!
# Files

Reading, writing and importing files.
-/

namespace LineScript.Run

open Text Line

/-- Fails for a path that a script may not open. -/
def needAllowed (p : List Char) : Run Unit := do
  if (← world).denied.contains (String.ofList p) then fail (Disk.denied p)

def twoPlaces (n d : Nat) : String := String.ofList (Number.fixedDigits (Number.ofIntRatio n d) 2)

def sizeText (n : Int) : String :=
  let kilo : Nat := 1024
  let mega : Nat := 1024 * 1024
  let giga : Nat := 1024 * 1024 * 1024
  if n < kilo then toString n ++ " bytes"
  else if n < mega then twoPlaces n.toNat kilo ++ " KB"
  else if n < giga then twoPlaces n.toNat mega ++ " MB"
  else twoPlaces n.toNat giga ++ " GB"

def confirm (message : String) : Run Bool := do
  let answer ← tryCatch (do return some (← act (Act.ask (message ++ " (Y/N): ")))) fun
    | .fault f => if f.isKind .endOfInput then return none else fail f
    | .interrupted => return none
    | s => throw s
  match answer with
  | none => return false
  | some line =>
    let word := String.ofList (lower (strip line.toList))
    return word = "y" || word = "yes"

/-- A path from a folder and a name; a dot stands for no folder. -/
def pathFrom (dir name : List Char) : List Char := if dir = ['.'] then name else Path.join dir name

def removeAll (flags : List String) (code : List Char) : List Char :=
  flags.foldl (fun code flag => replace flag.toList [] code) code

/-- The size of a file or folder on disk. A folder takes 40 bytes and 20 for each entry. -/
def sizeOf (p : List Char) : Run Nat := do
  match ← check ((← world).disk.stat p) with
  | .file content _ => return content.length
  | .folder entries => return 40 + 20 * entries.length

def numbered (i : Nat) : List (List Char) → Run Unit
  | [] => return ()
  | l :: ls => do
    Act.say (toString i ++ ": " ++ String.ofList l)
    numbered (i + 1) ls

/-- Reads and shows a file, as a whole or line by line, with its comments or without. -/
def showFile (path : List Char) (lines plain importing : Bool) : Run Unit := do
  needAllowed path
  if lines then
    let ls := (← act (Act.readLines path)).map (trimRight (· = '\n'))
    let ls := if plain then ls.map stripComments else ls
    if !importing then numbered 1 ls
  else
    let content ← act (Act.readText path)
    let content := if plain then stripComments content else content
    if !importing then Act.say (String.ofList content)
  note ("Read file: " ++ String.ofList path)

/-- Reads a file, or tells its size or whether it is there. -/
def readCommand (code : List Char) (importing : Bool) : Run Unit := do
  let has (flag : String) : Bool := Command.holds code flag
  let rest := strip (removeAll ["-ign", "-lines", "-size", "-exists"] code)
  match wordsMax 2 rest with
  | [_, dir, name] =>
    let path := pathFrom dir name
    let shown := String.ofList path
    if has "-exists" then
      if !importing then Act.say (if (← world).disk.isFile path then "true" else "false")
    else if has "-size" then
      recover (do
        let n ← sizeOf path
        if !importing then Act.say (sizeText n))
        fun f => if f.isKind .fileNotFound then broken (.fileNotFound shown) else broken (.fileSize shown f.message)
    else
      recover (showFile path (has "-lines") (has "-ign") importing) fun f =>
        if f.isKind .fileNotFound then broken (.fileNotFound shown)
        else if f.isKind .permission then broken (.readDenied shown)
        else broken (.reading shown f.message)
  | _ => malformed .readForm

def permissionsFlag : List Char := "-permissions".toList

/-- The mode after a permissions flag at the front, and the length of flag and mode. -/
def permissionsHere? (s : List Char) : Option (List Char × Nat) :=
  if startsWith s permissionsFlag then
    let rest := s.drop permissionsFlag.length
    let blanks := rest.takeWhile isBlank
    let digits := (rest.drop blanks.length).takeWhile isDecimal
    if blanks.isEmpty || digits.isEmpty then none
    else some (digits, permissionsFlag.length + blanks.length + digits.length)
  else none

/-- The first mode given, and the text without flags that give one; `skip` counts characters of a flag. -/
def takePermissions : Nat → List Char → Option (List Char) × List Char
  | _, [] => (none, [])
  | k + 1, _ :: cs => takePermissions k cs
  | 0, c :: cs =>
    match permissionsHere? (c :: cs) with
    | some (mode, n) => (some mode, (takePermissions (n - 1) cs).2)
    | none =>
      let (mode, rest) := takePermissions 0 cs
      (mode, c :: rest)

/-- The text to write: a quoted text, the value of an expression, or else the text itself. -/
def contentText (content : List Char) : Run (List Char) := do
  if isQuoted content then return inner content
  else recover (do return (← display (← evaluate content)).toList) fun _ => return content

/-- Whether a file may be overwritten: an empty one, one that cannot be read, or one the user agrees to. -/
def mayOverwrite (path : List Char) : Run Bool := do
  let shown := String.ofList path
  recover (do
    needAllowed path
    let old := strip (← act (Act.readText path))
    if old.isEmpty then return true
    else confirm ("File '" ++ shown ++ "' already contains data. Overwrite?"))
    fun _ => return true

/-- The system takes permissions as a number below this. -/
def maxMode : Int := Nat.pow 2 31

def setPermissions (path mode : List Char) : Run Unit := do
  let n ← recover (check (Value.toIntBase (.ofText mode) (.int 8))) fun f =>
    if f.isValue then broken (.permissionsFormat (String.ofList mode))
    else broken (.settingPermissions f.message)
  recover (match n with
    | .int n =>
      if n ≥ maxMode then fail (.primitive .overflow "Python int too large to convert to C int")
      else act (Act.alter (·.chmod path (n.toNat % 4096)))
    | _ => return ())
    fun f => broken (.settingPermissions f.message)

/-- Writes the content of a file, after making its folder. -/
def storeFile (path content : List Char) (add : Bool) (mode : Option (List Char)) (importing : Bool) :
    Run Unit := do
  let shown := String.ofList path
  let dir := Path.parent path
  if !dir.isEmpty && !(← world).disk.isThere dir then act (Act.alterPartly (·.makeFolders dir))
  needAllowed path
  if add then act (Act.alter (·.append path (encode ('\n' :: content))))
  else act (Act.alter (·.write path (encode content)))
  match mode with
  | some mode => setPermissions path mode
  | none => pure ()
  if !importing then Act.say ("File " ++ (if add then "appended to" else "written") ++ ": " ++ shown)
  note ((if add then "Appended to" else "Wrote") ++ " file: " ++ shown)

/-- Writes a file. An existing one with content is overwritten only if the user agrees. -/
def writeCommand (code : List Char) (importing : Bool) : Run Unit := do
  let add := Command.holds code "-add"
  let plain := Command.holds code "-ign"
  let create := Command.holds code "-create"
  let (mode, code) ←
    if Text.contains code permissionsFlag then
      match takePermissions 0 code with
      | (some mode, rest) => pure (some mode, rest)
      | (none, _) => malformed .permissionsForm
    else pure (none, code)
  let rest := strip (removeAll ["-add", "-ign", "-create"] code)
  match wordsMax 3 rest with
  | [_, dir, name, content] =>
    let path := pathFrom dir name
    let shown := String.ofList path
    let there := (← world).disk.isFile path
    if create && there then
      if !importing then Act.say ("File already exists: " ++ shown)
    else
      let agreed ← if there && !add && !importing then mayOverwrite path else pure true
      if !agreed then Act.say "Write operation cancelled."
      else
        let content ← contentText content
        let content := if plain then stripComments content else content
        recover (storeFile path content add mode importing) fun f =>
          if f.isKind .permission then broken (.writeDenied shown) else broken (.writing shown f.message)
  | _ => malformed .writeForm

def isScriptName (name : List Char) : Bool :=
  endsWith name ".gy".toList || endsWith name ".guy".toList

/-- Starts of lines that do not assign. -/
def nonAssignments : List String := ["def", "while", "if", "print", "import", "goto"]

/-- The assignment that a line of a module makes, if it makes one. -/
def moduleAssignment? (line : List Char) : Option (List Char × List Char) :=
  let line := stripComments line
  if line.isEmpty || nonAssignments.any (Command.starts line) then none
  else if line.contains '=' && !Command.ends line "=input" then
    (cut? ['='] line).map fun (name, expr) => (strip name, strip expr)
  else none

/-- Takes over what one line of a module assigns. Other variables of the module are not known to it. -/
def moduleLine (env : Env) (i : Nat) (line : List Char) : Run Env := do
  match moduleAssignment? line with
  | none => return env
  | some (name, expr) =>
    if !isValidName name then return env
    recover (do
      Pkg.touch
      let v ← act (Act.evaluate (Expr.evaluate [] expr))
      return env.set (String.ofList name) v)
      fun _ => do
        note ("Skipped invalid assignment on line " ++ toString i ++ ": " ++ String.ofList (stripComments line))
        return env

def moduleVariables (path : List Char) : Run Env := do
  let shown := String.ofList path
  recover (do
    needAllowed path
    let (lines, fault) := Act.linesOf (← act (Act.readBytes path))
    let env ← lines.zipIdx.foldlM (fun env (line, i) => moduleLine env (i + 1) line) []
    match fault with
    | some f => fail f
    | none => return env)
    fun f => if f.isOs then broken (.reading shown f.message) else fail f

def importModule (code : List Char) : Run Unit := do
  let path := strip (code.drop 6)
  if !isScriptName path then malformed .moduleFileType
  if !(← world).disk.isFile path then broken (.moduleNotFound (String.ofList path))
  let name := (Path.splitExtension (Path.base path)).1
  if !isValidName name then malformed (.moduleName (String.ofList name))
  let env ← moduleVariables path
  setVariable (String.ofList name) (.record env)
  note ("Imported module: " ++ String.ofList name)

end LineScript.Run
