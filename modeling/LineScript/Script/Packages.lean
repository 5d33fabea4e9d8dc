import LineScript.Script.Statements
import LineScript.Package.Bundled

/-!
# Packages in scripts

Importing installed packages, and the package commands of a script. A package is a script, which runs with
variables of its own, or a library.
-/

namespace LineScript.Run

open Text

/-- How a program is run, line by line. -/
abbrev ProgramRunner := List (List Char) → Run Unit

/-- Parts of a library's text that make it unsafe. -/
def dangerousParts : List String :=
  ["eval(", "exec(", "open(", "file(", "os.system", "os.spawn", "subprocess.", "sys.path",
   "importlib.import_module"]

/-- Modules that a library may not use. -/
def forbiddenModules : List String := ["ctypes", "cffi", "marshal", "pickle", "importlib"]

def libraryOf (code : List Char) : Library :=
  let is (text : String) : Bool := universalNewlines text.toList = code
  if is Bundled.textLibrary then .text
  else if is Bundled.timeLibrary then .time
  else if is Bundled.easyguiLibrary then .easygui
  else .empty

/-- Names of a library that anyone can use, in order. -/
def publicNames : Library → List String
  | .text => Value.textLibrary
  | .time => Disk.sortNames (Value.timeLibrary ++ ["datetime", "time"])
  | .easygui => Disk.sortNames (Value.libraryFunctions .easygui ++ ["gui"])
  | .empty => []

def usedModules (code : List Char) : List String :=
  (Text.lines code).filterMap fun line =>
    match words line with
    | a :: b :: _ =>
      if a = "import".toList || a = "from".toList then some (String.ofList (b.takeWhile (· ≠ ','))) else none
    | _ => none

/-- What keeps a library from being loaded. -/
def libraryFault (installed : List String) (code : List Char) : Option Fault :=
  match dangerousParts.find? fun p => Text.contains code p.toList with
  | some p => some (.package ("Unsafe operation found: " ++ p))
  | none =>
    match (usedModules code).find? forbiddenModules.contains with
    | some m => some (.primitive .importRefused ("Module '" ++ m ++ "' not allowed in Guython packages"))
    | none =>
      if libraryOf code = .easygui && !installed.contains "easygui" then
        some (.primitive .missingImport "No module named 'easygui'")
      else none

def importLibrary (name : String) (path : List Char) (bound : String) : Run Value := do
  recover (do
    let code ← act (Act.readText path)
    match libraryFault (← world).modules code with
    | some f => fail f
    | none => pure ()
    let lib := libraryOf code
    let load := (← world).store.loads
    act (modify fun w => { w with store := { w.store with loads := load + 1 } })
    let v : Value := .package name (String.ofList path) lib load
    setVariable bound v
    Act.say ("Imported Python package: " ++ name)
    Act.say ("Available functions: " ++ Pkg.quotedList (publicNames lib))
    return v)
    fun f => fail (.package ("Error importing Python package: " ++ f.message))

/-- Runs a script with variables of its own, which become the members of a variable of the importer. A script
that imports another one goes on with a copy of its variables, so what it assigns after that is not among its
members. -/
def runScript (run : ProgramRunner) (path : List Char) (bound : String) : Run Unit := do
  let outer ← session
  let vars := outer.vars.set bound (.record [])
  adjust fun s => { s with vars := [], exported := none }
  ensuring (do run (Text.lines (← act (Act.readText path))))
    (adjust fun s =>
      let members := s.exported.getD s.vars
      let vars := vars.set bound (.record members)
      { s with vars, exported := outer.exported.or (some vars) })

def importScript (run : ProgramRunner) (name : String) (path : List Char) (bound : String) : Run Unit := do
  recover (do
    if !(← act (Act.check ((← session).depot.index.hasName name))) then
      fail (.package ("Package not installed: " ++ name))
    runScript run path bound
    Act.say ("Imported Guython package: " ++ name))
    fun f => fail (.package ("Import failed: " ++ f.message))

/-- The file of a package to import: the main file that the index gives, else a file whose name starts like
it, else any script. -/
def mainFile (name : String) (data : Json) : Run (List Char) := do
  let dir := Pkg.packageFolder name
  let base ← check (data.need "main")
  let language := (← check (data.get? "language")).getD (.str "python")
  let extension := if language.beq (.str "python") then ".py" else ".gy"
  let file := (← check base.display) ++ extension
  let disk := (← world).disk
  if disk.isThere (Path.join dir file.toList) then return file.toList
  let names ← check (disk.list dir)
  let similar ← match base with
    | .str b => pure (names.find? fun n => startsWith n.toList b.toList)
    | j =>
      if names.isEmpty then pure none
      else fail (.type ("startswith first arg must be str or a tuple of str, not " ++ j.typeName))
  match similar with
  | some n =>
    Act.say ("Warning: Using " ++ n ++ " instead of " ++ file)
    return n.toList
  | none =>
    match names.find? Pkg.isScript with
    | some n =>
      Act.say ("Warning: Using " ++ n ++ " as no main file found")
      return n.toList
    | none => fail (.package ("No main file found in package " ++ name))

/-- Imports a package, under another name if one is given. -/
def importPackage (run : ProgramRunner) (name : String) (newName : Option String) : Run Value := do
  let index := (← session).depot.index
  if !(← check (index.hasName name)) then fail (.package ("Package not installed: " ++ name))
  let data ← check (index.need name)
  let file ← mainFile name data
  let path := Path.join (Pkg.packageFolder name) file
  let bound := match newName with
    | some a => if a.isEmpty then name else a
    | none => name
  if endsWith file ".py".toList then importLibrary name path bound
  else
    importScript run name path bound
    return .nothing

def listPackages : Run Unit := do
  Act.say "Installed packages:"
  let names ← pkg Pkg.installed
  names.forM fun name => do
    let entry ← check ((← session).depot.index.need name)
    let version ← check (entry.need "version")
    Act.say ("- " ++ name ++ " v" ++ (← check version.display))

def listRemote : Act Unit :=
  Act.recover (do
    let remote ← Pkg.fetchIndex
    Act.say "Available packages fetched from repository:"
    let names ← if remote.truthy then Act.check (remote.fields "keys") else pure []
    let width := (names.map fun (n, _) => n.length).foldl max 0
    let entries ← Act.check (remote.fields "items")
    entries.forM fun (name, data) => do
      let version ← Act.check (do ((← data.get? "version").getD (.str "?.?.?")).display)
      let description ← Act.check (do
        ((← data.get? "description").getD (.str "No description available")).display)
      Act.say ("- " ++ String.ofList (padRight width ' ' name.toList) ++ " (v" ++ version ++ "): " ++ description))
    fun f => Act.say ("Error fetching remote packages: " ++ f.message)

def packageHelp : List String :=
  ["Available GPD commands:",
   "",
   "pkgs             - fetch all packages available for download",
   "list             - list all installed packages",
   "install \x7bname\x7d   - install package with that name",
   "uninstall \x7bname\x7d - uninstall the package with that name",
   "import \x7bname\x7d    - import the package with that name",
   "check            - check for available updates for installed packages",
   "update \x7bname\x7d    - update the specified package to latest version",
   "                "]

def packageName (args : List Char) : Run String := do
  if args.isEmpty then malformed .packageNameMissing
  return String.ofList (stripQuotes args)

/-- Imports what the arguments of an import command name. -/
def importCommand (run : ProgramRunner) (args : List Char) : Run Unit := do
  if args.isEmpty then malformed .packageNameMissing
  let name (s : List Char) : String := String.ofList (stripQuotes s)
  match wordsMax 2 args with
  | [p] =>
    let _ ← importPackage run (name p) none
  | [p, as, newName] =>
    if as = "as".toList then
      let _ ← importPackage run (name p) (some (name newName))
    else malformed .importForm
  | _ => malformed .importForm

def packageAction (run : ProgramRunner) (command : String) (args : List Char) : Run Unit := do
  match command with
  | "install" => Pkg.install (← packageName args)
  | "import" => importCommand run args
  | "list" => listPackages
  | "uninstall" => Pkg.uninstall (← packageName args)
  | "pkgs" => listRemote
  | "check" => Pkg.checkUpdates
  | "update" => Pkg.update (← packageName args)
  | "help" => packageHelp.forM fun line => (Act.say line : Run Unit)
  | c => malformed (.unknownGpd c)

/-- Runs a package command. Its failures are told. -/
def packageCommand (run : ProgramRunner) (code : List Char) : Run Unit := do
  match wordsMax 1 code with
  | [] => malformed .gpdCommand
  | word :: rest =>
    let command := String.ofList (lower word)
    recover (packageAction run command (rest.headD [])) fun f =>
      match f with
      | .runtime c => Act.say ("GPD Error: " ++ c.message)
      | f => Act.say ("Unexpected error: " ++ f.message)

end LineScript.Run
