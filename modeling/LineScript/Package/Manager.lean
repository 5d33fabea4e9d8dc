import LineScript.Package.Depot

/-!
# Installing, removing and updating packages

A package is installed file by file from the network and entered into the index; what fails on the way
removes its folder again.
-/

namespace LineScript.Pkg

def refuse {α : Type} (text : String) : Pkg α := fail (.package text)

def isScript (name : String) : Bool :=
  Text.endsWith name.toList ".py".toList || Text.endsWith name.toList ".gy".toList

def quotedList (xs : List String) : String := "[" ++ Value.joinComma (xs.map Fault.quote) ++ "]"

/-- Loads one file of a package; whether it could be had. -/
def download (name : String) (dir : List Char) (entry : Json) : Pkg (Option String) := do
  let shown ← check entry.display
  recover (do
    let body ← page (name ++ "/" ++ shown).toList
    match entry with
    | .str file =>
      let dest := Path.join dir file.toList
      Act.alterPartly (·.ensureFolders (Path.parent dest))
      Act.alter (·.write dest (Text.encode body.toList))
      Act.say ("✓ Downloaded: " ++ shown)
      return some file
    | j => fail (.type ("join() argument must be str, bytes, or os.PathLike object, not '" ++ j.typeName ++ "'")))
    fun f => do
      if f.isKind .request then
        Act.say ("Warning: Failed to download " ++ shown ++ ": " ++ f.message)
        return none
      else fail f

/-- Names that a main file can have, the likeliest first. -/
def mainCandidates (base name : String) : List String :=
  [base ++ ".py", base ++ ".gy", "main.py", "main.gy", name ++ ".py", name ++ ".gy"]

/-- The main file of a folder, by name or else the first script in it. -/
def findMain (dir : List Char) (candidates : List String) : Act (Option String) := do
  let disk := (← get).disk
  match candidates.find? fun c => disk.isThere (Path.join dir c.toList) with
  | some c => return some c
  | none => return (← Act.check (disk.list dir)).find? isScript

/-- The language that an installed package has: one of two. -/
def installLanguage (name : String) : Act String := do
  let language ← remoteLanguage name
  return if language = "python" || language = "guython" then language else "python"

def withoutExtension (file : String) : String := String.ofList (Path.splitExtension file.toList).1

/-- Fills the folder of a package and enters it into the index. -/
def installInto (name language : String) (dir : List Char) (data : Json) : Pkg Unit := do
  Act.alterPartly (·.ensureFolders dir)
  let entries ← check (do (← data.need "files").elements)
  let files := (← entries.mapM (download name dir)).filterMap id
  let base ← check ((← check (data.get? "main")).getD (.str "main")).display
  let candidates := mainCandidates base name
  match ← findMain dir candidates with
  | none =>
    refuse ("No main file found in package " ++ name ++ "\nDownloaded files: " ++ quotedList files ++
      "\nTried: " ++ quotedList candidates)
  | some main =>
    let version ← check (data.need "version")
    let entry : Json := .obj [("version", version), ("main", .str (withoutExtension main)),
      ("language", .str language), ("files", .arr (files.map .str))]
    setIndex (← check ((← depot).index.setField name entry))
    saveIndex
    Act.say ("✓ Successfully installed " ++ name ++ " v" ++ (← check version.display))
    Act.say ("Main file: " ++ main)

def installFailed {α : Type} (f : Fault) : Pkg α := refuse ("Installation failed: " ++ f.message)

/-- Whether a path ends in a name of its own, by which a folder can be removed: not in a dot name. -/
def isRemovable (dir : List Char) : Bool :=
  let last := Path.base (Text.trimRight Path.isSlash dir)
  last ≠ ['.'] && last ≠ ['.', '.']

/-- Removes a folder if it is there. By a dot name it is emptied and then cannot be removed; what it held can
have been on the way to it. -/
def clearFolder (dir : List Char) : Act Unit := do
  if (← get).disk.isThere dir then
    if isRemovable dir then Act.alter (·.removeTree dir)
    else
      Act.alter (·.emptyTree dir)
      let _ ← Act.check ((← get).disk.stat dir)
      Act.fail (Disk.invalid dir)

/-- What the index on the network says about a package, and its language. -/
def describe (name : String) : Act (Json × String) := do
  let remote ← fetchIndex
  if !(← Act.check (remote.hasName name)) then Act.fail (.package ("Package not found: " ++ name))
  let data ← Act.check (remote.need name)
  return (data, ← installLanguage name)

def install (name : String) : Pkg Unit := do
  let known ← recover (do check ((← depot).index.hasName name)) installFailed
  if known then Act.say ("Package " ++ name ++ " is already installed")
  else
    let (data, language) ← recover (describe name) installFailed
    let dir := packageFolder name
    recover (installInto name language dir data) fun f => do
      clearFolder dir
      installFailed f

/-- Whether the command that removes folders refuses a path: a folder by a dot name, or a name that no file
can have. What is not there is no reason to refuse. -/
def isRefused (d : Disk) (dir : List Char) : Bool :=
  match d.place dir with
  | .taken _ _ => !isRemovable dir
  | .tooLong => true
  | _ => false

/-- Removes a folder by a command of the system. -/
def removeFolder (dir : List Char) : Act Unit := do
  let failed : Act Unit := Act.fail (.package "Failed to remove package files")
  let w ← get
  match w.shell with
  | .absent =>
    if dir.contains '\x00' then Act.fail Disk.nullByte
    else if isRefused w.disk dir then failed
    else Act.alter fun d => .ok (d.discard dir)
  | shell =>
    Act.emit (.runShell ("rmdir /S /Q \"" ++ String.ofList dir ++ "\""))
    if shell = .works then Act.alter fun d => .ok (d.discard dir) else failed

def uninstall (name : String) : Pkg Unit :=
  recover (do
    if !(← check ((← depot).index.hasName name)) then Act.say ("Package not installed: " ++ name)
    else
      removeFolder (packageFolder name)
      setIndex (← check ((← depot).index.deleteField name))
      saveIndex
      Act.say ("Successfully uninstalled " ++ name))
    fun f => refuse ("Uninstall failed: " ++ f.message)

def installed : Pkg (List String) := do
  return (← check ((← depot).index.fields "keys")).map Prod.fst

/-- The version that the index on the network gives, if any. -/
def remoteVersion (remote : Json) (name : String) : Except Fault (Option Json) := do
  let data := (← remote.get? name).getD (.obj [])
  match ← data.get? "version" with
  | none | some .null => return none
  | some v => return some v

def localVersion (data : Json) : Except Fault Json := do return (← data.get? "version").getD (.str "0.0.0")

/-- The index on the network, or none after saying why it cannot be had. -/
def tryFetchIndex : Act (Option Json) :=
  Act.recover (do return some (← fetchIndex)) fun f =>
    match f with
    | .package text => do
      Act.say ("Could not fetch remote index: " ++ text)
      return none
    | f => Act.fail f

/-- Compares one package with the network; whether there is another version. -/
def checkOne (remote : Json) (name : String) (data : Json) : Act Bool := do
  let current ← Act.check (localVersion data)
  match ← Act.check (remoteVersion remote name) with
  | none =>
    Act.say (name ++ ": Not found in remote repository")
    return false
  | some version =>
    let shown ← Act.check current.display
    if version.beq current then
      Act.say (name ++ ": " ++ shown ++ " (Up to date)")
      return false
    else
      Act.say (name ++ ": " ++ shown ++ " -> " ++ (← Act.check version.display) ++ " (Update available)")
      return true

/-- Tells of each package whether it is up to date. -/
def checkUpdates : Pkg Unit := do
  match ← tryFetchIndex with
  | none => return ()
  | some remote =>
    let entries ← check ((← depot).index.fields "items")
    let found ← entries.mapM fun (name, data) => (checkOne remote name data : Act Bool)
    if !found.any id then Act.say "All packages are up to date."

def enterVersion (name : String) (remote version : Json) : Pkg Unit := do
  let data ← check (remote.need name)
  let version := (← check (data.get? "version")).getD version
  let index := (← depot).index
  let entry ← check (do (← index.need name).setField "version" version)
  setIndex (← check (index.setField name entry))
  saveIndex

def reinstall (name : String) (remote version : Json) : Pkg Unit := do
  install name
  enterVersion name remote version
  Act.say ("'" ++ name ++ "' updated successfully.")

/-- What makes a package command fail is told, and is then no fault of the update. -/
def updateFailed (f : Fault) : Pkg Unit :=
  match f with
  | .package text => Act.say ("Update failed: " ++ text)
  | f => fail f

/-- Installs the version of the network in place of the installed one. -/
def replaceWith (name : String) (remote version : Json) : Pkg Unit := do
  clearFolder (packageFolder name)
  let index := (← depot).index
  if ← check (index.hasName name) then
    setIndex (← check (index.deleteField name))
    saveIndex
  recover (reinstall name remote version) updateFailed

def update (name : String) : Pkg Unit := do
  if !(← check ((← depot).index.hasName name)) then
    Act.say ("Package '" ++ name ++ "' is not installed.")
  else
    match ← tryFetchIndex with
    | none => return ()
    | some remote =>
      let entry ← check ((← depot).index.need name)
      let current ← check (localVersion entry)
      match ← check (remoteVersion remote name) with
      | none => Act.say ("Package '" ++ name ++ "' not found in remote repository.")
      | some version =>
        if current.beq version then Act.say ("'" ++ name ++ "' is already up to date.")
        else
          Act.say ("Updating '" ++ name ++ "' from " ++ (← check current.display) ++ " to " ++
            (← check version.display) ++ "...")
          replaceWith name remote version

end LineScript.Pkg
