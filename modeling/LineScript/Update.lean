import LineScript.Package.Depot
import LineScript.Version

/-!
# Updates

Looking for a newer release on the network, and installing it if the user agrees. Versions are compared as
texts.
-/

namespace LineScript.Update

open Text

/-- Systems for which there are installers. -/
inductive System where
  | windows
  | linux
  deriving DecidableEq

def System.ofName? (name : String) : Option System :=
  if name = "Windows" then some .windows
  else if name = "Linux" then some .linux
  else none

def System.address : System → String
  | .windows => "https://api.github.com/repos/this-guy-git/Guython/releases/latest"
  | .linux => "https://api.github.com/repos/this-guy-git/guython-deb/releases/latest"

/-- What the network answers; no page is refused. -/
def body (address : String) : Act String := do
  match ← Act.fetch (String.ofList (Address.key address.toList)) with
  | .failure m => Act.fail (.primitive .request m)
  | .page _ text => return text

def tagName (release : Json) : Except Fault String := do
  match (← release.get? "tag_name").getD (.str "") with
  | .str tag => return tag
  | j => throw (Version.notText j.typeName)

/-- Whether a file of a release is the installer for a system. -/
def isInstaller (system : System) (name : Json) : Except Fault Bool :=
  match system, name with
  | .windows, .str s =>
    .ok (startsWith s.toList "guythonInstaller".toList && endsWith s.toList ".exe".toList)
  | .windows, j => .error (j.noAttribute "startswith")
  | .linux, j => .ok (j.beq (.str "guython-deb.deb"))

/-- The first installer among the files of a release: its address and its name. -/
def findInstaller (system : System) : List Json → Except Fault (Option (Json × String))
  | [] => .ok none
  | file :: rest => do
    let name ← file.need "name"
    if ← isInstaller system name then
      return some (← file.need "browser_download_url", ← name.display)
    else findInstaller system rest

def runInstaller (system : System) (address name : String) : Act Unit := do
  Act.say ("Downloading " ++ name ++ "...")
  let content ← body address
  Act.alter (·.write name.toList (encode content.toList))
  Act.say "Running installer..."
  match system with
  | .windows => Act.emit (.popen [name])
  | .linux =>
    Act.emit (.run ["sudo", "dpkg", "-i", name])
    Act.emit (.run ["guython"])

def question : String := "Would you like to download and install the update? (y/n): "

/-- Asks until the user agrees or declines. Each question takes a line from the user, so no more are asked
than lines are left, and one. -/
def offer (system : System) (address name : String) : Nat → Act Unit
  | 0 => return ()
  | n + 1 => do
    let line ← Act.ask question
    let answer := String.ofList (lower (strip line.toList))
    if answer = "y" then runInstaller system address name
    else if answer = "n" then Act.say "\x00"
    else
      Act.say "Invalid option. Please enter 'y' or 'n'."
      offer system address name n

/-- Looks at the latest release and offers it if it is newer. -/
def look (system : System) (current : String) : Act Unit := do
  let release ← Act.check (Json.ofText (← body system.address).toList)
  let tag ← Act.check (tagName release)
  let latest ← Act.check (Version.core tag)
  if latest > current then
    Act.say ("\nGuython update available: " ++ tag ++ " (you have v" ++ current ++ ")")
    let files ← Act.check (do ((← release.get? "assets").getD (.arr [])).elements)
    match ← Act.check (findInstaller system files) with
    | some (address, name) =>
      if address.truthy then
        offer system (← Act.check address.display) name ((← get).input.length + 1)
      else Act.say "Could not find a compatible installer in the release assets."
    | none => Act.say "Could not find a compatible installer in the release assets."

def run : Act Unit := do
  match System.ofName? (← get).platform with
  | none => Act.say "Your OS is not supported for auto-updating."
  | some system =>
    let current ← Act.check (Version.core Version.current)
    Act.recover (look system current) fun f => Act.say ("Update check failed: " ++ f.message)

end LineScript.Update
