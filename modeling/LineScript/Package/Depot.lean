import LineScript.World
import LineScript.Package.Address
import LineScript.Json.Printer

/-!
# The package depot

Installed packages are folders below one folder, listed in an index that is kept in memory and on disk. What
can be installed is listed in an index on the network.
-/

namespace LineScript

structure Depot where
  index : Json := .obj []
  world : World := {}

abbrev Pkg := ExceptT Stop (StateM Depot)

namespace Pkg

variable {α : Type}

def depot : Pkg Depot := get

def setIndex (index : Json) : Pkg Unit := modify fun d => { d with index }

def act (x : Act α) : Pkg α := do
  let d ← get
  let (r, world) := x.run d.world
  set { d with world }
  match r with
  | .ok a => return a
  | .error s => throw s

/-- An act ends as it does in the world of the depot, and changes nothing but that world. -/
theorem run_act (x : Act α) (d : Depot) :
    (act x).run.run d = ((x.run.run d.world).1, { d with world := (x.run.run d.world).2 }) := by
  show StateT.run (ExceptT.run (match x.run.run d.world with
    | (r, world) => do
      set { d with world }
      match r with
      | .ok a => return a
      | .error s => throw s : Pkg α)) d = _
  rcases x.run.run d.world with ⟨r, w⟩
  cases r <;> rfl

instance : MonadLift Act Pkg where
  monadLift := act

def fail (f : Fault) : Pkg α := throw (.fault f)

def check (x : Except Fault α) : Pkg α :=
  match x with
  | .ok a => return a
  | .error f => fail f

def recover (x : Pkg α) (h : Fault → Pkg α) : Pkg α :=
  tryCatch x fun
    | .fault f => h f
    | s => throw s

def folder : List Char := Path.here ++ "/packages".toList

def indexFile : List Char := Path.join folder "gpd_index.json".toList

def packageFolder (name : String) : List Char := Path.join folder name.toList

/-- The index on disk; none there, or one that cannot be read, is an empty one. -/
def loadIndex : Act Json :=
  Act.recover (do Act.check (Json.ofText (← Act.readText indexFile)))
    fun f => if f.isKind .fileNotFound || f.isKind .json then return .obj [] else Act.fail f

/-- No numeral in a text of so many bytes is too long to read. -/
def shortIndex : Nat := Number.maxDigits

/-- Makes the folder of packages and looks at the index, as everything does that could use packages. An index
that holds no fault but bad form is passed over; a short one can hold no other. -/
def touch : Act Unit := do
  Act.alter (·.ensureFolder folder)
  match (← get).disk.read indexFile with
  | .ok bs =>
    if bs.length ≤ shortIndex then
      let _ ← Act.check (Value.decodeUtf8 bs)
    else
      let _ ← loadIndex
  | .error f => if f.isKind .fileNotFound then return () else Act.fail f

def init : Act Json := do
  Act.alter (·.ensureFolder folder)
  loadIndex

def saveIndex : Pkg Unit := do
  let text ← check (← depot).index.toText
  Act.alter (·.write indexFile (Text.encode text))

/-- A page of the repository. A page that is refused is a fault. -/
def page (ref : List Char) : Act String := do
  let address := Address.resolve ref
  match ← Act.fetch (String.ofList (Address.key address)) with
  | .failure m => Act.fail (.primitive .request m)
  | .page status body =>
    let refused (text : String) : Act String :=
      Act.fail (.primitive .request
        (toString status ++ " " ++ text ++ " for url: " ++ String.ofList address))
    if status = 404 then refused "Client Error: Not Found"
    else if status = 500 then refused "Server Error: Internal Server Error"
    else return body

/-- JSON from the network, which is a fault of the network if it is none. -/
def readReply (body : String) : Except Fault Json :=
  match Json.ofText body.toList with
  | .ok j => .ok j
  | .error f => .error (.primitive .request f.message)

def fetchIndex : Act Json :=
  Act.recover (do Act.check (readReply (← page "index.json".toList)))
    fun f =>
      if f.isKind .request then Act.fail (.package ("Failed to fetch package index: " ++ f.message))
      else Act.fail f

def manifestRef (name : String) : List Char := (name ++ "/manifest.gy").toList

/-- What a manifest says about the language. -/
def languageIn? (manifest : String) : Option String :=
  ((Text.lines manifest.toList).find? fun line => Text.startsWith (Text.strip line) "language=".toList).map
    fun line =>
      let value := (Text.splitOn ['='] line).getD 1 []
      String.ofList (Text.lower (Text.stripQuotes (Text.strip value)))

def remoteLanguage (name : String) : Act String :=
  Act.recover (do return (languageIn? (← page (manifestRef name))).getD "python")
    fun f => if f.isKind .request then return "python" else Act.fail f

end Pkg

end LineScript
