import LineScript.Disk.Basic
import LineScript.Disk.Path
import LineScript.Fault

/-!
# Reading and writing files

Operations on the disk by path, with the faults of the file system.
-/

namespace LineScript.Disk

def osFault (kind : Kind) (number : Nat) (text : String) (p : List Char) : Fault :=
  .primitive kind ("[Errno " ++ toString number ++ "] " ++ text ++ ": " ++ Fault.quote (String.ofList p))

def notFound (p : List Char) : Fault := osFault .fileNotFound 2 "No such file or directory" p

def denied (p : List Char) : Fault := osFault .permission 13 "Permission denied" p

def alreadyThere (p : List Char) : Fault := osFault .fileExists 17 "File exists" p

def notFolder (p : List Char) : Fault := osFault .notDirectory 20 "Not a directory" p

def isFolder (p : List Char) : Fault := osFault .isDirectory 21 "Is a directory" p

def nameTooLong (p : List Char) : Fault := osFault .os 36 "File name too long" p

def invalid (p : List Char) : Fault := osFault .os 22 "Invalid argument" p

def nullByte : Fault := .value "embedded null byte"

/-- Where a path leads; an empty path and one outside the folder of the program lead nowhere. -/
def place (d : Disk) (p : List Char) : Place :=
  if p.isEmpty then .missing
  else match Path.local? p with
    | some steps => walk d [] steps
    | none => .missing

def node? (d : Disk) (p : List Char) : Option Node :=
  if p.contains '\x00' then none
  else match place d p with
    | .taken _ n => some n
    | _ => none

def isFile (d : Disk) (p : List Char) : Bool :=
  match node? d p with
  | some (.file _ _) => true
  | _ => false

def isDir (d : Disk) (p : List Char) : Bool :=
  match node? d p with
  | some (.folder _) => true
  | _ => false

def isThere (d : Disk) (p : List Char) : Bool := (node? d p).isSome

def stat (d : Disk) (p : List Char) : Except Fault Node :=
  if p.contains '\x00' then .error nullByte
  else match place d p with
    | .taken _ n => .ok n
    | .free _ _ | .missing => .error (notFound p)
    | .blocked => .error (notFolder p)
    | .tooLong => .error (nameTooLong p)

def read (d : Disk) (p : List Char) : Except Fault Text.Bytes := do
  match ← stat d p with
  | .file content _ => return content
  | .folder _ => throw (isFolder p)

def newMode : Nat := 0o644

/-- Writes a file from what it holds; a new one holds nothing. -/
def update (d : Disk) (p : List Char) (f : Text.Bytes → Text.Bytes) : Except Fault Disk :=
  if p.contains '\x00' then .error nullByte
  else match place d p with
    | .taken steps (.file content mode) => .ok (put d (.file (f content) mode) steps)
    | .taken _ (.folder _) => .error (isFolder p)
    | .free folder name => .ok (put d (.file (f []) newMode) (folder ++ [name]))
    | .missing => .error (notFound p)
    | .blocked => .error (notFolder p)
    | .tooLong => .error (nameTooLong p)

def write (d : Disk) (p : List Char) (content : Text.Bytes) : Except Fault Disk := update d p fun _ => content

def append (d : Disk) (p : List Char) (content : Text.Bytes) : Except Fault Disk := update d p (· ++ content)

def chmod (d : Disk) (p : List Char) (mode : Nat) : Except Fault Disk :=
  if p.contains '\x00' then .error nullByte
  else match place d p with
    | .taken steps (.file content _) => .ok (put d (.file content mode) steps)
    | .taken _ (.folder _) => .ok d
    | .free _ _ | .missing => .error (notFound p)
    | .blocked => .error (notFolder p)
    | .tooLong => .error (nameTooLong p)

def makeFolder (d : Disk) (p : List Char) : Except Fault Disk :=
  if p.contains '\x00' then .error nullByte
  else
    let bare := Text.trimRight Path.isSlash p
    match place d (if bare.isEmpty then p else bare) with
    | .taken _ _ => .error (alreadyThere p)
    | .free folder name => .ok (put d (.folder []) (folder ++ [name]))
    | .missing => .error (notFound p)
    | .blocked => .error (notFolder p)
    | .tooLong => .error (nameTooLong p)

/-- The folder around a path, not counting slashes at its end, and the last name. -/
def splitLast (p : List Char) : List Char × List Char :=
  if (Path.base p).isEmpty then (Path.parent (Path.parent p), Path.base (Path.parent p))
  else (Path.parent p, Path.base p)

/-- Makes one folder: the disk that is left, and the fault if it fails. A folder that is there is a fault unless `keep`. -/
def makeLast (keep : Bool) (d : Disk) (p : List Char) : Disk × Option Fault :=
  match makeFolder d p with
  | .ok e => (e, none)
  | .error f => (d, if keep && isDir d p then none else some f)

/-- Makes a folder after the folders around it. What is made before a fault stays. -/
def makeFoldersFrom (keep : Bool) : Nat → Disk → List Char → Disk × Option Fault
  | 0, d, _ => (d, none)
  | n + 1, d, p =>
    let (head, tail) := splitLast p
    if !head.isEmpty && !tail.isEmpty && !isThere d head then
      let (e, fault) := makeFoldersFrom keep n d head
      if fault.any (!·.isKind .fileExists) then (e, fault)
      else if tail = ['.'] then (e, none)
      else makeLast keep e p
    else makeLast keep d p

/-- Makes a folder with all folders around it; those that are there stay. -/
def ensureFolders (d : Disk) (p : List Char) : Disk × Option Fault := makeFoldersFrom true (p.length + 1) d p

/-- Makes a folder that is not there, with all folders around it. -/
def makeFolders (d : Disk) (p : List Char) : Disk × Option Fault := makeFoldersFrom false (p.length + 1) d p

/-- The disk with a folder, if it can be made. -/
def ensureFolder (d : Disk) (p : List Char) : Except Fault Disk :=
  match ensureFolders d p with
  | (e, none) => .ok e
  | (_, some f) => .error f

def remove (d : Disk) (p : List Char) : Except Fault Disk :=
  match place d p with
  | .taken steps (.file _ _) => .ok (delete d steps)
  | .taken _ (.folder _) => .error (isFolder p)
  | .free _ _ | .missing => .error (notFound p)
  | .blocked => .error (notFolder p)
  | .tooLong => .error (nameTooLong p)

def removeTree (d : Disk) (p : List Char) : Except Fault Disk :=
  match place d p with
  | .taken steps (.folder _) => .ok (delete d steps)
  | .taken _ (.file _ _) => .error (notFolder p)
  | .free _ _ | .missing => .error (notFound p)
  | .blocked => .error (notFolder p)
  | .tooLong => .error (nameTooLong p)

/-- Removes all that a folder holds. -/
def emptyTree (d : Disk) (p : List Char) : Except Fault Disk :=
  match place d p with
  | .taken [] _ => .ok []
  | .taken steps (.folder _) => .ok (put d (.folder []) steps)
  | .taken _ (.file _ _) => .error (notFolder p)
  | .free _ _ | .missing => .error (notFound p)
  | .blocked => .error (notFolder p)
  | .tooLong => .error (nameTooLong p)

/-- Removes whatever is at a path, if anything is. -/
def discard (d : Disk) (p : List Char) : Disk :=
  match place d p with
  | .taken steps _ => delete d steps
  | _ => d

def sortNames (xs : List String) : List String := xs.mergeSort fun a b => !(b < a)

/-- Names in a folder, in order. -/
def list (d : Disk) (p : List Char) : Except Fault (List String) := do
  match ← stat d p with
  | .folder entries => return sortNames (entries.map Prod.fst)
  | .file _ _ => throw (notFolder p)

end LineScript.Disk
