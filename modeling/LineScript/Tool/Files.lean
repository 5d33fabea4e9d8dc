import LineScript.Archive.Zip
import LineScript.Calendar.Pattern
import LineScript.Digest.Md5
import LineScript.Digest.Sha1
import LineScript.Digest.Sha256
import LineScript.Disk.Walk
import LineScript.Text.Base64
import LineScript.Tool.Screen

/-!
# Tools for files

Encoding and decoding, checksums, listings and archives.
-/

namespace LineScript.Tool

open Text

/-- Says what goes wrong. -/
def telling (x : Act Unit) : Act Unit := Act.recover x fun f => Act.say ("! Error: " ++ f.message)

/-- The whole number that the user types. -/
def askNumber (prompt : String) : Act Int := do
  match ← Act.check (Value.toInt (.str (← Act.ask prompt))) with
  | .int n => return n
  | _ => return 0

/-- A line from the user without white space around it. -/
def askWord (prompt : String) : Act (List Char) := do return strip (← Act.ask prompt).toList

/-- A line from the user, or something else if there is none. -/
def askWordOr (prompt : String) (default : String) : Act (List Char) := do
  let word ← askWord prompt
  return if word.isEmpty then default.toList else word

/-! ### Encoding -/

inductive Coding where
  | encode
  | decode
  | hex

def Coding.ofNumber? (n : Int) : Option Coding :=
  if n = 1 then some .encode
  else if n = 2 then some .decode
  else if n = 3 then some .hex
  else none

def Coding.title : Coding → String
  | .encode => "\nBase64 Encoded:"
  | .decode => "\nBase64 Decoded:"
  | .hex => "\nHex Dump:"

def Coding.ending : Coding → String
  | .encode => ".enc"
  | _ => ".dec"

def Coding.apply (bs : Bytes) : Coding → Except Fault (List Char)
  | .encode => .ok (Base64.encode bs)
  | .decode =>
    match Base64.decode bs with
    | .ok out => Value.decodeUtf8 out
    | .error e => .error (.value e.message)
  | .hex => .ok (Digest.hex bs).toList

/-- So much of a result is shown. -/
def shownLength : Nat := 500

def codeFile : Act Unit := do
  let coding? := Coding.ofNumber? (← askNumber "Select operation (1-3): ")
  let path ← askWord "File path: "
  let bs ← Act.readBytes path
  match coding? with
  | none => Act.fail (.value "")
  | some coding =>
    let result ← Act.check (coding.apply bs)
    Act.say coding.title
    Act.say (rule '-' 60)
    Act.say (String.ofList (result.take shownLength) ++ (if result.length > shownLength then "..." else ""))
    Act.say (rule '-' 60)
    if ← Act.agrees "\nSave output? (y/n): " then
      Act.alter (·.write (path ++ coding.ending.toList) (encode result))
      Act.say "File saved"

def fileCoder : Act Unit := do
  heading "FILE ENCODER/DECODER"
  Act.say "Operations:\n1. Base64 Encode\n2. Base64 Decode\n3. Hex Dump"
  telling codeFile

/-! ### Checksums -/

def digests : List (String × (Bytes → Bytes)) :=
  [("md5", Digest.Md5.digest), ("sha1", Digest.Sha1.digest), ("sha256", Digest.Sha256.digest)]

def checksum : Act Unit := do
  heading "CHECKSUM CALCULATOR"
  let path ← askWord "File path: "
  if !(← get).disk.isThere path then Act.say "! File not found"
  else
    let name := lower (← Act.ask "Algorithm (md5/sha1/sha256): ").toList
    match digests.lookup (String.ofList name) with
    | none => Act.say ("! Invalid algorithm. Choose from " ++ Value.joinComma (digests.map Prod.fst))
    | some digest =>
      telling do
        let bs ← Act.readBytes path
        Act.say ("\n" ++ String.ofList (upper name) ++ ": " ++ Digest.hex (digest bs))

/-! ### Listings -/

/-- Digits with a comma before every third from the end. -/
def grouped (n : Nat) : List Char :=
  let ds := Nat.toDigits 10 n
  ds.zipIdx.flatMap fun (d, i) =>
    if i > 0 && (ds.length - i) % 3 = 0 then [',', d] else [d]

def listingLine (time : Calendar.Time) (i : Nat) (name : String) (size : Nat) : String :=
  String.ofList (padLeft 3 ' ' (toString i).toList ++ ". ".toList ++ padRight 40 ' ' name.toList ++
    ' ' :: padLeft 10 ' ' (grouped size) ++ " bytes  ".toList ++
    Calendar.format time "%Y-%m-%d %H:%M".toList)

/-- The size of a file; folders count as empty. -/
def fileSize (d : Disk) (path : List Char) : Nat :=
  match d.node? path with
  | some (.file content _) => content.length
  | _ => 0

def saveListing (path : List Char) : Act Unit := do
  let file := "directory.txt".toList
  Act.alter (·.write file [])
  let names ← Act.check ((← get).disk.list path)
  let lines := ("Directory of " ++ String.ofList (Path.absolute path)) :: rule '-' 60 :: names
  Act.alter (·.write file (encode (String.join (lines.map (· ++ "\n"))).toList))
  Act.say "Saved to directory.txt"

def directoryLister : Act Unit := do
  heading "DIRECTORY LISTER"
  let path ← askWordOr "Directory path [.]: " "."
  let w ← get
  if !w.disk.isThere path then Act.say "! Path not found"
  else
    Act.say ("\nContents of " ++ String.ofList (Path.absolute path) ++ ":")
    Act.say (rule '-' 60)
    let names ← Act.check (w.disk.list path)
    names.zipIdx.forM fun (name, i) =>
      Act.say (listingLine (.ofUnix w.modified) (i + 1) name (fileSize w.disk (Path.join path name.toList)))
    Act.say (rule '-' 60)
    if ← Act.agrees "\nSave to file? (y/n): " then saveListing path

/-! ### Archives -/

/-- Adds a file to an archive that is being written, and writes it so far. -/
def addMember (archive : List Char) (members : List Zip.Member) (path : List Char) :
    Act (List Zip.Member) := do
  let w ← get
  match ← Act.check (w.disk.stat path) with
  | .folder _ => return members
  | .file content mode =>
    let name := trimLeft Path.isSlash (Path.tidy path)
    let members := members ++ [⟨name, content, mode, w.modified⟩]
    Act.alter (·.write archive (Zip.records members))
    return members

/-- Adds files one after the other, up to the first fault. -/
def addMembers (archive : List Char) (members : List Zip.Member) :
    List (List Char) → Act (List Zip.Member × Option Fault)
  | [] => return (members, none)
  | path :: rest => do
    let r ← Act.recover (do return Except.ok (← addMember archive members path)) fun f => return .error f
    match r with
    | .ok members => addMembers archive members rest
    | .error f => return (members, some f)

/-- Adds files, and for folders all files below. -/
def addPaths (archive : List Char) (members : List Zip.Member) :
    List (List Char) → Act (List Zip.Member × Option Fault)
  | [] => return (members, none)
  | path :: rest => do
    let disk := (← get).disk
    let paths := if disk.isDir path then disk.filesBelow path else [path]
    match ← addMembers archive members paths with
    | (members, none) => addPaths archive members rest
    | r => return r

/-- Makes an archive. It is completed also when a file cannot be added. -/
def createArchive (paths : List (List Char)) (archive : List Char) : Act Unit := do
  Act.alter (·.write archive [])
  let (members, fault) ← addPaths archive [] paths
  Act.alter (·.write archive (Zip.write members))
  match fault with
  | some f => Act.fail f
  | none => Act.say ("Created " ++ String.ofList archive)

/-- Names on the way to a member; a member cannot lead out of the folder. -/
def safeName (name : List Char) : List Char :=
  joinWith ['/'] ((splitOn ['/'] name).filter fun x => !x.isEmpty && x ≠ ['.'] && x ≠ ['.', '.'])

/-- Writes a member into a folder. -/
def extractMember (bs : Bytes) (all : List Zip.Entry) (folder : List Char) (e : Zip.Entry) : Act Unit := do
  let e := (all.reverse.find? (·.name = e.name)).getD e
  let target := Path.tidy (Path.join folder (safeName e.name))
  let above := Path.parent target
  let disk := (← get).disk
  if !above.isEmpty && !disk.isThere above then Act.alterPartly (·.makeFolders above)
  if e.name.getLast? = some '/' then
    if !(← get).disk.isDir target then Act.alter (·.makeFolder target)
  else
    let data ← Act.check (Zip.content bs e)
    Act.alter (·.write target data)

def extractArchive (archive folder : List Char) : Act Unit := do
  let bs ← Act.readBytes archive
  let es ← Act.check (Zip.entries bs)
  es.forM (extractMember bs es folder)
  Act.say ("Extracted to " ++ String.ofList (Path.absolute folder))

def zipTool : Act Unit := do
  heading "ZIP TOOL"
  Act.say "1. Create ZIP\n2. Extract ZIP"
  let choice ← askWord "Select operation: "
  if choice = ['1'] then
    let parts := splitOn [','] (← Act.ask "Files/dirs to zip (comma separated): ").toList
    let paths := (parts.map strip).filter (!·.isEmpty)
    let archive ← askWordOr "Output zip name: " "archive.zip"
    telling (createArchive paths archive)
  else if choice = ['2'] then
    let archive ← askWord "ZIP file to extract: "
    let folder ← askWordOr "Destination dir [.]: " "."
    telling (extractArchive archive folder)
  else Act.say "! Invalid choice"

end LineScript.Tool
