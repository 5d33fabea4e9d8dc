import LineScript.Program

/-!
# The command line program

The arguments are a script and the files that it uses. These, the index of packages and the lines of standard
input make up the world that the script runs in. When it has ended, what it has shown is printed and the files
that it has changed are written.
-/

namespace LineScript.Outside

/-- Puts a file on a disk. A path that leads elsewhere is left alone. -/
def addFile (d : Disk) (path : String) (bytes : Text.Bytes) : Disk :=
  let p := path.toList
  let made : Except Fault Disk := do
    let d ← if (Path.parent p).isEmpty then pure d else d.ensureFolder (Path.parent p)
    d.write p bytes
  match made with
  | .ok d => d
  | .error _ => d

/-- Files that are new on a disk or have another content than before. -/
def changes (before after : Disk) : List (String × Text.Bytes) :=
  (after.filesBelow ['.']).filterMap fun p =>
    match after.read p, before.read p with
    | .ok new, .ok old => if new = old then none else some (String.ofList p, new)
    | .ok new, .error _ => some (String.ofList p, new)
    | .error _, _ => none

/-- What the shell is told about the end of a run. -/
def status : Except Stop Unit → UInt32
  | .ok () => 0
  | .error (.exited n) => UInt32.ofNat n.toNat
  | .error _ => 1

/-- Reads files; those that cannot be read are not there. -/
def load (paths : List String) : IO Disk :=
  paths.foldlM (fun d (path : String) => do
    try
      let bytes ← IO.FS.readBinFile path
      return addFile d path bytes.toList
    catch _ => return d) []

def save (files : List (String × Text.Bytes)) : IO Unit :=
  files.forM fun ((path : String), bytes) => do
    IO.FS.createDirAll (String.ofList (Path.parent path.toList))
    IO.FS.writeBinFile path ⟨bytes.toArray⟩

/-- Lines up to the end of the input. -/
partial def readLines (h : IO.FS.Stream) (lines : List Typed) : IO (List Typed) := do
  let line ← h.getLine
  if line.isEmpty then return lines.reverse
  else readLines h (.line (String.ofList (Text.trimRight (· = '\n') line.toList)) :: lines)

end LineScript.Outside

open LineScript in
def main (args : List String) : IO UInt32 := do
  let disk ← Outside.load ("packages/gpd_index.json" :: args)
  let input ← Outside.readLines (← IO.getStdin) []
  let (result, world) := (Program.interpreter.run args).run.run { disk, input }
  let here ← IO.currentDir
  IO.print (world.output.replace (String.ofList Path.here) here.toString)
  Outside.save (Outside.changes disk world.disk)
  return Outside.status result
