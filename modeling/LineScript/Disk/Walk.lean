import LineScript.Disk.Access

/-!
# Files below a folder

Each folder gives its own files first, then those of the folders in it, by name.
-/

namespace LineScript

/-- Whether an entry is a folder, its name, and the paths of the files in it. -/
structure Disk.Branch where
  isFolder : Bool
  name : String
  files : List (List Char)

/-- Files come before folders. -/
def Disk.Branch.before (a b : Disk.Branch) : Bool :=
  if a.isFolder = b.isFolder then !(b.name < a.name) else b.isFolder

mutual

def Node.files (path : List Char) : Node → List (List Char)
  | .file _ _ => [path]
  | .folder entries => ((Disk.branches path entries).mergeSort Disk.Branch.before).flatMap (·.files)

def Disk.branches (path : List Char) : List (String × Node) → List Disk.Branch
  | [] => []
  | (name, n) :: rest =>
    let isFolder := match n with
      | .folder _ => true
      | .file _ _ => false
    ⟨isFolder, name, Node.files (Path.join path name.toList) n⟩ :: Disk.branches path rest

end

def Disk.filesBelow (d : Disk) (path : List Char) : List (List Char) :=
  match d.node? path with
  | some n => n.files path
  | none => []

end LineScript
