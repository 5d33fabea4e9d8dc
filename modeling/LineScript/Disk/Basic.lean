import LineScript.Table
import LineScript.Text.Utf8

/-!
# Disk

Folders and files below the folder that a program runs in. A place on the disk is given by the names on the
way to it.
-/

namespace LineScript

inductive Node where
  | file (content : Text.Bytes) (mode : Nat)
  | folder (entries : List (String × Node))

/-- What is in the folder that the program runs in. -/
abbrev Disk := Table Node

namespace Disk

def find? (d : Disk) : List String → Option Node
  | [] => some (.folder d)
  | x :: xs =>
    match d.lookup x, xs with
    | some n, [] => some n
    | some (.folder entries), xs => find? entries xs
    | _, _ => none

/-- Puts a file or a folder into a folder that is there. -/
def put (d : Disk) (n : Node) : List String → Disk
  | [] => d
  | [x] => Table.set d x n
  | x :: xs =>
    match d.lookup x with
    | some (.folder entries) => Table.set d x (.folder (put entries n xs))
    | _ => d

def delete (d : Disk) : List String → Disk
  | [] => []
  | [x] => Table.erase d x
  | x :: xs =>
    match d.lookup x with
    | some (.folder entries) => Table.set d x (.folder (delete entries xs))
    | _ => d

inductive Place where
  /-- To a file or folder. -/
  | taken (steps : List String) (node : Node)
  /-- To a name that is free in a folder. -/
  | free (folder : List String) (name : String)
  /-- Through a folder that is not there. -/
  | missing
  /-- Through a file. -/
  | blocked
  /-- Through a name that no file can have. -/
  | tooLong

/-- Longest name of a file, in bytes. -/
def maxName : Nat := 255

/-- Follows names from a place. -/
def walk (d : Disk) (done : List String) : List String → Place
  | [] =>
    match d.find? done with
    | some n => .taken done n
    | none => .missing
  | x :: xs =>
    match d.find? done with
    | some (.folder entries) =>
      if x = "." then walk d done xs
      else if x = ".." then if done.isEmpty then .missing else walk d done.dropLast xs
      else if x.utf8ByteSize > maxName then .tooLong
      else if (entries.lookup x).isSome then walk d (done ++ [x]) xs
      else if xs.isEmpty then .free done x
      else .missing
    | some (.file _ _) => .blocked
    | none => .missing

end Disk

end LineScript
