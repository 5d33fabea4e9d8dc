
import LineScript.Proofs.IndexFile
import LineScript.Proofs.JsonFile
import LineScript.Proofs.PackageFrame

/-!
# The index file

Loading the index gives what stands at the place of its file (`reads_loadIndex`), and what is written there is read as it was
(`indexOf_written`). Work on the folder of a package stays there (`AtHome`), so a change for a package with a name of its own
changes the entry of the package at most (`Change.onIndex`).
-/

namespace LineScript

namespace Pkg

variable {d : Disk} {name : String} {index index' : Json}

theorem indexOf_error (f : Fault) : (indexOf (.error f)).toOption.getD (.obj []) = .obj [] := by
  change Option.getD (Except.toOption (if _ then _ else _)) _ = _
  split <;> rfl

theorem indexOf_written (whole : index.WellFormed) {text : List Char} (written : index.toText = .ok text) :
    indexOf (.ok (Text.encode text)) = .ok index := by
  obtain ⟨text', printed, plain⟩ := Json.exists_print whole 0
  obtain rfl : text' = text := Except.ok.inj (printed.symm.trans written)
  obtain ⟨decoded, same⟩ := plain.decode
  rw [indexOf_decoded decoded, same, Json.ofText_toText whole written]
  rfl

/-! ## The index file -/

theorem plain_indexPlace : ∀ x ∈ indexPlace, x ≠ "." ∧ x ≠ ".." ∧ x.utf8ByteSize ≤ Disk.maxName := by
  decide

theorem place_indexFile (d : Disk) : d.place indexFile = Disk.walk d [] indexPlace := by
  have path : Path.local? indexFile = some indexPlace := by decide
  unfold Disk.place
  rw [if_neg (by decide), path]

theorem stat_indexFile {n : Node} (found : d.find? indexPlace = some n) : d.stat indexFile = .ok n := by
  unfold Disk.stat
  rw [if_neg (by decide), place_indexFile, Disk.walk_eq_taken plain_indexPlace found]

section

variable (packages : d.item? ["packages"] = some .folder)

include packages

theorem place_indexFile_free (missing : d.find? indexPlace = none) :
    d.place indexFile = .free ["packages"] "gpd_index.json" := by
  have free : d.item? indexPlace = none := by rw [Disk.item?, missing, Option.map_none]
  obtain ⟨entries, folder⟩ := Disk.item?_eq_folder.mp packages
  have none : Table.find? entries "gpd_index.json" = none := by
    have inside : d.item? indexPlace = Disk.below? (.folder entries) ["gpd_index.json"] := Disk.item?_append folder _
    rw [free, Disk.below?_folder, Disk.item?_cons] at inside
    cases h : Table.find? entries "gpd_index.json" with
    | none => rfl
    | some n => simp [h] at inside
  rw [place_indexFile]
  exact Disk.walk_eq_free plain_indexPlace folder none

def bytesAt : Option Item → Except Fault Text.Bytes
  | some (.file content _) => .ok content
  | some .folder => .error (Disk.isFolder indexFile)
  | none => .error (Disk.notFound indexFile)

theorem read_indexFile : d.read indexFile = bytesAt (d.item? indexPlace) := by
  unfold Disk.read
  cases found : d.find? indexPlace with
  | none =>
    unfold Disk.stat
    rw [place_indexFile_free packages found, Disk.item?, found]
    rfl
  | some n =>
    rw [stat_indexFile found, Disk.item?, found]
    cases n <;> rfl

theorem exists_write_indexFile (lone : d.item? indexPlace ≠ some .folder) (content : Text.Bytes) :
    ∃ e, d.write indexFile content = .ok e := by
  unfold Disk.write Disk.update
  cases found : d.find? indexPlace with
  | none =>
    rw [place_indexFile_free packages found]
    exact ⟨_, rfl⟩
  | some n =>
    rw [place_indexFile, Disk.walk_eq_taken plain_indexPlace found]
    cases n with
    | file content mode => exact ⟨_, rfl⟩
    | folder entries => exact absurd (Disk.item?_eq_folder.mpr ⟨entries, found⟩) lone

/-! ## The folder of a package -/

theorem isDir_folder : d.isDir folder := by
  obtain ⟨entries, found⟩ := Disk.item?_eq_folder.mp packages
  have taken : d.place folder = .taken ["packages"] (.folder entries) := by
    exact Disk.walk_eq_taken (by decide) found
  unfold Disk.isDir Disk.node?
  rw [if_neg (by decide), taken]

end

/-- Nothing changes but what is below the folder of a package, and the folders around it, which stay if they are there. -/
structure AtHome (name : String) (d e : Disk) : Prop where
  items : ∀ place, e.item? place = d.item? place ∨ place <+: ["packages"] ∨ ["packages", name] <+: place
  packages : d.item? ["packages"] = some .folder → e.item? ["packages"] = some .folder

section

variable {name : String} {d e : Disk}

theorem AtHome.refl (name : String) (d : Disk) : AtHome name d d := ⟨fun _ => .inl rfl, id⟩

theorem AtHome.of_sameOutside {t : List String} (plain : Path.Plain name)
    (leads : Path.target (packageFolder name) = some t) (same : Disk.SameOutside t d e) : AtHome name d e := by
  rw [Path.target_packageFolder plain] at leads
  cases leads
  constructor
  · intro place
    by_cases below : ["packages", name] <+: place
    · exact .inr (.inr below)
    · exact .inl (same place below)
  · intro there
    exact (same _ (by simp)).trans there

theorem AtHome.sameOutside (so : AtHome name d e)
    (packages : d.item? ["packages"] = some .folder) : Disk.SameOutside ["packages", name] d e := by
  intro place outside
  rcases so.items place with same | above | below
  · exact same
  · cases place with
    | nil => rfl
    | cons x rest =>
      obtain ⟨rfl, rfl⟩ : x = "packages" ∧ rest = [] := by simpa using above
      exact (so.packages packages).trans packages.symm
  · exact absurd below outside

theorem atHome_folder {p : List Char} {files : List String} (plain : Path.Plain name)
    (confined : ∀ file ∈ files, Path.Confined file)
    (own : p = packageFolder name ∨ ∃ file ∈ files, p = Path.parent (Path.join (packageFolder name) file.toList)) :
    AtHome name d (d.ensureFolders p).1 := by
  obtain ⟨r, inner, way, names, inside⟩ := Path.onWay_packageFolder plain confined own
  constructor
  · intro place
    rcases Path.item?_makeFoldersFrom way true (p.length + 1) d place with same | ⟨xs, part, rfl⟩
    · exact .inl same
    · rw [names] at part
      exact .inr (Path.inside_or_above plain inside part)
  · intro there
    rcases Disk.grown_ensureFolders d p ["packages"] with same | ⟨none, -⟩
    · exact same.trans there
    · rw [there] at none
      cases none

theorem atHome_file {file : String} {content : Text.Bytes} (plain : Path.Plain name) (confined : Path.Confined file)
    (written : d.write (Path.join (packageFolder name) file.toList) content = .ok e) : AtHome name d e := by
  obtain ⟨t, mode, leads, rest⟩ := Disk.item?_write written
  obtain ⟨home, leads', below⟩ := Path.exists_target_packageFolder leads confined
  refine .of_sameOutside plain leads' fun place outside => ?_
  rw [rest, if_neg]
  rintro rfl
  exact outside below

end

/-! ## What a change does to the index -/

/-- A name that a package can have: its folder is one of its own. -/
structure OwnName (name : String) : Prop extends Path.Plain name where
  notIndex : name ≠ "gpd_index.json"

/-- What a change does to the index in memory and to its file. -/
inductive OnIndex (name : String) (h h' : Holding) : Prop
  /-- Folders and files of the package change, and the index is left alone. -/
  | apart (memory : h'.index = h.index) (file : h'.disk.item? indexPlace = h.disk.item? indexPlace)
      (folder : h.disk.item? ["packages"] = some .folder → h'.disk.item? ["packages"] = some .folder)
  /-- The entry of the package changes in memory, and the file is written. -/
  | saved {text : List Char} {mode : Nat} (edit : Edit name h.index h'.index) (written : h'.index.toText = .ok text)
      (items : ∀ place, h'.disk.item? place =
        if place = indexPlace then some (.file (Text.encode text) mode) else h.disk.item? place)
  /-- The entry of the package changes in memory, and the file cannot be written. -/
  | unsaved (edit : Edit name h.index h'.index) (disk : h'.disk = h.disk)
      (failed : ∀ text, h'.index.toText = .ok text → ∀ e, h.disk.write indexFile (Text.encode text) ≠ .ok e)

theorem AtHome.onIndex {e : Disk} (home : AtHome name d e) (own : OwnName name) : OnIndex name ⟨index, d⟩ ⟨index, e⟩ := by
  refine .apart rfl ?_ home.packages
  rcases home.items indexPlace with same | above | below
  · exact same
  · exact absurd above (by decide)
  · exact absurd below (by simp [indexPlace, own.notIndex])

theorem Change.onIndex {remote : Table Reply} {h h' : Holding} (own : OwnName name)
    (confined : ∀ file ∈ listed remote name, Path.Confined file) (change : Change remote name h h') : OnIndex name h h' := by
  have gone {index : Json} {d e : Disk} (same : ∃ t, Path.target (packageFolder name) = some t ∧ Disk.SameOutside t d e) :
      OnIndex name ⟨index, d⟩ ⟨index, e⟩ := by
    obtain ⟨t, leads, same⟩ := same
    exact (AtHome.of_sameOutside own.toPlain leads same).onIndex own
  cases change with
  | folder place => exact (atHome_folder own.toPlain confined place).onIndex own
  | file member written => exact (atHome_file own.toPlain (confined _ member) written).onIndex own
  | remove removed => exact gone (Disk.sameOutside_removeTree removed)
  | empty emptied => exact gone (Disk.sameOutside_emptyTree emptied)
  | discard index d =>
    rcases Disk.sameOutside_discard d (packageFolder name) with same | outside
    · rw [same]
      exact (AtHome.refl name d).onIndex own
    · exact gone outside
  | save edit written saved =>
    obtain ⟨t, mode, leads, rest⟩ := Disk.item?_write saved
    rw [target_indexFile] at leads
    cases leads
    exact .saved edit written rest
  | keep edit failed => exact .unsaved edit rfl failed

theorem Edit.wellFormed (edit : Edit name index index') (whole : index.WellFormed) : index'.WellFormed := by
  cases edit with
  | set part changed => exact whole.setField (part whole) changed
  | delete changed => exact whole.deleteField changed

theorem Edit.exists_fields (edit : Edit name index index') :
    ∃ fields fields' : Table Json, index = .obj fields ∧ index' = .obj fields' ∧
      ∀ x, x ≠ name → fields'.find? x = fields.find? x := by
  cases edit with
  | @set entry _ _ changed =>
    cases index with
    | obj fields =>
      cases changed
      exact ⟨fields, _, rfl, rfl, fun x other => Table.find?_set_of_ne fields other.symm entry⟩
    | _ => cases changed
  | delete changed =>
    cases index with
    | obj fields =>
      unfold Json.deleteField at changed
      dsimp only at changed
      split at changed
      · cases changed
        exact ⟨fields, _, rfl, rfl, fun x other => Table.find?_erase_of_ne fields other.symm⟩
      · cases changed
    | _ => cases changed

theorem Edit.get? {other : String} (edit : Edit name index index') (differ : other ≠ name) :
    index'.get? other = index.get? other := by
  obtain ⟨fields, fields', rfl, rfl, same⟩ := edit.exists_fields
  exact congrArg Except.ok (same other differ)

end Pkg

end LineScript
