
import LineScript.Proofs.PackageFailure

/-!
# What an installation records

An installation passes over a file that the network does not have, and is ended by everything else that goes wrong
(`Loaded`), so what has been loaded is just what the network has (`LoadedAll.files_eq`). Two files with orderly paths that
lead to one place are the same file (`LoadedAll.stands`). A new depot reads the entry that is made (`install_records_disk`).
-/

namespace LineScript

open List

theorem Text.splitGo_ne_nil (c : Char) (s cur : List Char) : splitGo [c] none cur 0 s ≠ [] := by
  intro empty
  have count := length_splitGo c s cur
  simp [empty] at count

theorem Text.joinWith_splitGo (c : Char) (s cur : List Char) :
    joinWith [c] (splitGo [c] none cur 0 s) = cur.reverse ++ s := by
  induction s generalizing cur with
  | nil => simp [splitGo, joinWith]
  | cons d s ih =>
    by_cases h : c = d
    · subst h
      have split : splitGo [c] none cur 0 (c :: s) = cur.reverse :: splitGo [c] none [] 0 s := by simp [splitGo]
      rw [split, joinWith]
      · simp [ih]
      · exact splitGo_ne_nil c s []
    · have split : splitGo [c] none cur 0 (d :: s) = splitGo [c] none (d :: cur) 0 s := by simp [splitGo, h]
      rw [split, ih]
      simp

theorem Text.joinWith_splitOn (c : Char) (s : List Char) : joinWith [c] (splitOn [c] s) = s :=
  joinWith_splitGo c s []

namespace Path

theorem Orderly.names_ne_nil {file : String} (orderly : Orderly file) : names file.toList ≠ [] := by
  rw [orderly.names_eq]
  exact map_eq_nil_iff.not.mpr (Text.splitGo_ne_nil '/' _ [])

theorem Orderly.eq_of_names {file other : String} (orderly : Orderly file) (orderly' : Orderly other)
    (same : names file.toList = names other.toList) : file = other := by
  rw [orderly.names_eq, orderly'.names_eq] at same
  have pieces : Text.splitOn ['/'] file.toList = Text.splitOn ['/'] other.toList :=
    map_injective_iff.mpr (fun _ _ => String.ofList_injective) same
  apply String.toList_inj.mp
  rw [← Text.joinWith_splitOn '/' file.toList, pieces, Text.joinWith_splitOn]

theorem foldl_normalStep_of_plain {xs : List String} (plain : ∀ x ∈ xs, Plain x) (done : List String) :
    xs.foldl normalStep done = done ++ xs := by
  induction xs generalizing done with
  | nil => simp
  | cons x xs ih =>
    rw [foldl_cons, (plain x mem_cons_self).normalStep, ih fun y hy => plain y (mem_cons_of_mem x hy)]
    simp

/-- A file with an orderly path is below the folder of its package, by the names in the path. -/
theorem target_join_packageFolder {name file : String} (plain : Plain name) (orderly : Orderly file) :
    target (join (Pkg.packageFolder name) file.toList) = some (Pkg.home name ++ names file.toList) := by
  have first : Plain "packages" := ⟨by decide, by decide, by decide, by decide⟩
  have both : ∀ x ∈ ["packages", name], Plain x := by simp [first, plain]
  have inner : ∀ x ∈ names file.toList, Plain x := by
    rw [orderly.names_eq]
    exact orderly.plain
  rw [packageFolder_of_relative plain.relative, target_join _ orderly.confined.relative, names_packageFolder plain,
    foldl_normalStep_of_plain both, foldl_normalStep_of_plain inner]
  rfl

end Path

namespace Disk

variable {f : Fault} {d : Disk} {p : List Char}

theorem not_request_of_makeFolder (failed : d.makeFolder p = .error f) : f.isKind .request = false := by
  unfold makeFolder at failed
  split at failed
  · cases failed
    rfl
  · dsimp only at failed
    split at failed
    all_goals
      cases failed
      try rfl

theorem not_request_of_write {content : Text.Bytes} (failed : d.write p content = .error f) : f.isKind .request = false := by
  unfold write update at failed
  split at failed
  · cases failed
    rfl
  · split at failed
    all_goals
      cases failed
      try rfl

end Disk

namespace Pkg

variable {index data : Json} {other file : String} {remote : Table Reply}

/-! ## Loading files -/

/-- The bytes that the network has for an entry in the list of a package's files. -/
def bytesAt? (remote : Table Reply) (name : String) (entry : Json) : Option Text.Bytes :=
  match entry.display with
  | .ok shown => (pageText? remote (name ++ "/" ++ shown).toList).map fun body => Text.encode body.toList
  | .error _ => none

/-- What loading one entry gives and does to the disk. -/
inductive Loaded (remote : Table Reply) (name : String) : Json → Option String → Disk → Disk → Prop
  /-- The network does not have it. -/
  | missing {entry : Json} {d : Disk} (none : bytesAt? remote name entry = none) : Loaded remote name entry .none d d
  /-- It is written to its place, after folders have been made. -/
  | had {file : String} {bytes : Text.Bytes} {d c e : Disk} (known : bytesAt? remote name (.str file) = some bytes)
      (grown : Disk.Grown d c) (written : c.write (Path.join (packageFolder name) file.toList) bytes = .ok e) :
      Loaded remote name (.str file) (some file) d e

/-- Loading entries one after the other. -/
inductive LoadedAll (remote : Table Reply) (name : String) : List Json → List (Option String) → Disk → Disk → Prop
  | nil (d : Disk) : LoadedAll remote name [] [] d d
  | cons {entry : Json} {entries : List Json} {result : Option String} {results : List (Option String)} {d c e : Disk}
      (first : Loaded remote name entry result d c) (rest : LoadedAll remote name entries results c e) :
      LoadedAll remote name (entry :: entries) (result :: results) d e

section

variable {remote : Table Reply} {name : String} {entries : List Json} {results : List (Option String)} {d e : Disk}

/-- What has been loaded is what the network has, in the order of the list. -/
theorem LoadedAll.files_eq (all : LoadedAll remote name entries results d e) :
    (results.filterMap id).map Json.str = entries.filter fun entry => (bytesAt? remote name entry).isSome := by
  induction all with
  | nil => rfl
  | cons first _ ih =>
    cases first with
    | missing none => rw [filterMap_cons_none rfl, ih, filter_cons_of_neg (by simp [none])]
    | had known => rw [filterMap_cons_some (id_eq _), map_cons, ih, filter_cons_of_pos (by simp [known])]

/-- A file stands below the folder of its package with the bytes that the network has for it. -/
def Stands (remote : Table Reply) (name : String) (d : Disk) (file : String) : Prop :=
  ∃ bytes mode, bytesAt? remote name (.str file) = some bytes ∧
    d.file? (home name ++ Path.names file.toList) = some (bytes, mode)

variable (plain : Path.Plain name)

include plain

theorem stands_write {bytes : Text.Bytes} (orderly : Path.Orderly file)
    (known : bytesAt? remote name (.str file) = some bytes)
    (written : d.write (Path.join (packageFolder name) file.toList) bytes = .ok e) (orderly' : Path.Orderly other)
    (stood : Stands remote name d other ∨ other = file) : Stands remote name e other := by
  obtain ⟨t, mode, leads, items⟩ := Disk.item?_write written
  rw [Path.target_join_packageFolder plain orderly] at leads
  cases leads
  by_cases same : Path.names other.toList = Path.names file.toList
  · obtain rfl := orderly'.eq_of_names orderly same
    refine ⟨bytes, mode, known, ?_⟩
    simp [Disk.file?, items]
  · rcases stood with ⟨old, mode', known', there⟩ | rfl
    · refine ⟨old, mode', known', (Disk.file?_congr ?_).trans there⟩
      rw [items, if_neg]
      intro equal
      exact same (append_cancel_left equal)
    · exact absurd rfl same

/-- One entry is loaded: its file stands, and any other one that stood still does. -/
theorem Loaded.stands {entry : Json} {result : Option String} (one : Loaded remote name entry result d e)
    (orderly : ∀ file, entry = .str file → Path.Orderly file) (orderly' : Path.Orderly other)
    (stood : Stands remote name d other ∨ result = some other) : Stands remote name e other := by
  cases one with
  | missing => exact stood.resolve_right (Option.some_ne_none other).symm
  | had known grown written =>
    refine stands_write plain (orderly _ rfl) known written orderly' ?_
    rcases stood with ⟨bytes, mode, known', there⟩ | same
    · exact .inl ⟨bytes, mode, known', (grown.file? _).trans there⟩
    · exact .inr (Option.some.inj same).symm

/-- All that has been loaded stands, and what stood before still does. -/
theorem LoadedAll.stands (all : LoadedAll remote name entries results d e)
    (orderly : ∀ file, .str file ∈ entries → Path.Orderly file) (orderly' : Path.Orderly other)
    (stood : Stands remote name d other ∨ other ∈ results.filterMap id) : Stands remote name e other := by
  induction all with
  | nil => exact stood.resolve_right not_mem_nil
  | @cons entry entries result results _ _ _ first _ ih =>
    apply ih fun file member => orderly file (mem_cons_of_mem _ member)
    have each : ∀ file, entry = .str file → Path.Orderly file := fun file same => orderly file (by simp [same])
    by_cases later : other ∈ results.filterMap id
    · exact .inr later
    · left
      refine first.stands plain each orderly' (stood.imp_right fun member => ?_)
      cases result with
      | none => exact absurd (by simpa using member) later
      | some file =>
        rcases mem_cons.mp (by simpa using member : other ∈ file :: results.filterMap id) with rfl | member
        · rfl
        · exact absurd member later

end

/-! ## Installing -/

section

variable {name : String} {d : Depot}

variable {e : Depot}

/-- Two depots with the same index in memory and the same network. -/
structure SameIndex (d e : Depot) : Prop where
  index : e.index = d.index
  remote : e.world.remote = d.world.remote

/-- A page is written to its place in the folder of a package. -/
def placePage (name file shown body : String) : Pkg (Option String) := do
  let dest := Path.join (packageFolder name) file.toList
  act (Act.alterPartly (·.ensureFolders (Path.parent dest)))
  act (Act.alter (·.write dest (Text.encode body.toList)))
  act (Act.say ("✓ Downloaded: " ++ shown))
  return some file

/-- Writing a page fails for no reason of the network. -/
theorem leads_placePage (name file shown body : String) (d : Depot) : Leads (placePage name file shown body) d
      (fun result e => result = some file ∧ SameIndex d e ∧ ∃ c, Disk.Grown d.world.disk c ∧
        c.write (Path.join (packageFolder name) file.toList) (Text.encode body.toList) = .ok e.world.disk)
      fun reason _ => ∃ f, reason = .fault f ∧ f.isKind .request = false := by
  refine .bind (Pkg.leads_act (Act.leads_alterPartly (fun _ => ?_) fun f failed => ?_))
  · refine .bind (Pkg.leads_act (Act.leads_alter (fun e written => ?_) fun f failed => ?_))
    · refine .bind (leads_say (.pure ⟨rfl, ⟨rfl, rfl⟩, _, ?_, written⟩))
      dsimp only
      exact Disk.grown_ensureFolders _ _
    · exact ⟨f, rfl, Disk.not_request_of_write failed⟩
  · obtain ⟨e, q, stopped⟩ := Disk.exists_makeFolder_of_fault failed
    exact ⟨f, rfl, Disk.not_request_of_makeFolder stopped⟩

theorem leads_download_loaded (name : String) (entry : Json) (d : Depot) : Leads (download name (packageFolder name) entry) d
      (fun result e => SameIndex d e ∧ Loaded d.world.remote name entry result d.world.disk e.world.disk)
      (ByFault fun _ => True) := by
  refine .bind (leads_check trivial fun shown shownOf => ?_)
  have bytes : bytesAt? d.world.remote name entry =
      (pageText? d.world.remote (name ++ "/" ++ shown).toList).map fun body => Text.encode body.toList := by
    unfold bytesAt?
    rw [shownOf]
  refine .tryCatch (.bind (Pkg.leads_act ((leads_page _ d.world).mono ?_ ?_)))
  · rintro body - ⟨rfl, there⟩
    have same := untouched_asked (name ++ "/" ++ shown).toList d.world
    rw [there] at bytes
    cases entry with
    | str file =>
      refine (leads_placePage name file shown body _).mono ?_ ?_
      · rintro result e ⟨rfl, index, c, grown, written⟩
        exact ⟨⟨index.index, index.remote.trans same.remote⟩, .had bytes grown written⟩
      · rintro - e ⟨f, rfl, other⟩
        dsimp only
        rw [other]
        exact leads_fail trivial
    | _ => exact .throw (leads_fail trivial)
  · -- only a page that the network does not have is a fault of the network, and it leaves the disk alone
    rintro - - ⟨rfl, none, f, rfl, kind⟩
    rw [none] at bytes
    dsimp only
    rw [kind]
    exact .bind (leads_say (.pure ⟨⟨rfl, rfl⟩, .missing bytes⟩))

theorem leads_downloads (name : String) (entries : List Json) (d : Depot) :
    Leads (entries.mapM (download name (packageFolder name))) d
      (fun results e => SameIndex d e ∧ LoadedAll d.world.remote name entries results d.world.disk e.world.disk)
      (ByFault fun _ => True) := by
  induction entries generalizing d with
  | nil => exact .pure ⟨⟨rfl, rfl⟩, .nil _⟩
  | cons entry entries ih =>
    rw [mapM_cons]
    refine (leads_download_loaded name entry d).andThen fun result c h => ?_
    obtain ⟨same, first⟩ := h
    refine (ih c).andThen fun results e h => .pure ?_
    obtain ⟨same', rest⟩ := h
    rw [same.remote] at rest
    exact ⟨⟨same'.index.trans same.index, same'.remote.trans same.remote⟩, .cons first rest⟩

def fileEntries (data : Json) : Except Fault (List Json) := do (← data.need "files").elements

theorem leads_loadFiles_loaded (name : String) (data : Json) (d : Depot) : Leads (loadFiles name (packageFolder name) data) d
      (fun loaded e => SameIndex d e ∧ IsMain e.world.disk (packageFolder name) loaded.1 ∧
        ∃ entries results, fileEntries data = .ok entries ∧
          LoadedAll d.world.remote name entries results d.world.disk e.world.disk ∧ loaded.2 = results.filterMap id)
      (ByFault fun _ => True) := by
  refine .bind (leads_check trivial fun entries all => ?_)
  refine (leads_downloads name entries d).andThen fun results e h => ?_
  refine .bind (leads_check trivial fun main _ => .bind (leads_check trivial fun base _ => ?_))
  refine .bind (Pkg.leads_act ((leads_findMain _ _ _ _).mono ?_ fun _ _ => .mono fun _ => trivial))
  rintro found - ⟨rfl, known⟩
  cases found with
  | none => exact leads_fail trivial
  | some main => exact .pure ⟨h.1, known main rfl, entries, results, all, h.2, rfl⟩

def record (version : Json) (main language : String) (files : List String) : Json :=
  .obj [("version", version), ("main", .str (withoutExtension main)), ("language", .str language),
    ("files", .arr (files.map .str))]

theorem leads_keep {post : Unit → Depot → Prop} (go : ∀ e, Kept d index e → post () e) :
    Leads saveIndex { d with index } post (ByFault fun _ => True) :=
  (leads_saveIndex d index).mono (fun _ => go) fun _ _ => .mono fun _ => trivial

theorem Kept.file_eq (kept : Kept d index e) :
    ∃ text mode, e.index.toText = .ok text ∧ e.world.disk.file? indexPlace = some (Text.encode text, mode) := by
  obtain ⟨text, mode, written, items⟩ := kept.item?_eq
  refine ⟨text, mode, kept.memory ▸ written, ?_⟩
  simp [Disk.file?, items]

/-- What is in memory is what a new depot reads. -/
theorem Kept.stored_eq (kept : Kept d index e) (whole : index.WellFormed) : stored e = index := by
  obtain ⟨text, mode, written, items⟩ := kept.item?_eq
  rw [Pkg.stored_eq, items, if_pos rfl, storedAt, indexOf_written whole written]
  rfl

/-- A file of a package still stands after the index has been saved. -/
theorem Kept.stands (kept : Kept d index e) (orderly : Path.Orderly file)
    (stood : Stands remote name d.world.disk file) : Stands remote name e.world.disk file := by
  obtain ⟨bytes, mode, known, there⟩ := stood
  refine ⟨bytes, mode, known, (Disk.file?_congr ?_).trans there⟩
  obtain ⟨text, mode, -, items⟩ := kept.item?_eq
  rw [items, if_neg]
  intro same
  exact orderly.names_ne_nil (by simpa [home, indexPlace] using congrArg (List.drop 2) same)

theorem leads_enterPackage_kept (name language : String) (data : Json) (main : String) (files : List String) (d : Depot) :
    Leads (enterPackage name language data main files) d (fun _ e => ∃ version index, data.need "version" = .ok version ∧
        d.index.setField name (record version main language files) = .ok index ∧ Kept d index e ∧
        ∃ front, e.world.output = front ++ ("Main file: " ++ main ++ "\n")) (ByFault fun _ => True) := by
  refine .bind (leads_check trivial fun version versionOf => .bind (.get (.bind (leads_check trivial fun index changed => ?_))))
  refine .bind (.modify (.bind (leads_keep fun e kept => .bind (leads_check trivial fun shown _ => ?_))))
  exact .bind (leads_say (leads_say ⟨version, index, versionOf, changed, ⟨kept.memory, kept.remote, kept.file⟩, _, rfl⟩))

/-- A package is installed: files have been loaded into its folder, and they are what has been entered. Its main file is one
that was found, and it is told. -/
inductive Recorded (name : String) (d : Depot) : Depot → Prop
  | intro {index data version index' : Json} {entries : List Json} {results : List (Option String)} {main : String}
      {start : Disk} {c e : Depot} (offer : offered? d.world.remote = some index) (found : index.need name = .ok data)
      (all : fileEntries data = .ok entries) (loaded : LoadedAll d.world.remote name entries results start c.world.disk)
      (versionOf : data.need "version" = .ok version) (same : SameIndex d c)
      (changed : d.index.setField name
        (record version main (languageAt d.world.remote name) (results.filterMap id)) = .ok index')
      (kept : Kept c index' e) (found' : IsMain c.world.disk (packageFolder name) main)
      (told : ∃ front, e.world.output = front ++ ("Main file: " ++ main ++ "\n")) : Recorded name d e

theorem Recorded.wellFormed (recorded : Recorded name d e) (whole : d.index.WellFormed) : e.index.WellFormed := by
  obtain ⟨offer, found, -, -, versionOf, -, changed, kept, -, -⟩ := recorded
  rw [kept.memory]
  exact whole.setField (wellFormed_entry (((wellFormed_of_offered? offer).need found).need versionOf) _ _ _) changed

theorem leads_installInto_recorded (undone : Undone d e) (offer : offered? d.world.remote = some index)
    (found : index.need name = .ok data) :
    Leads (installInto name (languageAt d.world.remote name) (packageFolder name) data) e (fun _ => Recorded name d)
      (ByFault fun _ => True) := by
  rw [installInto_eq]
  refine .bind (Pkg.leads_act (Act.leads_alterPartly (fun _ => ?_) fun _ _ => trivial))
  refine (leads_loadFiles_loaded name data _).andThen fun loaded c h => ?_
  obtain ⟨main, files⟩ := loaded
  obtain ⟨same, found', entries, results, all, loadedAll, rfl⟩ := h
  have index : c.index = d.index := same.index.trans (congrArg Holding.index (undone.holding_eq fun _ _ => id))
  refine (leads_enterPackage_kept _ _ _ _ _ c).imp fun _ t h => ?_
  obtain ⟨version, index', versionOf, changed, kept, told⟩ := h
  rw [index] at changed
  rw [undone.remote] at loadedAll
  exact .intro offer found all loadedAll versionOf ⟨index, same.remote.trans undone.remote⟩ changed kept found' told

theorem leads_install_recorded (unknown : d.index.hasName name = .ok false) :
    Leads (install name) d (fun _ => Recorded name d) (ByFault fun _ => True) := by
  refine leads_install_cases (fun _ => True) (fun _ _ => trivial) (fun named => ?_)
    (fun _ _ _ _ undone offer found => leads_installInto_recorded undone offer found) fun _ _ => ?_
  · cases unknown.symm.trans named
  · exact Pkg.leads_act ((leads_clearFolder _ _).mono (fun _ _ _ => trivial) fun _ _ => .mono fun _ => trivial)

end

/-- The file of a package that is listed as a text is one of those that its offer lists. -/
theorem mem_listed_of_fileEntries {name : String} {entries : List Json} (offer : offered? remote = some index)
    (found : index.need name = .ok data) (all : fileEntries data = .ok entries) (member : .str file ∈ entries) :
    file ∈ listed remote name := by
  obtain ⟨files, filesOf, elements⟩ := Json.exists_of_bind_eq_ok all
  exact mem_listed offer found filesOf elements member

theorem languageAt_eq (remote : Table Reply) (name : String) :
    languageAt remote name = "python" ∨ languageAt remote name = "guython" := by
  unfold languageAt
  dsimp only
  split
  · rename_i either
    simpa using either
  · exact .inl rfl

/-- A depot in which nothing is installed. Its network offers a package of four files: one in a folder, one that cannot be
had, and one that is listed twice. -/
def offering : Depot where
  world := {
    disk := [("packages", .folder [])]
    remote := [("index.json", .page 200
        "\x7b\"p\": \x7b\"version\": \"2\", \"files\": [\"main.gy\", \"sub/b.gy\", \"gone.gy\", \"main.gy\"]\x7d\x7d"),
      ("p/main.gy", .page 200 "x=1"), ("p/sub/b.gy", .page 200 "y=2")] }

end Pkg

end LineScript
