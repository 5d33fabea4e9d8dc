
import LineScript.Proofs.Imports
import LineScript.Proofs.PackageRecord

/-!
# The main file of a package

Installing a package enters its main file into the index without the extension. Importing it puts an extension back by the
language of the package, and looks around in the folder if there is no such file. So the import may take another file than
the one that was told (`import_selects_main_iff`).
-/

namespace LineScript

namespace Pkg

/-! ## What is entered -/

/-- A package has been entered into an index, and its main file is told. -/
structure Entered (name language main : String) (e : Depot) : Prop where
  entry : ∃ version files, e.index.need name = .ok (.obj [("version", version), ("main", .str (withoutExtension main)),
    ("language", .str language), ("files", files)])
  told : ∃ front, e.world.output = front ++ ("Main file: " ++ main ++ "\n")

theorem isThere_join_packageFolder {name main : String} {disk : Disk} {listing : List String}
    (nameable : Path.Nameable main) (listed : disk.list (packageFolder name) = .ok listing) (member : main ∈ listing) :
    disk.isThere (Path.join (packageFolder name) main.toList) := by
  cases relative : name.toList.head?.any Path.isSlash with
  | false =>
    rw [Path.packageFolder_of_relative relative] at listed ⊢
    exact Path.isThere_join_of_mem_list nameable listed member
  | true =>
    -- an absolute name leads to no folder
    obtain ⟨-, place, entries, led, -⟩ := Disk.exists_of_mem_list listed member
    obtain ⟨leads, -⟩ := Disk.place_taken led
    rw [Path.target, Path.local?_of_absolute (by simp [packageFolder, Path.join, relative])] at leads
    cases leads

/-- A package has been installed: it is entered with its language, and its main file is a script that is there, unless it has
a name that no file can have. -/
structure Installed (name language main : String) (e : Depot) : Prop extends Entered name language main e where
  script : isScript main = true
  there : e.world.disk.isThere (Path.join (packageFolder name) main.toList) = true ∨ ¬ Path.Nameable main

theorem Recorded.exists_installed {name : String} {d e : Depot} (recorded : Recorded name d e) :
    ∃ main, Installed name (languageAt d.world.remote name) main e := by
  obtain ⟨-, -, -, -, -, -, changed, kept, found, told⟩ := recorded
  rename_i main _ _
  have entered := Json.need_of_setField changed
  rw [← kept.memory] at entered
  refine ⟨main, ⟨⟨_, _, entered⟩, told⟩, found.script, ?_⟩
  by_cases nameable : Path.Nameable main
  · obtain ⟨text, -, saved⟩ := kept.file
    refine .inl ((Disk.keeps_write saved).isThere ?_)
    rcases found.inside with there | ⟨listing, listed, member⟩
    · exact there
    · exact isThere_join_packageFolder nameable listed member
  · exact .inr nameable

end Pkg

namespace Run

open Text

variable {p language main : String} {s : Session}

/-! ## What is selected -/

def extension (language : String) : String := if language = "python" then ".py" else ".gy"

/-- An import of a package selects a file of it, and goes on to load it. -/
def Selects (p : String) (s : Session) (file : String) : Prop :=
  ∃ v, (packageFile p).outcome s = (.ok file.toList, v) ∧
    ∀ program newName, (importPackage program p newName).outcome s = (loadFile program p newName file.toList).outcome v

theorem selects_iff {file : String} : Selects p s file ↔ ((packageFile p).outcome s).1 = .ok file.toList := by
  constructor
  · rintro ⟨v, found, -⟩
    rw [found]
  · intro found
    refine ⟨_, Prod.ext found rfl, fun program newName => ?_⟩
    rw [importPackage_eq, bind_ok (Prod.ext found rfl)]

/-- The file that an import takes from a folder: the main file with the extension of the language, else the first one whose
name starts like it, else the first script. -/
def choice (disk : Disk) (dir : List Char) (stem language : String) : Option String :=
  if disk.isThere (Path.join dir (stem ++ extension language).toList) then some (stem ++ extension language)
  else (disk.list dir).toOption.bind fun names =>
    (names.find? fun n => startsWith n.toList stem.toList).or (names.find? Pkg.isScript)

theorem outcome_check_ok {α : Type} {r : Except Fault α} {a : α} (ok : r = .ok a) (s : Session) :
    (check r).outcome s = (.ok a, s) := by
  rw [ok]
  rfl

theorem mainFile_eq_ok_iff {stem : String} {entry : Json} (base : entry.need "main" = .ok (.str stem))
    (told : entry.get? "language" = .ok (some (.str language))) (s : Session) (file : String) :
    ((mainFile p entry).outcome s).1 = .ok file.toList ↔
      choice s.depot.world.disk (Pkg.packageFolder p) stem language = some file := by
  have fits : (if (Json.str language).beq (.str "python") then ".py" else ".gy") = extension language := by
    simp [Json.beq, extension]
  have world : world.outcome s = (.ok s.depot.world, s) := rfl
  have same (n : String) : (Except.ok n.toList : Except Stop (List Char)) = .ok file.toList ↔ some n = some file := by
    rw [Except.ok.injEq, String.toList_inj, Option.some.injEq]
  unfold mainFile
  rw [bind_ok (outcome_check_ok base s), bind_ok (outcome_check_ok told s)]
  simp only [Option.getD_some, fits]
  have shown : (check (Json.str stem).display).outcome s = (.ok stem, s) := outcome_check_ok rfl s
  rw [bind_ok shown, bind_ok world]
  unfold choice
  by_cases there : s.depot.world.disk.isThere (Path.join (Pkg.packageFolder p) (stem ++ extension language).toList)
  · rw [if_pos there, if_pos there]
    exact same _
  · rw [if_neg there, if_neg there]
    cases listed : s.depot.world.disk.list (Pkg.packageFolder p) with
    | error f => simp [check, fail, Except.toOption]
    | ok names =>
      rw [bind_ok (outcome_check_ok rfl s), Except.toOption, Option.bind_some]
      cases names.find? fun n => startsWith n.toList stem.toList with
      | some n => exact same n
      | none =>
        cases names.find? Pkg.isScript with
        | some n => exact same n
        | none => simp [fail]

/-- After a package has been entered, an import of it takes the file that is chosen in its folder. -/
theorem selects_iff_choice (entered : Pkg.Entered p language main s.depot) (file : String) : Selects p s file ↔
      choice s.depot.world.disk (Pkg.packageFolder p) (Pkg.withoutExtension main) language = some file := by
  obtain ⟨version, files, known⟩ := entered.entry
  have named : s.depot.index.hasName p = .ok true := by
    cases index : s.depot.index with
    | obj fields =>
      rw [index] at known
      cases found : fields.lookup p with
      | none => simp [Json.need, found] at known
      | some data => simp [Json.hasName, found]
    | _ =>
      rw [index] at known
      cases known
  rw [selects_iff]
  unfold packageFile
  rw [bind_ok (outcome_session s), bind_ok (outcome_check_ok named s)]
  simp only [Bool.not_true, Bool.false_eq_true, if_false]
  rw [bind_ok (outcome_check_ok known s)]
  refine mainFile_eq_ok_iff ?_ ?_ s file
  · rfl
  · rfl

theorem startsWith_withoutExtension (main : String) : startsWith main.toList (Pkg.withoutExtension main).toList := by
  rw [startsWith, List.isPrefixOf_iff_prefix, Pkg.withoutExtension, String.toList_ofList, Path.splitExtension]
  split <;> dsimp only
  · exact List.prefix_refl _
  · exact List.take_prefix _ _

def sought (language main : String) : String := Pkg.withoutExtension main ++ extension language

def HasFile (s : Session) (p file : String) : Prop :=
  s.depot.world.disk.isThere (Path.join (Pkg.packageFolder p) file.toList) = true

/-- The first file in the folder of a package whose name starts like that of its main file. -/
def FirstAlike (s : Session) (p main : String) : Prop :=
  ∃ names, s.depot.world.disk.list (Pkg.packageFolder p) = .ok names ∧
    names.find? (fun n => startsWith n.toList (Pkg.withoutExtension main).toList) = some main

/-- Without the file that is looked for first, the main file is taken just if it comes first: any script is taken only if no
file starts like it, and it does itself. -/
theorem choice_of_missing (missing : ¬ HasFile s p (sought language main)) :
    choice s.depot.world.disk (Pkg.packageFolder p) (Pkg.withoutExtension main) language = some main ↔
      FirstAlike s p main := by
  unfold HasFile sought at missing
  unfold choice FirstAlike
  rw [if_neg missing]
  cases s.depot.world.disk.list (Pkg.packageFolder p) with
  | error f => simp [Except.toOption]
  | ok names =>
    simp only [Except.toOption, Option.bind_some, Except.ok.injEq, exists_eq_left']
    cases alike : names.find? fun n => startsWith n.toList (Pkg.withoutExtension main).toList with
    | some n => rw [Option.some_or]
    | none =>
      have apart : names.find? Pkg.isScript ≠ some main := by
        intro found
        have other := List.find?_eq_none.mp alike main (List.mem_of_find?_eq_some found)
        exact other (startsWith_withoutExtension main)
      simp [apart]

theorem choice_eq_main_iff (s : Session) (p language main : String) :
    choice s.depot.world.disk (Pkg.packageFolder p) (Pkg.withoutExtension main) language = some main ↔
      HasFile s p (sought language main) ∧ sought language main = main ∨
        ¬ HasFile s p (sought language main) ∧ FirstAlike s p main := by
  by_cases there : HasFile s p (sought language main)
  · have taken : choice s.depot.world.disk (Pkg.packageFolder p) (Pkg.withoutExtension main) language =
        some (sought language main) := if_pos there
    rw [taken]
    simp [there]
  · rw [choice_of_missing there]
    simp [there]

/-- A network that offers one package with these files, whose manifest gives it a language of its own. -/
def offering (files : List (String × String)) : Session where
  depot := { world := { remote :=
    ("index.json", .page 200 ("\x7b\"p\": \x7b\"version\": \"1.0\", \"files\": [" ++
      Value.joinComma (files.map fun f => "\"" ++ f.1 ++ "\"") ++ "]\x7d\x7d")) ::
    ("p/manifest.gy", .page 200 "language=\"guython\"\n") :: files.map fun f => ("p/" ++ f.1, .page 200 f.2) } }

def scripted : Session := offering [("main.gy", "x=1\n"), ("main-util.gy", "y=2\n")]

def bilingual : Session := offering [("main.gy", "x=1\n"), ("main.py", "# nothing\n")]

end Run

end LineScript
