
import LineScript.Proofs.Footprint
import LineScript.Proofs.RunSteps

/-!
# What an import binds

A script is imported by running it with variables of its own, which become the members of a variable. They are pinned when
the script first imports a script itself: from there on it works on a copy, and what it assigns is lost to its importer.
Nothing unpins them.
-/

namespace LineScript.Run

open Text Line List

variable {s u t v : Session} {p a : String} {path text : List Char} {lines : List (List Char)}

variable {α β : Type}

/-! ## The text of an import -/

def importArgs (p a : String) : List Char := p.toList ++ ' ' :: 'a' :: 's' :: ' ' :: a.toList

def importCode (p a : String) : List Char := "gpd import ".toList ++ importArgs p a

/-- A name that stands as one word in a line: not empty, with neither white space nor quote marks in it. -/
structure OneWord (x : String) : Prop where
  nonempty : x.toList ≠ []
  solid : ∀ c ∈ x.toList, isBlank c = false
  unmarked : ∀ c ∈ x.toList, isMark c = false

theorem OneWord.stripQuotes {x : String} (h : OneWord x) : String.ofList (stripQuotes x.toList) = x := by
  have same : Text.stripQuotes x.toList = x.toList := trim_of_solid h.unmarked
  rw [same, String.ofList_toList]

section

variable {p a : String} (hp : OneWord p) (ha : OneWord a)

include hp ha

theorem not_mem_importCode {c : Char} (mark : isMark c) : c ∉ importCode p a := by
  intro h
  have plain : isMark c = false := by
    have texts : ∀ d ∈ "gpd import ".toList ++ [' ', 'a', 's', ' '], isMark d = false :=
      all_iff_forall_prop.mp (by decide)
    rcases mem_append.mp h with h | h
    · exact texts c (mem_append_left _ h)
    · rcases mem_append.mp h with h | h
      · exact hp.unmarked c h
      · rcases mem_append.mp (show c ∈ [' ', 'a', 's', ' '] ++ a.toList from h) with h | h
        · exact texts c (mem_append_right _ h)
        · exact ha.unmarked c h
  rw [mark] at plain
  cases plain

theorem of_importCode (inLoop skipped : Bool) : Command.of inLoop skipped (importCode p a) = .package := by
  have noAssign : Command.isInputAssign (importCode p a) = false := by
    have double := contains_eq_false (by decide : '"' ∈ "=input\"".toList) (not_mem_importCode hp ha (by decide))
    have single := contains_eq_false (by decide : '\x27' ∈ "=input '".toList) (not_mem_importCode hp ha (by decide))
    rw [Command.isInputAssign, Command.holds, Command.holds, double, single]
    rfl
  have shape : importCode p a = 'g' :: 'p' :: 'd' :: ' ' :: ("import ".toList ++ importArgs p a) := rfl
  rw [shape] at noAssign ⊢
  generalize "import ".toList ++ importArgs p a = rest at noAssign ⊢
  have noInput : Command.isInput ('g' :: 'p' :: 'd' :: ' ' :: rest) = false := rfl
  have others : ∀ word ∈ ["eval ", "alias ", "else", "exit_"],
      Command.starts ('g' :: 'p' :: 'd' :: ' ' :: rest) word = false := by
    intro word hw
    simp only [mem_cons, not_mem_nil, or_false] at hw
    rcases hw with rfl | rfl | rfl | rfl <;> rfl
  have first : Command.starts ('g' :: 'p' :: 'd' :: ' ' :: rest) "gpd " := rfl
  unfold Command.of
  simp only [noAssign, noInput, others, first, mem_cons, true_or, or_true, Bool.false_eq_true, if_false, if_true]

theorem importCommand_importArgs (program : ProgramRunner) :
    importCommand program (importArgs p a) = (do let _ ← importPackage program p (some a)) := by
  have args : wordsMax 2 (importArgs p a) = [p.toList, ['a', 's'], a.toList] := by
    have last := wordsMax_zero ha.nonempty ha.solid []
    rw [append_nil] at last
    have as : wordsMax 1 (['a', 's'] ++ ' ' :: a.toList) = ['a', 's'] :: wordsMax 0 a.toList :=
      wordsMax_append (by decide) (all_iff_forall_prop.mp (by decide)) (by decide) 0
    have first : wordsMax 2 (importArgs p a) = p.toList :: wordsMax 1 (['a', 's'] ++ ' ' :: a.toList) :=
      wordsMax_append hp.nonempty hp.solid (by decide) 1
    rw [first, as, last]
  have filled : (importArgs p a).isEmpty = false := (dropWhile_word hp.nonempty hp.solid _).2
  unfold importCommand
  rw [filled, if_neg Bool.false_ne_true, args]
  dsimp only
  rw [if_pos (by decide), hp.stripQuotes, ha.stripQuotes]

theorem packageCommand_importCode (program : ProgramRunner) :
    packageCommand program ((importCode p a).drop 4) =
      recover (do let _ ← importPackage program p (some a)) fun f =>
        match f with
        | .runtime c => Act.say ("GPD Error: " ++ c.message)
        | f => Act.say ("Unexpected error: " ++ f.message) := by
  have words : wordsMax 1 ((importCode p a).drop 4) = ["import".toList, importArgs p a] := by
    have rest : wordsMax 0 (importArgs p a) = [importArgs p a] := wordsMax_zero hp.nonempty hp.solid _
    have first : wordsMax 1 ("import".toList ++ ' ' :: importArgs p a) = "import".toList :: wordsMax 0 (importArgs p a) :=
      wordsMax_append (by decide) (all_iff_forall_prop.mp (by decide)) (by decide) 0
    rw [← rest]
    rfl
  have action : packageAction program (String.ofList (lower "import".toList)) (importArgs p a) =
      importCommand program (importArgs p a) := rfl
  rw [← importCommand_importArgs hp ha program]
  unfold packageCommand
  rw [words]
  rfl

end

/-! ## Importing a script -/

/-- Two sessions are one, and differ from an earlier one in the world only. -/
def OnlyWorld (s t : Session) : Prop := t = { s with depot := { s.depot with world := t.depot.world } }

def packageFile (p : String) : Run (List Char) := do
  let index := (← session).depot.index
  if !(← check (index.hasName p)) then fail (.package ("Package not installed: " ++ p))
  let data ← check (index.need p)
  mainFile p data

def readPackageFile (p : String) (file : List Char) : Run (List Char) :=
  act (Act.readText (Path.join (Pkg.packageFolder p) file))

/-- An installed package is the script of these lines, which are read between the two sessions. -/
def ReadsScript (p : String) (lines : List (List Char)) (s u : Session) : Prop :=
  ∃ file v text, (packageFile p).outcome s = (.ok file, v) ∧ endsWith file ".py".toList = false ∧
    (readPackageFile p file).outcome v = (.ok text, u) ∧ Text.lines text = lines

def blank (s : Session) : Session := { s with vars := [], exported := none }

/-- Nothing but a warning comes of looking for the main file, and not even that if there is none. -/
theorem leads_mainFile (p : String) (data : Json) (s : Session) :
    Leads (mainFile p data) s (fun _ t => Shows s t) fun _ t => t = s := by
  have warned : ∀ (text : String) (n : List Char),
      Leads (do Act.say text; return n : Run (List Char)) s (fun _ t => Shows s t) fun _ t => t = s :=
    fun text _ => .bind (leads_say (.pure (shows_said text s)))
  refine .bind (leads_check (fun base _ => ?_) fun _ _ => rfl)
  refine .bind (leads_check (fun language _ => ?_) fun _ _ => rfl)
  refine .bind (leads_check (fun shown _ => ?_) fun _ _ => rfl)
  refine .bind (leads_world ?_)
  generalize shown ++ _ = file
  dsimp only
  split
  · exact .pure (Shows.refl s)
  · refine .bind (leads_check (fun names _ => ?_) fun _ _ => rfl)
    -- a file whose name starts like that of the main file, then any script
    split
    · refine .bind (.pure ?_)
      split
      · exact warned _ _
      · split
        · exact warned _ _
        · exact .throw rfl
    · split
      · refine .bind (.pure ?_)
        dsimp only
        split
        · exact warned _ _
        · exact .throw rfl
      · exact .bind (.throw rfl)

theorem leads_packageFile (p : String) (s : Session) :
    Leads (packageFile p) s (fun _ t => Shows s t ∧ t.depot.index.hasName p = .ok true) fun _ t => t = s := by
  refine .bind (leads_session ?_)
  refine .bind (leads_check (fun there named => ?_) fun _ _ => rfl)
  cases there with
  | false => exact .throw rfl
  | true =>
    refine .bind (leads_check (fun data _ => ?_) fun _ _ => rfl)
    refine (leads_mainFile p data s).imp fun _ t shown => ?_
    obtain ⟨_, rfl⟩ := shown
    exact ⟨⟨_, rfl⟩, named⟩

theorem ReadsScript.shows (reads : ReadsScript p lines s u) : Shows s u := by
  obtain ⟨file, v, text, found, -, read, -⟩ := reads
  obtain ⟨rfl, -⟩ := (leads_readText _).result read
  exact ((leads_packageFile p s).result found).1

/-- What a script leaves is what it is known by if that is pinned, and its variables otherwise. -/
def members (t : Session) : Env := t.exported.getD t.vars

/-- The session of the importer once a script has ended that was imported under a name. -/
def bound (a : String) (s t : Session) : Session :=
  { t with
    vars := s.vars.set a (.record (members t))
    exported := s.exported.or (some (s.vars.set a (.record (members t)))) }

theorem bound_of_shows (h : Shows s v) (a : String) : bound a v u = bound a s u := by
  obtain ⟨_, rfl⟩ := h
  rfl

def runText (program : ProgramRunner) (path : List Char) : Run Unit := do
  program (Text.lines (← act (Act.readText path)))

/-- However a script ends, its importer goes on with what it had and with what the script has left. -/
theorem outcome_runScript_eq (program : ProgramRunner) (path : List Char) (a : String) (s : Session) :
    (runScript program path a).outcome s =
      (((runText program path).outcome (blank s)).1, bound a s ((runText program path).outcome (blank s)).2) := by
  have emptied : (adjust fun s => { s with vars := [], exported := none }).outcome s = (.ok (), blank s) := rfl
  unfold runScript
  rw [bind_ok (outcome_session s)]
  dsimp only
  rw [bind_ok emptied, outcome_ensuring]
  unfold bound members runText
  rw [Table.set_set]

section

variable {program : ProgramRunner} {p : String} {lines : List (List Char)} {s u t : Session}

/-- A script runs with no variables, and ends with what the importer had and the members. -/
theorem outcome_runScript (read : (act (Act.readText path)).outcome s = (.ok text, u))
    (ran : (program (Text.lines text)).outcome (blank u) = (.ok (), t)) (a : String) :
    (runScript program path a).outcome s = (.ok (), bound a s t) := by
  have read' : (act (Act.readText path)).outcome (blank s) = (.ok text, blank u) := by
    unfold act at read ⊢
    rw [outcome_pkg] at read ⊢
    obtain ⟨same, rfl⟩ := Prod.mk.inj read
    exact Prod.ext same rfl
  have whole : (runText program path).outcome (blank s) = (.ok (), t) := by
    rw [runText, bind_ok read', ran]
  rw [outcome_runScript_eq, whole]

theorem outcome_checked {α : Type} {r : Except Fault α} {a : α} (ok : r = .ok a) :
    (act (Act.check r)).outcome s = (.ok a, s) := by
  rw [ok]
  rfl

theorem outcome_importScript (named : s.depot.index.hasName p = .ok true)
    (read : (act (Act.readText path)).outcome s = (.ok text, u))
    (ran : (program (Text.lines text)).outcome (blank u) = (.ok (), t)) (a : String) :
    (importScript program p path a).outcome s = (.ok (), said ("Imported Guython package: " ++ p) (bound a s t)) := by
  refine outcome_recover_ok ?_ _
  rw [bind_ok (outcome_session s), bind_ok (outcome_checked named)]
  rw [Bool.not_true, if_neg Bool.false_ne_true, bind_ok (outcome_runScript read ran a)]
  exact outcome_say _ _

/-- Loads a file of a package as what it is, under another name if one is given. -/
def loadFile (program : ProgramRunner) (p : String) (newName : Option String) (file : List Char) : Run Value := do
  let path := Path.join (Pkg.packageFolder p) file
  let bound := match newName with
    | some a => if a.isEmpty then p else a
    | none => p
  if endsWith file ".py".toList then importLibrary p path bound
  else
    importScript program p path bound
    return .nothing

theorem importPackage_eq (program : ProgramRunner) (p : String) (newName : Option String) :
    importPackage program p newName = packageFile p >>= loadFile program p newName := by
  unfold importPackage packageFile
  simp only [bind_assoc]
  congr 1
  funext s
  congr 1
  funext there
  cases there with
  | false => rfl
  | true =>
    simp only [Bool.not_true, Bool.false_eq_true, if_false, bind_assoc]
    rfl

theorem outcome_importPackage (reads : ReadsScript p lines s u) (ran : (program lines).outcome (blank u) = (.ok (), t))
    (nonempty : a.isEmpty = false) : (importPackage program p (some a)).outcome s =
      (.ok .nothing, said ("Imported Guython package: " ++ p) (bound a s t)) := by
  obtain ⟨file, v, text, found, script, read, rfl⟩ := reads
  obtain ⟨shown, named⟩ := (leads_packageFile p s).result found
  rw [importPackage_eq, bind_ok found]
  unfold loadFile
  simp only [nonempty, script, Bool.false_eq_true, if_false]
  rw [bind_ok (outcome_importScript named read ran a), bound_of_shows shown]
  rfl

end

/-! ## What a script is known by -/

/-- What a script is known by stays what it is once it is pinned. -/
def Pinned (s t : Session) : Prop := ∀ e, s.exported = some e → t.exported = some e

theorem free_pinned : Free Pinned where
  refl _ _ h := h
  trans hst htu e h := htu e (hst e h)
  outside _ _ _ h := h
  vars _ _ _ h := h
  number _ _ _ h := h
  aliased _ _ _ _ _ h := h
  shown _ _ _ h := h
  loops _ _ _ _ h := h
  defined _ _ _ _ _ h := h
  blocks _ _ _ _ h := h

/-- An import gives back what the importer is known by, and pins it if it is not yet. -/
theorem pinned_runScript (program : ProgramRunner) (path : List Char) (a : String) :
    Moves Pinned (runScript program path a) := by
  intro s e pinned
  unfold runScript
  rw [bind_ok (outcome_session s), bind_ok (outcome_adjust _ s), outcome_ensuring, pinned]
  rfl

theorem pinned_runner (depth : Nat) (line : List Char) (importing : Bool) (n : Int) :
    Moves Pinned (runner depth line importing n) :=
  .runner free_pinned (fun _ _ _ h => h) (fun _ => pinned_runScript _) depth line importing n

/-- Watches that no line asks for a package. -/
def selfContained : Watch where
  forbids _ command _ := command = .package
  strict := false

def Unexported (s t : Session) : Prop := t.exported = s.exported

theorem free_unexported : Free Unexported where
  refl _ := rfl
  trans hst htu := Eq.trans htu hst
  outside _ _ := rfl
  vars _ _ := rfl
  number _ _ := rfl
  aliased _ _ _ _ := rfl
  shown _ _ := rfl
  loops _ _ _ := rfl
  defined _ _ _ _ := rfl
  blocks _ _ _ := rfl

section

variable {depth : Nat} {lines : List (List Char)} {s t : Session}

/-- A script none of whose lines asks for a package is known by its variables. -/
theorem exported_of_selfContained (alone : ((programWith (selfContained.runner depth) lines).outcome s).1 ≠ .error givenUp) :
    ((programWith (runner depth) lines).outcome s).2.exported = s.exported := by
  have jumps : IgnoresJumps Unexported := fun _ _ => rfl
  have watched : TracksLines True (Since Unexported s) Eq (selfContained.runner depth) (runner depth) :=
    Tracks.watchedRunner free_unexported rfl (fun _ _ => rfl) (Or.inr jumps) s depth
  have tracked := Tracks.programWith (shares_since free_unexported.toLax) watched
    (counts_since free_unexported.toStable jumps) lines s s ⟨rfl, rfl⟩
  rcases tracked with ⟨-, given⟩ | ⟨-, same, kept⟩
  · exact absurd given alone
  · rw [← same]
    exact kept

/-- What a script is known by after some of its lines is what it is known by when it ends. -/
theorem exported_of_reached {before : List (List Char)} (after : List (List Char)) {e : Env}
    (reached : (runLines (runner depth) 1 before).outcome { s with jumps := 0 } = (.ok none, v))
    (pinned : v.exported = some e) : ((programWith (runner depth) (before ++ after)).outcome s).2.exported = some e := by
  have start : patience = 999999 + 1 := rfl
  unfold programWith
  rw [bind_ok (outcome_adjust _ s), start, runFrom, drop_zero, runLines_append]
  simp only [bind_assoc]
  rw [bind_ok reached]
  -- what is left of the run starts in `v`
  have hL := free_pinned.toLax
  refine (Moves.of_tracks hL.refl fun first => ?_ : Moves Pinned _) v e pinned
  have hR : Shares (Since Pinned first) Eq := shares_since hL
  have hc : Counts (Since Pinned first) := counts_since hL.toStable fun _ _ _ h => h
  have hrun : TracksLines False (Since Pinned first) Eq (runner depth) (runner depth) :=
    Moves.tracks_runner hL.toStable (pinned_runner depth)
  refine .bind (.runLines hR hrun _ _) fun jump => ?_
  cases jump with
  | none => exact .closeAllLoops hR hrun
  | some target =>
    rw [bind_assoc]
    refine .bind (.takeJump hR.toComputes hc _ _) fun _ => ?_
    exact .bind (.runFrom hR hrun hc _ _ _) fun _ => .closeAllLoops hR hrun

end

/-! ## The variable of an import -/

theorem members_eq_vars_iff (t : Session) : members t = t.vars ↔ t.exported = none ∨ t.exported = some t.vars := by
  unfold members
  cases t.exported with
  | none => simp
  | some e => simp

/-- Code that imports a script binds its name to the members of the script, and nothing else. -/
theorem outcome_process_importCode {run : Runner} (hp : OneWord p) (ha : OneWord a)
    (unaliased : applyAliases s.aliases (importCode p a) = importCode p a) (reads : ReadsScript p lines s u)
    (ran : (programWith run lines).outcome (blank u) = (.ok (), t)) (indent : Nat) (importing : Bool) :
    (process run (importCode p a) indent importing).outcome s =
      (.ok (), said ("Imported Guython package: " ++ p) (bound a s t)) := by
  have nonempty : a.isEmpty = false := by
    rw [← Bool.not_eq_true, String.isEmpty_iff]
    rintro rfl
    exact ha.nonempty rfl
  unfold process
  rw [bind_ok (outcome_session s)]
  dsimp only
  rw [unaliased, of_importCode hp ha]
  unfold execute
  rw [packageCommand_importCode hp ha]
  refine outcome_recover_ok ?_ _
  rw [bind_ok (outcome_importPackage reads ran nonempty)]
  rfl

/-- **An import binds its name to what the script is known by.** These are the variables that its lines leave, just if they have
not been pinned to others by a request for a package in between. -/
theorem import_binds_members (depth : Nat) {p a : String} (hp : OneWord p) (ha : OneWord a) {s u t : Session}
    (unaliased : applyAliases s.aliases (importCode p a) = importCode p a) {lines : List (List Char)}
    (reads : ReadsScript p lines s u) (ran : (programWith (runner depth) lines).outcome (blank u) = (.ok (), t))
    (indent : Nat) (importing : Bool) :
    OnlyWorld s u ∧
    ∃ last, (process (runner depth) (importCode p a) indent importing).outcome s = (.ok (), last) ∧
      (∀ x, x ≠ a → last.vars.find? x = s.vars.find? x) ∧
      last.vars.find? a = some (.record (members t)) ∧
      (members t = t.vars ↔ t.exported = none ∨ t.exported = some t.vars) ∧
      (((programWith (selfContained.runner depth) lines).outcome (blank u)).1 ≠ .error givenUp → members t = t.vars) ∧
      ∀ before after v e, lines = before ++ after →
        (runLines (runner depth) 1 before).outcome { blank u with jumps := 0 } = (.ok none, v) →
        v.exported = some e → members t = e := by
  have shown : OnlyWorld s u := by
    obtain ⟨_, rfl⟩ := reads.shows
    rfl
  refine ⟨shown, _,
    outcome_process_importCode hp ha unaliased reads ran indent importing, ?_, ?_, members_eq_vars_iff t, ?_, ?_⟩
  · intro x other
    exact Table.find?_set_of_ne _ other.symm _
  · exact Table.find?_set_self _ _ _
  · intro alone
    have kept := exported_of_selfContained alone
    rw [ran] at kept
    exact (members_eq_vars_iff t).mpr (Or.inl kept)
  · rintro before after v e rfl reached pinned
    have kept := exported_of_reached after reached pinned
    rw [ran] at kept
    unfold members
    rw [kept]
    rfl

/-- What a script does that imports another one and then assigns a variable. -/
def nestingText : String := "gpd import q as b\ny=2\n"

/-- The script and the one that it imports are installed. -/
def nestedImports : Session :=
  let script (text : String) : Node := .folder [("main.gy", .file (text.toList.map fun c => c.toNat.toUInt8) 420)]
  let entry : Json := .obj [("version", .str "1.0"), ("main", .str "main"), ("language", .str "guython")]
  { vars := [("z", .int 5)]
    depot :=
      { index := .obj [("p", entry), ("q", entry)]
        world := { disk := [("packages", .folder [("p", script nestingText), ("q", script "x=1\n")])] } } }

theorem readsScript_nestedImports : ReadsScript "p" (Text.lines nestingText.toList) nestedImports nestedImports :=
  ⟨"main.gy".toList, nestedImports, nestingText.toList, rfl, by decide, rfl, rfl⟩

theorem import_binds_members_nestedImports :
    ∃ t last, (program (Text.lines nestingText.toList)).outcome (blank nestedImports) = (.ok (), t) ∧
      (process line (importCode "p" "a") 0 false).outcome nestedImports = (.ok (), last) ∧
      last.vars.find? "z" = some (.int 5) ∧ last.vars.find? "a" = some (.record (members t)) := by
  have package : OneWord "p" := ⟨by decide, all_iff_forall_prop.mp (by decide), all_iff_forall_prop.mp (by decide)⟩
  have name : OneWord "a" := ⟨by decide, all_iff_forall_prop.mp (by decide), all_iff_forall_prop.mp (by decide)⟩
  have ends : ((program (Text.lines nestingText.toList)).outcome (blank nestedImports)).1.isOk = true := by
    decide +kernel
  rcases ran : (program (Text.lines nestingText.toList)).outcome (blank nestedImports) with ⟨e | u, t⟩
  · rw [ran] at ends
    cases ends
  · obtain ⟨-, last, imported, others, bound, -⟩ := import_binds_members maxLevels
      package name rfl readsScript_nestedImports ran 0 false
    exact ⟨t, last, rfl, imported, others "z" (by decide), bound⟩

def memberNames (s : Session) (a : String) : List String :=
  match s.vars.find? a with
  | some (.record fields) => Table.names fields
  | _ => []

/-- The script leaves two variables, of which the import binds one. -/
theorem nested_import_loses_variable :
    ReadsScript "p" (Text.lines nestingText.toList) nestedImports nestedImports ∧
      ((program (Text.lines nestingText.toList)).outcome (blank nestedImports)).1.isOk = true ∧
      ((program (Text.lines nestingText.toList)).outcome (blank nestedImports)).2.vars.names = ["b", "y"] ∧
      memberNames ((process line (importCode "p" "a") 0 false).outcome nestedImports).2 "a" = ["b"] :=
  ⟨readsScript_nestedImports, by decide +kernel, by decide +kernel, by decide +kernel⟩

end LineScript.Run
