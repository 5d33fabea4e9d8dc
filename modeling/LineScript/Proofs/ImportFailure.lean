
import LineScript.Proofs.Imports

/-!
# What a failed import leaves

A library is bound last, when nothing can fail any more. For a script the name is bound first, and whatever stops the script,
the importer goes on with the variables that it had and with the name bound to what the script has left so far.
-/

namespace LineScript.Run

open Text

variable {p a : String} {t s : Session} {path file : List Char} {e : Stop}

variable {α : Type}

/-! ## Importing a library -/

/-- A library is read and looked at before anything is changed, and then nothing fails any more. -/
theorem leads_importLibrary (p : String) (path : List Char) (a : String) (s : Session) :
    Leads (importLibrary p path a) s (fun _ _ => True) fun _ t => t = s := by
  refine leads_reworded (.bind ((leads_readText path).mono ?_ fun _ _ failed => ?_)) _
  · rintro code _ ⟨rfl, -⟩
    refine .bind (leads_world ?_)
    split
    · exact .bind (.throw rfl)
    · exact .of_ok rfl trivial
  · obtain ⟨_, -, rfl, -⟩ := failed.exists_fault
    rfl

/-! ## Importing a script -/

def importName (p : String) : Option String → String
  | some a => if a.isEmpty then p else a
  | none => p

/-- A package is a script, which stops in this session. -/
def ScriptStops (program : ProgramRunner) (p : String) (s u : Session) : Prop :=
  ∃ file v e, (packageFile p).outcome s = (.ok file, v) ∧ endsWith file ".py".toList = false ∧
    (runText program (Path.join (Pkg.packageFolder p) file)).outcome (blank v) = (.error e, u)

section

variable {program : ProgramRunner} {p : String} {newName : Option String} {s t u v : Session} {e : Stop}

theorem ScriptStops.unique (h : ScriptStops program p s u) (h' : ScriptStops program p s v) : u = v := by
  obtain ⟨file, _, _, found, -, stopped⟩ := h
  obtain ⟨file', _, _, found', -, stopped'⟩ := h'
  obtain ⟨⟨⟩, rfl⟩ := Prod.mk.inj (found.symm.trans found')
  exact (Prod.mk.inj (stopped.symm.trans stopped')).2

/-- An import of a script that fails has run the script, and the script has stopped. -/
theorem of_importScript_error (named : s.depot.index.hasName p = .ok true)
    (failed : (importScript program p path a).outcome s = (.error e, t)) :
    ∃ e' u, (runText program path).outcome (blank s) = (.error e', u) ∧ t = bound a s u := by
  unfold importScript at failed
  rw [outcome_recover_fail, bind_ok (outcome_session s), bind_ok (outcome_checked named)] at failed
  rw [Bool.not_true, if_neg Bool.false_ne_true] at failed
  have whole := outcome_runScript_eq program path a s
  rcases ran : (runText program path).outcome (blank s) with ⟨e' | _, u⟩
  · rw [ran] at whole
    rw [bind_error whole] at failed
    exact ⟨e', u, rfl, (Prod.mk.inj failed).2.symm⟩
  · rw [ran] at whole
    rw [bind_ok whole] at failed
    cases (Prod.mk.inj failed).1

theorem loadFile_script (script : endsWith file ".py".toList = false) :
    loadFile program p newName file = (do
      importScript program p (Path.join (Pkg.packageFolder p) file) (importName p newName)
      return .nothing) := by
  unfold loadFile
  rw [script]
  cases newName <;> rfl

/-- An import fails without having changed anything, or by a script that has stopped. -/
theorem importPackage_error_cases (failed : (importPackage program p newName).outcome s = (.error e, t)) :
    (Shows s t ∧ ∀ u, ¬ScriptStops program p s u) ∨
      ∃ u, ScriptStops program p s u ∧ t = bound (importName p newName) s u := by
  rw [importPackage_eq] at failed
  rcases found : (packageFile p).outcome s with ⟨e' | file, v⟩
  · rw [bind_error found] at failed
    obtain ⟨-, rfl⟩ := Prod.mk.inj failed
    obtain rfl := (leads_packageFile p s).reason found
    refine Or.inl ⟨Shows.refl v, ?_⟩
    rintro u ⟨_, _, _, found', -⟩
    cases found.symm.trans found'
  · obtain ⟨shown, named⟩ := (leads_packageFile p s).result found
    rw [bind_ok found] at failed
    cases kind : endsWith file ".py".toList with
    | true =>
      unfold loadFile at failed
      rw [kind] at failed
      obtain rfl := (leads_importLibrary _ _ _ _).reason failed
      refine Or.inl ⟨shown, ?_⟩
      rintro u ⟨_, _, _, found', script, -⟩
      cases found.symm.trans found'
      cases kind.symm.trans script
    | false =>
      rw [loadFile_script kind] at failed
      rcases imported : (importScript program p (Path.join (Pkg.packageFolder p) file) (importName p newName)).outcome v
        with ⟨e' | _, w⟩
      · rw [bind_error imported] at failed
        obtain ⟨-, rfl⟩ := Prod.mk.inj failed
        obtain ⟨e', u, ran, rfl⟩ := of_importScript_error named imported
        exact Or.inr ⟨u, ⟨file, v, e', found, kind, ran⟩, bound_of_shows shown _⟩
      · rw [bind_ok imported] at failed
        cases failed

end

/-! ## The variables after a failed import -/

/-- **A failed import of a script binds its name all the same.** The name is bound to what the script is known by where it
stopped, and all other variables are as they were. If no script was run, nothing is changed but what is shown. -/
theorem failed_import_keeps_variables_iff (program : ProgramRunner) (p : String) (newName : Option String) {s t : Session}
    {e : Stop} (failed : (importPackage program p newName).outcome s = (.error e, t)) :
    (∀ x, x ≠ importName p newName → t.vars.find? x = s.vars.find? x) ∧
    ((∀ u, ¬ScriptStops program p s u) → Shows s t) ∧
    (∀ u, ScriptStops program p s u → t = bound (importName p newName) s u) ∧
    (t.vars = s.vars ↔
      ∀ u, ScriptStops program p s u → s.vars.find? (importName p newName) = some (.record (members u))) := by
  rcases importPackage_error_cases failed with ⟨⟨_, rfl⟩, none⟩ | ⟨u, stops, rfl⟩
  · exact ⟨fun _ _ => rfl, fun _ => ⟨_, rfl⟩, fun u stops => absurd stops (none u),
      fun _ u stops => absurd stops (none u), fun _ => rfl⟩
  · refine ⟨fun x other => Table.find?_set_of_ne _ other.symm _, fun none => absurd stops (none u), ?_, ?_, ?_⟩
    · intro v stops'
      rw [stops.unique stops']
    · intro same v stops'
      rw [← stops.unique stops', ← same]
      exact Table.find?_set_self _ _ _
    · intro known
      exact Table.set_of_find? _ (known u stops)

/-- A script that assigns a variable and then jumps out of its lines is installed. -/
def stoppingScript : Session :=
  let script : Node := .file ("x=1\ngoto 9\n".toList.map fun c => c.toNat.toUInt8) 420
  let entry : Json := .obj [("version", .str "1.0"), ("main", .str "main"), ("language", .str "guython")]
  { vars := [("a", .int 5), ("z", .int 7)]
    depot :=
      { index := .obj [("p", entry)]
        world := { disk := [("packages", .folder [("p", .folder [("main.gy", script)])])] } } }

theorem failed_import_keeps_variables_iff_stoppingScript :
    ∃ e t, (importPackage program "p" (some "a")).outcome stoppingScript = (.error e, t) ∧
      t.vars.find? "z" = some (.int 7) ∧
      (t.vars = stoppingScript.vars ↔ ∀ u, ScriptStops program "p" stoppingScript u →
        stoppingScript.vars.find? "a" = some (.record (members u))) := by
  have fails : ((importPackage program "p" (some "a")).outcome stoppingScript).1.isOk = false := by decide +kernel
  rcases failed : (importPackage program "p" (some "a")).outcome stoppingScript with ⟨e | v, t⟩
  · obtain ⟨others, -, -, same⟩ := failed_import_keeps_variables_iff program "p" (some "a") failed
    exact ⟨e, t, rfl, others "z" (by decide), same⟩
  · rw [failed] at fails
    cases fails

/-- The import fails, and the variable that was bound to a number is bound to what the script has left. -/
theorem stoppingScript_rebinds :
    ((importPackage program "p" (some "a")).outcome stoppingScript).1.isOk = false ∧
      stoppingScript.vars.find? "a" = some (.int 5) ∧
      memberNames ((importPackage program "p" (some "a")).outcome stoppingScript).2 "a" = ["x"] :=
  ⟨by decide +kernel, rfl, by decide +kernel⟩

end LineScript.Run
