
import LineScript.Proofs.Dispatch
import LineScript.Proofs.Replay

/-!
# Which functions can be called

A definition accepts every valid name, but a call is recognised after the other commands, so a name that starts with one of
their words makes a function that no line can call. Whether a line runs lines is seen from how it is run: one that asks its
runner for nothing does the same with every runner.
-/

namespace LineScript.Run

open Text Line List

variable {f word : String} {s : Session} {body : List Line}

/-! ## Running a body -/

/-- The line runs a body, after the definition of a function has ended, whatever the runner that it hands the lines to:
it ends as the body does, which no fault leaves but a jump. -/
def RunsBody (raw : List Char) (f : String) (body : List Line) (s : Session) : Prop :=
  ∀ run, Tells run → ∀ importing n, ∃ r t,
    Passes run importing body (concluded f n s) r t ∧ PassedOn r ∧ (lineWith run raw importing n).outcome s = (r, t)

def RunsNothing (raw : List Char) (s : Session) : Prop :=
  ∀ run other importing n, (lineWith run raw importing n).outcome s = (lineWith other raw importing n).outcome s

/-- A runner that does nothing runs every body to its end. -/
theorem Passes.ok_of_idle {importing : Bool} {t : Session} {r : Except Stop Unit}
    (passes : Passes (fun _ _ _ => pure ()) importing body s r t) : r = .ok () := by
  induction passes with
  | done s => rfl
  | next ran rest ih => exact ih
  | left ran => cases ran

theorem RunsNothing.not_runsBody {raw : List Char} (some : body ≠ []) (nothing : RunsNothing raw s) :
    ¬ RunsBody raw f body s := by
  intro runs
  have tells : ∀ x : Run Unit, (∀ s e, (x.outcome s).1 ≠ .error (.fault e)) → Tells fun _ _ _ => x :=
    fun x calm _ _ _ s e h => absurd h (calm s e)
  -- a runner that does nothing and one that is interrupted at once leave a body in two ways
  obtain ⟨r, t, idle, -, first⟩ := runs _ (tells (pure ()) fun _ _ h => by cases h) false 0
  obtain ⟨r', t', cut, -, second⟩ := runs _ (tells (throw .interrupted) fun _ _ h => by cases h) false 0
  rw [nothing _ fun _ _ _ => throw .interrupted, second] at first
  cases first
  rw [idle.ok_of_idle] at cut
  cases cut with
  | done => exact some rfl
  | next ran => cases ran

/-! ## What the line of a call is taken for -/

theorem execute_eq_of_runs_nothing (run other : Runner) {command : Command} (code : List Char) (indent : Nat)
    (importing : Bool) (quiet : command ≠ .eval ∧ command ≠ .package ∧ command ≠ .runFile ∧ command ≠ .call) :
    execute run command code indent importing = execute other command code indent importing := by
  obtain ⟨eval, package, runFile, call⟩ := quiet
  cases command with
  | eval => exact absurd rfl eval
  | package => exact absurd rfl package
  | runFile => exact absurd rfl runFile
  | call => exact absurd rfl call
  | _ => rfl

/-- A program is run from a file only if the text ends as names of scripts do. -/
theorem outcome_runFile_of_last (run : Runner) {code : List Char} (solid : ∀ c ∈ code, isBlank c = false)
    (last : code.getLast? ≠ some 'y') (importing : Bool) (s : Session) : (runFile run code importing).outcome s =
      (if importing then pure () else malformed .fileType : Run Unit).outcome s := by
  have whole : strip (code.drop 8) = code.drop 8 := trim_of_solid fun c hc => solid c (mem_of_mem_drop hc)
  have unnamed : ∀ name : String, name.toList.getLast? = some 'y' → endsWith (code.drop 8) name.toList = false := by
    intro name hy
    refine Bool.eq_false_iff.mpr fun h => last ?_
    obtain ⟨front, hfront⟩ := (isSuffixOf_iff_suffix.mp h).trans (drop_suffix 8 code)
    rw [← hfront, getLast?_append, hy]
    rfl
  have refused : isScriptName (code.drop 8) = false := by
    unfold isScriptName
    rw [unnamed ".gy" rfl, unnamed ".guy" rfl]
    rfl
  unfold runFile
  rw [whole]
  dsimp only
  rw [refused]
  cases importing with
  | true => rfl
  | false => rfl

/-- A call that starts with the word of another command is taken for no command that runs lines, except perhaps for one
that runs a file. -/
theorem Definable.of_stopped_call (definable : Definable f) (stop : word ∈ Command.callStops)
    (started : Command.starts f.toList word) :
    Command.of false false (f.toList ++ ['_']) ≠ .eval ∧ Command.of false false (f.toList ++ ['_']) ≠ .package ∧
      Command.of false false (f.toList ++ ['_']) ≠ .call := by
  have noSpace : ∀ word : String, ' ' ∈ word.toList → Command.starts (f.toList ++ ['_']) word ≠ true :=
    fun _ h => Bool.eq_false_iff.mp (startsWith_eq_false h (definable.not_mem (by decide)))
  have noCall : Command.isCall (f.toList ++ ['_']) ≠ true := by
    have longer : Command.starts (f.toList ++ ['_']) word :=
      List.isPrefixOf_iff_prefix.mpr ((List.isPrefixOf_iff_prefix.mp started).trans (prefix_append _ _))
    have stopped : Command.callStops.any (Command.starts (f.toList ++ ['_'])) :=
      any_eq_true.mpr ⟨word, stop, longer⟩
    rw [Command.isCall, stopped, Bool.not_true, Bool.and_false]
    exact Bool.false_ne_true
  refine ⟨fun h => ?_, fun h => ?_, fun h => noCall (Command.fits_of_eq h)⟩
  all_goals exact noSpace _ (by decide) (Command.fits_of_eq h)

theorem runsNothing_of_stop (definable : Definable f) (stop : word ∈ Command.callStops)
    (started : Command.starts f.toList word) (outermost : Outermost s) (defining : s.defining = some (f, 0))
    (known : s.functions.find? f = some ⟨[], []⟩) : RunsNothing (callText f []) s := by
  intro run other importing n
  obtain ⟨eval, package, call⟩ := definable.of_stopped_call stop started
  rw [outcome_calling_line run definable importing n outermost defining known,
    outcome_calling_line other definable importing n outermost defining known]
  refine outcome_recover_congr ?_ _
  by_cases file : Command.of false false (f.toList ++ ['_']) = .runFile
  · have solid : ∀ c ∈ f.toList ++ ['_'], isBlank c = false := by
      intro c hc
      cases named : Line.isNameChar c with
      | true => exact isBlank_of_isNameChar named
      | false => exact absurd hc (definable.not_mem named)
    have last : (f.toList ++ ['_']).getLast? ≠ some 'y' := by
      rw [getLast?_concat]
      decide
    rw [file]
    unfold execute
    rw [outcome_runFile_of_last run solid last, outcome_runFile_of_last other solid last]
  · rw [execute_eq_of_runs_nothing run other _ _ _ ⟨eval, package, file, call⟩]

/-- A call that no other command is in the way of runs the body. -/
theorem runsBody_of_callable (callable : Callable f) (outermost : Outermost s) (defining : s.defining = some (f, 0))
    (known : s.functions.find? f = some ⟨[], []⟩) : RunsBody (callText f []) f s.pending s := by
  intro run tells importing n
  have passes := passes_runBody run importing s.pending (concluded f n s)
  have passed := passes.passedOn tells
  exact ⟨_, _, passes, passed, outcome_call_line run callable importing n outermost defining known rfl passed⟩

/-- **Which functions can be called.** A line with the call of a defined function runs its lines if and only if the name starts
with no word that another command starts with, and otherwise runs nothing. -/
theorem call_runs_body_iff {f : String} (definable : Definable f) {lines : List (List Char)}
    (deep : ∀ l ∈ lines.filterMap read?, 1 ≤ l.indent) (some : lines.filterMap read? ≠ []) {s : Session}
    (idle : s.defining = none) (outermost : Outermost s) (aliases : s.AliasesValid) (run : Runner) (first : Nat) :
    ∃ t, (runLines (lineWith run) first (headerText f :: lines)).outcome s = (.ok none, t) ∧
      (RunsBody (callText f []) f (lines.filterMap read?) t ↔
        ∀ word ∈ Command.callStops, Command.starts f.toList word = false) ∧
      (RunsNothing (callText f []) t ↔ ∃ word ∈ Command.callStops, Command.starts f.toList word = true) := by
  have below : ∀ raw ∈ lines, ∀ l, read? raw = .some l → 1 ≤ l.indent :=
    fun raw hraw l hl => deep l (mem_filterMap.mpr ⟨raw, hraw, hl⟩)
  have header := outcome_header_line run definable first idle outermost aliases
  obtain ⟨m, taken⟩ := outcome_captured_lines run (first + 1) below (s := begun f first s) rfl
  have outermost' : Outermost (collected m lines (begun f first s)) := ⟨outermost.ifs, outermost.loops⟩
  have known : (collected m lines (begun f first s)).functions.find? f = .some ⟨[], []⟩ := Table.find?_set_self _ _ _
  have runs : (∀ word ∈ Command.callStops, Command.starts f.toList word = false) →
      RunsBody (callText f []) f (lines.filterMap read?) (collected m lines (begun f first s)) :=
    fun free => runsBody_of_callable ⟨definable.plain, definable.valid, free⟩ outermost' rfl known
  have nothing : (∃ word ∈ Command.callStops, Command.starts f.toList word = true) →
      RunsNothing (callText f []) (collected m lines (begun f first s)) := by
    rintro ⟨word, stop, started⟩
    exact runsNothing_of_stop definable stop started outermost' rfl known
  refine ⟨collected m lines (begun f first s), by rw [outcome_runLines_ok header, taken], ⟨?_, runs⟩, ?_, nothing⟩
  · intro body word stop
    refine Bool.eq_false_iff.mpr fun started => ?_
    exact (nothing ⟨word, stop, started⟩).not_runsBody some body
  · intro none
    by_cases stopped : ∃ word ∈ Command.callStops, Command.starts f.toList word = true
    · exact stopped
    · have free : ∀ word ∈ Command.callStops, Command.starts f.toList word = false :=
        fun word stop => Bool.eq_false_iff.mpr fun started => stopped ⟨word, stop, started⟩
      exact absurd (runs free) (none.not_runsBody some)

theorem call_runs_body_iff_sampleLines :
    (∃ t, (runLines line 1 (headerText "f" :: sampleLines)).outcome {} = (.ok none, t) ∧
      RunsBody (callText "f" []) "f" (sampleLines.filterMap read?) t) ∧
      ∃ t, (runLines line 1 (headerText "printer" :: sampleLines)).outcome {} = (.ok none, t) ∧
        RunsNothing (callText "printer" []) t := by
  have f : Definable "f" := ⟨all_iff_forall_prop.mp (by decide), by decide +kernel⟩
  have printer : Definable "printer" := ⟨all_iff_forall_prop.mp (by decide), by decide +kernel⟩
  have deep : ∀ l ∈ sampleLines.filterMap read?, 1 ≤ l.indent := by decide +kernel
  have some : sampleLines.filterMap read? ≠ [] := by decide +kernel
  have aliases : Session.AliasesValid {} := fun _ h => nomatch h
  obtain ⟨t, ran, runs, -⟩ := call_runs_body_iff f deep some rfl ⟨rfl, rfl⟩ aliases (runner 299) 1
  obtain ⟨u, ran', -, nothing⟩ := call_runs_body_iff printer deep some rfl ⟨rfl, rfl⟩ aliases (runner 299) 1
  exact ⟨⟨t, ran, runs.mpr (by decide)⟩, u, ran', nothing.mpr ⟨"print", by decide, by decide⟩⟩

end LineScript.Run
