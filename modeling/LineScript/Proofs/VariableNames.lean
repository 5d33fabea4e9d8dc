
import LineScript.Proofs.Callables
import LineScript.Proofs.IndexFile
import LineScript.Proofs.NameValues

/-!
# Which names a variable can have

Three parts of the interpreter look at the name of a variable: the check of names, the words of commands, also where they
only begin a longer name, and the reading of expressions, which respells underscores and has keywords of its own. So some
names are accepted and cannot be assigned to, and some can be assigned to and never read.
-/

namespace LineScript.Run

open Text Line Number LineScript.Expr List

variable {word : String} {c : Char} {s : Session} {command : Command}

/-! ## The text of an assignment -/

/-- Words that make a command of every line that starts with one, whatever follows, unless an earlier command is made of
it. -/
def wordCommands : List (String × Command) :=
  [("def", .define), ("while", .loop), ("if", .condition), ("else", .alternative), ("exit_", .exit), ("goto", .goto),
   ("guython", .runFile), ("print", .print)]

def commandWords : List String := wordCommands.map Prod.fst

def assignText (v : List Char) (n : Nat) : List Char := v ++ '=' :: decimalText n

section

variable {v : List Char} (name : PlainName v) (n : Nat)

include name

theorem not_mem_assignText (strange : Line.isNameChar c = false) (other : c ≠ '=') : c ∉ assignText v n := by
  intro mem
  rcases mem_append.mp mem with mem | mem
  · exact name.not_mem strange mem
  · rcases mem_cons.mp mem with same | mem
    · exact other same
    · have digit := isDigit_of_mem_decimalText mem
      unfold Line.isNameChar at strange
      rw [isAlphanum_of_isDigit digit] at strange
      cases strange

theorem solid_assignText (h : c ∈ assignText v n) : isBlank c = false := by
  by_cases same : c = '='
  · rw [same]
    decide
  · cases named : Line.isNameChar c with
    | true => exact isBlank_of_isNameChar named
    | false => exact absurd h (not_mem_assignText name n named same)

omit name in
theorem getLast?_assignText : ∃ d, (assignText v n).getLast? = some d ∧ d.isDigit := by
  obtain ⟨c, cs, shape, -⟩ := exists_decimalText n
  obtain ⟨d, last⟩ : ∃ d, (decimalText n).getLast? = some d := by
    rw [shape]
    exact ⟨_, getLast?_cons⟩
  have whole : assignText v n = (v ++ ['=']) ++ decimalText n := by simp [assignText]
  refine ⟨d, ?_, isDigit_of_mem_decimalText (mem_of_getLast? last)⟩
  rw [whole, getLast?_append, last]
  rfl

theorem read?_assignText : read? (assignText v n) = some ⟨0, assignText v n⟩ := by
  obtain ⟨c, cs, shape, -⟩ := name.exists_cons
  have head : (assignText v n).head? = some c := by
    rw [shape]
    rfl
  have mem : c ∈ assignText v n := mem_of_mem_head? head
  have tidy : Tidy (assignText v n) := by
    refine ⟨not_mem_assignText name n (by decide) (by decide), fun dot => ?_, fun d hd => ?_⟩
    · exact not_mem_assignText name n (by decide) (by decide) (mem_of_mem_head? dot)
    · exact solid_assignText name n (mem_of_getLast? hd)
  have text : assignText v n = Line.text ⟨0, assignText v n⟩ := rfl
  rw [text]
  exact read?_text tidy head (solid_assignText name n mem)

theorem applyAliases_assignText (aliases : List (String × String)) :
    applyAliases aliases (assignText v n) = assignText v n :=
  applyAliases_eq_self fun _ _ => startsWith_eq_false (mem_append_right _ mem_cons_self)
    (not_mem_assignText name n (by decide) (by decide))

omit name in
/-- A word without an equals sign stands in front of an assignment if it stands in front of the name. -/
theorem starts_assignText (free : '=' ∉ word.toList) : Command.starts (assignText v n) word = Command.starts v word := by
  refine Bool.eq_iff_iff.mpr ⟨fun h => ?_, fun h => ?_⟩
  · exact isPrefixOf_iff_prefix.mpr ((prefix_append_iff free _ _).mp (List.isPrefixOf_iff_prefix.mp h))
  · exact isPrefixOf_iff_prefix.mpr ((List.isPrefixOf_iff_prefix.mp h).trans (prefix_append _ _))

/-! ## What the line of an assignment is taken for -/

theorem starts_assignText_blank (blank : ' ' ∈ word.toList) : Command.starts (assignText v n) word = false :=
  startsWith_eq_false blank (not_mem_assignText name n (by decide) (by decide))

theorem isCall_assignText : Command.isCall (assignText v n) = false := by
  obtain ⟨d, last, digit⟩ := getLast?_assignText (v := v) n
  have ended : Command.ends (assignText v n) "_" = false := by
    refine Bool.eq_false_iff.mpr fun h => ?_
    obtain ⟨front, whole⟩ := isSuffixOf_iff_suffix.mp h
    have underscore : (assignText v n).getLast? = some '_' := by
      rw [← whole]
      exact getLast?_concat
    rw [last] at underscore
    rw [Option.some.inj underscore] at digit
    exact absurd digit (by decide)
  unfold Command.isCall Command.holds
  rw [contains_eq_false (by decide : ' ' ∈ "_ ".toList) (not_mem_assignText name n (by decide) (by decide)), ended]
  rfl

/-- Kinds that a line without blanks and quotes is never of, if it stands in no block and ends in a digit. -/
def foreignKinds : List Command := [.eval, .input, .inputAssign, .shorthand, .package, .collect, .skip, .call]

theorem not_fits_of_foreign (foreign : command ∈ foreignKinds) :
    Command.fits false false (assignText v n) command = false := by
  have double := not_mem_assignText name n (by decide : Line.isNameChar '"' = false) (by decide)
  have single := not_mem_assignText name n (by decide : Line.isNameChar '\x27' = false) (by decide)
  simp only [foreignKinds, mem_cons, not_mem_nil, or_false] at foreign
  rcases foreign with rfl | rfl | rfl | rfl | rfl | rfl | rfl | rfl
  · exact starts_assignText_blank name n (by decide)
  · dsimp only [Command.fits, Command.isInput, Command.starts]
    rw [startsWith_eq_false (by decide) double, startsWith_eq_false (by decide) single]
    rfl
  · dsimp only [Command.fits, Command.isInputAssign, Command.holds]
    rw [contains_eq_false (by decide) double, contains_eq_false (by decide) single]
    rfl
  · exact starts_assignText_blank name n (by decide)
  · exact starts_assignText_blank name n (by decide)
  · rfl
  · rfl
  · exact isCall_assignText name n

omit name in
theorem fits_wordCommands {p : String × Command} (mem : p ∈ wordCommands) :
    Command.fits false false (assignText v n) p.2 = Command.starts v p.1 := by
  simp only [wordCommands, mem_cons, not_mem_nil, or_false] at mem
  rcases mem with rfl | rfl | rfl | rfl | rfl | rfl | rfl | rfl
  all_goals exact starts_assignText n (by decide)

theorem fits_assign (noPrint : Command.starts v "print" = false) : Command.fits false false (assignText v n) .assign := by
  have equals : Command.holds (assignText v n) "=" := by
    have found := findFrom_append (name.not_mem (by decide : Line.isNameChar '=' = false)) (decimalText n) 0
    show (findFrom ['='] 0 (v ++ '=' :: decimalText n)).isSome
    rw [found]
    rfl
  have other : assignText v n ≠ "5+5=4".toList := by
    intro same
    refine not_mem_assignText name n (by decide : Line.isNameChar '+' = false) (by decide) ?_
    rw [same]
    decide
  dsimp only [Command.fits]
  rw [equals, starts_assignText n (by decide), noPrint, decide_eq_true other]
  rfl

/-- If the name starts with no word of a command, the line is taken for an assignment. -/
theorem of_assignText (plain : ∀ word ∈ commandWords, Command.starts v word = false) :
    Command.of false false (assignText v n) = .assign := by
  have noPrint := plain "print" (by decide)
  have noInput : Command.fits false false (assignText v n) .printInput = false := by
    refine Bool.or_eq_false_iff.mpr ⟨Bool.eq_false_iff.mpr fun h => ?_, starts_assignText_blank name n (by decide)⟩
    have longer : Command.starts v "printinput" := (starts_assignText n (by decide)).symm.trans h
    have shorter : Command.starts v "print" := isPrefixOf_iff_prefix.mpr
      ((by decide : "print".toList <+: "printinput".toList).trans (List.isPrefixOf_iff_prefix.mp longer))
    exact Bool.false_ne_true (noPrint.symm.trans shorter)
  have place : Command.order = Command.order.take 16 ++ .assign :: Command.order.drop 17 := rfl
  refine Command.of_eq_of_fits place (fun command earlier => ?_) (fits_assign name n noPrint)
  have kinds : ∀ command ∈ Command.order.take 16,
      command ∈ foreignKinds ∨ command ∈ wordCommands.map Prod.snd ∨ command = .printInput := by decide
  rcases kinds command earlier with foreign | word | rfl
  · exact not_fits_of_foreign name n foreign
  · obtain ⟨p, mem, rfl⟩ := mem_map.mp word
    rw [fits_wordCommands n mem]
    exact plain p.1 (mem_map_of_mem mem)
  · exact noInput

/-- Otherwise it is taken for one of a few commands that set no variable. -/
theorem of_assignText_of_starts (mem : word ∈ commandWords) (started : Command.starts v word) :
    Command.of false false (assignText v n) ∈ Command.printInput :: wordCommands.map Prod.snd := by
  obtain ⟨p, listed, rfl⟩ := mem_map.mp mem
  have fit : Command.fits false false (assignText v n) p.2 := (fits_wordCommands n listed).trans started
  have early : Command.of false false (assignText v n) ∈ Command.order.take 18 :=
    Command.of_mem_take ((by decide : ∀ p ∈ wordCommands, p.2 ∈ Command.order.take 18) p listed) fit
  have noAssign : Command.of false false (assignText v n) ≠ .assign := by
    intro assign
    have places : ∀ p ∈ wordCommands, p.2 ∈ Command.order.take 16 ∨ p = ("print", .print) := by decide
    rcases places p listed with first | rfl
    · have before := Command.of_mem_take first fit
      rw [assign] at before
      exact absurd before (by decide)
    · have noPrint := Command.fits_of_eq assign
      dsimp only [Command.fits] at noPrint
      rw [starts_assignText n (by decide), started, Bool.not_true, Bool.and_false] at noPrint
      cases noPrint
  have noForeign : Command.of false false (assignText v n) ∉ foreignKinds := by
    intro foreign
    exact Bool.false_ne_true ((not_fits_of_foreign name n foreign).symm.trans Command.fits_of)
  have kinds : ∀ command ∈ Command.order.take 18, command ∉ foreignKinds → command ≠ .assign →
      command ∈ Command.printInput :: wordCommands.map Prod.snd := by decide
  exact kinds _ early noForeign noAssign

end

/-! ## Commands that set no variable -/

def SameVars (s t : Session) : Prop := t.vars = s.vars

theorem stable_sameVars : Stable SameVars := ⟨fun _ => rfl, fun first second => second.trans first, fun _ _ => rfl⟩

theorem execute_sameVars (run : Runner) (quiet : command ∈ Command.printInput :: wordCommands.map Prod.snd)
    {code : List Char} (solid : ∀ c ∈ code, isBlank c = false) (last : code.getLast? ≠ some 'y') (indent : Nat)
    (importing : Bool) : Moves SameVars (execute run command code indent importing) := by
  have hS := stable_sameVars
  simp only [wordCommands, map_cons, map_nil, mem_cons, not_mem_nil, or_false] at quiet
  rcases quiet with rfl | rfl | rfl | rfl | rfl | rfl | rfl | rfl | rfl
  · exact .printInput hS importing
  · exact .define hS (fun _ _ _ => rfl) code
  · exact .fail hS _
  · exact .condition hS (fun _ _ _ => rfl) code indent
  · exact .alternative hS (fun _ _ _ => rfl) indent
  · exact .throw hS _
  · exact .goto hS code
  · intro s
    show SameVars s ((runFile run code importing).outcome s).2
    rw [outcome_runFile_of_last run solid last]
    cases importing <;> rfl
  · exact .print hS code importing

/-! ## Assigning -/

/-- The index of packages can be read: its folder can be made, and there is no such file, or it holds a text that lacks at
most the form of an index. -/
def IndexReadable (d : Disk) : Prop :=
  ∃ made, d.ensureFolder Pkg.folder = .ok made ∧
    ((∃ f, made.read Pkg.indexFile = .error f ∧ f.isKind .fileNotFound = true) ∨
      ∃ bytes text, made.read Pkg.indexFile = .ok bytes ∧ Value.decodeUtf8 bytes = .ok text ∧
        ∀ f, Json.ofText (universalNewlines text) = .error f → f.isKind .json = true)

theorem exists_run_touch {w : World} (readable : IndexReadable w.disk) :
    ∃ disk, Pkg.touch.run.run w = (.ok (), { w with disk }) := by
  obtain ⟨made, folder, found⟩ := readable
  refine ⟨made, ?_⟩
  rw [Pkg.run_touch folder]
  rcases found with ⟨f, absent, kind⟩ | ⟨bytes, text, found, decoded, lacking⟩
  · rw [absent, Pkg.lookOf, kind]
    rfl
  · rw [found, Pkg.lookOf]
    split
    · rw [decoded]
      rfl
    · obtain ⟨index, loaded⟩ := Pkg.exists_indexOf decoded lacking
      rw [loaded]
      rfl

/-- A text that has a value whatever the store holds. -/
theorem outcome_value {text : List Char} {a : Value} (constant : Expr.evaluate s.vars text = pure a) :
    (value text).outcome s = (.ok a, s) := by
  unfold value
  rw [bind_ok (outcome_session s)]
  dsimp only
  rw [constant]
  exact outcome_evaluation _ s

/-- A value is evaluated once the index has been looked at. -/
theorem exists_outcome_evaluate (readable : IndexReadable s.depot.world.disk) {text : List Char} {a : Value}
    (value : Expr.evaluate s.vars text = pure a) : ∃ d, (evaluate text).outcome s = (.ok a, { s with depot := d }) := by
  obtain ⟨disk, touched⟩ := exists_run_touch readable
  have prepared := outcome_act Pkg.touch s
  rw [touched] at prepared
  exact ⟨_, (bind_ok prepared).trans (outcome_value value)⟩

theorem natAbs_numeral (n : Numeral) : (n.value : Int).natAbs < Nat.pow 10 maxDigits := by
  exact n.short

/-- A whole number of few enough digits can be shown. -/
theorem exists_display {v : Int} (short : v.natAbs < Nat.pow 10 maxDigits) (store : Store) :
    ∃ text, Value.display store (.int v) = .ok text := by
  show ∃ text, Value.intString v = .ok text
  unfold Value.intString intText?
  rw [if_pos short]
  exact ⟨_, rfl⟩

theorem exists_outcome_display (n : Numeral) (s : Session) : ∃ text, (display (.int n.value)).outcome s = (.ok text, s) := by
  obtain ⟨text, shown⟩ := exists_display (natAbs_numeral n) s.depot.world.store
  refine ⟨text, ?_⟩
  rw [outcome_display, shown]
  rfl

theorem evaluate_decimalText (vars : Env) (n : Numeral) : Expr.evaluate vars (decimalText n.value) = pure (.int n.value) := by
  have chain := evaluate_text (c := ⟨.numeral n, []⟩) ⟨Nat.zero_le _, nofun⟩ [] vars
  have text : WholeChain.text [] ⟨.numeral n, []⟩ = decimalText n.value := by
    show decimalText n.value ++ ([] ++ []) = decimalText n.value
    rw [append_nil, append_nil]
  rw [text] at chain
  exact chain

theorem exists_outcome_assign {v : List Char} (name : PlainName v) (n : Numeral)
    (readable : IndexReadable s.depot.world.disk) :
    ∃ t, (assign (assignText v n.value)).outcome s = (.ok (), t) ∧ t.vars = s.vars.set (String.ofList v) (.int n.value) := by
  obtain ⟨d, evaluated⟩ := exists_outcome_evaluate readable (evaluate_decimalText s.vars n)
  obtain ⟨text, shown⟩ := exists_outcome_display n { s with depot := d, vars := s.vars.set (String.ofList v) (.int n.value) }
  obtain ⟨t, noted, shows⟩ := exists_outcome_note ("Assigned " ++ String.ofList v ++ " = " ++ text)
    { s with depot := d, vars := s.vars.set (String.ofList v) (.int n.value) }
  have vars : t.vars = s.vars.set (String.ofList v) (.int n.value) := by
    obtain ⟨output, rfl⟩ := shows
    rfl
  have digits : strip (decimalText n.value) = decimalText n.value := by
    have solid : ∀ c ∈ decimalText n.value, isBlank c = false := fun c hc =>
      solid_assignText name n.value (mem_append_right _ (mem_cons_of_mem _ hc))
    exact trim_of_solid solid
  refine ⟨t, ?_, vars⟩
  unfold assign assignText
  rw [cut?_append (name.not_mem (by decide))]
  dsimp only
  rw [name.strip_eq, name.valid, digits]
  refine outcome_recover_ok ?_ _
  rw [bind_ok evaluated]
  unfold setVariable
  rw [bind_ok (outcome_adjust _ _), bind_ok shown]
  exact noted

/-! ## The line -/

section

variable {v : List Char} (name : PlainName v) (run : Runner) (k : Int) {s : Session} (idle : s.defining = none)
  (loops : s.loops = [])

include name idle loops

theorem exists_reaches_assignText (n : Nat) :
    ∃ t, Reaches run (assignText v n) k s ⟨0, assignText v n⟩ (.of false false (assignText v n)) (assignText v n) t ∧
      t.vars = s.vars ∧ t.depot.world.disk = s.depot.world.disk := by
  obtain ⟨t, closed, shows⟩ := exists_closed run k loops (l := ⟨0, assignText v n⟩)
  have same : settled { s with lineNumber := k } = { s with lineNumber := k } := by
    unfold settled
    rw [idle]
  have outermost : s.ifs.dropWhile (fun b => decide (0 ≤ b.indent)) = [] := by
    have all : ∀ b ∈ s.ifs, decide (0 ≤ b.indent) = true := fun b _ => decide_eq_true (Nat.zero_le _)
    have appended : (s.ifs ++ []).dropWhile (fun b : Branch => decide (0 ≤ b.indent)) = [] := dropWhile_append_of_pos all
    rwa [append_nil] at appended
  have executed : Executed ⟨0, assignText v n⟩ s := fun f indent defining => by cases idle.symm.trans defining
  refine ⟨t, ⟨read?_assignText name n, executed, closed, (applyAliases_assignText name n _).symm, ?_⟩, ?_⟩
  · obtain ⟨output, rfl⟩ := shows
    rw [same, loops, outermost]
    rfl
  · obtain ⟨output, rfl⟩ := shows
    rw [same]
    exact ⟨rfl, rfl⟩

theorem exists_outcome_assignText (plain : ∀ word ∈ commandWords, Command.starts v word = false)
    (readable : IndexReadable s.depot.world.disk) (n : Numeral) (importing : Bool) :
    ∃ t, (lineWith run (assignText v n.value) importing k).outcome s = (.ok (), t) ∧
      t.vars = s.vars.set (String.ofList v) (.int n.value) := by
  obtain ⟨t, reaches, vars, disk⟩ := exists_reaches_assignText name run k idle loops n.value
  rw [← disk] at readable
  obtain ⟨u, assigned, set⟩ := exists_outcome_assign name n readable
  rw [of_assignText name n.value plain] at reaches
  refine ⟨u, ?_, by rw [set, vars]⟩
  rw [reaches.outcome importing]
  exact outcome_recover_ok assigned _

theorem vars_assignText_of_starts (mem : word ∈ commandWords) (started : Command.starts v word) (n : Nat)
    (importing : Bool) : ((lineWith run (assignText v n) importing k).outcome s).2.vars = s.vars := by
  obtain ⟨t, reaches, vars, -⟩ := exists_reaches_assignText name run k idle loops n
  have last : (assignText v n).getLast? ≠ some 'y' := by
    obtain ⟨d, last, digit⟩ := getLast?_assignText (v := v) n
    rw [last]
    rintro same
    rw [Option.some.inj same] at digit
    exact absurd digit (by decide)
  have quiet := of_assignText_of_starts name n mem started
  have moves := execute_sameVars run quiet (fun c => solid_assignText name n) last 0 importing
  rw [reaches.outcome importing, ← vars]
  exact Moves.recover stable_sameVars moves (fun f => .handle stable_sameVars _ _ _ f) t

end

/-- **Which names a variable can have.** A line assigns to the name if and only if it starts with no word of a command, and the
name reads what the variable stands for if and only if it has no underscore but in front and is no keyword. -/
theorem assigns_and_reads_iff {v : List Char} (name : PlainName v) :
    (∀ {s : Session}, s.defining = none → s.loops = [] → s.vars.find? (String.ofList v) = none →
      IndexReadable s.depot.world.disk → ∀ (n : Numeral) (importing : Bool) (k : Int),
        (((line (assignText v n.value) importing k).outcome s).2.vars = s.vars ++ [(String.ofList v, .int n.value)] ↔
          ∀ word ∈ commandWords, Command.starts v word = false) ∧
        ((∀ word ∈ commandWords, Command.starts v word = false) →
          ((line (assignText v n.value) importing k).outcome s).1 = .ok ())) ∧
      ∀ env : Env, (∀ n : Numeral, Expr.evaluate (env.set (String.ofList v) (.int n.value)) v = pure (.int n.value)) ↔
        '_' ∉ v.tail ∧ String.ofList v ∉ Expr.keywords := by
  refine ⟨fun {s} idle loops unbound readable n importing k => ?_, evaluate_name_iff name⟩
  have assigns : (∀ word ∈ commandWords, Command.starts v word = false) →
      ∃ t, (line (assignText v n.value) importing k).outcome s = (.ok (), t) ∧
        t.vars = s.vars.set (String.ofList v) (.int n.value) :=
    fun plain => exists_outcome_assignText name (runner 299) k idle loops plain readable n importing
  refine ⟨⟨fun added word mem => Bool.eq_false_iff.mpr fun started => ?_, fun plain => ?_⟩, fun plain => ?_⟩
  · have kept : ((line (assignText v n.value) importing k).outcome s).2.vars = s.vars :=
      vars_assignText_of_starts name (runner 299) k idle loops mem started n.value importing
    have lengths := congrArg List.length (kept.symm.trans added)
    simp at lengths
  · obtain ⟨t, ended, set⟩ := assigns plain
    rw [ended, set, Table.set_of_find?_eq_none unbound]
  · obtain ⟨t, ended, -⟩ := assigns plain
    rw [ended]

theorem assigns_and_reads_iff_samples :
    ((line (assignText "total".toList 7) false 1).outcome {}).2.vars = [("total", .int 7)] ∧
      ((line (assignText "printer".toList 7) false 1).outcome {}).2.vars ≠ [("printer", .int 7)] ∧
      Expr.evaluate (Table.set [] "_x" (.int 7)) "_x".toList = pure (.int 7) ∧
      (¬ ∀ n : Numeral, Expr.evaluate (Table.set [] "a_b" (.int n.value)) "a_b".toList = pure (.int n.value)) ∧
      ¬ ∀ n : Numeral, Expr.evaluate (Table.set [] "lambda" (.int n.value)) "lambda".toList = pure (.int n.value) := by
  have total : PlainName "total".toList := ⟨by decide +kernel, by decide⟩
  have printer : PlainName "printer".toList := ⟨by decide +kernel, by decide⟩
  have front : PlainName "_x".toList := ⟨by decide +kernel, by decide⟩
  have inside : PlainName "a_b".toList := ⟨by decide +kernel, by decide⟩
  have keyword : PlainName "lambda".toList := ⟨by decide +kernel, by decide⟩
  have readable : IndexReadable ({} : Session).depot.world.disk := ⟨_, rfl, Or.inl ⟨_, rfl, rfl⟩⟩
  refine ⟨?_, fun added => ?_, ?_, fun reads => ?_, fun reads => ?_⟩
  · exact ((assigns_and_reads_iff total).1 rfl rfl rfl readable (smallNumeral 7 (by decide)) false 1).1.mpr (by decide)
  · have free := ((assigns_and_reads_iff printer).1 rfl rfl rfl readable (smallNumeral 7 (by decide)) false 1).1.mp added
    exact absurd (free "print" (by decide)) (by decide)
  · exact ((assigns_and_reads_iff front).2 []).mpr (by decide) (smallNumeral 7 (by decide))
  · exact absurd (((assigns_and_reads_iff inside).2 []).mp reads).1 (by decide)
  · exact absurd (((assigns_and_reads_iff keyword).2 []).mp reads).2 (by decide)

end LineScript.Run
