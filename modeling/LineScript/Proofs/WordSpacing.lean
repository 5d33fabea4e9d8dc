
import LineScript.Proofs.Replay
import LineScript.Proofs.RunSteps

/-!
# A blank after a command word

A command word and its argument can be written with a blank between them or without one, and the two lines almost always do
the same. But a text in which input is assigned is an input assignment whatever it starts with, and the word that runs a file
takes the character after it for the blank.
-/

namespace LineScript.Run

open Text Line List

variable {a t b : List Char} {q p : Except Stop Unit × Session}

/-! ## Words and their arguments -/

inductive ArgumentWord where
  | print
  | condition
  | goto
  | define
  | runFile
  deriving DecidableEq

namespace ArgumentWord

def text : ArgumentWord → List Char
  | .print => "print".toList
  | .condition => "if".toList
  | .goto => "goto".toList
  | .define => "def".toList
  | .runFile => "guython".toList

def joined (w : ArgumentWord) (t : List Char) : List Char := w.text ++ t

def spaced (w : ArgumentWord) (t : List Char) : List Char := w.text ++ ' ' :: t

/-- What a line is that starts with the word, by the rest of the line, unless it is an input assignment. -/
def kind (w : ArgumentWord) (rest : List Char) : Command :=
  match w with
  | .print => if startsWith rest "input".toList || startsWith rest " input".toList then .printInput else .print
  | .condition => .condition
  | .goto => .goto
  | .define => .define
  | .runFile => .runFile

def argument (w : ArgumentWord) (rest : List Char) : List Char :=
  match w with
  | .runFile => strip (rest.drop 1)
  | _ => strip rest

/-- Nothing that the tests for an input assignment look for is in a word, nor in a blank after it. -/
theorem free_of_mem (w : ArgumentWord) {c : Char} (mark : c ∈ ['=', '"', '\x27', '\n', '_', ' ']) : c ∉ w.text := by
  have each : ∀ c ∈ ['=', '"', '\x27', '\n', '_', ' '], c ∉ w.text := by
    cases w <;> exact all_iff_forall_prop.mp (by decide)
  exact each c mark

end ArgumentWord

theorem isInputAssign_append (plain : ∀ c ∈ ['=', '"', '\x27'], c ∉ a) (b : List Char) :
    Command.isInputAssign (a ++ b) = Command.isInputAssign b := by
  have equals : ∀ part : List Char, contains (a ++ b) ('=' :: part) = contains b ('=' :: part) := fun part =>
    contains_append_of_not_mem (plain '=' (by decide)) b
  have quotes : ∀ c, c ∉ a → (a ++ b).count c = b.count c := by
    intro c free
    rw [count_append, count_eq_zero.mpr free, Nat.zero_add]
  unfold Command.isInputAssign Command.holds
  rw [quotes '"' (plain '"' (by decide)), quotes '\x27' (plain '\x27' (by decide))]
  congr 2
  · exact equals "input\"".toList
  · exact equals "input '".toList

theorem isInputAssign_space (t : List Char) : Command.isInputAssign (' ' :: t) = Command.isInputAssign t :=
  isInputAssign_append (a := [' ']) (all_iff_forall_prop.mp (by decide)) t

namespace ArgumentWord

variable (w : ArgumentWord)

/-- A line that starts with the word is an input assignment, or what the word says. -/
theorem of_text (rest : List Char) :
    Command.of false false (w.text ++ rest) = if Command.isInputAssign rest then .inputAssign else w.kind rest := by
  have assigned : Command.isInputAssign (w.text ++ rest) = Command.isInputAssign rest :=
    isInputAssign_append (fun c hc => w.free_of_mem (mem_append_left ['\n', '_', ' '] hc)) rest
  unfold Command.of
  rw [assigned]
  cases w with
  | print =>
    have called : Command.isCall ("print".toList ++ rest) = false := by
      have stopped : Command.callStops.any (Command.starts ("print".toList ++ rest)) := rfl
      rw [Command.isCall, stopped, Bool.not_true, Bool.and_false]
    have printed : Command.starts ("print".toList ++ rest) "print" := rfl
    unfold text
    rw [called, printed]
    simp only [Bool.not_true, Bool.and_false]
    cases Command.isInputAssign rest <;> rfl
  | _ => cases Command.isInputAssign rest <;> rfl

/-- What the command does depends on its argument only. -/
theorem execute_congr (run : Runner) {a b : List Char} (arguments : w.argument a = w.argument b)
    (kinds : w.kind a = w.kind b) :
    execute run (w.kind a) (w.text ++ a) 0 false = execute run (w.kind b) (w.text ++ b) 0 false := by
  rw [← kinds]
  cases w with
  | print =>
    have same : strip ((print.text ++ a).drop 5) = strip ((print.text ++ b).drop 5) := arguments
    unfold kind
    dsimp only
    split
    · rfl
    · show Run.print _ false = Run.print _ false
      unfold Run.print
      rw [same]
  | condition =>
    have same : afterWord "if" (condition.text ++ a) = afterWord "if" (condition.text ++ b) := arguments
    show Run.condition _ 0 = Run.condition _ 0
    unfold Run.condition
    rw [same]
    rfl
  | goto =>
    have same : afterWord "goto" (goto.text ++ a) = afterWord "goto" (goto.text ++ b) := arguments
    show Run.goto (goto.text ++ a) = Run.goto (goto.text ++ b)
    unfold Run.goto
    rw [same]
    rfl
  | define =>
    have same : strip ((define.text ++ a).drop 3) = strip ((define.text ++ b).drop 3) := arguments
    have marked : ∀ c : List Char, (define.text ++ c).contains '_' = (strip ((define.text ++ c).drop 3)).contains '_' := by
      intro c
      have word : '_' ∉ define.text := define.free_of_mem (by decide)
      have rest : (define.text ++ c).drop 3 = c := rfl
      rw [rest, Bool.eq_iff_iff, contains_iff_mem, contains_iff_mem, strip, mem_trim (by decide), mem_append,
        or_iff_right word]
    show Run.define _ 0 = Run.define _ 0
    unfold Run.define
    rw [marked, marked, same]
    rfl
  | runFile =>
    have same : strip ((runFile.text ++ a).drop 8) = strip ((runFile.text ++ b).drop 8) := arguments
    show Run.runFile run _ false = Run.runFile run _ false
    unfold Run.runFile
    rw [same]

/-! ## Lines -/

theorem isBlank_of_mem : ∀ c ∈ w.text, isBlank c = false := by
  cases w <;> exact all_iff_forall_prop.mp (by decide)

theorem trimRight_newline (rest : List Char) :
    trimRight (· = '\n') (w.text ++ rest) = w.text ++ trimRight (· = '\n') rest := by
  refine trimRight_append (fun c last => ?_) rest
  have mem := mem_of_getLast? last
  exact decide_eq_false fun newline => w.free_of_mem (by decide) (newline ▸ mem)

theorem read?_text {rest : List Char} (uncommented : '\x7b' ∉ rest) :
    read? (w.text ++ rest) = some ⟨0, w.text ++ trimRight isBlank rest⟩ := by
  have bare : '\x7b' ∉ w.text ++ trimRight (· = '\n') rest := by
    intro mem
    rcases mem_append.mp mem with word | argument
    · revert word
      cases w <;> decide
    · exact uncommented (mem_of_mem_trimRight argument)
  have stripped : stripComments (trimRight (· = '\n') (w.text ++ rest)) = w.text ++ trimRight isBlank rest := by
    rw [w.trimRight_newline, stripComments, uncommented_eq_self bare, trim_of_head, trimRight_append,
      trimRight_trimRight]
    · exact isBlank_of_newline
    · exact fun c last => w.isBlank_of_mem c (mem_of_getLast? last)
    · intro c first
      refine w.isBlank_of_mem c ?_
      cases w <;> exact Option.some.inj first ▸ mem_cons_self
  rw [read?, stripped]
  cases w <;> rfl

end ArgumentWord

/-- Two ends of lines that are the same, or differ only in the line that is shown with an error. -/
def EndsAlike (a b : List Char) (n : Int) (p q : Except Stop Unit × Session) : Prop :=
  p = q ∨ ∃ f s, p = (.ok (), told (trimRight (· = '\n') a) n f s) ∧ q = (.ok (), told (trimRight (· = '\n') b) n f s)

theorem endsAlike_of_outcome {x y : Run Unit} {s : Session} (same : x.outcome s = y.outcome s) (a b : List Char) (n : Int) :
    EndsAlike a b n ((recover x (handle (trimRight (· = '\n') a) false n)).outcome s)
      ((recover y (handle (trimRight (· = '\n') b) false n)).outcome s) := by
  rcases recover_handle_cases x (trimRight (· = '\n') a) false n s with ⟨passed, kept⟩ | ⟨f, t, noJump, failed, reported⟩
  · left
    have second := outcome_recover_handle (x := y) (s := s) (t := (x.outcome s).2) (r := (x.outcome s).1) same.symm passed
    rw [kept, second]
  · right
    refine ⟨f, t, reported, ?_⟩
    unfold recover
    rw [outcome_tryCatch, ← same, failed]
    exact outcome_handle noJump _ false n t

/-! ## Input assignments -/

def inputParts? (t : List Char) : Option (List Char × List Char) :=
  (cut? "=input\"".toList t).or (cut? "=input '".toList t)

theorem splitInput?_eq (code : List Char) :
    splitInput? code = (inputParts? code).map fun parts => (strip parts.1, parts.2.dropLast) := rfl

theorem inputParts?_append (free : '=' ∉ a) (b : List Char) :
    inputParts? (a ++ b) = (inputParts? b).map fun parts => (a ++ parts.1, parts.2) := by
  have cut : ∀ p : List Char, cut? ('=' :: p) (a ++ b) = (cut? ('=' :: p) b).map fun parts => (a ++ parts.1, parts.2) :=
    fun p => cut?_append_of_not_mem free b
  show (cut? ('=' :: "input\"".toList) (a ++ b)).or (cut? ('=' :: "input '".toList) (a ++ b)) = _
  rw [cut, cut, ← Option.map_or]
  rfl

theorem eq_of_inputParts? {u v : List Char} (parts : inputParts? t = some (u, v)) :
    ∃ sign, sign ≠ [] ∧ t = u ++ (sign ++ v) := by
  rcases Option.or_eq_some_iff.mp parts with first | ⟨-, second⟩
  · exact ⟨"=input\"".toList, by decide, eq_of_cut? first⟩
  · exact ⟨"=input '".toList, by decide, eq_of_cut? second⟩

/-- Whether a text assigns input to a name of which at least a part stands in it. -/
def assignsInput (t : List Char) : Bool :=
  Command.isInputAssign t && (inputParts? t).any fun parts => !parts.1.isEmpty

/-! ### Asking -/

def keepTyped (name : String) (line : String) : Run Unit := do
  let v ← check (Typed.lineValue line.toList)
  setVariable name v
  note ("Assigned to " ++ name ++ ": " ++ (← display v))

def keepNothing (name : String) (f : Fault) : Run Unit :=
  if f.isKind .endOfInput then setVariable name (.str "") else fail f

theorem always_keepTyped (name line : String) (s : Session) :
    Always (keepTyped name line) s fun t => t.depot.world.input = s.depot.world.input := by
  refine .bind (leads_check (fun v _ => .bind (.modify (.bind ?_))) fun _ _ => rfl)
  exact leads_display (fun _ _ => leads_note rfl rfl) fun _ _ => rfl

theorem always_keepNothing (name : String) (f : Fault) (s : Session) :
    Always (keepNothing name f) s fun t => t.depot.world.input = s.depot.world.input := by
  unfold keepNothing
  split
  · exact .modify rfl
  · exact .throw rfl

section

variable {code name prompt : List Char} (parts : splitInput? code = some (name, prompt)) (s : Session)

include parts

theorem outcome_inputAssign_invalid (invalid : isValidName name = false) :
    (inputAssign code false).outcome s = (.error (.fault (.malformed (.variableName (String.ofList name)))), s) := by
  unfold inputAssign
  rw [parts]
  dsimp only
  rw [invalid]
  rfl

omit s in
theorem inputAssign_valid (valid : isValidName name) : inputAssign code false =
      recover (act (Act.ask (String.ofList prompt)) >>= keepTyped (String.ofList name)) (keepNothing (String.ofList name)) := by
  unfold inputAssign
  rw [parts]
  dsimp only
  rw [valid]
  rfl

/-- With a valid name the prompt is all that is shown at the end of the input; otherwise a line is taken from the input,
whatever comes of it. -/
theorem outcome_inputAssign_valid (valid : isValidName name) : (∃ t, (inputAssign code false).outcome s = (.ok (), t) ∧
      t.depot.world.output = s.depot.world.output ++ String.ofList prompt) ∨
      ∃ x rest, s.depot.world.input = x :: rest ∧ ((inputAssign code false).outcome s).2.depot.world.input = rest := by
  rcases typed : s.depot.world.input with _ | ⟨x, rest⟩
  · have ends : Leads (inputAssign code false) s
        (fun _ t => t.depot.world.output = s.depot.world.output ++ String.ofList prompt) fun _ _ => False := by
      rw [inputAssign_valid parts valid]
      refine .tryCatch (.bind ((leads_ask _).mono ?_ ?_))
      all_goals rw [typed]
      · rintro _ _ ⟨_, impossible, _⟩
        cases impossible
      · rintro _ _ (⟨-, rfl, rfl⟩ | ⟨_, impossible, _⟩)
        · exact .modify rfl
        · cases impossible
    obtain ⟨_, t, ran, shown⟩ := ends.exists_run
    exact .inl ⟨t, ran, shown⟩
  · have taken : Always (inputAssign code false) s fun t => t.depot.world.input = rest := by
      rw [inputAssign_valid parts valid]
      refine .tryCatch (.bind ((leads_ask _).mono ?_ ?_))
      all_goals rw [typed]
      · rintro line _ ⟨_, same, rfl⟩
        cases same
        refine (always_keepTyped _ line _).mono (fun _ _ => id) fun e t kept => ?_
        cases e with
        | fault f => exact (always_keepNothing _ f t).mono (fun _ _ same => same.trans kept) fun _ _ same => same.trans kept
        | _ => exact .throw kept
      · rintro _ _ (⟨impossible, -⟩ | ⟨_, same, rfl, rfl⟩)
        · cases impossible
        · exact .throw (List.cons.inj same).2.symm
    exact .inr ⟨x, rest, rfl, taken.ends⟩

end

/-! ## Both spellings -/

/-- What is left of a blank and a text behind it: nothing, if there is no text. -/
def behindBlank (t : List Char) : List Char := if t.isEmpty then [] else ' ' :: t

theorem trimRight_space (t : List Char) : trimRight isBlank (' ' :: t) = behindBlank (trimRight isBlank t) := by
  rw [trimRight_cons]
  rfl

theorem strip_suffix (last : ∀ c, t.getLast? = some c → isBlank c = false) : strip t <:+ t := by
  have kept : strip t = trimLeft isBlank t := by
    refine trimRight_eq_self fun c hc => last c ?_
    obtain ⟨front, whole⟩ := dropWhile_suffix (l := t) isBlank
    rw [← whole, getLast?_append]
    show (trimLeft isBlank t).getLast?.or front.getLast? = some c
    rw [hc]
    rfl
  rw [kept]
  exact dropWhile_suffix isBlank

theorem isScriptName_of_suffix (suffix : a <:+ b) (script : isScriptName a) : isScriptName b := by
  have longer : ∀ e : List Char, endsWith a e → endsWith b e := fun e h =>
    isSuffixOf_iff_suffix.mpr ((isSuffixOf_iff_suffix.mp h).trans suffix)
  unfold isScriptName at script ⊢
  rw [Bool.or_eq_true] at script ⊢
  exact script.imp (longer _) (longer _)

/-- What is no name of a script is none either without its first character. -/
theorem isScriptName_strip_drop (last : ∀ c, t.getLast? = some c → isBlank c = false) (unnamed : isScriptName t = false) :
    isScriptName (strip (t.drop 1)) = false := by
  refine Bool.eq_false_iff.mpr fun named => ?_
  have suffix : strip (t.drop 1) <:+ t := by
    refine (strip_suffix fun c hc => last c ?_).trans (drop_suffix 1 t)
    cases t with
    | nil => cases hc
    | cons d t =>
      rw [getLast?_cons, show t.getLast? = some c from hc]
      rfl
  exact Bool.eq_false_iff.mp unnamed (isScriptName_of_suffix suffix named)

theorem outcome_runFile_unnamed (run : Runner) {code : List Char} (unnamed : isScriptName (strip (code.drop 8)) = false)
    (s : Session) : (runFile run code false).outcome s = (.error (.fault (.malformed .fileType)), s) := by
  unfold runFile
  dsimp only
  rw [unnamed]
  rfl

namespace ArgumentWord

theorem kind_space (w : ArgumentWord) {t : List Char} (first : ∀ c, t.head? = some c → isBlank c = false) :
    w.kind (' ' :: t) = w.kind t := by
  cases w with
  | print =>
    have apart : startsWith t " input".toList = false := by
      cases t with
      | nil => rfl
      | cons c t =>
        have solid := first c rfl
        have other : (' ' == c) = false := by
          refine beq_eq_false_iff_ne.mpr fun same => ?_
          rw [← same] at solid
          exact absurd solid (by decide)
        show (' ' == c && _) = false
        rw [other, Bool.false_and]
    show (if startsWith t "input".toList then Command.printInput else .print) = _
    unfold kind
    rw [apart, Bool.or_false]
  | _ => rfl

/-- A text in which the name that gets input is the word alone. -/
theorem inputAssign_space (w : ArgumentWord) {t : List Char} (unnamed : (inputParts? t).all fun parts => parts.1.isEmpty) :
    inputAssign (w.text ++ t) false = inputAssign (w.text ++ ' ' :: t) false := by
  have equals : '=' ∉ w.text := w.free_of_mem (by decide)
  have spaced : '=' ∉ w.text ++ [' '] := by simp [equals]
  have split : splitInput? (w.text ++ t) = splitInput? (w.text ++ ' ' :: t) := by
    rw [append_cons, splitInput?_eq, splitInput?_eq, inputParts?_append equals, inputParts?_append spaced]
    cases cut : inputParts? t with
    | none => rfl
    | some parts =>
      obtain ⟨u, v⟩ := parts
      rw [cut] at unnamed
      obtain rfl : u = [] := isEmpty_iff.mp unnamed
      cases w <;> rfl
  unfold inputAssign
  rw [split]

/-- Unless input is assigned to a name in the argument, or the word runs a script, a blank after the word makes no
difference to the command. -/
theorem outcome_execute_space (w : ArgumentWord) {t : List Char} (first : ∀ c, t.head? = some c → isBlank c = false)
    (last : ∀ c, t.getLast? = some c → isBlank c = false) (unassigned : assignsInput t = false)
    (script : w = .runFile → isScriptName t = false) (run : Runner) (s : Session) : (execute run (.of false false (w.text ++ t)) (w.text ++ t) 0 false).outcome s =
      (execute run (.of false false (w.text ++ ' ' :: t)) (w.text ++ ' ' :: t) 0 false).outcome s := by
  rw [w.of_text, w.of_text, isInputAssign_space]
  cases typed : Command.isInputAssign t with
  | true =>
    have unnamed : (inputParts? t).all fun parts => parts.1.isEmpty := by
      unfold assignsInput at unassigned
      rw [typed] at unassigned
      cases cut : inputParts? t with
      | none => rfl
      | some parts => simpa [cut] using unassigned
    exact congrArg (outcome · s) (w.inputAssign_space unnamed)
  | false =>
    rw [if_neg Bool.false_ne_true, if_neg Bool.false_ne_true]
    by_cases runs : w = .runFile
    · subst runs
      have whole : strip t = t := trim_eq_self first last
      have unnamed : ∀ rest, isScriptName (strip (rest.drop 1)) = false →
          (Run.runFile run (runFile.text ++ rest) false).outcome s = (.error (.fault (.malformed .fileType)), s) :=
        fun rest h => outcome_runFile_unnamed run (by exact h) s
      have spaced : isScriptName (strip t) = false := whole.symm ▸ script rfl
      exact (unnamed t (isScriptName_strip_drop last (script rfl))).trans (unnamed (' ' :: t) spaced).symm
    · have arguments : w.argument t = w.argument (' ' :: t) := by
        cases w with
        | runFile => exact absurd rfl runs
        | _ => rfl
      rw [w.execute_congr run arguments (w.kind_space first).symm]

end ArgumentWord

/-! ## Telling the spellings apart -/

def shownLength (s : Session) : Nat := s.depot.world.output.length

def reportLength (n : Int) (f : Fault) : Nat :=
  2 * ("[Line " ++ toString n ++ "] ").length + (if f.isLanguage then "GuythonError" else "Unexpected error").length +
    f.message.length + 6

/-- A report on a name is the longer the longer the name is. -/
theorem reportLength_variableName (n : Int) (name : List Char) :
    reportLength n (.malformed (.variableName (String.ofList name))) =
      reportLength n (.malformed (.variableName "")) + name.length := by
  have message : ∀ x : String, (Fault.malformed (.variableName x)).message.length =
      "Invalid variable name: '".length + x.length + "'".length := by
    intro x
    show ("Invalid variable name: '" ++ x ++ "'").length = _
    rw [String.length_append, String.length_append]
  have heading : ∀ x : String, (Fault.malformed (.variableName x)).isLanguage := fun _ => rfl
  have named : (String.ofList name).length = name.length := String.length_ofList
  have nameless : ("" : String).length = 0 := rfl
  unfold reportLength
  rw [message, message, heading, heading]
  omega

theorem shownLength_said (text : String) (s : Session) : shownLength (said text s) = shownLength s + text.length + 1 := by
  show (s.depot.world.output ++ (text ++ "\n")).length = s.depot.world.output.length + text.length + 1
  rw [String.length_append, String.length_append]
  rfl

theorem shownLength_told {line : List Char} (flush : line.takeWhile (· = ' ') = []) (n : Int) (f : Fault) (s : Session) :
    shownLength (told line n f s) = shownLength s + line.length + reportLength n f := by
  unfold told reportLength
  rw [flush, shownLength_said, shownLength_said, shownLength_said]
  simp only [String.length_append, String.length_ofList, length_replicate, length_nil]
  have sign : ("^" : String).length = 1 := rfl
  have colon : (": " : String).length = 2 := rfl
  omega

namespace ArgumentWord

variable (w : ArgumentWord)

theorem flush (rest : List Char) : (w.text ++ rest).takeWhile (· = ' ') = [] := by cases w <;> rfl

theorem trimRight_spaced (t : List Char) : trimRight (· = '\n') (w.spaced t) = w.text ++ ' ' :: trimRight (· = '\n') t := by
  rw [spaced, w.trimRight_newline, trimRight_cons]
  rfl

end ArgumentWord

theorem EndsAlike.kept {n : Int} (alike : EndsAlike a b n p q) :
    p.2.lineNumber = q.2.lineNumber ∧ p.2.depot.world.input = q.2.depot.world.input := by
  rcases alike with rfl | ⟨f, s, rfl, rfl⟩
  · exact ⟨rfl, rfl⟩
  · obtain ⟨_, first⟩ := shows_told (trimRight (· = '\n') a) n f s
    obtain ⟨_, second⟩ := shows_told (trimRight (· = '\n') b) n f s
    rw [first, second]
    exact ⟨rfl, rfl⟩

/-- Lines that end alike have shown as much but for the line itself. -/
theorem EndsAlike.shown {w : ArgumentWord} {n : Int} (alike : EndsAlike (w.joined t) (w.spaced t) n p q) :
    shownLength q.2 = shownLength p.2 ∨ shownLength q.2 = shownLength p.2 + 1 := by
  rcases alike with rfl | ⟨f, s, rfl, rfl⟩
  · exact Or.inl rfl
  · rw [ArgumentWord.joined, w.trimRight_newline, w.trimRight_spaced, shownLength_told (w.flush _), shownLength_told (w.flush _)]
    simp only [length_append, length_cons]
    omega

/-- The names that the two lines would assign input to. -/
theorem splitInput?_word {w : ArgumentWord} {u v : List Char} (first : ∀ c, t.head? = some c → isBlank c = false)
    (parts : inputParts? t = some (u, v)) (named : u ≠ []) : splitInput? (w.text ++ t) = some (w.text ++ trimRight isBlank u, v.dropLast) ∧
      splitInput? (w.text ++ ' ' :: t) = some (w.text ++ ' ' :: trimRight isBlank u, v.dropLast) := by
  have equals : '=' ∉ w.text := w.free_of_mem (by decide)
  have spaced : '=' ∉ w.text ++ [' '] := by simp [equals]
  have front : ∀ rest c, (w.text ++ rest).head? = some c → isBlank c = false := by
    intro rest c hc
    refine w.isBlank_of_mem c ?_
    cases w <;> exact Option.some.inj hc ▸ mem_cons_self
  have inner : ∀ rest, strip (w.text ++ rest) = w.text ++ trimRight isBlank rest := by
    intro rest
    rw [strip, trim_of_head (front rest), trimRight_append]
    exact fun c hc => w.isBlank_of_mem c (mem_of_getLast? hc)
  have filled : (trimRight isBlank u).isEmpty = false := by
    obtain ⟨sign, -, shape⟩ := eq_of_inputParts? parts
    have solid : ∀ c, u.head? = some c → isBlank c = false := by
      intro c hc
      refine first c ?_
      rw [shape, head?_append, hc]
      rfl
    obtain ⟨c, rest, rfl⟩ := exists_cons_of_ne_nil named
    rw [trimRight_cons, solid c rfl]
    rfl
  constructor
  · rw [splitInput?_eq, inputParts?_append equals, parts]
    dsimp only [Option.map_some]
    rw [inner]
  · rw [append_cons, splitInput?_eq, inputParts?_append spaced, parts]
    dsimp only [Option.map_some]
    rw [append_assoc, singleton_append, inner, trimRight_space, behindBlank, filled]
    rfl

/-- A session with no definition in progress, no block open and no alias, and an argument in its shortest form but for blanks
at its end. -/
structure Plain (t : List Char) (u : Session) : Prop where
  first : ∀ c, t.head? = some c → isBlank c = false
  uncommented : '\x7b' ∉ t
  closed : u.defining = none
  outermost : Outermost u
  unaliased : u.aliases = []

theorem isValidName_of_space (space : ' ' ∈ a) : isValidName a = false := by
  refine Bool.eq_false_iff.mpr fun valid => ?_
  exact (solid_of_isWordForm (isWordForm_of_isValidName valid)).2 (mem_append_left _ space)

section

variable {t : List Char} {u : Session} (plain : Plain t u) (w : ArgumentWord) (run : Runner) (n : Int)

include plain

theorem outcome_joined :
    (lineWith run (w.joined t) false n).outcome u =
      (recover (execute run (.of false false (w.text ++ strip t)) (w.text ++ strip t) 0 false)
        (handle (trimRight (· = '\n') (w.joined t)) false n)).outcome { u with lineNumber := n } := by
  rw [strip, trim_of_head plain.first]
  exact outcome_line_outermost run (w.read?_text plain.uncommented) n plain.closed plain.outermost plain.unaliased

theorem outcome_spaced :
    (lineWith run (w.spaced t) false n).outcome u =
      (recover (execute run (.of false false (w.text ++ behindBlank (strip t))) (w.text ++ behindBlank (strip t)) 0 false)
        (handle (trimRight (· = '\n') (w.spaced t)) false n)).outcome { u with lineNumber := n } := by
  have bare : '\x7b' ∉ ' ' :: t := by simpa using plain.uncommented
  rw [strip, trim_of_head plain.first, ← trimRight_space]
  exact outcome_line_outermost run (w.read?_text bare) n plain.closed plain.outermost plain.unaliased

section

variable {x v : List Char} (typed : Command.isInputAssign (strip t) = true) (parts : inputParts? (strip t) = some (x, v))
  (named : x ≠ [])

include typed parts named

/-- With a blank after the word there is one in the name, so the name is refused. -/
theorem outcome_spaced_refused :
    (lineWith run (w.spaced t) false n).outcome u =
      (.ok (), told (trimRight (· = '\n') (w.spaced t)) n
        (.malformed (.variableName (String.ofList (w.text ++ ' ' :: trimRight isBlank x)))) { u with lineNumber := n }) := by
  have filled : strip t ≠ [] := by
    obtain ⟨sign, -, shape⟩ := eq_of_inputParts? parts
    rw [shape]
    simp [named]
  rw [outcome_spaced plain, behindBlank, if_neg (by simpa using filled), w.of_text, isInputAssign_space, typed]
  refine outcome_recover_fault ?_ (fun _ same => by cases same) _ n
  exact outcome_inputAssign_invalid (splitInput?_word (fun _ => head?_trim) parts named).2 _ (isValidName_of_space (by simp))

/-- Without one, the line takes input, or shows a prompt, or the name without the blank is refused. -/
theorem outcome_joined_cases :
    (∃ y rest, u.depot.world.input = y :: rest ∧
        ((lineWith run (w.joined t) false n).outcome u).2.depot.world.input = rest) ∨
      shownLength ((lineWith run (w.joined t) false n).outcome u).2 ≤ shownLength u + (strip t).length ∨
      (lineWith run (w.joined t) false n).outcome u =
        (.ok (), told (trimRight (· = '\n') (w.joined t)) n
          (.malformed (.variableName (String.ofList (w.text ++ trimRight isBlank x)))) { u with lineNumber := n }) := by
  have names := (splitInput?_word (w := w) (t := strip t) (fun _ => head?_trim) parts named).1
  have executed : execute run .inputAssign (w.text ++ strip t) 0 false = inputAssign (w.text ++ strip t) false := rfl
  rw [outcome_joined plain, w.of_text, typed, if_pos rfl, executed]
  cases valid : isValidName (w.text ++ trimRight isBlank x) with
  | false =>
    refine Or.inr (Or.inr (outcome_recover_fault ?_ (fun _ same => by cases same) _ n))
    exact outcome_inputAssign_invalid names _ valid
  | true =>
    rcases outcome_inputAssign_valid names { u with lineNumber := n } valid with
      ⟨s, ended, shown⟩ | ⟨y, rest, waiting, taken⟩
    · obtain ⟨sign, -, shape⟩ := eq_of_inputParts? parts
      rw [outcome_recover_ok ended, shape]
      unfold shownLength
      rw [shown, String.length_append, String.length_ofList]
      simp only [length_append, length_dropLast]
      omega
    · refine Or.inl ⟨y, rest, waiting, ?_⟩
      rcases recover_handle_cases (inputAssign (w.text ++ strip t) false) (trimRight (· = '\n') (w.joined t)) false n
        { u with lineNumber := n } with ⟨-, same⟩ | ⟨f, s, -, failed, reported⟩
      · rw [same]
        exact taken
      · rw [reported]
        rw [failed] at taken
        exact taken

end

/-- Where input is assigned to a name in the argument, the lines differ. -/
theorem not_endsAlike (assigned : assignsInput (strip t)) :
    ¬ EndsAlike (w.joined t) (w.spaced t) n ((lineWith run (w.joined t) false n).outcome u)
      ((lineWith run (w.spaced t) false n).outcome u) := by
  intro alike
  unfold assignsInput at assigned
  rw [Bool.and_eq_true] at assigned
  obtain ⟨typed, some⟩ := assigned
  obtain ⟨x, v, parts, named⟩ : ∃ x v, inputParts? (strip t) = Option.some (x, v) ∧ x ≠ [] := by
    cases cut : inputParts? (strip t) with
    | none =>
      rw [cut] at some
      cases some
    | some parts => exact ⟨parts.1, parts.2, rfl, by simpa [cut] using some⟩
  have shorter : (strip t).length ≤ (trimRight (· = '\n') t).length := by
    rw [strip, trim_of_head plain.first, ← trimRight_trimRight (q := (· = '\n'))]
    · exact (trimRight_sublist _ _).length_le
    · exact isBlank_of_newline
  have input := alike.kept.2.symm
  have lengths := alike.shown
  rw [outcome_spaced_refused plain w run n typed parts named] at input lengths
  rw [w.trimRight_spaced, shownLength_told (w.flush _), length_append, length_cons] at lengths
  have start : shownLength { u with lineNumber := n } = shownLength u := rfl
  rcases outcome_joined_cases plain w run n typed parts named with ⟨y, rest, waiting, taken⟩ | prompted | refused
  · rw [taken] at input
    have same : u.depot.world.input = rest := input
    rw [waiting] at same
    exact absurd (congrArg List.length same) (by simp)
  · have report : 6 ≤ reportLength n (.malformed (.variableName (String.ofList (w.text ++ ' ' :: trimRight isBlank x)))) :=
      Nat.le_add_left _ _
    omega
  · -- the blank stands in the line and in the name, so the report is two characters longer
    have joined := reportLength_variableName n (w.text ++ trimRight isBlank x)
    have spaced := reportLength_variableName n (w.text ++ ' ' :: trimRight isBlank x)
    rw [length_append] at joined
    rw [length_append, length_cons] at spaced
    rw [refused, ArgumentWord.joined, w.trimRight_newline, shownLength_told (w.flush _), length_append] at lengths
    omega

/-- Where no input is assigned to a name in the argument and no script is run, the lines end alike. -/
theorem endsAlike_spellings (unassigned : assignsInput (strip t) = false)
    (script : w = .runFile → isScriptName (strip t) = false) :
    EndsAlike (w.joined t) (w.spaced t) n ((lineWith run (w.joined t) false n).outcome u)
      ((lineWith run (w.spaced t) false n).outcome u) := by
  rw [outcome_joined plain, outcome_spaced plain]
  refine endsAlike_of_outcome ?_ _ _ n
  by_cases empty : strip t = []
  · rw [empty]
    rfl
  · rw [behindBlank, if_neg (by simpa using empty)]
    exact w.outcome_execute_space (fun _ => head?_trim) (fun _ => getLast?_trimRight) unassigned script run _

/-- The word that runs a file drops the character after it, blank or not. -/
theorem outcome_runFile_spellings (typed : Command.isInputAssign (strip t) = false) :
    (lineWith run (ArgumentWord.runFile.joined t) false n).outcome u =
        (recover (runFile run (ArgumentWord.runFile.spaced ((strip t).drop 1)) false)
          (handle (trimRight (· = '\n') (ArgumentWord.runFile.joined t)) false n)).outcome { u with lineNumber := n } ∧
      (lineWith run (ArgumentWord.runFile.spaced t) false n).outcome u =
        (recover (runFile run (ArgumentWord.runFile.spaced (strip t)) false)
          (handle (trimRight (· = '\n') (ArgumentWord.runFile.spaced t)) false n)).outcome { u with lineNumber := n } := by
  constructor
  · rw [outcome_joined plain, ArgumentWord.of_text, typed]
    rfl
  · rw [outcome_spaced plain]
    by_cases empty : strip t = []
    · rw [empty]
      rfl
    · rw [behindBlank, if_neg (by simpa using empty), ArgumentWord.of_text, isInputAssign_space, typed,
        if_neg Bool.false_ne_true]
      rfl

end

/-- A blank between a command word and its argument is optional, but where the argument assigns input to a name, and where the
word runs a file: without a blank its name lacks the first character. -/
theorem blank_after_word (w : ArgumentWord) {t : List Char} (first : ∀ c, t.head? = some c → isBlank c = false)
    (uncommented : '\x7b' ∉ t) {u : Session} (closed : u.defining = none) (outermost : Outermost u)
    (unaliased : u.aliases = []) (depth : Nat) (n : Int) :
    (assignsInput (strip t) = true →
      ¬ EndsAlike (w.joined t) (w.spaced t) n ((runner (depth + 1) (w.joined t) false n).outcome u)
        ((runner (depth + 1) (w.spaced t) false n).outcome u)) ∧
      (assignsInput (strip t) = false → (w = .runFile → isScriptName (strip t) = false) →
        EndsAlike (w.joined t) (w.spaced t) n ((runner (depth + 1) (w.joined t) false n).outcome u)
          ((runner (depth + 1) (w.spaced t) false n).outcome u)) ∧
      (w = .runFile → Command.isInputAssign (strip t) = false →
        (runner (depth + 1) (w.joined t) false n).outcome u =
            (recover (runFile (runner depth) (w.spaced ((strip t).drop 1)) false)
              (handle (trimRight (· = '\n') (w.joined t)) false n)).outcome { u with lineNumber := n } ∧
          (runner (depth + 1) (w.spaced t) false n).outcome u =
            (recover (runFile (runner depth) (w.spaced (strip t)) false)
              (handle (trimRight (· = '\n') (w.spaced t)) false n)).outcome { u with lineNumber := n }) := by
  have plain : Plain t u := ⟨first, uncommented, closed, outermost, unaliased⟩
  refine ⟨fun assigned => ?_, fun unassigned script => ?_, ?_⟩
  · exact not_endsAlike plain w (runner depth) n assigned
  · exact endsAlike_spellings plain w (runner depth) n unassigned script
  · rintro rfl typed
    exact outcome_runFile_spellings plain (runner depth) n typed

def inputText : List Char := "x=input\"?\"".toList

def numberText : List Char := "3 ".toList

theorem blank_after_word_print_goto :
    ¬ EndsAlike (ArgumentWord.print.joined inputText) (ArgumentWord.print.spaced inputText) 0
        ((runner 300 (ArgumentWord.print.joined inputText) false 0).outcome {})
        ((runner 300 (ArgumentWord.print.spaced inputText) false 0).outcome {}) ∧
      EndsAlike (ArgumentWord.goto.joined numberText) (ArgumentWord.goto.spaced numberText) 0
        ((runner 300 (ArgumentWord.goto.joined numberText) false 0).outcome {})
        ((runner 300 (ArgumentWord.goto.spaced numberText) false 0).outcome {}) := by
  have input : ∀ c, inputText.head? = some c → isBlank c = false := fun c first => Option.some.inj first ▸ rfl
  have number : ∀ c, numberText.head? = some c → isBlank c = false := fun c first => Option.some.inj first ▸ rfl
  constructor
  · exact (blank_after_word .print input (by decide) rfl ⟨rfl, rfl⟩ rfl 299 0).1 (by decide)
  · exact (blank_after_word .goto number (by decide) rfl ⟨rfl, rfl⟩ rfl 299 0).2.1 (by decide) (nofun)

def withFile (name text : String) : Session where
  depot := { world := { disk := [(name, .file (encode text.toList) Disk.newMode)] } }

def progress (s : Session) : Int × String := (s.lineNumber, s.depot.world.output)

theorem EndsAlike.number_eq {n : Int} {x y : Int × String} (alike : EndsAlike a b n p q) (first : progress p.2 = x)
    (second : progress q.2 = y) : x.1 = y.1 := by
  rw [← first, ← second]
  exact alike.kept.1

/-- How a line ends where there is a script that prints a number. -/
def besideScript (code : String) : Except Stop Unit × Session :=
  (line code.toList false 0).outcome (withFile "a.gy" "print 1\n")

/-- The two spellings of one command run different files. -/
theorem runFile_without_blank :
    progress (besideScript "guythona.gy").2 =
        (0, "[Line 0] guythona.gy\n         ^\nGuythonError: File not found: .gy\n") ∧
      progress (besideScript "guython a.gy").2 = (1, "1\n") ∧
      ¬ EndsAlike "guythona.gy".toList "guython a.gy".toList 0 (besideScript "guythona.gy") (besideScript "guython a.gy") := by
  have joined : progress (besideScript "guythona.gy").2 =
      (0, "[Line 0] guythona.gy\n         ^\nGuythonError: File not found: .gy\n") := by
    decide +kernel
  have spaced : progress (besideScript "guython a.gy").2 = (1, "1\n") := by decide +kernel
  exact ⟨joined, spaced, fun alike => absurd (alike.number_eq joined spaced) (by decide)⟩

end LineScript.Run
