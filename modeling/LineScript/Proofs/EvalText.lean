
import LineScript.Proofs.Containment
import LineScript.Proofs.Definitions
import LineScript.Proofs.QuotedText
import LineScript.Proofs.Replay

/-!
# Texts that are run as lines

An `eval` line with a text in quotes runs the text as a line of its own, one level deeper. What it runs is the value of the
text as an expression, so words with an underscore that is not in front arrive as calls; and a jump of the text is told as an
error.
-/

namespace LineScript.Run

open Text Line List

variable {levels depth : Nat} {u v : Session} {n : Int} {s : List Char}

/-! ## Levels -/

/-- Runners that give a run up where the levels run out. -/
def bounded : Nat → Runner
  | 0 => fun _ _ _ => throw givenUp
  | depth + 1 => lineWith (bounded depth)

/-- A run that gets along with some levels is the run with any more. -/
theorem tracks_bounded (room : depth ≤ levels) (first : Session) :
    TracksLines True (Since (fun _ _ => True) first) Eq (bounded depth) (runner levels) := by
  induction depth generalizing levels with
  | zero => exact fun _ _ _ _ _ => .giveUp _
  | succ depth ih =>
    rintro raw importing m _ rfl
    obtain ⟨levels, rfl⟩ : ∃ k, levels = k + 1 := ⟨levels - 1, by omega⟩
    have hrun := ih (Nat.le_of_succ_le_succ room)
    rw [bounded, runner, lineWith_eq_lineBy, lineWith_eq_lineBy]
    refine .lineBy shares_true.toAligned defines_true rfl rfl
      (fun l _ => .closeBlocks shares_true defines_true hrun l.indent) (fun l _ => ?_) fun f => .handle sees_true _ _ _ f
    exact .process_of_execute shares_true.toAligned defines_true fun s t h command code =>
      tracks_execute_true hrun h command code l.indent importing

theorem outcome_runner_of_bounded (room : depth ≤ levels) {raw : List Char} {importing : Bool} {s : Session}
    (shallow : ((bounded depth raw importing n).outcome s).1 ≠ .error givenUp) :
    (runner levels raw importing n).outcome s = (bounded depth raw importing n).outcome s := by
  rcases tracks_bounded room s raw importing rfl s s ⟨rfl, trivial⟩ with ⟨-, given⟩ | ⟨ended, same, -⟩
  · exact absurd given shallow
  · exact Prod.ext ended same.symm

/-! ## The text of the line -/

/-- A text that can stand as it is in quotes on a line: no comment starts in it. -/
structure Evaluable (s : List Char) : Prop extends Expr.Quotable s where
  uncommented : '\x7b' ∉ s

def evalText (s : List Char) : List Char := "eval".toList ++ ' ' :: Expr.inQuotes s

theorem getLast?_inQuotes (s : List Char) : (Expr.inQuotes s).getLast? = some '"' := by
  rw [Expr.inQuotes, ← cons_append]
  exact getLast?_concat

theorem getLast?_evalText (s : List Char) : (evalText s).getLast? = some '"' := by
  have whole : evalText s = "eval ".toList ++ Expr.inQuotes s := rfl
  rw [whole, getLast?_append, getLast?_inQuotes]
  rfl

theorem read?_evalText (text : Evaluable s) : read? (evalText s) = some ⟨0, evalText s⟩ := by
  have tidy : Tidy (evalText s) := by
    refine ⟨fun mem => text.uncommented ?_, (nofun), fun c last => ?_⟩
    · simpa [evalText, Expr.inQuotes] using mem
    · cases (getLast?_evalText s).symm.trans last
      decide
  have head : (⟨0, evalText s⟩ : Line).text.head? = some 'e' := rfl
  exact read?_text (l := ⟨0, evalText s⟩) tidy head (by decide)

theorem trimRight_evalText (s : List Char) : trimRight (· = '\n') (evalText s) = evalText s := by
  refine trimRight_eq_self fun c last => ?_
  cases (getLast?_evalText s).symm.trans last
  decide

theorem afterWord_evalText (s : List Char) : afterWord "eval" (evalText s) = Expr.inQuotes s := by
  refine trimRight_eq_self fun c last => ?_
  cases (getLast?_inQuotes s).symm.trans last
  decide

/-! ## What the line does -/

def noted (text : String) (s : Session) : Session := if s.debug then said ("[DEBUG] " ++ text) s else s

theorem outcome_noted (text : String) (s : Session) : (note text).outcome s = (.ok (), noted text s) := by
  unfold note noted
  rw [bind_ok (outcome_session s)]
  cases s.debug <;> rfl

def runValue (run : Runner) : Value → Run Unit
  | .str text => do
    note ("Evaluating code: " ++ text)
    run text.toList false (← session).lineNumber
  | v => broken (.evalType v.shortTypeName)

def asEval (f : Fault) : Fault := if f.isLanguage then f else .runtime (.evalFailed f.message)

/-- How a line ends that runs a text, by how the text has ended: faults are told. -/
def heard (line : List Char) (n : Int) : Except Stop Unit × Session → Except Stop Unit × Session
  | (.error (.fault f), t) => (.ok (), told line n (asEval f) t)
  | ended => ended

theorem asEval_ne_jump (f : Fault) (target : Nat) : asEval f ≠ .jump target := by
  unfold asEval
  split
  · rintro rfl
    rename_i language
    cases language
  · nofun

theorem outcome_recover_eval (x : Run Unit) (line : List Char) (n : Int) (s : Session) :
    (recover (wrappingForeign .evalFailed x) (handle line false n)).outcome s = heard line n (x.outcome s) := by
  unfold wrappingForeign recover
  rw [outcome_tryCatch, outcome_tryCatch]
  rcases x.outcome s with ⟨(f | _ | _ | _) | _, t⟩
  · have wrapped : (if f.isLanguage then fail f else broken (.evalFailed f.message) : Run Unit).outcome t =
        (.error (.fault (asEval f)), t) := by
      unfold asEval
      split <;> rfl
    dsimp only
    rw [wrapped]
    exact outcome_handle (asEval_ne_jump f) line false n t
  all_goals rfl

/-- The text in quotes is evaluated once the index of packages has been looked at. -/
theorem outcome_evaluate_inQuotes (h : Expr.Quotable s) (looked : (act Pkg.touch).outcome u = (.ok (), v)) :
    (evaluate (Expr.inQuotes s)).outcome u =
      (if Expr.unreadable s then .error (.fault (.runtime (.evaluating Expr.invalidSyntax.message)))
        else .ok (.str (String.ofList (Expr.respell s))), v) := by
  show (act Pkg.touch >>= fun _ => value (Expr.inQuotes s)).outcome u = _
  rw [bind_ok looked, value, bind_ok (outcome_session v)]
  rw [outcome_evaluation, Expr.evaluate_inQuotes _ h]
  cases Expr.unreadable s <;> rfl

section

variable {s : List Char} (text : Evaluable s) {u : Session} (closed : u.defining = none) (outermost : Outermost u)
  (valid : u.AliasesValid)

include text closed outermost valid

/-- With no definition in progress and no block open, the line comes to its text. -/
theorem outcome_evalText (run : Runner) (n : Int) :
    (lineWith run (evalText s) false n).outcome u =
      heard (evalText s) n ((evaluate (Expr.inQuotes s) >>= runValue run).outcome { u with lineNumber := n }) := by
  have plain : applyAliases u.aliases (evalText s) = evalText s := applyAliases_reserved valid _ (by decide) (by decide) _
  have reaches := reaches_idle run (read?_evalText text) n closed outermost plain
  rw [reaches.outcome false, trimRight_evalText, ← outcome_recover_eval, ← afterWord_evalText]
  rfl

end

/-- A line does not depend on the number of the line before it. -/
theorem outcome_lineWith_number (run : Runner) (raw : List Char) (importing : Bool) (k n : Int) (s : Session) :
    (lineWith run raw importing n).outcome { s with lineNumber := k } = (lineWith run raw importing n).outcome s := by
  rw [lineWith_eq_lineBy, lineBy, bind_ok (outcome_adjust _ _), bind_ok (outcome_adjust _ _)]

theorem noted_number (text : String) (n : Int) (s : Session) :
    noted text { s with lineNumber := n } = { noted text s with lineNumber := n } := by
  unfold noted
  split <;> rfl

theorem outcome_touch_number {r : Except Stop Unit} (looked : (act Pkg.touch).outcome u = (r, v)) (n : Int) :
    (act Pkg.touch).outcome { u with lineNumber := n } = (r, { v with lineNumber := n }) := by
  rw [outcome_act] at looked ⊢
  cases looked
  rfl

/-- **An `eval` line runs its text like a line, but for jumps and the spelling of calls.** A jump is told as an error, and so is a
carriage return or a null character; respelling changes the text just if a character of a word is followed by an underscore. -/
theorem eval_line_runs_text {s : List Char} (text : Evaluable s) {u : Session} (closed : u.defining = none)
    (outermost : Outermost u) (valid : u.AliasesValid) (depth : Nat) (n : Int) :
    (∀ v, (act Pkg.touch).outcome u = (.ok (), v) →
      (runner (depth + 2) (evalText s) false n).outcome u =
        heard (evalText s) n
          (if Expr.unreadable s then
            (.error (.fault (.runtime (.evaluating Expr.invalidSyntax.message))), { v with lineNumber := n })
          else
            (runner (depth + 1) (Expr.respell s) false n).outcome
              (noted ("Evaluating code: " ++ String.ofList (Expr.respell s)) v))) ∧
      (∀ f v, (act Pkg.touch).outcome u = (.error (.fault f), v) →
        (runner (depth + 2) (evalText s) false n).outcome u =
          heard (evalText s) n (.error (.fault f), { v with lineNumber := n })) ∧
      (∀ v, ((bounded (depth + 1) (Expr.respell s) false n).outcome v).1 ≠ .error givenUp →
        (runner (depth + 1) (Expr.respell s) false n).outcome v = (runner (depth + 2) (Expr.respell s) false n).outcome v) ∧
      (Expr.respell s = s ↔ ∀ c, isWord c = true → ¬ [c, '_'] <:+: s) := by
  have arrives := outcome_evalText text closed outermost valid (runner (depth + 1)) n
  refine ⟨fun v looked => ?_, fun f v failed => ?_, fun v shallow => ?_, Expr.respell_eq_self_iff s⟩
  · have evaluated := outcome_evaluate_inQuotes text.toQuotable (outcome_touch_number looked n)
    refine arrives.trans (congrArg _ ?_)
    cases unread : Expr.unreadable s with
    | true =>
      rw [unread, if_pos rfl] at evaluated
      rw [bind_error evaluated, if_pos rfl]
    | false =>
      rw [unread, if_neg Bool.false_ne_true] at evaluated
      rw [bind_ok evaluated, if_neg Bool.false_ne_true, runValue, bind_ok (outcome_noted _ _),
        bind_ok (outcome_session _), noted_number, String.toList_ofList]
      exact outcome_lineWith_number _ _ _ _ _ _
  · have evaluated : (evaluate (Expr.inQuotes s)).outcome { u with lineNumber := n } =
        (.error (.fault f), { v with lineNumber := n }) := bind_error (outcome_touch_number failed n)
    exact arrives.trans (congrArg _ (bind_error evaluated))
  · rw [outcome_runner_of_bounded (Nat.le_refl _) shallow, outcome_runner_of_bounded (Nat.le_succ _) shallow]

def looking : Session := ((act Pkg.touch).outcome {}).2

theorem eval_line_runs_text_goto :
    Evaluable "goto 3".toList ∧ (act Pkg.touch).outcome {} = (.ok (), looking) ∧
      ((bounded 299 "goto 3".toList false 1).outcome looking).1 ≠ .error givenUp ∧
      (line "goto 3".toList false 1).outcome looking = (.error (.fault (.jump 3)), { looking with lineNumber := 1 }) ∧
      (line (evalText "goto 3".toList) false 1).outcome {} =
        (.ok (), told (evalText "goto 3".toList) 1 (.runtime (.evalFailed "Goto line 3")) { looking with lineNumber := 1 }) := by
  have text : Evaluable "goto 3".toList := ⟨⟨by decide, by decide, by decide⟩, by decide⟩
  have looked : (act Pkg.touch).outcome {} = (.ok (), looking) := rfl
  have shallow : ((bounded 299 "goto 3".toList false 1).outcome looking).1 ≠ .error givenUp := by decide +kernel
  have jump : (line "goto 3".toList false 1).outcome looking = (.error (.fault (.jump 3)), { looking with lineNumber := 1 }) :=
    rfl
  have same : Expr.respell "goto 3".toList = "goto 3".toList := rfl
  obtain ⟨law, -, level, -⟩ := eval_line_runs_text (u := {}) text rfl ⟨rfl, rfl⟩ (fun _ mem => nomatch mem) 298 1
  rw [same] at law level
  have ran := (law looking looked).trans (congrArg _ ((level looking shallow).trans jump))
  exact ⟨text, looked, shallow, jump, ran⟩

def greeting : Session := { functions := [("f", ⟨[], [⟨1, "print \"x\"".toList⟩]⟩)] }

/-- A call in a text that is run does not call the function, and a jump does not jump. -/
theorem eval_line_differs :
    ((line "f_".toList false 3).outcome greeting).2.depot.world.output = "x\n" ∧
      ((line (evalText "f_".toList) false 3).outcome greeting).2.depot.world.output =
        "[Line 3] f()\n         ^\nGuythonError: Error evaluating expression: Undefined variable: f\n" ∧
      ((line "goto 3".toList false 1).outcome greeting).1 = .error (.fault (.jump 3)) ∧
      ((line (evalText "goto 3".toList) false 1).outcome greeting).1 = .ok () :=
  ⟨by decide +kernel, by decide +kernel, by decide +kernel, by decide +kernel⟩

end LineScript.Run
