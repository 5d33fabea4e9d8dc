
import LineScript.Proofs.BlockInvariant
import LineScript.Proofs.Executed
import LineScript.Proofs.Jumps
import LineScript.Proofs.Scope

/-!
# Programs contain jumps and errors

A jump is raised by a line and leaves the bodies of functions until it comes to a line of a program, which goes on where it
leads, or to a text that is run as a line, which makes an error of it. An error of a line is told where it happens, and the
next line is run.
-/

namespace LineScript.Run

open Text Line List

variable {s t : Session} {raw : List Char} {target i : Nat} {run : Runner} {n : Int} {importing : Bool}
  {r : Except Stop Unit}

/-! ## The course of a program -/

/-- How a program goes from its line `i`, counted from zero: lines are run in their order, a jump is taken to a line of
this program, and the program ends after its last line, by a jump that cannot be taken, or as a line is stopped. -/
inductive Course (run : Runner) (lines : List (List Char)) : Nat → Session → Except Stop Unit → Session → Prop
  | ended {i : Nat} (s : Session) (past : lines.length ≤ i) : Course run lines i s (.ok ()) s
  | next {i : Nat} {line : List Char} {s t u : Session} {r : Except Stop Unit} (here : lines[i]? = some line)
      (ran : (run line false (i + 1 : Nat)).outcome s = (.ok (), t)) (rest : Course run lines (i + 1) t r u) :
      Course run lines i s r u
  | jumped {i target : Nat} {line : List Char} {s t u v : Session} {r : Except Stop Unit} (here : lines[i]? = some line)
      (ran : (run line false (i + 1 : Nat)).outcome s = (.error (.fault (.jump target)), t))
      (inside : 1 ≤ target ∧ target ≤ lines.length) (allowed : t.jumps < maxJumps)
      (counted : Shows { t with jumps := t.jumps + 1 } u) (rest : Course run lines (target - 1) u r v) :
      Course run lines i s r v
  | outside {i target : Nat} {line : List Char} {s t : Session} (here : lines[i]? = some line)
      (ran : (run line false (i + 1 : Nat)).outcome s = (.error (.fault (.jump target)), t))
      (outside : target < 1 ∨ lines.length < target) :
      Course run lines i s (.error (.fault (.runtime (.gotoRange target lines.length)))) t
  | tooOften {i target : Nat} {line : List Char} {s t : Session} (here : lines[i]? = some line)
      (ran : (run line false (i + 1 : Nat)).outcome s = (.error (.fault (.jump target)), t))
      (inside : 1 ≤ target ∧ target ≤ lines.length) (used : maxJumps ≤ t.jumps) :
      Course run lines i s (.error (.fault (.runtime (.gotoLimit maxJumps)))) { t with jumps := t.jumps + 1 }
  | stopped {i : Nat} {line : List Char} {s t : Session} {e : Stop} (here : lines[i]? = some line)
      (ran : (run line false (i + 1 : Nat)).outcome s = (.error e, t)) (other : ∀ f, e ≠ .fault f) :
      Course run lines i s (.error e) t

section

variable {run : Runner} {lines : List (List Char)}

theorem Course.fault {f : Fault} (course : Course run lines i s (.error (.fault f)) t) :
    (∃ target, (target < 1 ∨ lines.length < target) ∧ f = .runtime (.gotoRange target lines.length)) ∨
      f = .runtime (.gotoLimit maxJumps) := by
  generalize hend : (Except.error (.fault f) : Except Stop Unit) = r at course
  induction course with
  | ended => cases hend
  | next _ _ _ ih | jumped _ _ _ _ _ _ ih => exact ih hend
  | outside _ _ outside => exact Or.inl ⟨_, outside, Stop.fault.inj (Except.error.inj hend)⟩
  | tooOften => exact Or.inr (Stop.fault.inj (Except.error.inj hend))
  | stopped _ _ other => exact absurd (Except.error.inj hend).symm (other f)

theorem Course.idle (still : ∀ l b n, Moves (Keeps fun s => s.loops = []) (run l b n))
    (course : Course run lines i s r t) (idle : s.loops = []) : t.loops = [] := by
  have after : ∀ {line : List Char} {n : Int} {s t : Session} {r : Except Stop Unit},
      (run line false n).outcome s = (r, t) → s.loops = [] → t.loops = [] := by
    intro line n s t r ran idle
    have moved := still line false n s idle
    rw [ran] at moved
    exact moved
  induction course with
  | ended => exact idle
  | next _ ran _ ih => exact ih (after ran idle)
  | jumped _ ran _ _ counted _ ih =>
    have landed := after ran idle
    obtain ⟨output, rfl⟩ := counted
    exact ih landed
  | outside _ ran _ => exact after ran idle
  | tooOften _ ran _ _ =>
    have landed := after ran idle
    exact landed
  | stopped _ ran _ => exact after ran idle

/-! ## Programs follow their course -/

/-- What becomes of a jump to a line of a program. -/
theorem takeJump_cases (target lines : Nat) (s : Session) :
    (target < 1 ∨ lines < target) ∧
        (takeJump target lines).outcome s = (.error (.fault (.runtime (.gotoRange target lines))), s) ∨
      (1 ≤ target ∧ target ≤ lines) ∧ maxJumps ≤ s.jumps ∧
        (takeJump target lines).outcome s =
          (.error (.fault (.runtime (.gotoLimit maxJumps))), { s with jumps := s.jumps + 1 }) ∨
      (1 ≤ target ∧ target ≤ lines) ∧ s.jumps < maxJumps ∧
        ∃ t, (takeJump target lines).outcome s = (.ok (), t) ∧ Shows { s with jumps := s.jumps + 1 } t := by
  unfold takeJump
  by_cases outside : target < 1 ∨ lines < target
  · have refused : (target < 1 || target > lines) := by simpa using outside
    rw [if_pos refused]
    exact Or.inl ⟨outside, rfl⟩
  · have inside : 1 ≤ target ∧ target ≤ lines := by omega
    have accepted : ¬ (target < 1 || target > lines) := by
      simp only [Bool.or_eq_true, decide_eq_true_eq]
      exact outside
    refine Or.inr ?_
    rw [if_neg accepted, bind_ok (outcome_adjust _ s), bind_ok (outcome_session _)]
    by_cases used : maxJumps ≤ s.jumps
    · rw [if_pos (Nat.lt_succ_of_le used)]
      exact Or.inl ⟨inside, used, rfl⟩
    · rw [if_neg (by dsimp only; omega)]
      exact Or.inr ⟨inside, Nat.lt_of_not_le used, exists_outcome_note _ _⟩

/-- The course of lines that are run up to the first jump. One that ends by a jump goes on as the jump does, at the
line among them that has raised it. -/
def FirstPart (run : Runner) (lines : List (List Char)) (i : Nat) (s t : Session) : Except Stop (Option Nat) → Prop
  | .ok none => Course run lines i s (.ok ()) t
  | .error e => Course run lines i s (.error e) t
  | .ok (some target) => ∀ r v, (∀ j line u, lines[j]? = some line →
        (run line false (j + 1 : Nat)).outcome u = (.error (.fault (.jump target)), t) → Course run lines j u r v) →
      Course run lines i s r v

theorem course_of_runLines (tells : Tells run) {q : Except Stop (Option Nat)}
    (ran : (runLines run (i + 1) (lines.drop i)).outcome s = (q, t)) : FirstPart run lines i s t q := by
  generalize given : lines.drop i = rest at ran
  induction rest generalizing i s with
  | nil =>
    obtain ⟨rfl, rfl⟩ := Prod.mk.inj ran
    exact .ended s (drop_eq_nil_iff.mp given)
  | cons line rest ih =>
    have here : lines[i]? = some line := by
      rw [← head?_drop, given]
      rfl
    have after : lines.drop (i + 1) = rest := by
      rw [← tail_drop, given]
      rfl
    rcases first : (run line false (i + 1 : Nat)).outcome s with ⟨e | u, t'⟩
    · have passed := tells line false (i + 1 : Nat) s
      rw [first] at passed
      by_cases fault : ∃ f, e = .fault f
      · obtain ⟨f, rfl⟩ := fault
        obtain ⟨target, rfl⟩ := passed f rfl
        rw [outcome_runLines_jump first] at ran
        cases ran
        exact fun _ _ landed => landed i line s here first
      · have other : ∀ f, e ≠ .fault f := fun f same => fault ⟨f, same⟩
        rw [outcome_runLines_error first fun target => other _] at ran
        cases ran
        exact .stopped here first other
    · rw [outcome_runLines_ok first] at ran
      have rest := ih after ran
      rcases q with e | _ | target
      · exact .next here first rest
      · exact .next here first rest
      · exact fun r v landed => .next here first (rest r v landed)

theorem course_of_runFrom (tells : Tells run) {fuel : Nat} (ran : (runFrom run lines fuel i).outcome s = (r, t))
    (finite : r ≠ .error .endless) : Course run lines i s r t := by
  induction fuel generalizing i s with
  | zero => exact absurd (congrArg Prod.fst ran).symm finite
  | succ fuel ih =>
    rw [runFrom] at ran
    rcases first : (runLines run (i + 1) (lines.drop i)).outcome s with ⟨q, u⟩
    have course := course_of_runLines tells first
    rcases q with e | _ | target
    · rw [bind_error first] at ran
      cases ran
      exact course
    · rw [bind_ok first] at ran
      cases ran
      exact course
    · rw [bind_ok first] at ran
      refine course r t fun j line w here jump => ?_
      rcases takeJump_cases target lines.length u with
        ⟨outside, refused⟩ | ⟨inside, used, refused⟩ | ⟨inside, allowed, v, taken, counted⟩
      · rw [bind_error refused] at ran
        cases ran
        exact .outside here jump outside
      · rw [bind_error refused] at ran
        cases ran
        exact .tooOften here jump inside used
      · rw [bind_ok taken] at ran
        exact .jumped here jump inside allowed counted (ih ran)

theorem course_of_programWith (tells : Tells run) (still : ∀ l b n, Moves (Keeps fun s => s.loops = []) (run l b n))
    (idle : s.loops = []) (finite : ((programWith run lines).outcome s).1 ≠ .error .endless) :
    Course run lines 0 { s with jumps := 0 } ((programWith run lines).outcome s).1
      ((programWith run lines).outcome s).2 := by
  unfold programWith at finite ⊢
  rw [bind_ok (outcome_adjust _ s)] at finite ⊢
  rcases ran : (runFrom run lines patience 0).outcome { s with jumps := 0 } with ⟨e | u, t⟩
  · rw [bind_error ran] at finite ⊢
    exact course_of_runFrom tells ran finite
  · have course := course_of_runFrom tells ran nofun
    have none : t.loops = [] := course.idle still idle
    have closed : (closeAllLoops run).outcome t = (.ok (), t) := by
      unfold closeAllLoops
      rw [bind_ok (outcome_session t), none]
      rfl
    rw [bind_ok ran, closed]
    exact course

end

/-! ## Where jumps come from -/

/-- A line raises a jump to a target: it asks for the jump itself, or it calls a function of which a line raises the
jump, after the lines before that one have run. The parameters get back what they stood for. -/
inductive Raises : Nat → List Char → Bool → Int → Session → Nat → Session → Prop
  | goto {depth : Nat} {raw : List Char} {importing : Bool} {n : Int} {s t u : Session} {l : Line} {code : List Char}
      {target : Nat} (reaches : Reaches (runner depth) raw n s l .goto code t)
      (asked : (goto code).outcome t = (.error (.fault (.jump target)), u)) :
      Raises (depth + 1) raw importing n s target u
  | call {depth : Nat} {raw : List Char} {importing : Bool} {n : Int} {s t u v w : Session} {l : Line} {code : List Char}
      {f : Func} {before after : List Line} {inner : Line} {target : Nat}
      (reaches : Reaches (runner depth) raw n s l .call code t) (enters : Enters t code f u)
      (body : f.body = before ++ inner :: after) (ran : Passes (runner depth) importing before u (.ok ()) v)
      (raises : Raises depth inner.text importing v.lineNumber v target w) :
      Raises (depth + 1) raw importing n s target { w with vars := restore t.vars f.params w.vars }

theorem Raises.outcome {depth : Nat} (raises : Raises depth raw importing n s target t) :
    (runner depth raw importing n).outcome s = (.error (.fault (.jump target)), t) := by
  induction raises with
  | goto reaches asked =>
    refine (reaches.outcome _).trans (outcome_recover_handle_jump.mpr ?_)
    exact asked
  | call reaches enters body ran _ ih =>
    refine (reaches.outcome _).trans (outcome_recover_handle_jump.mpr ?_)
    have left := fun after => (ran.append_left ih after).outcome
    show (Run.call _ _ _).outcome _ = _
    rw [outcome_call_of_enters _ _ enters, bodyOutcome, body, left]

theorem NeverJumps.bindFrom (i : Nat) (pairs : List (String × List Char)) : NeverJumps (bindFrom i pairs) := by
  induction pairs generalizing i with
  | nil => exact .pure _
  | cons pair pairs ih =>
    refine .bind (recover_of fun f _ _ _ => ?_) fun _ => ih _
    exact .bind (.say _) fun _ => .broken _

theorem enters_of_jump {code : List Char}
    (jump : (call run code importing).outcome s = (.error (.fault (.jump target)), t)) : ∃ f u, Enters s code f u := by
  cases marked : endsWith (splitCall code).1 ['_'] with
  | false =>
    unfold call at jump
    dsimp only at jump
    rw [marked] at jump
    cases jump
  | true =>
  cases found : s.functions.find? (String.ofList (splitCall code).1.dropLast) with
  | none =>
    unfold call at jump
    dsimp only at jump
    rw [marked, Bool.not_true, if_neg Bool.false_ne_true, bind_ok (outcome_session s), found] at jump
    cases jump
  | some f =>
    rw [outcome_call_of_found run importing marked found] at jump
    by_cases arity : (splitCall code).2.length = f.params.length
    · rw [if_neg (not_not_intro arity), outcome_ensuring] at jump
      have calm := NeverJumps.bindFrom 1 (f.params.zip (splitCall code).2) s target
      rcases bound : (bindFrom 1 (f.params.zip (splitCall code).2)).outcome s with ⟨e | _, u⟩
      · rw [bound] at calm
        rw [bind_error bound] at jump
        exact absurd (congrArg Prod.fst jump) calm
      · exact ⟨f, u, marked, found, arity, bound⟩
    · rw [if_pos arity] at jump
      cases jump

theorem reaches_of_jump (jump : (lineWith run raw importing n).outcome s = (.error (.fault (.jump target)), t)) :
    ∃ l command code u, Reaches run raw n s l command code u ∧
      (execute run command code l.indent importing).outcome u = (.error (.fault (.jump target)), t) := by
  cases read : read? raw with
  | none =>
    rw [outcome_blank_line run read] at jump
    cases jump
  | some l =>
  by_cases executed : Executed l s
  · have calm := NeverJumps.closeBlocks run l.indent (settled { s with lineNumber := n }) target
    rcases closed : (closeBlocks run l.indent).outcome (settled { s with lineNumber := n }) with ⟨e | _, u⟩
    · -- closing loops can fail, but not by a jump
      rw [closed] at calm
      rw [lineWith_eq_lineBy, lineBy, bind_ok (outcome_adjust _ s), read] at jump
      have failed := outcome_recover_handle_jump.mp jump
      have captured := outcome_capture_executed (s := { s with lineNumber := n }) executed
      rw [bind_ok captured, Bool.not_false, if_pos rfl, bind_error closed] at failed
      exact absurd (congrArg Prod.fst failed) calm
    · have reaches : Reaches run raw n s l _ _ u := ⟨read, executed, closed, rfl, rfl⟩
      rw [reaches.outcome importing] at jump
      exact ⟨l, _, _, u, reaches, outcome_recover_handle_jump.mp jump⟩
  · unfold Executed at executed
    simp only [Classical.not_forall, Nat.not_le] at executed
    obtain ⟨name, indent, defining, deeper⟩ := executed
    rw [outcome_captured_line run read importing n defining deeper] at jump
    cases jump

/-- A line ends by a jump exactly if it raises one. -/
theorem outcome_runner_jump_iff (depth : Nat) (raw : List Char) (importing : Bool) (n : Int) (s : Session) (target : Nat)
    (t : Session) : (runner depth raw importing n).outcome s = (.error (.fault (.jump target)), t) ↔
      Raises depth raw importing n s target t := by
  refine ⟨fun jump => ?_, Raises.outcome⟩
  induction depth generalizing raw importing n s t with
  | zero => cases jump
  | succ depth ih =>
    obtain ⟨l, command, code, u, reaches, ended⟩ := reaches_of_jump jump
    by_cases other : command ≠ .goto ∧ command ≠ .call
    · have calm := NeverJumps.execute (runner depth) other code l.indent importing u target
      exact absurd (congrArg Prod.fst ended) calm
    · by_cases asks : command = .goto
      · subst asks
        exact .goto reaches ended
      · obtain rfl : command = .call := by
          by_cases calls : command = .call
          · exact calls
          · exact absurd ⟨asks, calls⟩ other
        have ended : (call (runner depth) code importing).outcome u = (.error (.fault (.jump target)), t) := ended
        obtain ⟨f, v, enters⟩ := enters_of_jump ended
        rw [outcome_call_of_enters _ _ enters] at ended
        have passes := passes_runBody (runner depth) importing f.body v
        rcases ran : (runBody (runner depth) importing f.body).outcome v with ⟨r, w⟩
        rw [ran] at passes
        rw [bodyOutcome, ran] at ended
        cases ended
        obtain ⟨before, inner, after, x, body, passed, last⟩ := passes.exists_left
        exact .call reaches enters body passed (ih _ _ _ _ _ last)

/-! ## Errors of lines -/

/-- The line comes to run a text as a line, in a session. -/
def Evaluates (run : Runner) (raw : List Char) (n : Int) (s : Session) (text : String) (t : Session) : Prop :=
  ∃ l code u v, Reaches run raw n s l .eval code u ∧
    (evaluate (afterWord "eval" code)).outcome u = (.ok (.str text), v) ∧
    (note ("Evaluating code: " ++ text)).outcome v = (.ok (), t)

/-- A jump in a text that is run as a line becomes an error of the line that has run it. -/
theorem outcome_evaluates_jump {u : Session} {text : String} (evaluates : Evaluates run raw n s text t)
    (jump : (run text.toList false t.lineNumber).outcome t = (.error (.fault (.jump target)), u)) :
    (lineWith run raw false n).outcome s =
      (.ok (), told (trimRight (· = '\n') raw) n (.runtime (.evalFailed (Fault.jump target).message)) u) := by
  obtain ⟨l, code, v, w, reaches, value, noted⟩ := evaluates
  have failed : (eval run code false).outcome v =
      (.error (.fault (.runtime (.evalFailed (Fault.jump target).message))), u) := by
    unfold eval wrappingForeign recover
    rw [if_neg Bool.false_ne_true, outcome_tryCatch, bind_ok value]
    rw [bind_ok noted, bind_ok (outcome_session t), jump]
    rfl
  rw [reaches.outcome false]
  show (tryCatch (eval run code false) _).outcome v = _
  rw [outcome_tryCatch, failed]
  exact outcome_handle (fun _ same => by cases same) _ _ _ _

/-- Where no loop is open, an executed line comes to its command, and a fault of that, if it is no jump, is told. -/
theorem exists_reaches_told (run : Runner) {l : Line} (read : read? raw = some l) (n : Int) (executed : Executed l s)
    (idle : s.loops = []) : ∃ command code t, Reaches run raw n s l command code t ∧ ∀ f u, (∀ target, f ≠ .jump target) →
        (execute run command code l.indent false).outcome t = (.error (.fault f), u) →
        (lineWith run raw false n).outcome s = (.ok (), told (trimRight (· = '\n') raw) n f u) := by
  obtain ⟨t, closed, -⟩ := exists_closed run n idle (l := l)
  have reaches : Reaches run raw n s l _ _ t := ⟨read, executed, closed, rfl, rfl⟩
  refine ⟨_, _, t, reaches, fun f u noJump failed => ?_⟩
  rw [reaches.outcome false]
  unfold recover
  rw [outcome_tryCatch, failed]
  exact outcome_handle noJump _ _ _ _

theorem runner_idle (depth : Nat) (l : List Char) (b : Bool) (n : Int) :
    Moves (Keeps fun s => s.loops = []) (runner depth l b n) := by
  have loose : Loose (Keeps fun s => s.loops = []) := loose_keeps (fun _ h => h) fun _ _ _ loops _ _ _ _ h => loops.trans h
  have free : Free (Keeps fun s => s.loops = []) := ⟨loose.toLax, fun _ _ _ _ h => h, fun _ _ _ h => h⟩
  exact Moves.runner free loose.jumps (Moves.runScript loose) depth l b n

/-- A jump in a text that is run as a line, and one in a function that leads to no line. -/
def farJump : List (List Char) := ["def f_", ".goto 9", "eval \"goto 1\"", "f_", "print 1"].map String.toList

end LineScript.Run
