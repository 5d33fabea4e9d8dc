
import LineScript.Proofs.Moves
import LineScript.Script.Interpreter

/-!
# Running lines one after the other

A line that ends well hands its session on to the next one. One that stops, by anything but a jump, stops the
program with it.
-/

namespace LineScript.Run

open List

variable {s t : Session} {e : Stop} {line : List Char} {run : Runner} {r : Except Stop Unit} {n target : Nat}
  {x : Run Unit} {f : Fault}

theorem outcome_runLines_ok (ok : (run line false n).outcome s = (.ok (), t)) (rest : List (List Char)) :
    (runLines run n (line :: rest)).outcome s = (runLines run (n + 1) rest).outcome t := by
  have ran : (do run line false n; return none : Run (Option Nat)).outcome s = (.ok none, t) := by
    rw [bind_ok ok]
    rfl
  rw [runLines, bind_ok (outcome_recover_ok ran _)]

theorem outcome_runLines_jump (jump : (run line false n).outcome s = (.error (.fault (.jump target)), t))
    (rest : List (List Char)) : (runLines run n (line :: rest)).outcome s = (.ok (some target), t) := by
  unfold runLines recover
  rw [outcome_bind, outcome_tryCatch, bind_error jump]
  rfl

theorem outcome_runLines_error (error : (run line false n).outcome s = (.error e, t))
    (noJump : ∀ target, e ≠ .fault (.jump target)) (rest : List (List Char)) :
    (runLines run n (line :: rest)).outcome s = (.error e, t) := by
  unfold runLines recover
  rw [outcome_bind, outcome_tryCatch, bind_error error]
  cases e with
  | fault f =>
    cases f with
    | jump target => exact absurd rfl (noJump target)
    | _ => rfl
  | _ => rfl

/-! ## Ends that lines pass on -/

/-- An end of a line: no fault but a jump. -/
def PassedOn (r : Except Stop Unit) : Prop := ∀ f, r = .error (.fault f) → ∃ target, f = .jump target

/-- The session once a line has told of its fault: where it stands, a mark below it, and what went wrong. -/
def told (line : List Char) (n : Int) (f : Fault) (s : Session) : Session :=
  let label := "[Line " ++ toString n ++ "] "
  let margin := label.length + (line.takeWhile (· = ' ')).length
  let heading := if f.isLanguage then "GuythonError" else "Unexpected error"
  said (heading ++ ": " ++ f.message) (said (String.ofList (List.replicate margin ' ') ++ "^")
    (said (label ++ String.ofList line) s))

theorem outcome_handle (noJump : ∀ target, f ≠ .jump target) (line : List Char) (importing : Bool) (n : Int)
    (s : Session) : (handle line importing n f).outcome s = (.ok (), if importing then s else told line n f s) := by
  unfold handle
  split
  · exact absurd rfl (noJump _)
  · cases importing with
    | true => rfl
    | false => rfl

/-- An end that is passed on is not changed by telling of faults. -/
theorem outcome_recover_handle (ends : x.outcome s = (r, t)) (passed : PassedOn r) (line : List Char) (importing : Bool)
    (n : Int) : (recover x (handle line importing n)).outcome s = (r, t) := by
  unfold recover
  rw [outcome_tryCatch, ends]
  rcases r with (f | _ | _ | _) | a
  · obtain ⟨target, rfl⟩ := passed f rfl
    rfl
  all_goals rfl

/-- A step ends as it does, or by a fault that is told of. -/
theorem recover_handle_cases (x : Run Unit) (line : List Char) (importing : Bool) (n : Int) (s : Session) :
    PassedOn (x.outcome s).1 ∧ (recover x (handle line importing n)).outcome s = x.outcome s ∨
      ∃ f t, (∀ target, f ≠ .jump target) ∧ x.outcome s = (.error (.fault f), t) ∧
        (recover x (handle line importing n)).outcome s = (.ok (), if importing then t else told line n f t) := by
  rcases ends : x.outcome s with ⟨r, t⟩
  by_cases passed : PassedOn r
  · exact Or.inl ⟨passed, outcome_recover_handle ends passed line importing n⟩
  · unfold PassedOn at passed
    simp only [Classical.not_forall] at passed
    obtain ⟨f, rfl, other⟩ := passed
    have noJump : ∀ target, f ≠ .jump target := fun target same => other ⟨target, same⟩
    refine Or.inr ⟨f, t, noJump, rfl, ?_⟩
    unfold recover
    rw [outcome_tryCatch, ends]
    exact outcome_handle noJump line importing n t

theorem outcome_recover_fault (failed : x.outcome s = (.error (.fault f), t)) (noJump : ∀ target, f ≠ .jump target)
    (line : List Char) (n : Int) : (recover x (handle line false n)).outcome s = (.ok (), told line n f t) := by
  unfold recover
  rw [outcome_tryCatch, failed]
  exact outcome_handle noJump line false n t

theorem passedOn_recover_handle (x : Run Unit) (line : List Char) (importing : Bool) (n : Int) (s : Session) :
    PassedOn ((recover x (handle line importing n)).outcome s).1 := by
  rcases recover_handle_cases x line importing n s with ⟨passed, same⟩ | ⟨f, t, -, -, handled⟩
  · rw [same]
    exact passed
  · rw [handled]
    exact nofun

/-- Jumps are all that telling of faults lets through. -/
theorem outcome_recover_handle_jump {importing : Bool} {n : Int} :
    (recover x (handle line importing n)).outcome s = (.error (.fault (.jump target)), t) ↔
      x.outcome s = (.error (.fault (.jump target)), t) := by
  rcases recover_handle_cases x line importing n s with ⟨-, same⟩ | ⟨f, u, noJump, failed, handled⟩
  · rw [same]
  · rw [handled, failed]
    refine ⟨nofun, fun h => ?_⟩
    exact absurd (Stop.fault.inj (Except.error.inj (congrArg Prod.fst h))) (noJump target)

/-- Runners whose lines tell of their faults themselves. -/
def Tells (run : Runner) : Prop := ∀ raw importing n s, PassedOn ((run raw importing n).outcome s).1

/-- Every line does, however the lines are run that it runs. -/
theorem tells_lineWith (run : Runner) : Tells (lineWith run) := by
  intro raw importing n s
  unfold lineWith
  rw [bind_ok (outcome_adjust _ s)]
  split
  · exact nofun
  · exact passedOn_recover_handle _ _ _ _ _

/-! ## Bodies -/

/-- The lines of a body are handed to the runner, each once and in order, until one of them stops. -/
inductive Passes (run : Runner) (importing : Bool) : List Line → Session → Except Stop Unit → Session → Prop
  | done (s : Session) : Passes run importing [] s (.ok ()) s
  | next {l : Line} {ls : List Line} {s t u : Session} {r : Except Stop Unit}
      (ran : (run l.text importing s.lineNumber).outcome s = (.ok (), t)) (rest : Passes run importing ls t r u) :
      Passes run importing (l :: ls) s r u
  | left {l : Line} {ls : List Line} {s t : Session} {e : Stop}
      (ran : (run l.text importing s.lineNumber).outcome s = (.error e, t)) :
      Passes run importing (l :: ls) s (.error e) t

theorem passes_runBody (run : Runner) (importing : Bool) (body : List Line) (s : Session) :
    Passes run importing body s ((runBody run importing body).outcome s).1 ((runBody run importing body).outcome s).2 := by
  induction body generalizing s with
  | nil => exact .done s
  | cons l ls ih =>
    rw [runBody, bind_ok (outcome_session s)]
    rcases ran : (run l.text importing s.lineNumber).outcome s with ⟨e | _, t⟩
    · rw [bind_error ran]
      exact .left ran
    · rw [bind_ok ran]
      exact .next ran (ih t)

section

variable {run : Runner} {importing : Bool} {body : List Line} {s t : Session}

theorem Passes.outcome (passes : Passes run importing body s r t) : (runBody run importing body).outcome s = (r, t) := by
  induction passes with
  | done s => rfl
  | @next l ls s t u r ran rest ih => rw [runBody, bind_ok (outcome_session s), bind_ok ran, ih]
  | @left l ls s t e ran => rw [runBody, bind_ok (outcome_session s), bind_error ran]

theorem Passes.passedOn (tells : Tells run) (passes : Passes run importing body s r t) : PassedOn r := by
  induction passes with
  | done s => exact nofun
  | next ran rest ih => exact ih
  | @left l _ s _ _ ran =>
    have last := tells l.text importing s.lineNumber s
    rw [ran] at last
    exact last

/-- A body that is left early is left by one of its lines. -/
theorem Passes.exists_left (passes : Passes run importing body s (.error e) t) :
    ∃ before l after u, body = before ++ l :: after ∧ Passes run importing before s (.ok ()) u ∧
      (run l.text importing u.lineNumber).outcome u = (.error e, t) := by
  generalize hend : (Except.error e : Except Stop Unit) = r at passes
  induction passes with
  | done s => cases hend
  | @next l ls s u t r ran rest ih =>
    obtain ⟨before, l', after, v, rfl, passed, last⟩ := ih hend
    exact ⟨l :: before, l', after, v, rfl, .next ran passed, last⟩
  | @left l ls s t e' ran =>
    cases hend
    exact ⟨[], l, ls, s, rfl, .done s, ran⟩

theorem Passes.append_left {l : Line} {u : Session} (passes : Passes run importing body s (.ok ()) u)
    (ran : (run l.text importing u.lineNumber).outcome u = (.error e, t)) (after : List Line) :
    Passes run importing (body ++ l :: after) s (.error e) t := by
  generalize hend : (Except.ok () : Except Stop Unit) = r at passes
  induction passes with
  | done s => exact .left ran
  | next first rest ih => exact .next first (ih ran hend)
  | left first => cases hend

end

/-! ## Programs -/

theorem runLines_append (run : Runner) (n : Nat) (first second : List (List Char)) :
    runLines run n (first ++ second) = (do
      match ← runLines run n first with
      | some target => return some target
      | none => runLines run (n + first.length) second) := by
  induction first generalizing n with
  | nil =>
    rfl
  | cons line first ih =>
    rw [cons_append, runLines, runLines, bind_assoc]
    congr 1
    funext jump
    cases jump with
    | some target => rw [pure_bind]
    | none =>
      rw [length_cons, Nat.add_comm first.length 1, ← Nat.add_assoc]
      exact ih (n + 1)

section

variable {run : Runner} {lines : List (List Char)} {s t : Session}

theorem outcome_programWith_ok (ran : (runLines run 1 lines).outcome { s with jumps := 0 } = (.ok none, t))
    (idle : t.loops = []) : (programWith run lines).outcome s = (.ok (), t) := by
  have through : (runFrom run lines patience 0).outcome { s with jumps := 0 } = (.ok (), t) := by
    unfold patience
    rw [runFrom, drop_zero, bind_ok ran]
    rfl
  unfold programWith closeAllLoops
  rw [bind_ok (outcome_adjust _ s), bind_ok through, bind_ok (outcome_session t), idle]
  rfl

theorem outcome_programWith_error (ran : (runLines run 1 lines).outcome { s with jumps := 0 } = (.error e, t)) :
    (programWith run lines).outcome s = (.error e, t) := by
  have through : (runFrom run lines patience 0).outcome { s with jumps := 0 } = (.error e, t) := by
    unfold patience
    rw [runFrom, drop_zero, bind_error ran]
  unfold programWith
  rw [bind_ok (outcome_adjust _ s), bind_error through]

end

/-! ## Files -/

theorem outcome_needAllowed {p : List Char} (allowed : s.depot.world.denied.contains (String.ofList p) = false) :
    (needAllowed p).outcome s = (.ok (), s) := by
  unfold needAllowed
  rw [bind_ok (outcome_world s), allowed]
  rfl

end LineScript.Run
