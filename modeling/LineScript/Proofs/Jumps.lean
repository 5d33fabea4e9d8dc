
import LineScript.Proofs.Moves
import LineScript.Proofs.Steady
import LineScript.Script.Interpreter

/-!
# Statements that never jump

Only two statements can end by a jump: the one that asks for it, and a call, by a jump in the body of the function. In all
others, faults of evaluating and of running lines are wrapped, told or shown as a mark, and the outside never jumps.
-/

namespace LineScript.Run

open Text Line

variable {α β : Type}

def NeverJumps (x : Run α) : Prop := ∀ s target, (x.outcome s).1 ≠ .error (.fault (.jump target))

namespace NeverJumps

variable (code : List Char) (importing : Bool) {x : Run α}

protected theorem pure (a : α) : NeverJumps (pure a) := fun _ _ h => by cases h

protected theorem malformed (c : Malformed) : NeverJumps (malformed c : Run α) := fun _ _ h => by cases h

protected theorem broken (c : Runtime) : NeverJumps (broken c : Run α) := fun _ _ h => by cases h

protected theorem fail {f : Fault} (h : ∀ target, f ≠ .jump target) : NeverJumps (fail f : Run α) := by
  intro s target e
  exact h target (Stop.fault.inj (Except.error.inj e))

protected theorem session : NeverJumps session := fun _ _ h => by cases h

protected theorem adjust (g : Session → Session) : NeverJumps (adjust g) := fun _ _ h => by cases h

protected theorem bind {k : α → Run β} (hx : NeverJumps x) (hk : ∀ a, NeverJumps (k a)) : NeverJumps (x >>= k) := by
  intro s target
  have hs := hx s target
  rcases h : x.outcome s with ⟨r, t⟩
  rw [h] at hs
  cases r with
  | ok a =>
    rw [bind_ok h]
    exact hk a t target
  | error e =>
    rw [bind_error h]
    exact fun same => hs (congrArg Except.error (Except.error.inj same))

protected theorem guard {c : Prop} [Decidable c] {x : Run PUnit} {k : PUnit → Run α} (hx : NeverJumps x)
    (hk : ∀ u, NeverJumps (k u)) : NeverJumps (if c then x >>= k else k ⟨⟩) := by
  split
  · exact .bind hx hk
  · exact hk _

/-- Only the faults that the step can end with have to be handled without a jump. -/
theorem recover_of {h : Fault → Run α}
    (hh : ∀ f s t, x.outcome s = (.error (.fault f), t) → NeverJumps (h f)) : NeverJumps (recover x h) := by
  intro s target
  unfold Run.recover
  rcases hr : x.outcome s with ⟨r, t⟩
  rw [outcome_tryCatch, hr]
  cases r with
  | ok a => exact fun e => by cases e
  | error e =>
    cases e with
    | fault f => exact hh f s t hr t target
    | _ => exact fun e => by cases e

protected theorem recover {h : Fault → Run α} (hx : NeverJumps x)
    (hh : ∀ f, (∀ target, f ≠ .jump target) → NeverJumps (h f)) : NeverJumps (recover x h) :=
  recover_of fun f s t e => hh f fun n same => hx s n (by rw [e, same])

protected theorem wrapping (wrap : String → Runtime) (x : Run α) : NeverJumps (wrapping wrap x) :=
  recover_of fun _ _ _ _ => .broken _

/-- A jump is no fault of the language, so it is wrapped. -/
protected theorem wrappingForeign (wrap : String → Runtime) (x : Run α) : NeverJumps (wrappingForeign wrap x) := by
  refine recover_of fun f _ _ _ => ?_
  split
  · rename_i language
    exact .fail fun target same => by rw [same] at language; cases language
  · exact .broken _

protected theorem mapM {g : α → Run β} (hg : ∀ a, NeverJumps (g a)) (xs : List α) : NeverJumps (xs.mapM g) := by
  induction xs with
  | nil => exact .pure _
  | cons a xs ih =>
    rw [List.mapM_cons]
    exact .bind (hg a) fun _ => .bind ih fun _ => .pure _

protected theorem forM {g : α → Run PUnit} (hg : ∀ a, NeverJumps (g a)) : ∀ xs : List α, NeverJumps (xs.forM g)
  | [] => .pure _
  | a :: xs => .bind (hg a) fun _ => NeverJumps.forM hg xs

/-! ## Steps outside the session -/

protected theorem act {x : Act α} (h : Act.Steady x) : NeverJumps (act x) := by
  intro s target
  unfold Run.act
  rw [outcome_pkg, Pkg.run_act]
  exact h s.depot.world target

protected theorem world : NeverJumps world := .bind .session fun _ => .pure _

protected theorem say (text : String) : NeverJumps (act (Act.say text)) := .act fun _ _ h => by cases h

protected theorem ask (prompt : String) : NeverJumps (act (Act.ask prompt)) := by
  refine .act fun w target h => ?_
  obtain ⟨_, _, _, input, _⟩ := w
  rcases input with _ | ⟨_ | _, _⟩
  all_goals cases h

protected theorem display (v : Value) : NeverJumps (display v) :=
  .act (.bind .get fun w => .check (.display w.store v))

protected theorem touch : NeverJumps (act Pkg.touch) := .act .touch

protected theorem note (text : String) : NeverJumps (note text) := by
  refine .bind .session fun s => ?_
  split
  · exact .say _
  · exact .pure _

/-! ## Statements -/

protected theorem assign : NeverJumps (assign code) := by
  unfold Run.assign
  split
  · exact .malformed _
  · exact .guard (.malformed _) fun _ => .wrapping _ _

protected theorem printToken (token : List Char) : NeverJumps (printToken token) := by
  unfold Run.printToken
  split
  · exact .pure _
  · exact recover_of fun _ _ _ _ => .pure _

protected theorem print : NeverJumps (print code importing) := by
  have chunk : ∀ c, NeverJumps (printChunk c) := fun c =>
    .bind (.mapM (fun t => .printToken (strip t)) _) fun _ => .pure _
  unfold Run.print
  split
  · exact .pure _
  · dsimp only
    split
    · exact .say _
    · exact .bind (.mapM chunk _) fun _ => .say _

protected theorem printInput : NeverJumps (printInput importing) := by
  unfold Run.printInput
  split
  · exact .pure _
  · refine .recover ?_ fun f hf => ?_
    · exact .bind (.ask _) fun _ => .bind (.say _) fun _ => .note _
    · split
      · exact .say _
      · exact .fail hf

protected theorem input : NeverJumps (input code importing) := by
  unfold Run.input
  split
  · exact .pure _
  · refine .recover ?_ fun f hf => ?_
    · exact .bind (.ask _) fun _ => .bind (.say _) fun _ => .pure _
    · split
      · exact .bind (.say _) fun _ => .pure _
      · exact .fail hf

end NeverJumps

theorem exists_lineValue (s : List Char) : ∃ v, Typed.lineValue s = .ok v := by
  unfold Typed.lineValue
  split
  · unfold Value.toFloat Value.ofText Value.readFloatValue
    dsimp only
    cases Number.readFloat (String.ofList s).toList with
    | some x => exact ⟨.float x, rfl⟩
    | none => exact ⟨_, rfl⟩
  · split
    · unfold Value.toInt Value.ofText Value.readIntValue
      dsimp only
      cases Number.readInt 10 (String.ofList s).toList with
      | value n => exact ⟨.int n, rfl⟩
      | _ => exact ⟨_, rfl⟩
    · exact ⟨_, rfl⟩

namespace NeverJumps

variable (code : List Char) (importing : Bool) (indent : Nat)

protected theorem inputAssign : NeverJumps (inputAssign code importing) := by
  unfold Run.inputAssign
  split
  · exact .pure _
  · split
    · exact .malformed _
    · refine .guard (.malformed _) fun _ => .recover (.bind (.ask _) fun line => ?_) fun f hf => ?_
      · obtain ⟨v, hv⟩ := exists_lineValue line.toList
        have typed : check (Typed.lineValue line.toList) = pure v := by
          rw [hv]
          rfl
        rw [typed, pure_bind]
        exact .bind (.adjust _) fun _ => .bind (.display v) fun _ => .note _
      · split
        · exact .adjust _
        · exact .fail hf

protected theorem defineAlias : NeverJumps (defineAlias code) := by
  unfold Run.defineAlias
  dsimp only
  split
  · exact .malformed _
  · exact .guard (.malformed _) fun _ => .guard (.malformed _) fun _ => .bind (.adjust _) fun _ => .note _

protected theorem define : NeverJumps (define code indent) := by
  refine .guard (.malformed _) fun _ => ?_
  split
  · exact .malformed _
  · refine .guard (.malformed _) fun _ => ?_
    split
    · exact .bind (.malformed _) fun _ => .adjust _
    · exact .adjust _

protected theorem condition : NeverJumps (condition code indent) :=
  .guard (.malformed _) fun _ => .wrapping _ _

protected theorem alternative : NeverJumps (alternative indent) := by
  refine .bind .session fun s => ?_
  split
  · exact .malformed _
  · exact .guard (.malformed _) fun _ => .adjust _

protected theorem sayAll (lines : List String) : NeverJumps (sayAll importing lines) := by
  unfold Run.sayAll
  split
  · exact .forM (fun _ => .say _) lines
  · exact .pure _

protected theorem followIndices (fuel : Nat) (v : Value) (rest : List Char) : NeverJumps (followIndices fuel v rest) := by
  induction fuel generalizing v rest with
  | zero => exact .pure _
  | succ fuel ih =>
    unfold Run.followIndices
    split
    · split
      · exact .malformed _
      · exact .bind (.wrappingForeign _ _) fun _ => ih _ _
    · exact .pure _

protected theorem showElement : NeverJumps (showElement code importing) := by
  have variableNamed : ∀ x, NeverJumps (variableNamed x) := by
    intro x
    refine .bind .session fun s => ?_
    split
    · exact .pure _
    · exact .broken _
  have accessArray : NeverJumps (accessArray code) := by
    unfold Run.accessArray
    split
    · exact .malformed _
    · exact .bind (variableNamed _) fun v => .bind .touch fun _ => .followIndices _ _ _
  unfold Run.showElement
  split
  · exact .pure _
  · refine .bind accessArray fun v => ?_
    unfold showValue
    split
    · exact .pure _
    · exact .bind (.display _) fun _ => .bind (.say _) fun _ => .adjust _

protected theorem showExpression : NeverJumps (showExpression code importing) := by
  unfold Run.showExpression
  split
  · exact .pure _
  · exact .wrappingForeign _ _

/-! ## Statements that run lines and programs -/

section

variable (run : Runner)

protected theorem eval (code : List Char) (importing : Bool) : NeverJumps (eval run code importing) := by
  unfold Run.eval
  split
  · exact .pure _
  · exact .wrappingForeign _ _

protected theorem packageCommand (program : ProgramRunner) (code : List Char) : NeverJumps (packageCommand program code) := by
  unfold Run.packageCommand
  split
  · exact .malformed _
  · refine recover_of fun f _ _ _ => ?_
    split
    · exact .say _
    · exact .say _

protected theorem runFile (code : List Char) (importing : Bool) : NeverJumps (runFile run code importing) := by
  unfold Run.runFile
  split
  · exact .pure _
  · refine .guard (.malformed _) fun _ => .bind .world fun w => ?_
    exact .guard (.broken _) fun _ => .wrapping _ _

protected theorem execute {command : Command} (other : command ≠ .goto ∧ command ≠ .call) (code : List Char)
    (indent : Nat) (importing : Bool) : NeverJumps (execute run command code indent importing) := by
  cases command with
  | goto => exact absurd rfl other.1
  | call => exact absurd rfl other.2
  | eval => exact .eval run code importing
  | input => exact .bind (.input code importing) fun _ => .pure _
  | inputAssign => exact .inputAssign code importing
  | shorthand => exact .defineAlias code
  | alternative => exact .alternative indent
  | exit => exact fun _ _ h => by cases h
  | package => exact .packageCommand _ _
  | define => exact .define code indent
  | loop => exact .fail nofun
  | condition => exact .condition code indent
  | collect => exact .adjust _
  | skip => exact .note _
  | runFile => exact .runFile run code importing
  | printInput => exact .printInput importing
  | assign => exact .assign code
  | print => exact .print code importing
  | fiveAndFive | nineAndTen | version => exact .sayAll importing _
  | element => exact .showElement code importing
  | expression => exact .showExpression code importing

/-! ## Blocks and programs -/

protected theorem closeLoops (keep : Loop → Bool) (n : Nat) : NeverJumps (closeLoops run keep n) := by
  induction n with
  | zero => exact .pure _
  | succ n ih =>
    refine .bind .session fun s => ?_
    split
    · exact .pure _
    · split
      · exact .pure _
      · refine .bind (.adjust _) fun _ => .bind ?_ fun _ => ih
        exact .bind .touch fun _ => .wrappingForeign _ _

protected theorem closeBlocks (indent : Nat) : NeverJumps (closeBlocks run indent) := by
  have closeIfs : NeverJumps (closeIfs indent) :=
    .bind .session fun s => .bind (.adjust _) fun _ => .forM (fun _ => .note _) _
  exact .bind closeIfs fun _ => .bind .session fun _ => .closeLoops run _ _

protected theorem takeJump (target lines : Nat) : NeverJumps (takeJump target lines) :=
  .guard (.broken _) fun _ => .bind (.adjust _) fun _ => .bind .session fun _ => .guard (.broken _) fun _ => .note _

protected theorem runLines (n : Nat) (lines : List (List Char)) : NeverJumps (runLines run n lines) := by
  induction lines generalizing n with
  | nil => exact .pure _
  | cons line rest ih =>
    refine .bind (recover_of fun f _ _ _ => ?_) fun jump => ?_
    · split
      · exact .pure _
      · rename_i other
        exact .fail fun target same => other target same
    · split
      · exact .pure _
      · exact ih _

protected theorem runFrom (lines : List (List Char)) (fuel start : Nat) : NeverJumps (runFrom run lines fuel start) := by
  induction fuel generalizing start with
  | zero => exact fun _ _ h => by cases h
  | succ fuel ih =>
    refine .bind (.runLines run _ _) fun jump => ?_
    split
    · exact .pure _
    · exact .bind (.takeJump _ _) fun _ => ih _

/-- A program never lets a jump out, whatever runs its lines. -/
protected theorem programWith (lines : List (List Char)) : NeverJumps (programWith run lines) :=
  .bind (.adjust _) fun _ => .bind (.runFrom run lines _ _) fun _ => .bind .session fun _ => .closeLoops run _ _

end

/-! ## Telling of faults -/

protected theorem handle (line : List Char) (importing : Bool) (n : Int) {f : Fault}
    (hf : ∀ target, f ≠ .jump target) : NeverJumps (handle line importing n f) := by
  unfold Run.handle
  split
  · exact absurd rfl (hf _)
  · split
    · exact .pure _
    · exact .bind (.say _) fun _ => .bind (.say _) fun _ => .say _

end NeverJumps

end LineScript.Run
