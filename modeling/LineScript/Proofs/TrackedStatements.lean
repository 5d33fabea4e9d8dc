
import LineScript.Proofs.Tracks

/-!
# Statements of two runs

Every statement keeps two runs side by side, for a relation that is kept when the parts that the statement changes change
alike in both. Statements that run lines do so as the runners of the lines do.
-/

namespace LineScript.Run

open Text Line List

variable {watched : Prop} {R : Session → Session → Prop} {N : Int → Int → Prop}

def called (code : List Char) : String := String.ofList (splitCall code).1.dropLast

/-- A call names the same function in two sessions, or none in both, and then the same ones are there. -/
def SameCallee (code : List Char) (s t : Session) : Prop :=
  t.functions.find? (called code) = s.functions.find? (called code) ∧
    (s.functions.find? (called code) = none → t.functions.names = s.functions.names)

namespace Tracks

variable {t s : Session}

/-! ## Values -/

section

variable (hC : Computes R)

include hC

omit hC in
protected theorem assignVariable (ha : Assigns R) {name : List Char} (valid : isValidName name) (v : Value) :
    Alike watched R (setVariable (String.ofList name) v) :=
  .adjust fun _ _ h => ha h name v valid

protected theorem assign (ha : Assigns R) (code : List Char) : Alike watched R (assign code) := by
  unfold Run.assign
  split
  · exact .malformed _
  · refine .guard fun valid => .wrapping _ (.bind (.evaluate hC _) fun v => ?_)
    refine .bind (.assignVariable ha (by simpa using valid) v) fun _ => ?_
    exact .bind (.display hC v) fun _ => .note hC _

protected theorem printToken (token : List Char) : Alike watched R (printToken token) := by
  unfold Run.printToken
  split
  · exact .pure _
  · exact .recover (.bind (.evaluate hC _) fun v => .display hC v) fun _ => .pure _

protected theorem printChunk (chunk : List Char) : Alike watched R (printChunk chunk) :=
  .bind (.mapM (fun t => .printToken hC (strip t)) _) fun _ => .pure _

protected theorem goto (code : List Char) : Alike watched R (goto code) := by
  refine .guard fun _ => .guard fun _ => .bind (.check _) fun v => ?_
  cases v with
  | int n => exact .bind (.note hC _) fun _ => .fail _
  | _ => exact .malformed _

/-! ## Arrays -/

protected theorem arrayElement (element : List Char) :
    Alike watched R (arrayElement element) := .wrapping _ (.value hC _)

protected theorem arrayLiteral (expr : List Char) : Alike watched R (arrayLiteral expr) := by
  refine .guard fun _ => ?_
  dsimp only
  split
  · exact .evaluation hC _
  · exact .bind (.touch hC) fun _ => .bind (.mapM (Tracks.arrayElement hC) _) fun _ => .evaluation hC _

protected theorem elementAt (current index : Value) :
    Alike watched R (elementAt current index) := by
  have place : ∀ (n : Int) (size : Nat), Alike watched R (elementPlace index n size) := by
    intro n size
    unfold elementPlace
    split
    · exact .bind (.display hC _) fun _ => .bind (.broken _) fun _ => .pure _
    · exact .pure _
  refine .bind ?_ fun n => ?_
  · unfold indexValue
    split
    · exact .pure _
    · exact .broken _
  · cases current with
    | list ref =>
      refine .world fun s t h => ?_
      rw [hC.store h]
      exact Tracks.bind (place _ _) (fun _ => .pure _) s t h
    | _ => exact .broken _

protected theorem followIndices :
    ∀ (n : Nat) (current : Value) (rest : List Char),
      Alike watched R (followIndices n current rest)
  | 0, _, _ => .pure _
  | n + 1, current, rest => by
      unfold Run.followIndices
      split
      · split
        · exact .malformed _
        · exact .bind (.wrappingForeign _ (.bind (.value hC _) fun v => .elementAt hC _ v))
            fun _ => Tracks.followIndices n _ _
      · exact .pure _

protected theorem accessArray (code : List Char) : Alike watched R (accessArray code) := by
  unfold Run.accessArray
  split
  · exact .malformed _
  · refine .bind (.session fun s t h => ?_) fun v => .bind (.touch hC) fun _ => .followIndices hC _ _ _
    rw [hC.vars h]
    split
    · exact Tracks.pure _ s t h
    · exact Tracks.broken _ s t h

end

/-! ## What is shown and asked -/

section

variable (hS : Sees R) (code : List Char) (importing : Bool)

include hS

protected theorem print : Alike watched R (print code importing) := by
  unfold Run.print
  split
  · exact .pure _
  · dsimp only
    split
    · exact .say hS _
    · exact .bind (.mapM (Tracks.printChunk hS.toComputes) _) fun _ => .say hS _

protected theorem printInput : Alike watched R (printInput importing) := by
  unfold Run.printInput
  split
  · exact .pure _
  · refine .recover ?_ fun f => ?_
    · exact .bind (.ask hS _) fun _ => .bind (.say hS _) fun _ => .note hS.toComputes _
    · split
      · exact .say hS _
      · exact .fail f

protected theorem inputAssign (ha : Assigns R) (code : List Char) (importing : Bool) :
    Alike watched R (inputAssign code importing) := by
  unfold Run.inputAssign
  split
  · exact .pure _
  · split
    · exact .malformed _
    · refine .guard fun valid => .recover ?_ fun f => ?_
      · refine .bind (.ask hS _) fun _ => .bind (.check _) fun v => ?_
        refine .bind (.assignVariable ha (by simpa using valid) v) fun _ => ?_
        exact .bind (.display hS.toComputes v) fun _ => .note hS.toComputes _
      · split
        · exact .assignVariable ha (by simpa using valid) _
        · exact .fail f

protected theorem input : Alike watched R (input code importing) := by
  unfold Run.input
  split
  · exact .pure _
  · refine .recover ?_ fun f => ?_
    · exact .bind (.ask hS _) fun _ => .bind (.say hS _) fun _ => .pure _
    · split
      · exact .bind (.say hS _) fun _ => .pure _
      · exact .fail f

protected theorem sayAll (lines : List String) :
    Alike watched R (sayAll importing lines) := by
  unfold Run.sayAll
  split
  · exact .forM (fun _ => .say hS _) _
  · exact .pure _

protected theorem report (line : List Char) (n : Int) (heading : String) (f : Fault) :
    Alike watched R (report line n heading f) :=
  .bind (.say hS _) fun _ => .bind (.say hS _) fun _ => .say hS _

protected theorem handle (line : List Char) (importing : Bool) (n : Int) (f : Fault) :
    Alike watched R (handle line importing n f) := by
  unfold Run.handle
  split
  · exact .fail _
  · split
    · exact .pure _
    · exact .report hS _ _ _ _

/-! ## Arguments -/

protected theorem argument (arg : List Char) : Alike watched R (argument arg) := by
  have hC := hS.toComputes
  have array : ∀ arg, Alike watched R (arrayArgument? arg) := by
    intro arg
    unfold arrayArgument?
    split
    · exact .recover (.bind (.arrayLiteral hC _) fun v => .bind (.display hC v) fun _ =>
        .bind (.say hS _) fun _ => .pure _) fun _ => .pure _
    · exact .pure _
  unfold Run.argument
  dsimp only
  split
  · exact .pure _
  · refine .bind (.check _) fun v => ?_
    cases v with
    | some v => exact .pure v
    | none =>
      refine .session fun s t h => ?_
      rw [hS.vars h]
      split
      · exact Tracks.pure _ s t h
      · refine TracksAt.bind (array _ s t h) fun v => ?_
        cases v with
        | some v => exact Tracks.pure v
        | none => exact Tracks.wrapping _ (.evaluate hC _)

protected theorem bindFrom {params : String → Prop}
    (hset : ∀ x v, params x → Alike watched R (setVariable x v)) :
    ∀ (i : Nat) (pairs : List (String × List Char)), (∀ pair ∈ pairs, params pair.1) →
      Alike watched R (bindFrom i pairs)
  | _, [], _ => .pure _
  | i, (param, arg) :: rest, known => by
      refine .bind (.recover ?_ fun f => ?_) fun _ =>
        Tracks.bindFrom hset (i + 1) rest fun pair hp => known pair (mem_cons_of_mem _ hp)
      · exact .bind (.argument hS arg) fun v => hset param v (known _ mem_cons_self)
      · exact .bind (.say hS _) fun _ => .broken _

end

/-! ## What is kept for later lines -/

section

variable (hR : Aligned R N)

include hR

protected theorem defineAlias (code : List Char) : Alike watched R (defineAlias code) := by
  unfold Run.defineAlias
  dsimp only
  split
  · exact .malformed _
  · refine .guard fun valid => .guard fun _ => .bind (.adjust fun s t h => ?_) fun _ => .note hR.toComputes _
    rw [hR.aliases h]
    exact hR.setAlias h _ _ (by simpa using valid)

protected theorem collect (line : Line) : Alike watched R (collect line) := by
  refine .adjust fun s t h => ?_
  rw [hR.loops h]
  split
  · exact h
  · rename_i l rest hl
    exact hR.collects h l rest hl _

end

section

variable (hR : Shares R N) (hS : Sees R) (code : List Char) (importing : Bool)

include hR hS

protected theorem showValue (v : Value) : Alike watched R (showValue v) := by
  have shown : Tracks watched R
      (do Act.say (← display v); adjust fun s => { s with lastOutput := v })
      (do Act.say (← display v); adjust fun s => { s with lastOutput := v }) :=
    .bind (.display hR.toComputes v) fun _ => .bind (.say hS _) fun _ => .adjust fun s t h => hR.setShown h v
  cases v with
  | nothing => exact .pure _
  | _ => exact shown

protected theorem showExpression : Alike watched R (showExpression code importing) := by
  unfold Run.showExpression
  split
  · exact .pure _
  · exact .wrappingForeign _ (.bind (.evaluate hR.toComputes _) fun v => .showValue hR hS v)

protected theorem showElement : Alike watched R (showElement code importing) := by
  unfold Run.showElement
  split
  · exact .pure _
  · exact .bind (.accessArray hR.toComputes _) fun v => .showValue hR hS v

end

/-! ## Statements that run lines -/

variable {run run' : Runner}

section

variable (hR : Shares R N) (hrun : TracksLines watched R N run run')

include hR hrun

omit hR hrun in
protected theorem runBody {importing : Bool} (hR : Aligned R N)
    (hline : ∀ l {m n}, N m n → Tracks watched R (run l importing m) (run' l importing n)) :
    ∀ body : List Line, Tracks watched R (runBody run importing body) (runBody run' importing body)
  | [] => .pure _
  | _ :: body => .session fun s t h =>
    (hline _ (hR.number h) s t h).bind fun _ => Tracks.runBody hR hline body

/-- A call does the same in both runs if it names the same function in both. -/
protected theorem call (hS : Sees R) (hv : SetsVars R) (h : R s t) (code : List Char) (importing : Bool)
    (same : SameCallee code s t) : TracksAt watched R (call run code importing) (call run' code importing) s t := by
  unfold Run.call
  dsimp only
  refine .guard h fun _ => .session ?_
  obtain ⟨found, names⟩ := same
  unfold called at found names
  rw [found]
  split
  · rename_i none
    rw [names none]
    exact Tracks.broken _ s t h
  · refine .guard h fun _ => ?_
    rw [hR.vars h]
    have set (x : String) (v : Value) : True → Alike watched R (setVariable x v) := by
      refine fun _ => .adjust fun s t h => ?_
      rw [hR.vars h]
      exact hv h _
    refine Tracks.ensuring ?_ (fun u v h => ?_) s t h
    · exact .bind (.bindFrom hS set _ _ fun _ _ => trivial) fun _ => .runBody hR.toAligned (fun l {_ _} same => hrun l importing same) _
    · rw [hR.vars h]
      exact hv h _

protected theorem eval (code : List Char) (importing : Bool) :
    Tracks watched R (eval run code importing) (eval run' code importing) := by
  unfold Run.eval
  split
  · exact .pure _
  · refine .wrappingForeign _ (.bind (.evaluate hR.toComputes _) fun v => ?_)
    cases v with
    | str s => exact .bind (.note hR.toComputes _) fun _ => .session fun s t h => hrun _ _ (hR.number h) s t h
    | _ => exact .broken _

protected theorem executeLoop (condition : List Char) (body : List Line) :
    Tracks watched R (executeLoop run condition body) (executeLoop run' condition body) := by
  have hC := hR.toComputes
  have holds : Alike watched R (conditionHolds condition) := by
    refine .bind (.value hC _) fun _ => .world fun s t h => ?_
    rw [hC.store h]
    exact Tracks.pure _ s t h
  have pass : ∀ body, Tracks watched R (runPass run body) (runPass run' body) := by
    intro body
    induction body with
    | nil => exact .pure _
    | cons l body ih => exact .bind (hrun _ _ (hR.same 0)) fun _ => ih
  have passes : ∀ n, Tracks watched R (repeatLoop run condition body n) (repeatLoop run' condition body n) := by
    intro n
    induction n with
    | zero =>
      refine .bind holds fun more => ?_
      split
      · exact .broken _
      · exact .pure _
    | succ n ih =>
      refine .bind holds fun more => ?_
      split
      · exact .bind (pass body) fun _ => .bind (.touch hC) fun _ => ih
      · exact .pure _
  exact .bind (.touch hC) fun _ => .wrappingForeign _ (passes _)

protected theorem closeLoops (keep : Loop → Bool) :
    ∀ n, Tracks watched R (closeLoops run keep n) (closeLoops run' keep n)
  | 0 => .pure _
  | n + 1 => by
      refine .session fun s t h => ?_
      rw [hR.loops h]
      split
      · exact Tracks.pure _ s t h
      · rename_i l rest hl
        split
        · exact Tracks.pure _ s t h
        · -- the loop is taken off the session that was read, so there is one
          have taken : R { s with loops := rest } { t with loops := rest } :=
            hR.setLoops h (by rw [hl]; exact cons_ne_nil _ _) rest
          refine TracksAt.bind (Or.inr ⟨rfl, taken⟩) fun _ => ?_
          exact Tracks.bind (.executeLoop hR hrun _ _) fun _ => Tracks.closeLoops keep n

protected theorem closeAllLoops : Tracks watched R (closeAllLoops run) (closeAllLoops run') := by
  refine .session fun s t h => ?_
  rw [hR.loops h]
  exact Tracks.closeLoops hR hrun _ _ s t h

/-! ## Programs -/

protected theorem runLines :
    ∀ (n : Nat) (lines : List (List Char)), Tracks watched R (runLines run n lines) (runLines run' n lines)
  | _, [] => .pure _
  | n, line :: rest => by
      refine .bind (.recover (.bind (hrun _ _ (hR.same _)) fun _ => .pure _) fun f => ?_) fun jump => ?_
      · cases f with
        | jump target => exact .pure _
        | _ => exact .fail _
      · cases jump with
        | some target => exact .pure _
        | none => exact Tracks.runLines (n + 1) rest

omit hR hrun in
protected theorem takeJump (hC : Computes R) (hc : Counts R) (target lines : Nat) :
    Alike watched R (takeJump target lines) := by
  refine .guard fun _ => .bind (.adjust fun s t h => ?_) fun _ => .session fun s t h => ?_
  · rw [hc.jumps h]
    exact hc.setJumps h _
  · rw [hc.jumps h]
    exact Tracks.guard (fun _ => .note hC _) s t h

protected theorem runFrom (hc : Counts R) (lines : List (List Char)) :
    ∀ fuel start, Tracks watched R (runFrom run lines fuel start) (runFrom run' lines fuel start)
  | 0, _ => .throw _
  | fuel + 1, start => by
      refine .bind (.runLines hR hrun _ _) fun jump => ?_
      cases jump with
      | none => exact .pure _
      | some target => exact .bind (.takeJump hR.toComputes hc _ _) fun _ => Tracks.runFrom hc lines fuel _

protected theorem programWith (hc : Counts R) (lines : List (List Char)) :
    Tracks watched R (programWith run lines) (programWith run' lines) :=
  .bind (.adjust fun _ _ h => hc.setJumps h 0) fun _ => .bind (.runFrom hR hrun hc _ _ _) fun _ =>
    .closeAllLoops hR hrun

end

protected theorem runFile (hS : Sees R)
    (hprogram : ∀ lines, Tracks watched R (programWith run lines) (programWith run' lines)) (code : List Char)
    (importing : Bool) : Tracks watched R (runFile run code importing) (runFile run' code importing) := by
  unfold Run.runFile
  split
  · exact .pure _
  · refine .guard fun script => .world fun s t h => ?_
    rw [hS.isFile h (by simpa using script)]
    refine .guard h fun there => .recover ?_ fun _ => Tracks.broken _
    unfold needAllowed
    rw [bind_assoc, bind_assoc]
    refine .world ?_
    rw [hS.denied h]
    split
    · exact Tracks.failing _ _ _ s t h
    · exact (hS.readLines h (by simpa using script) (by simpa using there)).mono.bind fun _ => hprogram _

/-! ## Packages -/

section

variable {program program' : ProgramRunner} (hA : SeesAll R)

include hA

protected theorem importLibrary (hb : Binds R) (name : String) (path : List Char) (bound : String) :
    Alike watched R (importLibrary name path bound) := by
  refine .recover (.bind (.act hA _) fun code => .bind (.wholeWorld hA) fun w => ?_) fun _ => .fail _
  split
  · rename_i f _
    exact Tracks.fail f
  · refine .bind (.wholeWorld hA) fun _ => .bind (.act hA _) fun _ => ?_
    refine .bind (.adjust fun s t h => hb h _ _ _ _ _) fun _ => ?_
    exact .bind (.act hA _) fun _ => .bind (.act hA _) fun _ => .pure _

protected theorem runScript (he : Exports R)
    (hprogram : ∀ lines, Tracks watched R (program lines) (program' lines)) (path : List Char) (bound : String) :
    Tracks watched R (runScript program path bound) (runScript program' path bound) := by
  refine .session fun s t h => ?_
  rw [hA.vars h, he.exported h]
  refine TracksAt.bind (Or.inr ⟨rfl, he.setExported h _ _⟩) fun _ => ?_
  refine Tracks.ensuring (.bind (.act hA _) fun _ => hprogram _) fun u v h => ?_
  rw [hA.vars h, he.exported h]
  exact he.setExported h _ _

protected theorem mainFile (name : String) (data : Json) : Alike watched R (mainFile name data) := by
  refine .bind (.check _) fun base => .bind (.check _) fun language => .bind (.check _) fun file => ?_
  refine .bind (.wholeWorld hA) fun w => ?_
  generalize (if (language.getD (.str "python")).beq (.str "python") then ".py" else ".gy") = extension
  extract_lets disk
  split
  · exact .pure _
  · refine .bind (.check _) fun names => ?_
    extract_lets chosen
    have hchosen : ∀ similar, Alike watched R (chosen similar) := by
      intro similar
      unfold chosen
      split
      · exact .bind (.act hA _) fun _ => .pure _
      · split
        · exact .bind (.act hA _) fun _ => .pure _
        · exact .fail _
    split
    · exact .bind (.pure _) hchosen
    · split
      · exact .bind (.pure _) hchosen
      · exact .bind (.fail _) hchosen

variable (hd : SetsDepot R) (hb : Binds R)
  (hscript : ∀ path bound, Tracks watched R (runScript program path bound) (runScript program' path bound))

include hb hscript

omit hb in
protected theorem importScript (name : String) (path : List Char) (bound : String) :
    Tracks watched R (importScript program name path bound) (importScript program' name path bound) := by
  refine .recover (.session fun s t h => ?_) fun _ => .fail _
  rw [hA.depot h]
  refine TracksAt.bind (Tracks.act hA _ s t h) fun there => ?_
  exact Tracks.guard fun _ => .bind (hscript _ _) fun _ => .act hA _

protected theorem importPackage (name : String) (newName : Option String) :
    Tracks watched R (importPackage program name newName) (importPackage program' name newName) := by
  refine .session fun s t h => ?_
  rw [hA.depot h]
  refine TracksAt.bind (Tracks.check _ s t h) fun there => Tracks.guard fun _ => ?_
  refine .bind (.check _) fun data => .bind (.mainFile hA _ _) fun file => ?_
  dsimp only
  split
  · exact .importLibrary hA hb _ _ _
  · exact .bind (.importScript hA hscript _ _ _) fun _ => .pure _

protected theorem importCommand (args : List Char) :
    Tracks watched R (importCommand program args) (importCommand program' args) := by
  refine .guard fun _ => ?_
  split
  · exact .bind (.importPackage hA hb hscript _ _) fun _ => .pure _
  · split
    · exact .bind (.importPackage hA hb hscript _ _) fun _ => .pure _
    · exact .malformed _
  · exact .malformed _

include hd in
protected theorem packageCommand (code : List Char) :
    Tracks watched R (packageCommand program code) (packageCommand program' code) := by
  have name : ∀ args, Alike watched R (packageName args) := fun _ => .guard fun _ => .pure _
  have list : Alike watched R listPackages := by
    refine .bind (.act hA _) fun _ => .bind (.pkg hA hd _) fun _ => .forM (fun _ => .session fun s t h => ?_) _
    rw [hA.depot h]
    refine TracksAt.bind (Tracks.check _ s t h) fun _ => ?_
    exact Tracks.bind (.check _) fun _ => .bind (.check _) fun _ => .act hA _
  unfold Run.packageCommand
  split
  · exact .malformed _
  · refine .recover ?_ fun f => ?_
    · unfold packageAction
      split
      · exact .bind (name _) fun _ => .pkg hA hd _
      · exact .importCommand hA hb hscript _
      · exact list
      · exact .bind (name _) fun _ => .pkg hA hd _
      · exact .act hA _
      · exact .pkg hA hd _
      · exact .bind (name _) fun _ => .pkg hA hd _
      · exact .forM (fun _ => .act hA _) _
      · exact .malformed _
    · split <;> exact .act hA _

end

/-! ## Blocks and definitions -/

section

variable (hC : Computes R) (hD : Defines R)

include hC hD

omit hC in
protected theorem define (code : List Char) (indent : Nat) : Alike watched R (define code indent) := by
  refine .guard fun _ => ?_
  split
  · exact .malformed _
  · refine .guard fun _ => ?_
    split
    · exact .failing _ _ _
    · rename_i checked
      refine .adjust fun s t h => hD.enter h _ _ _ fun x hx => ?_
      obtain ⟨p, hp, rfl⟩ := mem_map.mp hx
      have valid := find?_eq_none.mp checked p hp
      rcases p with _ | ⟨c, p⟩
      · exact .inl rfl
      · exact .inr (by simpa using valid)

omit hC in
protected theorem capture (l : Line) : Alike watched R (capture l) := by
  refine .session fun s t h => ?_
  rw [hD.defining h]
  split
  · exact Tracks.pure _ s t h
  · rename_i name indent _
    split
    · exact Tracks.bind (.adjust fun s t h => hD.keepLine h l) (fun _ => .pure _) s t h
    · exact Tracks.bind (.adjust fun s t h => hD.finish h name) (fun _ => .pure _) s t h

protected theorem closeIfs (indent : Nat) : Alike watched R (closeIfs indent) := by
  refine .session fun s t h => ?_
  rw [hD.ifs h]
  refine TracksAt.bind (Or.inr ⟨rfl, ?_⟩) fun _ => Tracks.forM (fun _ => .note hC _) _
  rw [outcome_adjust, outcome_adjust, hD.ifs h]
  exact hD.setIfs h _

protected theorem condition (code : List Char) (indent : Nat) :
    Alike watched R (condition code indent) := by
  refine .guard fun _ => .wrapping _ (.bind (.evaluate hC _) fun value => .world fun u v h => ?_)
  rw [hC.store h]
  refine Tracks.bind (.adjust fun s t h => ?_) (fun _ => .note hC _) u v h
  rw [hD.ifs h, hD.elses h]
  exact hD.setElses (hD.setIfs h (⟨value.truthy u.depot.world.store, indent⟩ :: s.ifs)) _

omit hC in
protected theorem alternative (indent : Nat) : Alike watched R (alternative indent) := by
  refine .session fun s t h => ?_
  rw [hD.elses h]
  split
  · exact Tracks.malformed _ s t h
  · refine .guard h fun _ => Or.inr ⟨rfl, ?_⟩
    rw [outcome_adjust, outcome_adjust, hD.ifs h]
    exact hD.setIfs h _

end

/-! ## Lines -/

section

variable (hR : Shares R N) (hD : Defines R) (hrun : TracksLines watched R N run run')

include hR hrun

include hD in
protected theorem closeBlocks (indent : Nat) : Tracks watched R (closeBlocks run indent) (closeBlocks run' indent) := by
  refine .bind (.closeIfs hR.toComputes hD indent) fun _ => .session fun s t h => ?_
  rw [hR.loops h]
  exact Tracks.closeLoops hR hrun _ _ s t h

section

variable (hS : Sees R) (h : R s t) (command : Command) (code : List Char) (indent : Nat) (importing : Bool)
  (hpackage : command = .package →
    TracksAt watched R (packageCommand (programWith run) (code.drop 4)) (packageCommand (programWith run') (code.drop 4))
      s t) (hprogram : command = .runFile → ∀ lines, Tracks watched R (programWith run lines) (programWith run' lines))
  (hcall : command = .call → TracksAt watched R (call run code importing) (call run' code importing) s t)

include hS h hpackage hprogram hcall

/-- Commands that neither open blocks nor start definitions keep two runs side by side, if those do that run programs and
call functions. -/
protected theorem executeClosed (other : command ≠ .alternative ∧ command ≠ .condition ∧ command ≠ .define) :
    TracksAt watched R (execute run command code indent importing) (execute run' command code indent importing) s t := by
  have hC := hR.toComputes
  cases command with
  | alternative => exact absurd rfl other.1
  | condition => exact absurd rfl other.2.1
  | define => exact absurd rfl other.2.2
  | eval => exact Tracks.eval hR hrun _ _ s t h
  | input => exact Tracks.bind (.input hS _ _) (fun _ => .pure _) s t h
  | inputAssign => exact Tracks.inputAssign hS hR.assigns _ _ s t h
  | shorthand => exact Tracks.defineAlias hR.toAligned _ s t h
  | exit => exact Tracks.throw _ s t h
  | package => exact hpackage rfl
  | loop => exact Tracks.fail _ s t h
  | collect => exact Tracks.collect hR.toAligned _ s t h
  | skip => exact Tracks.note hC _ s t h
  | goto => exact Tracks.goto hC _ s t h
  | runFile => exact Tracks.runFile hS (hprogram rfl) _ _ s t h
  | call => exact hcall rfl
  | printInput => exact Tracks.printInput hS _ s t h
  | assign => exact Tracks.assign hC hR.assigns _ s t h
  | print => exact Tracks.print hS _ _ s t h
  | fiveAndFive | nineAndTen | version => exact Tracks.sayAll hS _ _ s t h
  | element => exact Tracks.showElement hR hS _ _ s t h
  | expression => exact Tracks.showExpression hR hS _ _ s t h

include hD in
protected theorem execute :
    TracksAt watched R (execute run command code indent importing) (execute run' command code indent importing) s t := by
  cases command with
  | alternative => exact Tracks.alternative hD indent s t h
  | condition => exact Tracks.condition hR.toComputes hD code indent s t h
  | define => exact Tracks.define hD _ _ s t h
  | _ => exact Tracks.executeClosed hR hrun hS h _ code indent importing hpackage hprogram hcall ⟨nofun, nofun, nofun⟩

end

end

/-- Where lines are only imported, errors are not told. -/
protected theorem handleImporting (line line' : List Char) (m n : Int) (f : Fault) :
    Tracks watched R (handle line true m f) (handle line' true n f) := by
  unfold Run.handle
  split
  · exact .fail _
  · exact .pure _

/-- Where lines are only imported, commands show and ask nothing. -/
protected theorem executeImporting (hR : Aligned R N) (hD : Defines R) (h : R s t) (command : Command)
    (code : List Char) (indent : Nat) (hpackage : command = .package →
      TracksAt watched R (packageCommand (programWith run) (code.drop 4)) (packageCommand (programWith run') (code.drop 4))
        s t) (hcall : command = .call → TracksAt watched R (call run code true) (call run' code true) s t) :
    TracksAt watched R (execute run command code indent true) (execute run' command code indent true) s t := by
  have hC := hR.toComputes
  cases command with
  | alternative => exact Tracks.alternative hD indent s t h
  | condition => exact Tracks.condition hC hD code indent s t h
  | input => exact Tracks.bind (.pure _) (fun _ => .pure _) s t h
  | shorthand => exact Tracks.defineAlias hR _ s t h
  | exit => exact Tracks.throw _ s t h
  | package => exact hpackage rfl
  | define => exact Tracks.define hD _ _ s t h
  | loop => exact Tracks.fail _ s t h
  | collect => exact Tracks.collect hR _ s t h
  | skip => exact Tracks.note hC _ s t h
  | goto => exact Tracks.goto hC _ s t h
  | call => exact hcall rfl
  | assign => exact Tracks.assign hC hR.assigns _ s t h
  | _ => exact Tracks.pure _ s t h

end Tracks

end LineScript.Run
