
import LineScript.Proofs.Dispatch
import LineScript.Proofs.IndexFile
import LineScript.Proofs.Jumps
import LineScript.Proofs.NameValues
import LineScript.Proofs.Replay

/-!
# Files of assignments

A file of assignments can be imported as a module or run as a program. Either way each line sets a variable if its right side
has a value (`Reading.result`). But a program evaluates over the variables set so far, and a module over none; and a module
leaves out lines that start with `import` or end in `=input`, also where these are part of a name or of a comment.
-/

namespace LineScript

open Text Line List

/-! ## Values over variables -/

/-- What evaluating can change besides the variables: the disk, if the folder of packages is made, and the store. -/
structure Ground where
  disk : Disk
  store : Store

def Ground.Ready (g : Ground) : Prop := g.disk.ensureFolder Pkg.folder = .ok g.disk

theorem Ground.Ready.look {g : Ground} (ready : g.Ready) :
    Pkg.look g.disk = (Pkg.lookOf (g.disk.read Pkg.indexFile), g.disk) := by
  unfold Pkg.look
  rw [ready]

namespace Session

def ground (s : Session) : Ground := ⟨s.depot.world.disk, s.depot.world.store⟩

def onGround (g : Ground) (s : Session) : Session :=
  { s with depot := { s.depot with world := { s.depot.world with disk := g.disk, store := g.store } } }

end Session

namespace Run

variable {raw expr : List Char} {lines : List (List Char)} {s t : Session} {env : Env} {l : Line} {g : Ground}

/-- The value of an expression, or why it has none, and the ground once that is known. -/
def appraised (env : Env) (expr : List Char) (g : Ground) : Except Fault Value × Ground :=
  match Pkg.look g.disk with
  | (.ok _, disk) =>
    (((Expr.evaluate env expr).run.run g.store).1, ⟨disk, ((Expr.evaluate env expr).run.run g.store).2⟩)
  | (.error f, disk) => (.error f, ⟨disk, g.store⟩)

def appraise (env : Env) (expr : List Char) : Run Value := do
  act Pkg.touch
  act (Act.evaluate (Expr.evaluate env expr))

theorem outcome_appraise (env : Env) (expr : List Char) (s : Session) : (appraise env expr).outcome s =
      ((appraised env expr s.ground).1.mapError .fault, s.onGround (appraised env expr s.ground).2) := by
  have touched := outcome_act Pkg.touch s
  rw [Pkg.run_touch_eq] at touched
  unfold appraise appraised Session.ground
  rcases looked : Pkg.look s.depot.world.disk with ⟨f | _, disk⟩
  · rw [looked] at touched
    exact bind_error touched
  · rw [looked] at touched
    rw [bind_ok touched]
    exact outcome_evaluation _ _

theorem outcome_evaluate (expr : List Char) (s : Session) :
    (evaluate expr).outcome s = (appraise s.vars expr).outcome s := by
  have touched := outcome_act Pkg.touch s
  show (act Pkg.touch >>= fun _ => value expr).outcome s =
    (act Pkg.touch >>= fun _ => act (Act.evaluate (Expr.evaluate s.vars expr))).outcome s
  rw [outcome_bind, outcome_bind, touched]
  cases (Pkg.touch.run.run s.depot.world).1 <;> rfl

/-! ## Lines that assign -/

def sides? (code : List Char) : Option (List Char × List Char) :=
  (cut? ['='] code).map fun sides => (strip sides.1, strip sides.2)

def named? (sides : List Char × List Char) : Option (String × List Char) :=
  if isValidName sides.1 then some (String.ofList sides.1, sides.2) else none

def assigned? (raw : List Char) : Option (String × List Char) :=
  (read? raw).bind fun l => (sides? l.code).bind named?

/-- A line that is blank, or not indented and an assignment by the way it looks. -/
def IsAssignment (raw : List Char) : Prop :=
  ∀ l ∈ read? raw, l.indent = 0 ∧ Command.of false false l.code = .assign

instance : DecidablePred IsAssignment := fun raw =>
  inferInstanceAs (Decidable (∀ l ∈ read? raw, l.indent = 0 ∧ Command.of false false l.code = .assign))

def passedOver (raw : List Char) : Bool :=
  (read? raw).any fun l => Command.starts l.code "import" || Command.ends l.code "=input"

/-- A way to read a file of assignments: what lines it leaves out, and which variables a right side sees. -/
structure Reading where
  skips : List Char → Bool
  sees : Env → Env

namespace Reading

def takes? (r : Reading) (raw : List Char) : Option (String × List Char) := if r.skips raw then none else assigned? raw

/-- The variables once an expression has been assigned; nothing is assigned if it has no value. -/
def settle (x : String) (env : Env) : Except Fault Value × Ground → Env × Ground
  | (.ok v, g) => (env.set x v, g)
  | (.error _, g) => (env, g)

def step (r : Reading) (state : Env × Ground) (raw : List Char) : Env × Ground :=
  match r.takes? raw with
  | none => state
  | some (x, expr) => settle x state.1 (appraised (r.sees state.1) expr state.2)

def result (r : Reading) (lines : List (List Char)) (g : Ground) : Env × Ground := lines.foldl r.step ([], g)

theorem step_of_none {r : Reading} {raw : List Char} (left : r.takes? raw = none) (state : Env × Ground) :
    r.step state raw = state := by
  unfold step
  rw [left]

theorem step_of_some {r : Reading} {raw expr : List Char} {x : String} (taken : r.takes? raw = some (x, expr))
    (state : Env × Ground) : r.step state raw = settle x state.1 (appraised (r.sees state.1) expr state.2) := by
  unfold step
  rw [taken]

end Reading

def loading : Reading := ⟨passedOver, fun _ => []⟩

def running : Reading := ⟨fun _ => false, id⟩

/-! ## The text of a line -/

/-- Newlines at the end of a line are at the end of what stands outside its comments, or in a comment. -/
theorem exists_uncommented_newlines (inside : Bool) (s : List Char) :
    ∃ tail, uncommented inside s = uncommented inside (trimRight (· = '\n') s) ++ tail ∧ ∀ c ∈ tail, isBlank c := by
  induction s generalizing inside with
  | nil => exact ⟨[], rfl, by simp⟩
  | cons c s ih =>
    rw [trimRight_cons]
    split
    · rename_i gone
      simp only [Bool.and_eq_true, decide_eq_true_eq, List.isEmpty_iff] at gone
      obtain ⟨rfl, gone⟩ := gone
      obtain ⟨tail, same, blank⟩ := ih inside
      rw [gone] at same
      cases inside with
      | true => exact ⟨tail, same, blank⟩
      | false =>
        refine ⟨'\n' :: tail, congrArg ('\n' :: ·) same, fun c mem => ?_⟩
        rcases mem_cons.mp mem with rfl | mem
        · decide
        · exact blank c mem
    · unfold uncommented
      split
      · exact ih _
      · split
        · exact ih _
        · obtain ⟨tail, same, blank⟩ := ih false
          exact ⟨tail, congrArg (c :: ·) same, blank⟩

theorem stripComments_newlines (s : List Char) : stripComments (trimRight (· = '\n') s) = stripComments s := by
  obtain ⟨tail, same, blank⟩ := exists_uncommented_newlines false s
  unfold stripComments
  rw [same, trim_append_of_all blank]

/-- A line that is not indented is its code. -/
theorem stripComments_of_read? (read : read? raw = some l) (outer : l.indent = 0) :
    stripComments raw = l.code ∧ l.code ≠ [] := by
  unfold read? at read
  dsimp only at read
  split at read
  · cases read
  · rename_i filled
    cases read
    rw [stripComments_newlines] at filled outer ⊢
    have dots : (stripComments raw).takeWhile isDot = [] := eq_nil_of_length_eq_zero outer
    have whole := takeWhile_append_dropWhile (p := isDot) (l := stripComments raw)
    rw [dots, nil_append] at whole
    refine ⟨whole.symm, ?_⟩
    show (stripComments raw).dropWhile isDot ≠ []
    rw [whole]
    exact fun empty => filled (by rw [empty]; rfl)

theorem stripComments_of_blank (blank : read? raw = none) : stripComments raw = [] := by
  unfold read? at blank
  dsimp only at blank
  split at blank
  · rename_i empty
    rw [stripComments_newlines] at empty
    exact isEmpty_iff.mp empty
  · cases blank

/-- Of the words that no assignment of a module starts with, an assignment can only start with one. -/
theorem any_nonAssignments {code : List Char} (kind : Command.of false false code = .assign) :
    nonAssignments.any (Command.starts code) = Command.starts code "import" := by
  have before : ∀ command ∈ Command.order.take 16, Command.fits false false code command = false := by
    intro command first
    refine Command.not_fits_of_take first ?_
    rw [kind]
    decide
  have define : Command.starts code "def" = false := before .define (by decide)
  have loop : Command.starts code "while" = false := before .loop (by decide)
  have condition : Command.starts code "if" = false := before .condition (by decide)
  have goto : Command.starts code "goto" = false := before .goto (by decide)
  have fit := Command.fits_of_eq kind
  simp only [Command.fits, Bool.and_eq_true, Bool.not_eq_true'] at fit
  simp [nonAssignments, define, loop, condition, goto, fit.1.2]

theorem moduleAssignment?_of_blank (blank : read? raw = none) : moduleAssignment? raw = none := by
  unfold moduleAssignment?
  rw [stripComments_of_blank blank]
  rfl

/-- The sides of an assignment in a module, if the line is not left out. -/
theorem moduleAssignment?_of_read? (read : read? raw = some l) (outer : l.indent = 0)
    (kind : Command.of false false l.code = .assign) :
    moduleAssignment? raw = if passedOver raw then none else sides? l.code := by
  obtain ⟨code, filled⟩ := stripComments_of_read? read outer
  unfold moduleAssignment? passedOver sides?
  dsimp only
  rw [code, any_nonAssignments kind, isEmpty_eq_false_iff.mpr filled, read, Option.any_some]
  cases Command.starts l.code "import" with
  | true => rfl
  | false =>
    cases Command.ends l.code "=input" with
    | true => simp
    | false =>
      cases cut : cut? ['='] l.code with
      | none => simp
      | some sides =>
        have mem : '=' ∈ l.code := by
          rw [eq_of_cut? cut]
          simp
        simp [mem]

/-- The assignments that a module takes are those of the lines that it does not leave out. -/
theorem takes?_loading (assignment : IsAssignment raw) : loading.takes? raw = (moduleAssignment? raw).bind named? := by
  unfold Reading.takes? assigned?
  show (if passedOver raw then none else _) = _
  cases read : read? raw with
  | none => rw [moduleAssignment?_of_blank read, Option.bind_none, Option.bind_none, ite_self]
  | some l =>
    obtain ⟨outer, kind⟩ := assignment l read
    rw [moduleAssignment?_of_read? read outer kind]
    cases passedOver raw <;> rfl

/-! ## A line of a module -/

theorem Shows.ground (shown : Shows s t) : t.ground = s.ground := by
  obtain ⟨_, rfl⟩ := shown
  rfl

/-- An assignment of a module is made, or noted as one that cannot be made. -/
theorem exists_outcome_load (env : Env) (x : String) (expr : List Char) (text : String) (s : Session) :
    ∃ t, (recover (do act Pkg.touch; let v ← act (Act.evaluate (Expr.evaluate [] expr)); return env.set x v) fun _ => do
        note text
        return env : Run Env).outcome s = (.ok (Reading.settle x env (appraised [] expr s.ground)).1, t) ∧
      t.ground = (Reading.settle x env (appraised [] expr s.ground)).2 := by
  have whole : (do act Pkg.touch; let v ← act (Act.evaluate (Expr.evaluate [] expr)); return env.set x v : Run Env) =
      (do return env.set x (← appraise [] expr)) := (bind_assoc _ _ _).symm
  have found := outcome_appraise [] expr s
  rw [whole]
  unfold recover
  rcases value : appraised [] expr s.ground with ⟨f | v, g⟩
  · rw [value] at found
    obtain ⟨t, noted, shown⟩ := exists_outcome_note text (s.onGround g)
    refine ⟨t, ?_, shown.ground⟩
    rw [outcome_tryCatch, bind_error found]
    show (note text >>= fun _ => pure env).outcome (s.onGround g) = _
    rw [bind_ok noted]
    rfl
  · rw [value] at found
    refine ⟨s.onGround g, ?_, rfl⟩
    rw [outcome_tryCatch, bind_ok found]
    rfl

theorem exists_outcome_moduleLine (assignment : IsAssignment raw) (env : Env) (i : Nat) (s : Session) :
    ∃ t, (moduleLine env i raw).outcome s = (.ok (loading.step (env, s.ground) raw).1, t) ∧
      t.ground = (loading.step (env, s.ground) raw).2 := by
  unfold moduleLine Reading.step
  rw [takes?_loading assignment]
  rcases moduleAssignment? raw with _ | ⟨name, expr⟩
  · exact ⟨s, rfl, rfl⟩
  · rw [Option.bind_some, named?]
    dsimp only
    cases isValidName name with
    | false => exact ⟨s, rfl, rfl⟩
    | true => exact exists_outcome_load env _ expr _ s

theorem exists_outcome_moduleLines (assignments : ∀ raw ∈ lines, IsAssignment raw) (env : Env) (i : Nat) (s : Session) :
    ∃ t, ((lines.zipIdx i).foldlM (fun env entry => moduleLine env (entry.2 + 1) entry.1) env).outcome s =
        (.ok (lines.foldl loading.step (env, s.ground)).1, t) ∧ t.ground = (lines.foldl loading.step (env, s.ground)).2 := by
  induction lines generalizing env i s with
  | nil => exact ⟨s, rfl, rfl⟩
  | cons raw lines ih =>
    obtain ⟨t, first, ground⟩ := exists_outcome_moduleLine (assignments raw mem_cons_self) env (i + 1) s
    obtain ⟨u, rest, last⟩ := ih (fun other mem => assignments other (mem_cons_of_mem _ mem))
      (loading.step (env, s.ground) raw).1 (i + 1) t
    rw [ground] at rest last
    refine ⟨u, ?_, last⟩
    rw [zipIdx_cons, foldlM_cons, bind_ok first]
    exact rest

theorem exists_outcome_moduleVariables {path : List Char} {bytes : Bytes}
    (file : s.depot.world.disk.read path = .ok bytes) (text : Act.linesOf bytes = (lines, none))
    (allowed : s.depot.world.denied.contains (String.ofList path) = false) (assignments : ∀ raw ∈ lines, IsAssignment raw) :
    ∃ t, (moduleVariables path).outcome s = (.ok (loading.result lines s.ground).1, t) ∧
      t.ground = (loading.result lines s.ground).2 := by
  obtain ⟨t, gone, ground⟩ := exists_outcome_moduleLines assignments [] 0 s
  have opened : (act (Act.readBytes path)).outcome s = (.ok bytes, s) := by
    have found : (Act.readBytes path).run.run s.depot.world = (Except.mapError Stop.fault (.ok bytes), s.depot.world) := by
      rw [← file]
      exact Act.Reads.check _
    rw [outcome_act, found]
    rfl
  refine ⟨t, ?_, ground⟩
  refine outcome_recover_ok ?_ _
  rw [bind_ok (outcome_needAllowed allowed), bind_ok opened, text, bind_ok gone]
  rfl

/-! ## A line of a program -/

def inState (state : Env × Ground) (s : Session) : Session := { s.onGround state.2 with vars := state.1 }

theorem outcome_wrapping {α : Type} {x : Run α} {r : Except Fault α} (ends : x.outcome s = (r.mapError .fault, t))
    (wrap : String → Runtime) :
    (wrapping wrap x).outcome s = ((r.mapError fun f => .runtime (wrap f.message)).mapError .fault, t) := by
  unfold wrapping recover
  rw [outcome_tryCatch, ends]
  cases r <;> rfl

/-- An assignment of a program is made, or fails. It can also fail once it is made, if its value cannot be displayed. -/
theorem exists_outcome_set (x : String) (expr : List Char) (s : Session) :
    ∃ r t, (do
        let v ← evaluate expr
        setVariable x v
        note ("Assigned " ++ x ++ " = " ++ (← display v)) : Run Unit).outcome s = (Except.mapError Stop.fault r, t) ∧
      Shows (inState (Reading.settle x s.vars (appraised s.vars expr s.ground)) s) t := by
  have found := (outcome_evaluate expr s).trans (outcome_appraise s.vars expr s)
  rcases value : appraised s.vars expr s.ground with ⟨f | v, g⟩
  · rw [value] at found
    exact ⟨.error f, s.onGround g, bind_error found, Shows.refl _⟩
  · rw [value] at found
    have set : (setVariable x v).outcome (s.onGround g) = (.ok (), inState (s.vars.set x v, g) s) := rfl
    have shown := outcome_display v (inState (s.vars.set x v, g) s)
    rw [bind_ok found, bind_ok set]
    generalize v.display (inState (s.vars.set x v, g) s).depot.world.store = r at shown
    cases r with
    | error f => exact ⟨.error f, _, bind_error shown, Shows.refl _⟩
    | ok text =>
      obtain ⟨t, noted, shows⟩ := exists_outcome_note ("Assigned " ++ x ++ " = " ++ text) (inState (s.vars.set x v, g) s)
      exact ⟨.ok (), t, (bind_ok shown).trans noted, shows⟩

/-- What an assignment does is a step of running, whether it fails or not. -/
theorem exists_outcome_assign_step (read : read? raw = some l) (s : Session) :
    ∃ r t, (assign l.code).outcome s = (Except.mapError Stop.fault r, t) ∧
      Shows (inState (running.step (s.vars, s.ground) raw) s) t := by
  have taken : running.takes? raw = (sides? l.code).bind named? := by
    show assigned? raw = _
    unfold assigned?
    rw [read, Option.bind_some]
  unfold Reading.step
  rw [taken]
  unfold assign sides?
  cases cut? ['='] l.code with
  | none => exact ⟨.error (.malformed .assignment), s, rfl, Shows.refl s⟩
  | some sides =>
    rw [Option.map_some, Option.bind_some, named?]
    dsimp only
    cases isValidName (strip sides.1) with
    | false => exact ⟨.error (.malformed (.variableName (String.ofList (strip sides.1)))), s, rfl, Shows.refl s⟩
    | true =>
      obtain ⟨r, t, ends, shows⟩ := exists_outcome_set (String.ofList (strip sides.1)) (strip sides.2) s
      exact ⟨_, t, outcome_wrapping ends _, shows⟩

/-- A session in which lines are not part of anything: no definition in progress, no block open, no alias. -/
structure Unbound (s : Session) : Prop where
  closed : s.defining = none
  outermost : Outermost s
  unaliased : s.aliases = []

theorem Unbound.of_shows (unbound : Unbound s) {state : Env × Ground} {n : Int}
    (shows : Shows (inState state { s with lineNumber := n }) t) : Unbound t := by
  obtain ⟨_, rfl⟩ := shows
  exact ⟨unbound.closed, ⟨unbound.outermost.ifs, unbound.outermost.loops⟩, unbound.unaliased⟩

theorem exists_outcome_assignment_line (run : Runner) (assignment : IsAssignment raw) (n : Int) (unbound : Unbound s) :
    ∃ t, (lineWith run raw false n).outcome s = (.ok (), t) ∧
      Shows (inState (running.step (s.vars, s.ground) raw) { s with lineNumber := n }) t := by
  cases read : read? raw with
  | none =>
    have left : running.takes? raw = none := by
      show assigned? raw = _
      unfold assigned?
      rw [read, Option.bind_none]
    rw [Reading.step_of_none left]
    exact ⟨_, outcome_blank_line run read false n s, Shows.refl _⟩
  | some l =>
    obtain ⟨r, t, ends, shows⟩ := exists_outcome_assign_step read { s with lineNumber := n }
    rw [outcome_line_outermost run read n unbound.closed unbound.outermost unbound.unaliased, (assignment l read).2]
    cases r with
    | ok _ => exact ⟨t, outcome_recover_ok ends _, shows⟩
    | error f =>
      have noJump : ∀ target, f ≠ .jump target := by
        rintro target rfl
        exact NeverJumps.assign l.code _ target (congrArg Prod.fst ends)
      exact ⟨_, outcome_recover_fault ends noJump _ n, shows.trans (shows_told _ n f t)⟩

theorem exists_outcome_assignment_lines (run : Runner) (assignments : ∀ raw ∈ lines, IsAssignment raw) (n : Nat)
    (unbound : Unbound s) : ∃ t, (runLines (lineWith run) n lines).outcome s = (.ok none, t) ∧ Unbound t ∧
      (t.vars, t.ground) = lines.foldl running.step (s.vars, s.ground) := by
  induction lines generalizing n s with
  | nil => exact ⟨s, rfl, unbound, rfl⟩
  | cons raw lines ih =>
    obtain ⟨t, first, shows⟩ := exists_outcome_assignment_line run (assignments raw mem_cons_self) n unbound
    obtain ⟨u, rest, last, state⟩ := ih (fun other mem => assignments other (mem_cons_of_mem _ mem)) (n + 1)
      (unbound.of_shows shows)
    have between : (t.vars, t.ground) = running.step (s.vars, s.ground) raw := by
      obtain ⟨_, rfl⟩ := shows
      rfl
    rw [between] at state
    exact ⟨u, (outcome_runLines_ok first lines).trans rest, last, state⟩

/-- Running a program of assignments leaves the variables that going through its lines gives. -/
theorem exists_outcome_program (assignments : ∀ raw ∈ lines, IsAssignment raw) {u : Session} (unbound : Unbound u)
    (new : u.vars = []) :
    ∃ v, (program lines).outcome u = (.ok (), v) ∧ (v.vars, v.ground) = running.result lines u.ground := by
  have unbound : Unbound { u with jumps := 0 } :=
    ⟨unbound.closed, ⟨unbound.outermost.ifs, unbound.outermost.loops⟩, unbound.unaliased⟩
  obtain ⟨v, ran, last, state⟩ := exists_outcome_assignment_lines (runner 299) assignments 1 unbound
  refine ⟨v, outcome_programWith_ok ran last.outermost.loops, ?_⟩
  rw [state]
  show lines.foldl running.step (u.vars, u.ground) = lines.foldl running.step ([], u.ground)
  rw [new]

/-! ## Where the two ways agree -/

def isWordToken (x : String) : Expr.Token → Bool
  | .word y => x = y
  | _ => false

/-- Whether a word of an expression is the name of a variable. -/
def mentions (expr : List Char) (x : String) : Bool :=
  !Expr.isKeyword x && (Expr.lex (Expr.respell expr)).any fun tokens => tokens.any (isWordToken x)

theorem mentions_of_word {expr : List Char} {tokens : List Expr.Token} {x : String}
    (cut : Expr.lex (Expr.respell expr) = some tokens) (mem : .word x ∈ tokens) (free : Expr.isKeyword x = false) :
    mentions expr x := by
  unfold mentions
  rw [cut, free]
  exact any_eq_true.mpr ⟨.word x, mem, decide_eq_true rfl⟩

theorem appraised_congr {env' : Env} (agree : ∀ x, mentions expr x → env.find? x = env'.find? x) (g : Ground) :
    appraised env expr g = appraised env' expr g := by
  unfold appraised
  rw [Expr.evaluate_congr fun tokens cut x mem free => agree x (mentions_of_word cut mem free)]

/-- The later line does not mention what the earlier one assigns to. -/
def Independent (earlier later : List Char) : Prop :=
  ∀ assignment ∈ assigned? earlier, ∀ use ∈ assigned? later, mentions use.2 assignment.1 = false

instance : DecidableRel Independent := fun earlier later => inferInstanceAs
  (Decidable (∀ assignment ∈ assigned? earlier, ∀ use ∈ assigned? later, mentions use.2 assignment.1 = false))

/-- An expression that has no value unless variables are set, and changes nothing. -/
def Valueless (expr : List Char) : Prop := ∀ store, ∃ f, (Expr.evaluate [] expr).run.run store = (.error f, store)

section

variable {g : Ground} (ready : g.Ready)

include ready

theorem ready_appraised (env : Env) (expr : List Char) : (appraised env expr g).2.Ready := by
  unfold appraised
  rw [ready.look]
  cases Pkg.lookOf (g.disk.read Pkg.indexFile) <;> exact ready

theorem exists_appraised_of_valueless (valueless : Valueless expr) : ∃ f, appraised [] expr g = (.error f, g) := by
  unfold appraised
  rw [ready.look]
  cases Pkg.lookOf (g.disk.read Pkg.indexFile) with
  | error f => exact ⟨f, rfl⟩
  | ok _ =>
    obtain ⟨f, ends⟩ := valueless g.store
    refine ⟨f, ?_⟩
    rw [ends]

theorem ready_step (r : Reading) (env : Env) (raw : List Char) : (r.step (env, g) raw).2.Ready := by
  unfold Reading.step
  split
  · exact ready
  · rename_i x expr _
    have after := ready_appraised ready (r.sees env) expr
    rcases value : appraised (r.sees env) expr g with ⟨_ | _, _⟩
    all_goals
      rw [value] at after
      exact after

/-- A line is the same step either way, if it mentions no variable that is set and is not left out with a value. -/
theorem step_agrees (apart : ∀ use ∈ assigned? raw, ∀ x, mentions use.2 x → env.find? x = none)
    (left : passedOver raw → ∀ use ∈ assigned? raw, Valueless use.2) :
    loading.step (env, g) raw = running.step (env, g) raw := by
  have every : running.takes? raw = assigned? raw := rfl
  have counted : loading.takes? raw = if passedOver raw then none else assigned? raw := rfl
  rcases assigned : assigned? raw with _ | ⟨x, expr⟩
  · rw [assigned] at every counted
    rw [ite_self] at counted
    rw [Reading.step_of_none counted, Reading.step_of_none every]
  · rw [assigned] at every counted
    have alone : appraised [] expr g = appraised env expr g := by
      refine appraised_congr (fun y mentioned => ?_) g
      rw [apart _ assigned y mentioned]
      rfl
    rw [Reading.step_of_some every]
    cases passed : passedOver raw with
    | false =>
      rw [passed] at counted
      rw [Reading.step_of_some counted]
      exact congrArg (Reading.settle x env) alone
    | true =>
      rw [passed] at counted
      obtain ⟨f, failed⟩ := exists_appraised_of_valueless ready (left passed _ assigned)
      rw [Reading.step_of_none counted]
      show (env, g) = Reading.settle x env (appraised env expr g)
      rw [← alone, failed]
      rfl

end

/-- A step sets no variable but the one that its line assigns to. -/
theorem Reading.find?_step (r : Reading) {x : String} (g : Ground)
    (other : ∀ assignment ∈ assigned? raw, assignment.1 ≠ x) : (r.step (env, g) raw).1.find? x = env.find? x := by
  unfold step
  split
  · rfl
  · rename_i y expr taken
    have assigned : assigned? raw = some (y, expr) := by
      unfold takes? at taken
      split at taken
      · cases taken
      · exact taken
    rcases appraised (r.sees env) expr g with ⟨_ | v, _⟩
    · rfl
    · exact Table.find?_set_of_ne _ (other _ assigned) v

/-- Lines that are independent of each other and of the variables are read the same in both ways. -/
theorem foldl_agrees (independent : lines.Pairwise Independent)
    (left : ∀ raw ∈ lines, passedOver raw → ∀ use ∈ assigned? raw, Valueless use.2) (ready : g.Ready)
    (apart : ∀ raw ∈ lines, ∀ use ∈ assigned? raw, ∀ x, mentions use.2 x → env.find? x = none) :
    lines.foldl loading.step (env, g) = lines.foldl running.step (env, g) := by
  induction lines generalizing env g with
  | nil => rfl
  | cons raw lines ih =>
    obtain ⟨first, rest⟩ := pairwise_cons.mp independent
    have same := step_agrees ready (apart raw mem_cons_self) (left raw mem_cons_self)
    have still : ∀ other ∈ lines, ∀ use ∈ assigned? other, ∀ x, mentions use.2 x →
        (running.step (env, g) raw).1.find? x = none := by
      intro other mem use used x mentioned
      rw [running.find?_step g fun assignment assigned => ?_]
      · exact apart other (mem_cons_of_mem _ mem) use used x mentioned
      · rintro rfl
        exact Bool.false_ne_true ((first other mem assignment assigned use used).symm.trans mentioned)
    rw [foldl_cons, same]
    exact ih rest (fun other mem => left other (mem_cons_of_mem _ mem)) (ready_step ready running env raw) still

/-- A name that nothing is known by, unless a variable has it, has no value. -/
theorem valueless_of_unknown {v : List Char} (name : PlainName v) (plain : '_' ∉ v.tail)
    (free : Expr.isKeyword (String.ofList v) = false) (other : Expr.builtins.lookup (String.ofList v) = none) :
    Valueless v := by
  intro store
  rw [Expr.evaluate_unknown name plain free rfl other]
  exact ⟨_, rfl⟩

def besideModule (text : String) : Session where
  depot := { world := { disk := [("m.gy", .file (encode text.toList) Disk.newMode), ("packages", .folder [])] } }

def moduleLines (text : String) : List (List Char) := (Act.linesOf (encode text.toList)).1

def loadedNames (text : String) : List String :=
  (((moduleVariables "m.gy".toList).outcome (besideModule text)).1.toOption.getD []).names

def leftNames (text : String) : List String := ((program (moduleLines text)).outcome (besideModule text)).2.vars.names

/-- Two numbers, and a line that is left out and has no value. -/
def numbersText : String := "a=1\n\x7bsum\x7d\n\nb=2+3\nc=input\n"

end Run

end LineScript
