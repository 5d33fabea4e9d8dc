
import LineScript.Proofs.Commutes
import LineScript.Proofs.Footprint
import LineScript.Proofs.Jumps
import LineScript.Proofs.Running

/-!
# Nested conditional blocks

A properly nested program has headers, each with a body one dot deeper, and assignments and prints, also those that read what
the user types. Of the open blocks only the innermost is asked. A header inside a block that does not run is evaluated all
the same; one whose condition cannot be evaluated opens no block; and an input assignment is run before any block is asked.
`Block.run` says so by recursion on the blocks, without a list of open ones.
-/

namespace LineScript.Run

open Text Line List

variable {s : Session} {rest body : Block} {code : List Char} {f : Session → Session} {v : Option Bool}

/-! ## Nested programs -/

variable {outer : Verdicts}

def bare (line : List Char) : List Char := trimRight (· = '\n') line

def depthOf (line : List Char) : Nat := (splitIndent (stripComments (bare line))).1

def codeOf (line : List Char) : List Char := (splitIndent (stripComments (bare line))).2

inductive Block where
  | done
  | simple (line : List Char) (rest : Block)
  | guarded (header : List Char) (body rest : Block)

def Block.lines : Block → List (List Char)
  | .done => []
  | .simple line rest => line :: rest.lines
  | .guarded header body rest => header :: (body.lines ++ rest.lines)

def isSimple : Command → Bool
  | .assign | .print | .inputAssign | .printInput => true
  | _ => false

/-- Headers and simple statements stand where they should, the body of a header one dot deeper than the header. -/
def Block.FormedAt (depth : Nat) : Block → Prop
  | .done => True
  | .simple line rest =>
    depthOf line = depth ∧ isSimple (.of false false (codeOf line)) = true ∧ rest.FormedAt depth
  | .guarded header body rest =>
    depthOf header = depth ∧ Command.starts (codeOf header) "if" = true ∧ body.FormedAt (depth + 1) ∧
      rest.FormedAt depth

/-! ## What nested programs mean -/

/-- What became of the headers around a line, the innermost first: whether the condition holds, or none if it
could not be evaluated. -/
abbrev Verdicts := List (Option Bool)

def innermost : Verdicts → Bool
  | [] => true
  | some holds :: _ => holds
  | none :: outer => innermost outer

def every (outer : Verdicts) : Bool := outer.all (· == some true)

def allowed (code : List Char) (outer : Verdicts) : Bool := Command.isInputAssign code || innermost outer

def perform (code : List Char) : Run Unit :=
  match Command.of false false code with
  | .assign => assign code
  | .print => print code false
  | .inputAssign => inputAssign code false
  | .printInput => printInput false
  | _ => return ()

def test (code : List Char) : Run Bool := do
  let cond := afterWord "if" code
  if cond.isEmpty then malformed .ifCondition
  wrapping .ifCondition do
    let v ← evaluate cond
    return v.truthy (← world).store

/-- What becomes of a header, told of if it is a fault. A header that can be read as an input assignment is one,
and has no condition. -/
def verdict (header : List Char) (n : Nat) : Run (Option Bool) :=
  recover (do
    if Command.isInputAssign (codeOf header) then
      inputAssign (codeOf header) false
      return none
    else return some (← test (codeOf header)))
    fun f => do
      handle (bare header) false n f
      return none

/-- Runs the simple statement in line `n` and tells of its faults, if the rule says that it runs. -/
def statement (rule : List Char → Verdicts → Bool) (line : List Char) (outer : Verdicts) (n : Nat) : Run Unit := do
  if rule (codeOf line) outer then recover (perform (codeOf line)) (handle (bare line) false n)

/-- Runs a nested program from line `n` on, its simple statements by a rule. -/
def Block.run (rule : List Char → Verdicts → Bool) (outer : Verdicts) (n : Nat) : Block → Run Unit
  | .done => return ()
  | .simple line rest => do
    adjust fun s => { s with lineNumber := n }
    statement rule line outer n
    rest.run rule outer (n + 1)
  | .guarded header body rest => do
    adjust fun s => { s with lineNumber := n }
    let v ← verdict header n
    body.run rule (v :: outer) (n + 1)
    rest.run rule outer (n + 1 + body.lines.length)

/-! ## Kinds of lines -/

/-- The kinds before a simple one do not fit. -/
theorem not_of_isSimple {c : Prop} [Decidable c] {a b : Command} (ha : isSimple a = false)
    (h : isSimple (if c then a else b)) : ¬ c ∧ isSimple b := by
  by_cases hc : c
  · rw [if_pos hc, ha] at h
    cases h
  · rw [if_neg hc] at h
    exact ⟨hc, h⟩

theorem of_simple (h : isSimple (.of false false code)) (skipped : Bool) : Command.of false skipped code =
      if Command.isInputAssign code || !skipped then .of false false code else .skip := by
  cases skipped with
  | false => rw [Bool.not_false, Bool.or_true, if_pos rfl]
  | true =>
    rw [Bool.not_true, Bool.or_false]
    unfold Command.of at h ⊢
    obtain ⟨noEval, h⟩ := not_of_isSimple rfl h
    obtain ⟨noInput, h⟩ := not_of_isSimple rfl h
    -- of the kinds before the question whether the line is skipped, only this one is simple
    by_cases typed : Command.isInputAssign code
    · simp only [if_pos typed]
    · rw [if_neg typed] at h
      obtain ⟨noAlias, h⟩ := not_of_isSimple rfl h
      obtain ⟨noElse, h⟩ := not_of_isSimple rfl h
      obtain ⟨noExit, h⟩ := not_of_isSimple rfl h
      obtain ⟨noPackage, h⟩ := not_of_isSimple rfl h
      obtain ⟨noDef, h⟩ := not_of_isSimple rfl h
      obtain ⟨noWhile, h⟩ := not_of_isSimple rfl h
      obtain ⟨noIf, h⟩ := not_of_isSimple rfl h
      simp only [if_neg noEval, if_neg noInput, if_neg typed, if_neg noAlias, if_neg noElse, if_neg noExit,
        if_neg noPackage, if_neg noDef, if_neg noWhile, if_neg noIf, Bool.false_eq_true, if_false, if_true]

theorem of_header (h : Command.starts code "if") (skipped : Bool) :
    Command.of false skipped code = if Command.isInputAssign code then .inputAssign else .condition := by
  obtain ⟨rest, rfl⟩ := List.isPrefixOf_iff_prefix.mp h
  have noInput : Command.isInput ("if".toList ++ rest) = false := rfl
  have others : ∀ word ∈ ["eval ", "alias ", "else", "exit_", "gpd ", "def", "while"],
      Command.starts ("if".toList ++ rest) word = false := by
    intro word hw
    simp only [mem_cons, not_mem_nil, or_false] at hw
    rcases hw with rfl | rfl | rfl | rfl | rfl | rfl | rfl <;> rfl
  unfold Command.of
  simp only [h, noInput, others, mem_cons, true_or, or_true, Bool.false_eq_true, if_false, if_true]

/-! ## Open blocks -/

def branches : Verdicts → List Branch
  | [] => []
  | some holds :: outer => ⟨holds, outer.length⟩ :: branches outer
  | none :: outer => branches outer

/-- Nothing is in progress but conditional blocks. -/
structure Calm (s : Session) : Prop where
  loops : s.loops = []
  defining : s.defining = none
  aliases : s.aliases = []
  debug : s.debug = false

/-- The open blocks are those of the headers around, and perhaps some that the next line closes. -/
structure Within (outer : Verdicts) (s : Session) : Prop where
  calm : Calm s
  ifs : ∃ extra, (∀ b ∈ extra, outer.length ≤ b.indent) ∧ s.ifs = extra ++ branches outer

theorem indent_lt_of_mem_branches {b : Branch} (h : b ∈ branches outer) : b.indent < outer.length := by
  induction outer with
  | nil => cases h
  | cons v outer ih =>
    cases v with
    | none => exact Nat.lt_succ_of_lt (ih h)
    | some holds =>
      rcases mem_cons.mp h with rfl | h
      · exact Nat.lt_succ_self _
      · exact Nat.lt_succ_of_lt (ih h)

theorem Within.dropWhile (h : Within outer s) : s.ifs.dropWhile (fun b => outer.length ≤ b.indent) = branches outer := by
  obtain ⟨extra, deep, ifs⟩ := h.ifs
  rw [ifs, dropWhile_append_of_pos fun b hb => decide_eq_true (deep b hb)]
  cases hb : branches outer with
  | nil => rfl
  | cons b bs =>
    have shallow : b.indent < outer.length := indent_lt_of_mem_branches (hb ▸ mem_cons_self)
    rw [dropWhile_cons_of_neg]
    simpa using shallow

/-- Blocks that were opened further in are closed by the next line further out. -/
theorem Within.outward (h : Within (v :: outer) s) : Within outer s := by
  obtain ⟨extra, deep, ifs⟩ := h.ifs
  refine ⟨h.calm, ?_⟩
  cases v with
  | none => exact ⟨extra, fun b hb => Nat.le_of_succ_le (deep b hb), ifs⟩
  | some holds =>
    refine ⟨extra ++ [⟨holds, outer.length⟩], fun b hb => ?_, ?_⟩
    · rcases mem_append.mp hb with hb | hb
      · exact Nat.le_of_succ_le (deep b hb)
      · obtain rfl := mem_singleton.mp hb
        exact Nat.le_refl _
    · rw [ifs, append_assoc]
      rfl

/-- Whether the innermost open block keeps a line from running. -/
theorem skipped_branches (outer : Verdicts) :
    ((branches outer).head?.any fun b => !b.active && b.indent < outer.length) = !innermost outer := by
  -- headers that could not be evaluated make the list of blocks shorter than the depth, so any greater depth will do
  have within : ∀ n ≥ outer.length, ((branches outer).head?.any fun b => !b.active && b.indent < n) =
      !innermost outer := by
    induction outer with
    | nil => exact fun _ _ => rfl
    | cons v outer ih =>
      intro n hn
      cases v with
      | none => exact ih n (Nat.le_of_succ_le hn)
      | some holds =>
        have deep : outer.length < n := hn
        simp [branches, innermost, deep]
  exact within _ (Nat.le_refl _)

def forgotten (s : Session) : Session := { s with ifs := [], elses := [] }

theorem neutral_forgotten : Neutral forgotten := ⟨fun _ => rfl, fun _ => rfl, fun _ => rfl, fun _ _ => rfl, fun _ _ => rfl⟩

/-- What simple statements and tests leave as it is. -/
def Settled (s t : Session) : Prop := t.ifs = s.ifs ∧ (Calm s → Calm t)

theorem stable_settled : Stable Settled where
  refl _ := ⟨rfl, id⟩
  trans first second := ⟨second.1.trans first.1, fun calm => second.2 (first.2 calm)⟩
  outside _ _ := ⟨rfl, fun calm => ⟨calm.loops, calm.defining, calm.aliases, calm.debug⟩⟩

theorem ignoresVars_settled : IgnoresVars Settled :=
  fun _ _ => ⟨rfl, fun calm => ⟨calm.loops, calm.defining, calm.aliases, calm.debug⟩⟩

/-! ## Statements and tests -/

section

variable (rule : List Char → Verdicts → Bool) (line header : List Char) (outer : Verdicts) (n : Nat)

theorem commutes_statement (hf : Neutral f) : Commutes f (statement rule line outer n) := by
  apply Commutes.of_tracks
  unfold statement
  split
  · refine .recover ?_ fun e => .handle hf.sees _ _ _ e
    unfold perform
    split
    · exact .assign hf.sees.toComputes hf.assigns _
    · exact .print hf.sees _ _
    · exact .inputAssign hf.sees hf.assigns _ _
    · exact .printInput hf.sees _
    · exact .pure _
  · exact .pure _

theorem neverJumps_statement : NeverJumps (statement rule line outer n) := by
  unfold statement
  split
  · refine .recover ?_ fun e he => .handle _ _ _ he
    unfold perform
    split
    · exact .assign _
    · exact .print _ _
    · exact .inputAssign _ _
    · exact .printInput _
    · exact .pure _
  · exact .pure _

theorem statement_settled : Moves Settled (statement rule line outer n) := by
  have stable := stable_settled
  unfold statement
  split
  · refine .recover stable ?_ fun e => .handle stable _ _ _ e
    unfold perform
    split
    · exact .assign stable ignoresVars_settled _
    · exact .print stable _ _
    · exact .inputAssign stable ignoresVars_settled _ _
    · exact .printInput stable _
    · exact .pure stable _
  · exact .pure stable _

theorem commutes_verdict (hf : Neutral f) : Commutes f (verdict header n) := by
  apply Commutes.of_tracks
  unfold verdict test
  refine .recover ?_ fun e => .bind (.handle hf.sees _ _ _ e) fun _ => .pure _
  split
  · exact .bind (.inputAssign hf.sees hf.assigns _ _) fun _ => .pure _
  · refine .bind (.guard fun _ => .wrapping _ (.bind (.evaluate hf.sees.toComputes _) fun v => ?_)) fun _ => .pure _
    exact .bind (.wholeWorld hf.seesAll) fun _ => .pure _

theorem neverJumps_verdict : NeverJumps (verdict header n) := by
  unfold verdict test
  refine .recover ?_ fun e he => .bind (.handle _ _ _ he) fun _ => .pure _
  split
  · exact .bind (.inputAssign _ _) fun _ => .pure _
  · exact .bind (.guard (.malformed _) fun _ => .wrapping _ _) fun _ => .pure _

theorem verdict_settled : Moves Settled (verdict header n) := by
  have stable := stable_settled
  unfold verdict test
  refine .recover stable ?_ fun e => .bind stable (.handle stable _ _ _ e) fun _ => .pure stable _
  split
  · exact .bind stable (.inputAssign stable ignoresVars_settled _ _) fun _ => .pure stable _
  · refine .bind stable (.guard stable.refl fun _ => .wrapping _ (.bind stable (.evaluate stable _) fun v => ?_))
      fun _ => .pure stable _
    exact .bind stable (.world stable) fun _ => .pure stable _

end

/-! ## Running a line -/

variable (run : Runner) {line : List Char}

theorem outcome_forM_note (silent : s.debug = false) (text : Branch → String) (bs : List Branch) :
    (bs.forM fun b => note (text b)).outcome s = (.ok (), s) := by
  induction bs with
  | nil => rfl
  | cons b bs ih =>
    show (note (text b) >>= fun _ => bs.forM fun b => note (text b)).outcome s = (.ok (), s)
    rw [bind_ok (outcome_note silent _)]
    exact ih

theorem outcome_closeBlocks (calm : Calm s) (depth : Nat) :
    (closeBlocks run depth).outcome s =
      (.ok (), { s with ifs := s.ifs.dropWhile fun b => depth ≤ b.indent }) := by
  have closed : (closeIfs depth).outcome s = (.ok (), { s with ifs := s.ifs.dropWhile fun b => depth ≤ b.indent }) := by
    refine outcome_forM_note ?_ _ _
    exact calm.debug
  unfold closeBlocks
  rw [bind_ok closed, calm.loops]
  rfl

/-- While nothing is in progress, a line closes the blocks it is not part of, and then its code is run. -/
theorem outcome_lineWith (code : codeOf line ≠ []) (n : Nat) (calm : Calm s) :
    (lineWith run line false n).outcome s =
      (recover (process run (codeOf line) (depthOf line) false) (handle (bare line) false n)).outcome
        { s with lineNumber := n, ifs := s.ifs.dropWhile fun b => depthOf line ≤ b.indent } := by
  have nonempty : (stripComments (bare line)).isEmpty = false := by
    cases h : stripComments (bare line) with
    | nil =>
      unfold codeOf at code
      rw [h] at code
      exact absurd rfl code
    | cons c cs => rfl
  have captured : ∀ t, t.defining = none → (capture ⟨depthOf line, codeOf line⟩).outcome t = (.ok false, t) := by
    intro t idle
    unfold capture
    rw [bind_ok (outcome_session t), idle]
    rfl
  have closed : ∀ t, Calm t → (do
      if !(← capture ⟨depthOf line, codeOf line⟩) then
        closeBlocks run (depthOf line)
        process run (codeOf line) (depthOf line) false : Run Unit).outcome t =
          (process run (codeOf line) (depthOf line) false).outcome
            { t with ifs := t.ifs.dropWhile fun b => depthOf line ≤ b.indent } := by
    intro t calm
    rw [bind_ok (captured t calm.defining), Bool.not_false, if_pos rfl,
      bind_ok (outcome_closeBlocks run calm _)]
  unfold lineWith
  rw [bind_ok (outcome_adjust _ s)]
  show (if (stripComments (bare line)).isEmpty = true then _ else _ : Run Unit).outcome _ = _
  rw [nonempty]
  have numbered : Calm { s with lineNumber := n } := ⟨calm.loops, calm.defining, calm.aliases, calm.debug⟩
  exact outcome_recover_congr (closed _ numbered) _

/-- The kind of a line is settled by the headers around it. -/
theorem outcome_process (code : List Char) (calm : Calm s) (ifs : s.ifs = branches outer) :
    (process run code outer.length false).outcome s =
      (execute run (.of false (!innermost outer) code) code outer.length false).outcome s := by
  unfold process
  rw [bind_ok (outcome_session s), calm.aliases, calm.loops, ifs, skipped_branches]
  rfl

def entered (n : Nat) (outer : Verdicts) (s : Session) : Session := { s with lineNumber := n, ifs := branches outer }

theorem calm_entered (n : Nat) (outer : Verdicts) (calm : Calm s) : Calm (entered n outer s) :=
  ⟨calm.loops, calm.defining, calm.aliases, calm.debug⟩

theorem outcome_line (depth : depthOf line = outer.length) (code : codeOf line ≠ []) (n : Nat) (within : Within outer s) :
    (lineWith run line false n).outcome s =
      (recover (execute run (.of false (!innermost outer) (codeOf line)) (codeOf line) outer.length false)
        (handle (bare line) false n)).outcome (entered n outer s) := by
  have lined := outcome_lineWith run code n within.calm
  rw [depth, within.dropWhile] at lined
  rw [lined]
  exact outcome_recover_congr (outcome_process run _ (calm_entered n outer within.calm) rfl) _

theorem outcome_simple (depth : depthOf line = outer.length)
    (simple : isSimple (.of false false (codeOf line))) (n : Nat) (within : Within outer s) :
    (lineWith run line false n).outcome s = (statement allowed line outer n).outcome (entered n outer s) := by
  have code : codeOf line ≠ [] := by
    intro empty
    rw [empty] at simple
    exact absurd simple (by decide)
  have silent := (calm_entered n outer within.calm).debug
  rw [outcome_line run depth code n within, of_simple simple]
  unfold statement allowed
  rw [Bool.not_not]
  split
  · unfold perform
    generalize Command.of false false (codeOf line) = kind at simple
    cases kind with
    | assign => rfl
    | print => rfl
    | inputAssign => rfl
    | printInput => rfl
    | _ => cases simple
  · have skipped : (execute run .skip (codeOf line) outer.length false).outcome (entered n outer s) =
        (.ok (), entered n outer s) := outcome_note silent _
    unfold recover
    rw [outcome_tryCatch, skipped]
    rfl

def opened (depth : Nat) : Option Bool → Session → Session
  | some holds, s => { s with ifs := ⟨holds, depth⟩ :: s.ifs, elses := ⟨!holds, depth⟩ :: s.elses }
  | none, s => s

theorem outcome_condition (header : Command.starts code "if") (depth : Nat) (calm : Calm s) :
    (condition code depth).outcome s = (do adjust (opened depth (some (← test code))) : Run Unit).outcome s := by
  unfold condition test
  rw [header, if_pos rfl]
  by_cases empty : (afterWord "if" code).isEmpty
  · rw [if_pos empty, if_pos empty]
    rfl
  · rw [if_neg empty, if_neg empty]
    have evaluated := (Moves.evaluate stable_settled (afterWord "if" code) s).2 calm
    rcases he : (evaluate (afterWord "if" code)).outcome s with ⟨r, t⟩
    rw [he] at evaluated
    unfold wrapping
    cases r with
    | ok v =>
      have seen : world.outcome t = (.ok t.depot.world, t) := rfl
      have tested : (recover (do
          let v ← evaluate (afterWord "if" code)
          return v.truthy (← world).store) fun f => broken (.ifCondition f.message)).outcome s =
            (.ok (v.truthy t.depot.world.store), t) := by
        refine outcome_recover_ok ?_ _
        rw [bind_ok he]
        rfl
      rw [bind_ok tested]
      refine outcome_recover_ok ?_ _
      rw [bind_ok he, bind_ok seen]
      have silent : (opened depth (some (v.truthy t.depot.world.store)) t).debug = false := evaluated.debug
      exact outcome_note silent _
    | error e =>
      unfold recover
      rw [outcome_tryCatch, bind_error he, outcome_bind, outcome_tryCatch, bind_error he]
      cases e <;> rfl

/-- Faults are handled before a block is opened as after, because a header with a fault opens none. -/
theorem outcome_recover_opened {x : Run Unit} {y : Run (Option Bool)} (depth : Nat)
    (same : x.outcome s = (do adjust (opened depth (← y)) : Run Unit).outcome s) (h : Fault → Run Unit) :
    (recover x h).outcome s =
      (do adjust (opened depth (← recover y fun f => do h f; return none)) : Run Unit).outcome s := by
  rcases hy : y.outcome s with ⟨r, t⟩
  cases r with
  | ok v =>
    rw [bind_ok hy] at same
    rw [outcome_recover_ok same, bind_ok (outcome_recover_ok hy _)]
    rfl
  | error e =>
    rw [bind_error hy] at same
    unfold recover
    rw [outcome_tryCatch, same, outcome_bind, outcome_tryCatch, hy]
    cases e with
    | fault f =>
      dsimp only
      rcases hh : (h f).outcome t with ⟨r, u⟩
      cases r with
      | ok a =>
        rw [bind_ok hh]
        rfl
      | error e =>
        rw [bind_error hh]
    | interrupted => rfl
    | exited n => rfl
    | endless => rfl

/-- A header is judged, and opens a block if it could be evaluated. -/
theorem outcome_header {header : List Char} (depth : depthOf header = outer.length)
    (starts : Command.starts (codeOf header) "if") (n : Nat) (within : Within outer s) :
    (lineWith run header false n).outcome s =
      (do adjust (opened outer.length (← verdict header n)) : Run Unit).outcome (entered n outer s) := by
  have code : codeOf header ≠ [] := by
    intro empty
    rw [empty] at starts
    exact absurd starts (by decide)
  rw [outcome_line run depth code n within, of_header starts]
  refine outcome_recover_opened outer.length ?_ _
  split
  · show (inputAssign (codeOf header) false).outcome _ = _
    rw [bind_assoc]
    rcases h : (inputAssign (codeOf header) false).outcome (entered n outer s) with ⟨r, t⟩
    cases r with
    | ok a =>
      rw [bind_ok h]
      rfl
    | error e => rw [bind_error h]
  · rw [bind_assoc]
    exact outcome_condition starts outer.length (calm_entered n outer within.calm)

/-! ## Running blocks -/

/-- Lines have run as the blocks they are the lines of should, up to the list of open blocks. -/
def Follows (outer : Verdicts) (x : Except Stop (Option Nat) × Session) (y : Except Stop Unit × Session) : Prop :=
  forgotten x.2 = y.2 ∧
    match y.1 with
    | .ok _ => x.1 = .ok none ∧ Within outer x.2
    | .error e => x.1 = .error e

theorem within_entered (n : Nat) {t : Session} (within : Within outer s)
    (settled : Settled (entered n outer s) t) : Within outer t :=
  ⟨settled.2 (calm_entered n outer within.calm), [], fun _ h => absurd h not_mem_nil, settled.1⟩

theorem within_opened (v : Option Bool) (calm : Calm s) (ifs : s.ifs = branches outer) :
    Within (v :: outer) (opened outer.length v s) := by
  cases v with
  | none => exact ⟨calm, [], fun _ h => absurd h not_mem_nil, ifs⟩
  | some holds =>
    refine ⟨⟨calm.loops, calm.defining, calm.aliases, calm.debug⟩, [], fun _ h => absurd h not_mem_nil, ?_⟩
    show _ :: s.ifs = _
    rw [ifs]
    rfl

theorem forgotten_opened (depth : Nat) (v : Option Bool) (s : Session) : forgotten (opened depth v s) = forgotten s := by
  cases v with
  | none => rfl
  | some holds => rfl

theorem follows_simple {run : Runner} (depth : depthOf line = outer.length)
    (simple : isSimple (.of false false (codeOf line))) {n : Nat} (within : Within outer s)
    (ih : ∀ t, Within outer t → Follows outer ((runLines (lineWith run) (n + 1) rest.lines).outcome t)
      ((rest.run allowed outer (n + 1)).outcome (forgotten t))) :
    Follows outer ((runLines (lineWith run) n (line :: rest.lines)).outcome s)
      (((Block.simple line rest).run allowed outer n).outcome (forgotten s)) := by
  have ran := outcome_simple run depth simple n within
  have blind := commutes_statement allowed line outer n neutral_forgotten (entered n outer s)
  have settled := statement_settled allowed line outer n (entered n outer s)
  have noJump := neverJumps_statement allowed line outer n (entered n outer s)
  rcases h : (statement allowed line outer n).outcome (entered n outer s) with ⟨r, t⟩
  rw [h] at ran blind settled noJump
  -- both sides number the line first, and the statement does not see the open blocks
  rw [Block.run, bind_ok (outcome_adjust _ _)]
  cases r with
  | ok u =>
    rw [outcome_runLines_ok ran]
    exact (bind_ok blind).symm ▸ ih t (within_entered n within settled)
  | error e =>
    rw [outcome_runLines_error ran fun target same => noJump target (congrArg Except.error same)]
    exact (bind_error blind).symm ▸ ⟨rfl, rfl⟩

/-- Blocks in a row: what follows starts where the first ones have led. -/
theorem follows_append {run : Runner} {n : Nat} (first : Follows (v :: outer) ((runLines run n body.lines).outcome s)
      ((body.run allowed (v :: outer) n).outcome (forgotten s)))
    (second : ∀ t, Within outer t → Follows outer ((runLines run (n + body.lines.length) rest.lines).outcome t)
      ((rest.run allowed outer (n + body.lines.length)).outcome (forgotten t))) :
    Follows outer ((runLines run n (body.lines ++ rest.lines)).outcome s)
      ((do body.run allowed (v :: outer) n; rest.run allowed outer (n + body.lines.length) : Run Unit).outcome
        (forgotten s)) := by
  rw [runLines_append]
  rcases hx : (runLines run n body.lines).outcome s with ⟨r, t⟩
  rcases hy : (body.run allowed (v :: outer) n).outcome (forgotten s) with ⟨q, u⟩
  rw [hx, hy] at first
  obtain ⟨same, ends⟩ := first
  obtain rfl : forgotten t = u := same
  cases q with
  | ok a =>
    obtain ⟨rfl, within⟩ : r = .ok none ∧ Within (v :: outer) t := ends
    rw [bind_ok hx, bind_ok hy]
    exact second t within.outward
  | error e =>
    obtain rfl : r = .error e := ends
    rw [bind_error hx, bind_error hy]
    exact ⟨rfl, rfl⟩

theorem follows_guarded {run : Runner} {header : List Char} (depth : depthOf header = outer.length)
    (starts : Command.starts (codeOf header) "if") {n : Nat} (within : Within outer s)
    (inner : ∀ v t, Within (v :: outer) t → Follows (v :: outer) ((runLines (lineWith run) (n + 1) body.lines).outcome t)
      ((body.run allowed (v :: outer) (n + 1)).outcome (forgotten t))) (after : ∀ t, Within outer t →
      Follows outer ((runLines (lineWith run) (n + 1 + body.lines.length) rest.lines).outcome t)
        ((rest.run allowed outer (n + 1 + body.lines.length)).outcome (forgotten t))) :
    Follows outer ((runLines (lineWith run) n (header :: (body.lines ++ rest.lines))).outcome s)
      (((Block.guarded header body rest).run allowed outer n).outcome (forgotten s)) := by
  have ran := outcome_header run depth starts n within
  have blind := commutes_verdict header n neutral_forgotten (entered n outer s)
  have settled := verdict_settled header n (entered n outer s)
  have noJump := neverJumps_verdict header n (entered n outer s)
  rcases h : (verdict header n).outcome (entered n outer s) with ⟨r, t⟩
  rw [h] at blind settled noJump
  rw [Block.run, bind_ok (outcome_adjust _ _)]
  cases r with
  | ok v =>
    -- the verdict is pushed on the real list and on the list of headers alike; for none, on neither
    rw [bind_ok h] at ran
    have here := within_opened v (settled.2 (calm_entered n outer within.calm)) settled.1
    have both := follows_append (inner v _ here) after
    rw [forgotten_opened] at both
    rw [outcome_runLines_ok ran]
    exact (bind_ok blind).symm ▸ both
  | error e =>
    rw [bind_error h] at ran
    rw [outcome_runLines_error ran fun target same => noJump target (congrArg Except.error same)]
    exact (bind_error blind).symm ▸ ⟨rfl, rfl⟩

/-- The lines of blocks run as the blocks should, wherever they stand. -/
theorem follows_block {b : Block} (formed : b.FormedAt outer.length) (n : Nat) (within : Within outer s) :
    Follows outer ((runLines (lineWith run) n b.lines).outcome s) ((b.run allowed outer n).outcome (forgotten s)) := by
  -- a body adds its header to those around, so the induction is for all lists of headers
  induction b generalizing outer n s with
  | done => exact ⟨rfl, rfl, within⟩
  | simple line rest ih =>
    obtain ⟨depth, simple, formed⟩ := formed
    exact follows_simple depth simple within fun t h => ih formed (n + 1) h
  | guarded header body rest ihBody ihRest =>
    obtain ⟨depth, starts, inner, after⟩ := formed
    refine follows_guarded depth starts within (fun v t h => ?_) fun t h => ihRest after _ h
    have deeper : body.FormedAt (v :: outer).length := inner
    exact ihBody deeper (n + 1) h

/-! ## Running a program -/

theorem innermost_of_every (all : every outer) : innermost outer := by
  cases outer with
  | nil => rfl
  | cons v outer =>
    unfold every at all
    rw [all_cons, Bool.and_eq_true, beq_iff_eq] at all
    rw [all.1]
    rfl

/-- A statement runs exactly if all headers around it hold, provided that they all hold or that it is no input
assignment and the innermost header that could be evaluated does not hold; and under no other condition. -/
theorem allowed_iff_every_iff (code : List Char) (outer : Verdicts) : (allowed code outer = true ↔ every outer) ↔
      every outer ∨ (Command.isInputAssign code = false ∧ innermost outer = false) := by
  have half : every outer → allowed code outer := by
    intro all
    unfold allowed
    rw [innermost_of_every all, Bool.or_true]
  rw [← Bool.or_eq_false_iff]
  constructor
  · intro same
    cases runs : allowed code outer with
    | true => exact Or.inl (same.mp runs)
    | false => exact Or.inr runs
  · rintro (all | stays)
    · exact ⟨fun _ => all, half⟩
    · have stays : allowed code outer = false := stays
      rw [stays] at half ⊢
      exact ⟨fun h => absurd h Bool.false_ne_true, half⟩

/-- A properly nested program evaluates every header, and runs a simple statement if and only if it is an input assignment or the
innermost header around it that could be evaluated holds. This is not the same as all headers around it holding. -/
theorem program_runs_by_innermost_header (b : Block) (formed : b.FormedAt 0) (d : Depot) :
    ((program b.lines).outcome { depot := d }).1 = ((b.run allowed [] 1).outcome { depot := d }).1 ∧
    forgotten ((program b.lines).outcome { depot := d }).2 = ((b.run allowed [] 1).outcome { depot := d }).2 ∧
    ∀ code outer, (allowed code outer = true ↔ every outer = true) ↔
      every outer = true ∨ (Command.isInputAssign code = false ∧ innermost outer = false) := by
  have top : b.FormedAt ([] : Verdicts).length := formed
  have fresh : Within [] { depot := d } := ⟨⟨rfl, rfl, rfl, rfl⟩, [], fun _ h => absurd h not_mem_nil, rfl⟩
  have follows := follows_block (runner 299) top 1 fresh
  have same : forgotten { depot := d } = { depot := d } := rfl
  have runs : line = lineWith (runner 299) := rfl
  unfold program
  rw [runs]
  rcases hx : (runLines (lineWith (runner 299)) 1 b.lines).outcome { depot := d } with ⟨r, t⟩
  rcases hy : (b.run allowed [] 1).outcome { depot := d } with ⟨q, u⟩
  rw [same, hx, hy] at follows
  obtain ⟨kept, ends⟩ := follows
  cases q with
  | ok a =>
    obtain ⟨rfl, within⟩ : r = .ok none ∧ Within [] t := ends
    rw [outcome_programWith_ok hx within.calm.loops]
    exact ⟨rfl, kept, allowed_iff_every_iff⟩
  | error e =>
    obtain rfl : r = .error e := ends
    rw [outcome_programWith_error hx]
    exact ⟨rfl, kept, allowed_iff_every_iff⟩

/-- A header that holds inside one that does not. -/
def heldInside : Block :=
  .guarded "if 0".toList (.guarded ".if 1".toList (.simple "..print \"x\"".toList .done) .done) .done

theorem program_runs_by_innermost_header_heldInside :
    heldInside.FormedAt 0 ∧
      forgotten ((program heldInside.lines).outcome {}).2 = ((heldInside.run allowed [] 1).outcome {}).2 := by
  have formed : heldInside.FormedAt 0 := by
    refine ⟨?_, ?_, ⟨?_, ?_, ⟨?_, ?_, trivial⟩, trivial⟩, trivial⟩ <;> decide +kernel
  exact ⟨formed, (program_runs_by_innermost_header heldInside formed {}).2.1⟩

/-- The statement inside is run, though it would not be if all headers around it had to hold. -/
theorem output_heldInside :
    ((program heldInside.lines).outcome {}).2.depot.world.output = "x\n" ∧
      ((heldInside.run (fun _ => every) [] 1).outcome {}).2.depot.world.output = "" := by
  decide +kernel

end LineScript.Run
