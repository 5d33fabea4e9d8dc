
import LineScript.Proofs.BlockInvariant
import LineScript.Proofs.Executed

/-!
# Which definitions are complete

The lines below the header of a function are taken down one by one, and only a later line that is not deeper puts them into
the function; the end of a program does not. That no later line defines the function again, at whatever depth of calls,
texts, files and packages, is said by a watched run that is not given up.
-/

namespace LineScript.Run

open Text Line List

variable {s t : Session} {run : Runner} {f : String} {params : List String} {code raw : List Char} {n indent : Nat}
  {lines : List (List Char)}

instance {α : Type} [DecidableEq α] (r : Except Stop α) (a : α) : Decidable (r = .ok a) :=
  match r with
  | .ok b => decidable_of_iff (b = a) ⟨fun h => by rw [h], fun h => Except.ok.inj h⟩
  | .error _ => isFalse (by simp)

/-! ## Headers -/

/-- The name and the parameters that a header declares, if it can be accepted. -/
def declared? (code : List Char) : Option (String × List String) :=
  if !Command.starts code "def" || !code.contains '_' then none
  else (cut? ['_'] (strip (code.drop 3))).bind fun (name, rest) =>
    let params := commaParts (strip rest)
    if isValidName (strip name) && params.all fun p => p.isEmpty || isValidName p then
      some (String.ofList (strip name), params.map String.ofList)
    else none

def underway (name : String) (params : List String) (indent : Nat) (s : Session) : Session :=
  { s with functions := s.functions.set name ⟨params, []⟩, defining := some (name, indent), pending := [] }

theorem outcome_define_declared {name : String} (declared : declared? code = some (name, params)) (indent : Nat)
    (s : Session) : (define code indent).outcome s = (.ok (), underway name params indent s) := by
  unfold declared? at declared
  unfold define
  split at declared
  · cases declared
  · rename_i form
    rw [if_neg form]
    cases cut : cut? ['_'] (strip (code.drop 3)) with
    | none => simp [cut] at declared
    | some parts =>
      obtain ⟨raw, rest⟩ := parts
      simp only [cut, Option.bind_some] at declared
      split at declared
      · rename_i valid
        obtain ⟨named, params_⟩ := Bool.and_eq_true_iff.mp valid
        have none : (commaParts (strip rest)).find? (fun p => !p.isEmpty && !isValidName p) = none := by
          rw [find?_eq_none]
          intro p hp
          have valid : p = [] ∨ isValidName p := by simpa using all_eq_true.mp params_ p hp
          rcases valid with rfl | valid
          · simp
          · simp [valid]
        cases Option.some.inj declared
        simp only [named, none]
        rfl
      · cases declared

theorem outcome_define_undeclared (undeclared : declared? code = none) (indent : Nat) (s : Session) :
    ∃ f, (define code indent).outcome s = (.error (.fault f), s) := by
  unfold declared? at undeclared
  unfold define
  by_cases form : (!Command.starts code "def" || !code.contains '_')
  · rw [if_pos form]
    exact ⟨_, rfl⟩
  · rw [if_neg form] at undeclared ⊢
    cases cut : cut? ['_'] (strip (code.drop 3)) with
    | none => exact ⟨_, rfl⟩
    | some parts =>
      obtain ⟨raw, rest⟩ := parts
      simp only [cut, Option.bind_some] at undeclared
      split at undeclared
      · cases undeclared
      · rename_i invalid
        by_cases named : isValidName (strip raw)
        · obtain ⟨p, hp⟩ : ∃ p, (commaParts (strip rest)).find? (fun p => !p.isEmpty && !isValidName p) = some p := by
            rw [← Option.isSome_iff_exists]
            simpa [named] using invalid
          simp only [named, hp]
          exact ⟨_, rfl⟩
        · simp only [named]
          exact ⟨_, rfl⟩

/-- The line is a header that is accepted: it comes to its definition, which is then underway. -/
structure Opens (run : Runner) (raw : List Char) (n : Int) (s : Session) (f : String) (params : List String)
    (indent : Nat) (t : Session) : Prop where
  reached : ∃ l code u, Reaches run raw n s l .define code u ∧ l.indent = indent ∧
    declared? code = some (f, params) ∧ t = underway f params indent u

theorem Opens.outcome {n : Int} (opens : Opens run raw n s f params indent t) :
    (lineWith run raw false n).outcome s = (.ok (), t) := by
  obtain ⟨l, code, u, reaches, rfl, declared, rfl⟩ := opens.reached
  rw [reaches.outcome]
  exact outcome_recover_ok (outcome_define_declared declared l.indent u) _

/-! ## Runs without definitions of some functions -/

/-- Watches that no line defines a function of a set. -/
def redefining (names : String → Bool) : Watch where
  forbids _ command code := command = .define && (declared? code).any fun d => names d.1
  strict := false

theorem loose_true : Loose fun _ _ : Session => True where
  refl _ := trivial
  trans _ _ := trivial
  outside _ _ := trivial
  vars _ _ := trivial
  number _ _ := trivial
  aliased _ _ _ _ := trivial
  shown _ _ := trivial
  loops _ _ _ := trivial
  exported _ _ _ := trivial
  jumps _ _ := trivial

theorem free_true : Free fun _ _ : Session => True := ⟨loose_true.toLax, fun _ _ _ _ => trivial, fun _ _ _ => trivial⟩

section

variable {watched : Prop} {first : Session}

theorem shares_true : Shares (Since (fun _ _ => True) first) Eq := shares_since loose_true.toLax

theorem defines_true : Defines (Since (fun _ _ => True) first) := defines_since free_true

theorem sees_true : Sees (Since (fun _ _ => True) first) := sees_since loose_true.toStable

/-- A command does the same by two runners that run lines alike. -/
theorem tracks_execute_true {run' : Runner}
    (hrun : TracksLines watched (Since (fun _ _ => True) first) Eq run run')
    (h : Since (fun _ _ => True) first s t) (command : Command) (code : List Char) (indent : Nat) (importing : Bool) :
    TracksAt watched (Since (fun _ _ => True) first) (execute run command code indent importing)
      (execute run' command code indent importing) s t := by
  have loose := loose_true
  have hS : Shares (Since (fun _ _ => True) first) Eq := shares_true
  have hprogram := Tracks.programWith hS hrun (counts_since loose.toStable loose.jumps)
  refine Tracks.execute hS defines_true hrun sees_true h command code indent importing (fun _ => ?_) (fun _ => hprogram)
    (fun _ => ?_)
  · refine Tracks.packageCommand (seesAll_since loose.toStable) (setsDepot_since loose.toStable)
      (hS.binds_of_setsVars (setsVars_since loose.toStable loose.vars)) ?_ _ s t h
    exact .runScript (seesAll_since loose.toStable) (exports_since loose) hprogram
  · refine Tracks.call hS hrun sees_true (setsVars_since loose.toStable loose.vars) h _ _ ?_
    obtain ⟨rfl, -⟩ := h
    exact ⟨rfl, fun _ => rfl⟩

/-- A watched run that is not given up is the run itself. -/
theorem tracks_watched {w : Watch} (lenient : w.strict = false) (first : Session) (depth : Nat) :
    TracksLines True (Since (fun _ _ => True) first) Eq (w.runner depth) (runner depth) := by
  refine Tracks.watchedLines lenient shares_true defines_true sees_true
    (fun hrun s t h command code indent importing _ => ?_) depth
  exact tracks_execute_true hrun h command code indent importing

end

/-- No loop is open, a function is known, and no function of a set is being defined. -/
structure Rests (names : String → Bool) (f : String) (g : Func) (s : Session) : Prop where
  loops : s.loops = []
  known : s.functions.find? f = some g
  others : ∀ name indent, s.defining = some (name, indent) → names name = false

section

variable {names : String → Bool} {f : String} {g : Func}

theorem Rests.congr (rests : Rests names f g s) (loops : t.loops = s.loops) (functions : t.functions = s.functions)
    (defining : t.defining = s.defining) : Rests names f g t :=
  ⟨loops.trans rests.loops, by rw [functions]; exact rests.known, by rw [defining]; exact rests.others⟩

theorem loose_rests (names : String → Bool) (f : String) (g : Func) : Loose (Keeps (Rests names f g)) :=
  loose_keeps (fun _ rests => rests.loops) fun _ _ functions loops _ _ defining _ rests =>
    rests.congr loops functions defining

variable (member : names f = true)

include member

theorem capture_rests (l : Line) : Moves (Keeps (Rests names f g)) (capture l) := by
  refine Moves.of_session fun s rests => ?_
  split
  · exact rests
  · rename_i name indent defining
    have other : name ≠ f := by
      rintro rfl
      exact absurd member (by simp [rests.others name indent defining])
    split
    · exact ⟨rests.loops, rests.known, rests.others⟩
    · refine ⟨rests.loops, ?_, nofun⟩
      show (finished name s).functions.find? f = some g
      unfold finished
      split
      · rw [Table.find?_set_of_ne _ other]
        exact rests.known
      · exact rests.known

omit member in
theorem closeBlocks_rests (run : Runner) (indent : Nat) : Moves (Keeps (Rests names f g)) (closeBlocks run indent) := by
  intro s rests
  obtain ⟨t, closed, output, rfl⟩ := exists_outcome_closeBlocks run indent rests.loops
  rw [closed]
  exact rests.congr rfl rfl rfl

theorem define_rests (permitted : ((declared? code).any fun d => names d.1) = false) (indent : Nat) :
    Moves (Keeps (Rests names f g)) (define code indent) := by
  intro s rests
  cases declared : declared? code with
  | none =>
    obtain ⟨fault, failed⟩ := outcome_define_undeclared declared indent s
    rw [failed]
    exact rests
  | some d =>
    obtain ⟨name, params⟩ := d
    have other : names name = false := by simpa [declared] using permitted
    have differ : name ≠ f := by
      rintro rfl
      exact absurd member (by simp [other])
    rw [outcome_define_declared declared]
    refine ⟨rests.loops, ?_, ?_⟩
    · show (s.functions.set name ⟨params, []⟩).find? f = some g
      rw [Table.find?_set_of_ne _ differ]
      exact rests.known
    · rintro _ _ ⟨⟩
      exact other

variable {run : Runner} (hrun : ∀ l b n, Moves (Keeps (Rests names f g)) (run l b n))

include hrun

theorem process_rests (code : List Char) (indent : Nat) (importing : Bool) :
    Moves (Keeps (Rests names f g)) ((redefining names).process run code indent importing) := by
  have loose := loose_rests names f g
  refine Moves.of_session fun s => ?_
  dsimp only
  split
  · exact fun rests => rests
  · rename_i permitted
    generalize Command.of _ _ _ = command at permitted ⊢
    by_cases other : command ≠ .alternative ∧ command ≠ .condition ∧ command ≠ .define
    · exact Moves.execute loose hrun other _ _ _ s
    · have blocks : ∀ (s : Session) ifs elses, Keeps (Rests names f g) s { s with ifs, elses } :=
        fun s ifs elses rests => rests.congr rfl rfl rfl
      cases command with
      | alternative => exact Moves.alternative loose.toStable blocks _ s
      | condition => exact Moves.condition loose.toStable blocks _ _ s
      | define => exact define_rests member (by simpa [redefining] using permitted) _ s
      | _ => exact absurd (by decide) other

/-- A line that has not been taken down keeps what is known of the function, once blocks and definitions are settled. -/
theorem executed_rests (l : Line) (importing : Bool) : Moves (Keeps (Rests names f g)) (do
    closeBlocks run l.indent
    (redefining names).process run l.code l.indent importing) :=
  .bind (loose_rests names f g).toStable (closeBlocks_rests run l.indent) fun _ => process_rests member hrun _ _ _

theorem lineBy_rests (raw : List Char) (importing : Bool) (n : Int) : Moves (Keeps (Rests names f g))
    (lineBy (closeBlocks run) ((redefining names).process run) (redefining names).tell raw importing n) := by
  have loose := loose_rests names f g
  refine .bind loose.toStable (.adjust fun s => loose.number s n) fun _ => ?_
  split
  · exact .pure loose.toStable _
  · refine .recover loose.toStable (.bind loose.toStable (capture_rests member _) fun captured => ?_)
      (.handle loose.toStable _ _ _)
    split
    · exact executed_rests member hrun _ _
    · exact .pure loose.toStable _

end

theorem runner_rests {names : String → Bool} (member : names f) (g : Func) (depth : Nat) (raw : List Char)
    (importing : Bool) (n : Int) : Moves (Keeps (Rests names f g)) ((redefining names).runner depth raw importing n) := by
  induction depth generalizing raw importing n with
  | zero => exact .fail (loose_rests names f g).toStable _
  | succ depth ih => exact lineBy_rests member ih raw importing n

/-! ## Lines below a header -/

/-- The lines that stand below a header of a depth, up to the first line that is not deeper. -/
def below (indent : Nat) (lines : List (List Char)) : List Line := (lines.filterMap read?).takeWhile (indent < ·.indent)

/-- Some line is not deeper than the header. -/
def Followed (indent : Nat) (lines : List (List Char)) : Prop := ∃ l ∈ lines.filterMap read?, l.indent ≤ indent

instance (indent : Nat) (lines : List (List Char)) : Decidable (Followed indent lines) :=
  inferInstanceAs (Decidable (∃ l ∈ lines.filterMap read?, l.indent ≤ indent))

section

variable {indent : Nat} {raw : List Char} {l : Line} {rest : List (List Char)}

theorem below_cons_blank (blank : read? raw = none) : below indent (raw :: rest) = below indent rest := by
  simp [below, blank]

theorem below_cons_deeper (read : read? raw = some l) (deeper : indent < l.indent) :
    below indent (raw :: rest) = l :: below indent rest := by
  simp [below, read, deeper]

theorem below_cons_ending (read : read? raw = some l) (ending : l.indent ≤ indent) : below indent (raw :: rest) = [] := by
  simp [below, read, Nat.not_lt.mpr ending]

theorem followed_cons_blank (blank : read? raw = none) : Followed indent (raw :: rest) ↔ Followed indent rest := by
  simp [Followed, filterMap_cons_none blank]

theorem followed_cons_deeper (read : read? raw = some l) (deeper : indent < l.indent) :
    Followed indent (raw :: rest) ↔ Followed indent rest := by
  simp [Followed, filterMap_cons_some read, Nat.not_le.mpr deeper]

theorem followed_cons_ending (read : read? raw = some l) (ending : l.indent ≤ indent) : Followed indent (raw :: rest) :=
  ⟨l, by simp [filterMap_cons_some read], ending⟩

end

/-- A definition in progress: its header, what is known of the function, and the lines taken down so far. -/
structure Collecting (f : String) (params : List String) (indent : Nat) (pending : List Line) (s : Session) : Prop where
  loops : s.loops = []
  known : s.functions.find? f = some ⟨params, []⟩
  defining : s.defining = some (f, indent)
  pending : s.pending = pending

/-- Lines that run through without a jump do so one after the other. -/
theorem runLines_cons_through {rest : List (List Char)} {u : Session}
    (ran : (runLines run n (raw :: rest)).outcome s = (.ok none, u)) :
    ∃ t, (run raw false n).outcome s = (.ok (), t) ∧ (runLines run (n + 1) rest).outcome t = (.ok none, u) := by
  rcases first : (run raw false n).outcome s with ⟨e | a, t⟩
  · by_cases jump : ∃ target, e = .fault (.jump target)
    · obtain ⟨target, rfl⟩ := jump
      rw [outcome_runLines_jump first] at ran
      cases ran
    · rw [outcome_runLines_error first fun target same => jump ⟨target, same⟩] at ran
      cases ran
  · rw [outcome_runLines_ok first] at ran
    exact ⟨t, rfl, ran⟩

section

variable {names : String → Bool} {f : String} {params : List String} {indent : Nat} {taken : List Line}

/-- A line of a watched run is blank, taken down, or executed once the definition has ended. -/
theorem watched_line_collecting (member : names f) (depth : Nat) (raw : List Char) (n : Int)
    (collecting : Collecting f params indent taken s) :
    (read? raw = none ∧ Collecting f params indent taken (((redefining names).runner (depth + 1) raw false n).outcome s).2) ∨
    ∃ l, read? raw = some l ∧ ((indent < l.indent ∧
          Collecting f params indent (taken ++ [l]) (((redefining names).runner (depth + 1) raw false n).outcome s).2) ∨
        (l.indent ≤ indent ∧
          Rests names f ⟨params, taken⟩ (((redefining names).runner (depth + 1) raw false n).outcome s).2)) := by
  obtain ⟨loops, known, defining, rfl⟩ := collecting
  rw [Watch.runner, lineBy, bind_ok (outcome_adjust _ s)]
  cases read : read? raw with
  | none => exact Or.inl ⟨rfl, loops, known, defining, rfl⟩
  | some l =>
    refine Or.inr ⟨l, rfl, ?_⟩
    by_cases deeper : indent < l.indent
    · refine Or.inl ⟨deeper, ?_⟩
      have captured : (capture l).outcome { s with lineNumber := n } =
          (.ok true, { s with lineNumber := n, pending := s.pending ++ [l] }) := by
        unfold capture
        rw [bind_ok (outcome_session _)]
        simp only [defining, if_pos deeper]
        rfl
      rw [outcome_recover_ok (a := ()) (t := { s with lineNumber := n, pending := s.pending ++ [l] })]
      · exact ⟨loops, known, defining, rfl⟩
      · rw [bind_ok captured]
        rfl
    · have ending : l.indent ≤ indent := Nat.not_lt.mp deeper
      refine Or.inr ⟨ending, ?_⟩
      have executed : Executed l { s with lineNumber := n } := by
        intro name k h
        obtain ⟨-, rfl⟩ := Prod.mk.inj (Option.some.inj (defining.symm.trans h))
        exact ending
      have ended : Rests names f ⟨params, s.pending⟩ (settled { s with lineNumber := n }) := by
        unfold settled finished
        simp only [defining, known]
        exact ⟨loops, Table.find?_set_self _ _ _, fun _ _ h => by cases h⟩
      have stable := (loose_rests names f ⟨params, s.pending⟩).toStable
      refine Moves.recover_after stable (.handle stable _ _ _) _ _ ?_
      rw [bind_ok (outcome_capture_executed executed)]
      exact executed_rests member (runner_rests member _ depth) l false _ ended

/-- What becomes of a definition in progress when lines are run. -/
theorem collecting_runLines (member : names f) (depth : Nat) (collecting : Collecting f params indent taken s)
    (ran : (runLines ((redefining names).runner (depth + 1)) n lines).outcome s = (.ok none, t)) :
    (Followed indent lines → Rests names f ⟨params, taken ++ below indent lines⟩ t) ∧
      (¬ Followed indent lines → Collecting f params indent (taken ++ below indent lines) t) := by
  induction lines generalizing n s taken with
  | nil =>
    obtain rfl : s = t := congrArg Prod.snd ran
    refine ⟨fun followed => ?_, fun _ => ?_⟩
    · simp [Followed] at followed
    · simpa [below] using collecting
  | cons raw rest ih =>
    obtain ⟨u, first, after⟩ := runLines_cons_through ran
    have line := watched_line_collecting member depth raw n collecting
    rw [first] at line
    rcases line with ⟨blank, going⟩ | ⟨l, read, ⟨deeper, going⟩ | ⟨ending, ended⟩⟩
    · rw [followed_cons_blank blank, below_cons_blank blank]
      exact ih going after
    · rw [followed_cons_deeper read deeper, below_cons_deeper read deeper, ← singleton_append, ← append_assoc]
      exact ih going after
    · refine ⟨fun _ => ?_, fun none => absurd (followed_cons_ending read ending) none⟩
      -- the function has its lines, and nothing that follows takes them away
      have loose := loose_rests names f ⟨params, taken⟩
      have kept : Moves (Keeps (Rests names f ⟨params, taken⟩))
          (runLines ((redefining names).runner (depth + 1)) (n + 1) rest) :=
        Moves.of_tracks loose.refl fun _ => .runLines (shares_since loose.toLax)
          (Moves.tracks_runner loose.toStable (runner_rests member _ _)) _ _
      have last := kept u ended
      rw [after] at last
      rw [below_cons_ending read ending, append_nil]
      exact last

end

/-! ## Programs -/

theorem runLines_idle (depth n : Nat) (lines : List (List Char)) :
    Moves (Keeps fun s => s.loops = []) (runLines (runner depth) n lines) := by
  have loose : Loose (Keeps fun s : Session => s.loops = []) :=
    loose_keeps (fun _ h => h) fun _ _ _ loops _ _ _ _ => loops.trans
  have free : Free (Keeps fun s : Session => s.loops = []) :=
    ⟨loose.toLax, fun _ _ _ _ => id, fun _ _ _ => id⟩
  have hrun := Moves.runner free loose.jumps (Moves.runScript loose) depth
  exact Moves.of_tracks loose.refl fun _ =>
    .runLines (shares_since loose.toLax) (Moves.tracks_runner loose.toStable hrun) _ _

theorem Opens.collecting {n : Int} (opens : Opens run raw n s f params indent t) (idle : s.loops = []) :
    Collecting f params indent [] t := by
  obtain ⟨l, code, u, reaches, rfl, -, rfl⟩ := opens.reached
  obtain ⟨u', closed, shown⟩ := exists_closed run n idle (l := l)
  obtain rfl : u' = u := congrArg Prod.snd (closed.symm.trans reaches.closed)
  obtain ⟨output, rfl⟩ := shown
  refine ⟨?_, Table.find?_set_self _ _ _, rfl, rfl⟩
  unfold settled
  split <;> exact idle

/-- Lines of a watched run that run through do the same unwatched. -/
theorem outcome_runLines_unwatched {w : Watch} (lenient : w.strict = false) {depth : Nat}
    (ran : (runLines (w.runner depth) n lines).outcome s = (.ok none, t)) :
    (runLines (runner depth) n lines).outcome s = (.ok none, t) := by
  have tracked := Tracks.runLines (shares_since loose_true.toLax) (tracks_watched lenient s depth) n lines s s ⟨rfl, trivial⟩
  unfold TracksAt at tracked
  rw [ran] at tracked
  rcases tracked with ⟨-, given⟩ | ⟨alike, same, -⟩
  · cases given
  · exact Prod.ext alike same.symm

/-- **A definition is complete exactly if a line that is not deeper follows.** Then the function has exactly the lines in between.
Otherwise it has no lines at all: all that follow are still kept for a definition in progress. -/
theorem definition_complete_iff_followed {names : String → Bool} {f : String} (member : names f = true) {depth : Nat}
    {before after : List (List Char)} {header : List Char} {params : List String} {indent : Nat} {s t u : Session}
    (idle : s.loops = [])
    (led : (runLines (runner (depth + 1)) 1 before).outcome { s with jumps := 0 } = (.ok none, t))
    (opens : Opens (runner depth) header (before.length + 1 : Nat) t f params indent u)
    (last : ((runLines ((redefining names).runner (depth + 1)) (before.length + 2) after).outcome u).1 = .ok none) :
    ∃ v, (programWith (runner (depth + 1)) (before ++ header :: after)).outcome s = (.ok (), v) ∧
      (Followed indent after ↔ v.functions.find? f = some ⟨params, below indent after⟩ ∧
        ∀ name k, v.defining = some (name, k) → names name = false) ∧
      (¬ Followed indent after →
        v.functions.find? f = some ⟨params, []⟩ ∧ v.defining = some (f, indent) ∧ v.pending = below indent after) := by
  rcases ran : (runLines ((redefining names).runner (depth + 1)) (before.length + 2) after).outcome u with ⟨r, v⟩
  rw [ran] at last
  obtain rfl : r = .ok none := last
  have free : t.loops = [] := by
    have kept := runLines_idle (depth + 1) 1 before { s with jumps := 0 } idle
    rw [led] at kept
    exact kept
  obtain ⟨ended, going⟩ := collecting_runLines member depth (opens.collecting free) ran
  rw [nil_append] at ended going
  have through : (runLines (runner (depth + 1)) 1 (before ++ header :: after)).outcome { s with jumps := 0 } = (.ok none, v) := by
    have line : (runner (depth + 1) header false (before.length + 1 : Nat)).outcome t = (.ok (), u) := opens.outcome
    rw [runLines_append, bind_ok led, Nat.add_comm 1]
    dsimp only
    rw [outcome_runLines_ok line]
    exact outcome_runLines_unwatched rfl ran
  refine ⟨v, outcome_programWith_ok through ?_, ⟨fun followed => ?_, fun complete => ?_⟩, fun open_ => ?_⟩
  · by_cases followed : Followed indent after
    · exact (ended followed).loops
    · exact (going followed).loops
  · exact ⟨(ended followed).known, (ended followed).others⟩
  · refine Classical.byContradiction fun open_ => ?_
    have pending := complete.2 f indent (going open_).defining
    simp [member] at pending
  · exact ⟨(going open_).known, (going open_).defining, (going open_).pending⟩

/-- A body with a comment, a blank line, a deeper line and an inner header, and a line that ends it. -/
def endedBody : List (List Char) := [".print 1 \x7bone\x7d", "", "..x=2", ".def g_ y", "print 5"].map String.toList

theorem definition_complete_iff_followed_endedBody :
    Followed 0 endedBody ∧ ∃ v, (program ("def f_ a".toList :: endedBody)).outcome {} = (.ok (), v) ∧
      v.functions.find? "f" = some ⟨["a"], [⟨1, "print 1".toList⟩, ⟨2, "x=2".toList⟩, ⟨1, "def g_ y".toList⟩]⟩ ∧
      v.defining = none := by
  have opens : Opens (runner 299) "def f_ a".toList (1 : Nat) {} "f" ["a"] 0 (underway "f" ["a"] 0 { lineNumber := 1 }) :=
    ⟨⟨0, "def f_ a".toList⟩, "def f_ a".toList, { lineNumber := 1 },
      ⟨by decide +kernel, nofun, rfl, rfl, by decide +kernel⟩, rfl, by decide +kernel, rfl⟩
  have followed : Followed 0 endedBody := by decide +kernel
  have idle : ({} : Session).loops = [] := rfl
  have led : (runLines (runner 300) 1 []).outcome { ({} : Session) with jumps := 0 } = (.ok none, {}) := rfl
  have last : ((runLines ((redefining fun _ => true).runner 300) 2 endedBody).outcome
      (underway "f" ["a"] 0 { lineNumber := 1 })).1 = .ok none := by decide +kernel
  obtain ⟨v, ended, complete, -⟩ := definition_complete_iff_followed rfl idle led opens last
  obtain ⟨known, none⟩ := complete.mp followed
  have body : below 0 endedBody = [⟨1, "print 1".toList⟩, ⟨2, "x=2".toList⟩, ⟨1, "def g_ y".toList⟩] := by decide +kernel
  refine ⟨followed, v, ended, ?_, ?_⟩
  · rw [known, body]
  · cases h : v.defining with
    | none => rfl
    | some d => cases none d.1 d.2 h

/-- Nothing follows the body, and it is not put into the function. -/
theorem unfollowed_body_missing :
    let s := ((program ["def f_".toList, ".print 1".toList]).outcome {}).2
    (s.functions.find? "f").map Func.body = some [] ∧ below 0 [".print 1".toList] = [⟨1, "print 1".toList⟩] ∧
      s.defining = some ("f", 0) := by
  decide +kernel

end LineScript.Run
