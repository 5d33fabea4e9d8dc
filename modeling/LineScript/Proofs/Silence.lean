
import LineScript.Proofs.Dispatch
import LineScript.Proofs.Footprint
import LineScript.Proofs.IndexFile

/-!
# Lines that are only imported

A line that is only imported is meant to show nothing and to ask nothing. Package commands do not know of this, and calls do
not while they bind arguments (`heardFrom`). Everything else is silent outside debug mode. A loop that the line ends runs its
lines as not imported, so the line has to be deeper than the open loops.
-/

namespace LineScript.Run

open Text Line

variable {arg : List Char} {s : Session} {m n : Int}

variable {α : Type}

/-- Nothing has been shown or asked since a session, and debug mode is off; of the open loops, something holds. -/
structure Quiet (allowed : List Loop → Prop) (first s : Session) : Prop where
  debug : s.debug = false
  loops : allowed s.loops
  output : s.depot.world.output = first.depot.world.output
  input : s.depot.world.input = first.depot.world.input

section

variable {allowed : List Loop → Prop} {first s t : Session}

theorem Quiet.congr (h : Quiet allowed first s) (debug : t.debug = s.debug) (loops : t.loops = s.loops)
    (output : t.depot.world.output = s.depot.world.output) (input : t.depot.world.input = s.depot.world.input) :
    Quiet allowed first t :=
  ⟨debug.trans h.debug, loops ▸ h.loops, output.trans h.output, input.trans h.input⟩

theorem computes_quiet : Computes (Both (Quiet allowed first)) where
  vars h := h.1 ▸ rfl
  store h := h.1 ▸ rfl
  setStore h _ := ⟨h.1 ▸ rfl, h.2.congr rfl rfl rfl rfl⟩
  touch := by
    rintro s _ ⟨rfl, h⟩
    obtain ⟨disk, touched⟩ := Pkg.exists_disk_touch s.depot.world
    refine Or.inr ⟨rfl, rfl, ?_⟩
    rw [outcome_act, touched]
    exact h.congr rfl rfl rfl rfl
  note text := by
    rintro s _ ⟨rfl, h⟩
    unfold TracksAt
    rw [outcome_note h.debug]
    exact Or.inr ⟨rfl, rfl, h⟩

/-- A line that is collected goes to the innermost loop, whose header stays. -/
theorem aligned_quiet (keeps : ∀ (l : Loop) rest, allowed (l :: rest) → ∀ body, allowed ({ l with body } :: rest)) :
    Aligned (Both (Quiet allowed first)) Eq where
  toComputes := computes_quiet
  assigns h _ _ _ := ⟨h.1 ▸ rfl, h.2.congr rfl rfl rfl rfl⟩
  aliases h := h.1 ▸ rfl
  setAlias h _ _ _ := ⟨h.1 ▸ rfl, h.2.congr rfl rfl rfl rfl⟩
  loops h := h.1 ▸ rfl
  collects h l rest some body := ⟨h.1 ▸ rfl, h.2.debug, keeps l rest (some ▸ h.2.loops) body, h.2.output, h.2.input⟩
  same _ := rfl
  number h := h.1 ▸ rfl
  setNumber := by rintro s _ ⟨rfl, h⟩ n _ rfl; exact ⟨rfl, h.congr rfl rfl rfl rfl⟩

theorem defines_quiet : Defines (Both (Quiet allowed first)) where
  ifs h := h.1 ▸ rfl
  elses h := h.1 ▸ rfl
  setIfs h _ := ⟨h.1 ▸ rfl, h.2.congr rfl rfl rfl rfl⟩
  setElses h _ := ⟨h.1 ▸ rfl, h.2.congr rfl rfl rfl rfl⟩
  defining h := h.1 ▸ rfl
  enter h _ _ _ _ := ⟨h.1 ▸ rfl, h.2.congr rfl rfl rfl rfl⟩
  keepLine h _ := ⟨h.1 ▸ rfl, h.2.congr rfl rfl rfl rfl⟩
  finish h _ := ⟨h.1 ▸ rfl, h.2.congr rfl rfl rfl rfl⟩

/-- A step that keeps quiet with itself leaves a quiet session. -/
theorem Quiet.outcome {x : Run α} (tracked : Tracks False (Both (Quiet allowed first)) x x) (h : Quiet allowed first s) :
    Quiet allowed first (x.outcome s).2 := by
  rcases tracked s s ⟨rfl, h⟩ with ⟨off, -⟩ | ⟨-, -, kept⟩
  · exact off.elim
  · exact kept

end

/-! ## Arguments -/

def literalText (arg : List Char) : Run String := do display (← arrayLiteral arg)

/-- An argument that is shown when it is bound: an array literal with a value, where nothing that is tried before fits. -/
def isShown (arg : List Char) (s : Session) : Bool :=
  !isQuoted arg && (numeral? arg).toOption.any Option.isNone && (s.vars.find? (String.ofList arg)).isNone &&
    (startsWith arg ['['] && endsWith arg [']']) && ((literalText arg).outcome s).1.isOk

section

variable {allowed : List Loop → Prop} {first s : Session}

/-- An array literal in brackets is shown if it has a value and a text, and is passed over silently otherwise. -/
theorem outcome_arrayArgument (h : Quiet allowed first s) (brackets : (startsWith arg ['['] && endsWith arg [']'])) :
    (((literalText arg).outcome s).1.isOk = true ∧ ∃ v text t, Quiet allowed first t ∧
      (arrayArgument? arg).outcome s = (.ok (some v), said ("DEBUG: Array literal result: " ++ text) t)) ∨
    (((literalText arg).outcome s).1.isOk = false ∧ ∃ r t, Quiet allowed first t ∧
      (arrayArgument? arg).outcome s = (r, t) ∧ ∀ v, r ≠ .ok (some v)) := by
  have quiet := h.outcome (.arrayLiteral computes_quiet arg)
  unfold arrayArgument? literalText
  rw [if_pos brackets]
  rcases literal : (arrayLiteral arg).outcome s with ⟨e | v, t⟩
  · rw [literal] at quiet
    refine .inr ⟨by rw [bind_error literal]; rfl, ?_⟩
    unfold recover
    rw [outcome_tryCatch, bind_error literal]
    cases e
    all_goals exact ⟨_, t, quiet, rfl, by rintro v ⟨⟩⟩
  · rw [literal] at quiet
    unfold recover
    rw [outcome_tryCatch, bind_ok literal, bind_ok literal]
    have displayed := outcome_display v t
    cases shown : v.display t.depot.world.store with
    | error f =>
      rw [shown] at displayed
      refine .inr ⟨by rw [displayed]; rfl, ?_⟩
      rw [bind_error displayed]
      exact ⟨_, t, quiet, rfl, by rintro v ⟨⟩⟩
    | ok text =>
      rw [shown] at displayed
      refine .inl ⟨by rw [displayed]; rfl, v, text, t, quiet, ?_⟩
      rw [bind_ok displayed]
      rfl

/-- An argument that is shown has a value, and nothing else is shown. -/
theorem outcome_argument_shown (h : Quiet allowed first s) (shown : isShown (strip arg) s) :
    ∃ v text t, Quiet allowed first t ∧
      (argument arg).outcome s = (.ok v, said ("DEBUG: Array literal result: " ++ text) t) := by
  unfold isShown at shown
  simp only [Bool.and_eq_true, Bool.not_eq_true'] at shown
  obtain ⟨⟨⟨⟨unquoted, number⟩, unknown⟩, brackets⟩, valued⟩ := shown
  rcases outcome_arrayArgument h (by rw [brackets.1, brackets.2]; rfl) with ⟨-, v, text, t, quiet, array⟩ | ⟨none, -⟩
  · have numeral : numeral? (strip arg) = .ok none := by
      cases found : numeral? (strip arg) with
      | error f =>
        rw [found] at number
        cases number
      | ok v =>
        rw [found] at number
        cases v with
        | none => rfl
        | some v => cases number
    refine ⟨v, text, t, quiet, ?_⟩
    unfold argument
    dsimp only
    rw [unquoted, if_neg Bool.false_ne_true, numeral, bind_ok (x := check (.ok none)) rfl]
    rw [bind_ok (outcome_session s), Option.isNone_iff_eq_none.mp unknown, bind_ok array]
    rfl
  · rw [none] at valued
    cases valued

/-- Any other argument is bound silently, or has no value. -/
theorem quiet_argument (h : Quiet allowed first s) (silent : isShown (strip arg) s = false) :
    Quiet allowed first ((argument arg).outcome s).2 := by
  have evaluated (t : Session) (quiet : Quiet allowed first t) :
      Quiet allowed first ((wrapping (.cannotEvaluate (String.ofList (strip arg))) (evaluate (strip arg))).outcome t).2 :=
    quiet.outcome (.wrapping _ (.evaluate computes_quiet _))
  unfold argument
  dsimp only
  split
  · exact h
  · rename_i unquoted
    cases number : numeral? (strip arg) with
    | error f => exact h
    | ok v =>
      rw [bind_ok (x := check (.ok v)) rfl]
      cases v with
      | some v => exact h
      | none =>
        rw [bind_ok (outcome_session s)]
        cases known : s.vars.find? (String.ofList (strip arg)) with
        | some v => exact h
        | none =>
          by_cases brackets : (startsWith (strip arg) ['['] && endsWith (strip arg) [']'])
          · rcases outcome_arrayArgument h brackets with ⟨valued, -⟩ | ⟨-, r, t, quiet, array, unshown⟩
            · unfold isShown at silent
              rw [number, known, brackets, valued, (Bool.not_eq_true _).mp unquoted] at silent
              cases silent
            · rcases r with e | v
              · rw [bind_error array]
                exact quiet
              · rw [bind_ok array]
                cases v with
                | none => exact evaluated t quiet
                | some v => exact absurd rfl (unshown v)
          · have array : (arrayArgument? (strip arg)).outcome s = (.ok none, s) := by
              unfold arrayArgument?
              rw [if_neg brackets]
              rfl
            rw [bind_ok array]
            exact evaluated s h

end

def withParam (param : String) (v : Value) (s : Session) : Session := { s with vars := s.vars.set param v }

/-- Whether it is heard when parameters are bound to arguments: one of them is shown, or has no value, which is told. -/
def heardFrom : List (String × List Char) → Session → Bool
  | [], _ => false
  | (param, arg) :: rest, s =>
    isShown (strip arg) s ||
      match (argument arg).outcome s with
      | (.ok v, t) => heardFrom rest (withParam param v t)
      | (.error (.fault _), _) => true
      | _ => false

def Louder (s t : Session) : Prop := ∃ text, text ≠ "" ∧ t.depot.world.output = s.depot.world.output ++ text

section

variable {allowed : List Loop → Prop} {first s t u : Session}

theorem Louder.ne (louder : Louder s t) : t.depot.world.output ≠ s.depot.world.output := by
  obtain ⟨text, some, shown⟩ := louder
  intro same
  rw [shown] at same
  exact some (String.append_eq_left_iff.mp same)

theorem louder_said (text : String) (h : Quiet allowed first s) : Louder first (said text s) := by
  refine ⟨text ++ "\n", fun empty => ?_, ?_⟩
  · have none := congrArg String.length empty
    exact absurd none (by simp)
  · rw [← h.output]
    rfl

theorem Louder.trans (first : Louder s t) (second : Louder t u) : Louder s u := by
  obtain ⟨a, some, shown⟩ := first
  obtain ⟨b, -, shown'⟩ := second
  refine ⟨a ++ b, fun empty => some ?_, by rw [shown', shown, String.append_assoc]⟩
  exact (String.append_eq_empty_iff.mp empty).1

theorem outcome_bindFrom_valued {param : String} {v : Value} (valued : (argument arg).outcome s = (.ok v, t)) (i : Nat)
    (rest : List (String × List Char)) : (bindFrom i ((param, arg) :: rest)).outcome s =
      (bindFrom (i + 1) rest).outcome (withParam param v t) := by
  have bound : (do setVariable param (← argument arg)).outcome s = (.ok (), withParam param v t) := by
    rw [bind_ok valued]
    rfl
  rw [bindFrom, bind_ok (outcome_recover_ok bound _)]

/-- Binding is silent just if nothing is heard. -/
theorem quiet_or_louder_bindFrom (pairs : List (String × List Char)) (start : Quiet allowed s s) (i : Nat) :
    (heardFrom pairs s = false ∧ Quiet allowed s ((bindFrom i pairs).outcome s).2) ∨
      (heardFrom pairs s = true ∧ Louder s ((bindFrom i pairs).outcome s).2) := by
  induction pairs generalizing s i with
  | nil => exact .inl ⟨rfl, start⟩
  | cons pair rest ih =>
    obtain ⟨param, arg⟩ := pair
    unfold heardFrom
    by_cases shown : isShown (strip arg) s
    · obtain ⟨v, text, t, quiet, valued⟩ := outcome_argument_shown start shown
      have louder := louder_said ("DEBUG: Array literal result: " ++ text) quiet
      rw [shown, outcome_bindFrom_valued valued]
      refine .inr ⟨rfl, ?_⟩
      have next : Quiet allowed (withParam param v (said ("DEBUG: Array literal result: " ++ text) t))
          (withParam param v (said ("DEBUG: Array literal result: " ++ text) t)) :=
        ⟨quiet.debug, quiet.loops, rfl, rfl⟩
      rcases ih next (i + 1) with ⟨-, silent⟩ | ⟨-, more⟩
      · exact louder.imp fun _ h => ⟨h.1, silent.output.trans h.2⟩
      · exact louder.trans more
    · have quiet := quiet_argument start ((Bool.not_eq_true _).mp shown)
      rw [(Bool.not_eq_true _).mp shown]
      rcases ends : (argument arg).outcome s with ⟨e | v, t⟩
      · rw [ends] at quiet
        have failed : (do setVariable param (← argument arg)).outcome s = (.error e, t) := bind_error ends
        unfold bindFrom recover
        cases e with
        | fault f =>
          refine .inr ⟨rfl, ?_⟩
          rw [outcome_bind, outcome_tryCatch, failed]
          exact louder_said _ quiet
        | _ =>
          refine .inl ⟨rfl, ?_⟩
          rw [outcome_bind, outcome_tryCatch, failed]
          exact quiet
      · rw [ends] at quiet
        rw [outcome_bindFrom_valued ends]
        have next : Quiet allowed (withParam param v t) (withParam param v t) := ⟨quiet.debug, quiet.loops, rfl, rfl⟩
        rcases ih next (i + 1) with ⟨silent, kept⟩ | ⟨heard, louder⟩
        · exact .inl ⟨silent, kept.debug, kept.loops, kept.output.trans quiet.output, kept.input.trans quiet.input⟩
        · obtain ⟨text, some, more⟩ := louder
          exact .inr ⟨heard, text, some, more.trans (congrArg (· ++ text) quiet.output)⟩

end

/-! ## Lines -/

/-- Whether a call is heard before the body of its function runs. -/
def heardCall (code : List Char) (s : Session) : Bool :=
  match s.functions.find? (called code) with
  | none => false
  | some f =>
    endsWith (splitCall code).1 ['_'] && (splitCall code).2.length = f.params.length &&
      heardFrom (f.params.zip (splitCall code).2) s

/-- Watches that no line asks for a package or makes a call that is heard. -/
def listening : Watch where
  forbids s command code := command = .package || (command = .call && heardCall code s)
  strict := false

def EndsNoLoop (raw : List Char) (s : Session) : Prop := ∀ l ∈ read? raw, ∀ loop ∈ s.loops.head?, loop.indent < l.indent

section

variable {first : Session}

theorem aligned_quiet_idle : Aligned (Both (Quiet (· = []) first)) Eq := aligned_quiet fun _ _ h => by cases h

/-- A call that is not heard runs the body of its function, which is only imported too. -/
theorem tracksAt_call_quiet {run run' : Runner}
    (hrun : ∀ l {m n : Int}, m = n → Tracks True (Both (Quiet (· = []) first)) (run l true m) (run' l true n))
    {t : Session} (h : Both (Quiet (· = []) first) s t) {code : List Char} (unheard : heardCall code s = false) :
    TracksAt True (Both (Quiet (· = []) first)) (call run code true) (call run' code true) s t := by
  unfold Run.call
  dsimp only
  refine .guard h fun named => .session ?_
  obtain ⟨rfl, quiet⟩ := h
  unfold heardCall called at unheard
  split
  · exact Tracks.broken _ s s ⟨rfl, quiet⟩
  · rename_i f found
    refine .guard ⟨rfl, quiet⟩ fun arity => ?_
    have silent : heardFrom (f.params.zip (splitCall code).2) s = false := by
      rw [found] at unheard
      simpa [by simpa using named, by simpa using arity] using unheard
    have bound : Quiet (· = []) first ((bindFrom 1 (f.params.zip (splitCall code).2)).outcome s).2 := by
      have start : Quiet (· = []) s s := ⟨quiet.debug, quiet.loops, rfl, rfl⟩
      rcases quiet_or_louder_bindFrom (f.params.zip (splitCall code).2) start 1 with ⟨-, kept⟩ | ⟨heard, -⟩
      · exact ⟨kept.debug, kept.loops, kept.output.trans quiet.output, kept.input.trans quiet.input⟩
      · rw [silent] at heard
        cases heard
    refine .ensuring (.bind (Or.inr ⟨rfl, rfl, bound⟩) fun _ => Tracks.runBody aligned_quiet_idle hrun _) fun u _ h => ?_
    obtain ⟨rfl, h⟩ := h
    exact ⟨rfl, h.congr rfl rfl rfl rfl⟩

/-- Where no loop is open, a line that is only imported and makes no call that is heard keeps quiet. -/
theorem tracks_listening (depth : Nat) (raw : List Char) (same : m = n) :
    Tracks True (Both (Quiet (· = []) first)) (listening.runner depth raw true m) (runner depth raw true n) := by
  subst same
  induction depth generalizing raw m with
  | zero => exact .fail _
  | succ depth ih =>
    have hrun (l : List Char) {m n : Int} (same : m = n) :
        Tracks True (Both (Quiet (· = []) first)) (listening.runner depth l true m) (runner depth l true n) := same ▸ ih l
    rw [runner, lineWith_eq_lineBy]
    refine .lineBy aligned_quiet_idle defines_quiet rfl rfl (fun l _ => ?_) (fun l _ => ?_)
      fun f => .handleImporting _ _ _ _ f
    · refine .bind (.closeIfs computes_quiet defines_quiet _) fun _ => .session fun s t h => ?_
      obtain ⟨rfl, quiet⟩ := h
      rw [quiet.loops]
      exact Or.inr ⟨rfl, rfl, quiet⟩
    · refine .watchedProcess_of_execute aligned_quiet_idle defines_quiet (fun _ _ _ _ _ _ => trivial)
        fun s t h command code _ permitted => ?_
      refine Tracks.executeImporting aligned_quiet_idle defines_quiet h command code _ ?_ ?_
      · rintro rfl
        cases permitted
      · rintro rfl
        exact tracksAt_call_quiet hrun h (by simpa [listening] using permitted)

theorem outcome_closeLoops_kept (run : Runner) {loop : Loop} {rest : List Loop} (loops : s.loops = loop :: rest)
    {indent : Nat} (deeper : loop.indent < indent) (n : Nat) :
    (closeLoops run (fun loop => loop.indent < indent) n).outcome s = (.ok (), s) := by
  cases n with
  | zero => rfl
  | succ n =>
    unfold closeLoops
    rw [bind_ok (outcome_session s), loops]
    dsimp only
    rw [if_pos (by simpa using deeper)]
    rfl

/-- A line inside a loop that is being read goes to the loop, or shows and asks nothing; it makes no call. -/
theorem tracks_listening_inLoop (depth : Nat) {raw : List Char} {outer : Nat}
    (deeper : ∀ l ∈ read? raw, outer < l.indent) (same : m = n) :
    Tracks True (Both (Quiet (fun loops => loops.head?.map Loop.indent = some outer) first))
      (listening.runner depth raw true m) (runner depth raw true n) := by
  subst same
  have hR : Aligned (Both (Quiet (fun loops => loops.head?.map Loop.indent = some outer) first)) Eq :=
    aligned_quiet fun _ _ h _ => h
  cases depth with
  | zero => exact .fail _
  | succ depth =>
    rw [runner, lineWith_eq_lineBy]
    refine .lineBy hR defines_quiet rfl rfl (fun l read => ?_) (fun l read => ?_) fun f => .handleImporting _ _ _ _ f
    · refine .bind (.closeIfs computes_quiet defines_quiet _) fun _ => .session fun s t h => ?_
      obtain ⟨rfl, quiet⟩ := h
      -- the innermost loop is kept, and closing stops there
      have kept (run : Runner) :
          (closeLoops run (fun loop => loop.indent < l.indent) s.loops.length).outcome s = (.ok (), s) := by
        have indent := quiet.loops
        cases loops : s.loops with
        | nil =>
          rw [loops] at indent
          cases indent
        | cons loop rest =>
          rw [loops] at indent
          cases indent
          exact outcome_closeLoops_kept run loops (deeper l read) _
      unfold TracksAt
      rw [kept, kept]
      exact Or.inr ⟨rfl, rfl, quiet⟩
    · refine .watchedProcess_of_execute hR defines_quiet (fun _ _ _ _ _ _ => trivial)
        fun s t h command code taken permitted => ?_
      refine Tracks.executeImporting hR defines_quiet h command code _ ?_ ?_
      · rintro rfl
        cases permitted
      · rintro rfl
        have inside : (s.loops.head?.any fun loop => loop.indent < l.indent) := by
          obtain ⟨-, quiet⟩ := h
          obtain ⟨loop, head, rfl⟩ := Option.map_eq_some_iff.mp quiet.loops
          rw [head]
          simpa using deeper l read
        rw [inside] at taken
        have early : Command.call ∈ Command.order.take 11 :=
          taken ▸ Command.of_mem_take (by decide : Command.collect ∈ Command.order.take 11) rfl
        exact absurd early (by decide)

end

/-- **Lines that are only imported are silent**, outside debug mode, however they fail, as long as no line asks for a package or
makes a call that is heard: one with an argument that is an array literal or has no value. -/
theorem importing_silent (depth : Nat) (raw : List Char) (n : Int) {s : Session} (off : s.debug = false)
    (inside : EndsNoLoop raw s) (unheard : ((listening.runner depth raw true n).outcome s).1 ≠ .error givenUp) :
    ((runner depth raw true n).outcome s).2.depot.world.output = s.depot.world.output ∧
      ((runner depth raw true n).outcome s).2.depot.world.input = s.depot.world.input ∧
      ∀ i pairs, ((bindFrom i pairs).outcome s).2.depot.world.output = s.depot.world.output ↔ heardFrom pairs s = false := by
  have silent : ((runner depth raw true n).outcome s).2.depot.world.output = s.depot.world.output ∧
      ((runner depth raw true n).outcome s).2.depot.world.input = s.depot.world.input := by
    cases loops : s.loops with
    | nil =>
      rcases tracks_listening depth raw rfl s s ⟨rfl, off, loops, rfl, rfl⟩ with ⟨-, given⟩ | ⟨-, same, quiet⟩
      · exact absurd given unheard
      · exact same ▸ ⟨quiet.output, quiet.input⟩
    | cons loop rest =>
      have deeper : ∀ l ∈ read? raw, loop.indent < l.indent := fun l read => inside l read loop (by rw [loops]; rfl)
      have start : Quiet (fun loops => loops.head?.map Loop.indent = some loop.indent) s s :=
        ⟨off, by rw [loops]; rfl, rfl, rfl⟩
      rcases tracks_listening_inLoop depth deeper rfl s s ⟨rfl, start⟩ with ⟨-, given⟩ | ⟨-, same, quiet⟩
      · exact absurd given unheard
      · exact same ▸ ⟨quiet.output, quiet.input⟩
  refine ⟨silent.1, silent.2, fun i pairs => ?_⟩
  have start : Quiet (fun _ => True) s s := ⟨off, trivial, rfl, rfl⟩
  rcases quiet_or_louder_bindFrom pairs start i with ⟨unheard, quiet⟩ | ⟨heard, louder⟩
  · exact ⟨fun _ => unheard, fun _ => quiet.output⟩
  · refine ⟨fun same => absurd same louder.ne, fun unheard => ?_⟩
    rw [heard] at unheard
    cases unheard

def printing : Session := { functions := [("f", ⟨["a"], [⟨1, "print a".toList⟩]⟩)] }

theorem importing_silent_call :
    ((line "f_ \"x\"".toList true 1).outcome printing).2.depot.world.output = "" ∧
      ((line "f_ \"x\"".toList false 1).outcome printing).2.depot.world.output = "x\n" := by
  have unheard : ((listening.runner maxLevels "f_ \"x\"".toList true 1).outcome printing).1 ≠ .error givenUp := by
    decide +kernel
  obtain ⟨silent, -⟩ := importing_silent maxLevels "f_ \"x\"".toList 1 rfl (by rintro l - loop ⟨⟩) unheard
  rw [line]
  exact ⟨silent, by decide +kernel⟩

/-- A package command is heard where it is only imported, and so is a call with an array literal. -/
theorem imported_line_heard :
    ((line "gpd help".toList true 1).outcome printing).2.depot.world.output =
        "".intercalate (packageHelp.map (· ++ "\n")) ∧
      ((line "f_ []".toList true 1).outcome printing).2.depot.world.output = "DEBUG: Array literal result: []\n" :=
  ⟨by decide +kernel, by decide +kernel⟩

end LineScript.Run
