
import LineScript.Proofs.Running
import LineScript.Proofs.Watched

/-!
# The parts of a line

A line is blank, or it is taken down for the function that is being defined, or it is executed. An executed line first
ends a definition that it is no part of, and then closes the blocks that it is not deeper than. Only after that its
code is looked at.
-/

namespace LineScript.Run

open Text Line

variable {t s : Session} {raw : List Char}

/-! ## What is only shown -/

def Shows (s t : Session) : Prop :=
  ∃ output, t = { s with depot := { s.depot with world := { s.depot.world with output } } }

theorem Shows.refl (s : Session) : Shows s s := ⟨s.depot.world.output, rfl⟩

theorem Shows.trans {u : Session} (first : Shows s t) (second : Shows t u) : Shows s u := by
  obtain ⟨_, rfl⟩ := first
  obtain ⟨output, rfl⟩ := second
  exact ⟨output, rfl⟩

theorem shows_said (text : String) (s : Session) : Shows s (said text s) := ⟨_, rfl⟩

theorem shows_told (line : List Char) (n : Int) (f : Fault) (s : Session) : Shows s (told line n f s) :=
  ((shows_said _ s).trans (shows_said _ _)).trans (shows_said _ _)

theorem exists_outcome_note (text : String) (s : Session) : ∃ t, (note text).outcome s = (.ok (), t) ∧ Shows s t := by
  unfold note
  rw [bind_ok (outcome_session s)]
  split
  · exact ⟨_, rfl, _, rfl⟩
  · exact ⟨s, rfl, Shows.refl s⟩

theorem exists_outcome_notes {α : Type} (text : α → String) (xs : List α) (s : Session) :
    ∃ t, (xs.forM fun x => note (text x)).outcome s = (.ok (), t) ∧ Shows s t := by
  induction xs generalizing s with
  | nil => exact ⟨s, rfl, Shows.refl s⟩
  | cons x xs ih =>
    obtain ⟨t, noted, shown⟩ := exists_outcome_note (text x) s
    obtain ⟨u, rest, shown'⟩ := ih t
    refine ⟨u, ?_, shown.trans shown'⟩
    show (note (text x) >>= fun _ => xs.forM fun x => note (text x)).outcome s = (.ok (), u)
    rw [bind_ok noted]
    exact rest

/-- Where no loop is open, closing blocks takes the conditional blocks off that are not above the depth. -/
theorem exists_outcome_closeBlocks (run : Runner) (indent : Nat) (idle : s.loops = []) :
    ∃ t, (closeBlocks run indent).outcome s = (.ok (), t) ∧
      Shows { s with ifs := s.ifs.dropWhile fun b => indent ≤ b.indent } t := by
  obtain ⟨t, noted, shown⟩ := exists_outcome_notes
    (fun b : Branch => "Closed if block: was_active=" ++ flagText b.active ++ ", indent=" ++ toString b.indent)
    (s.ifs.takeWhile fun b => indent ≤ b.indent) { s with ifs := s.ifs.dropWhile fun b => indent ≤ b.indent }
  have closed : (closeIfs indent).outcome s = (.ok (), t) := by
    exact noted
  have still : t.loops = [] := by
    obtain ⟨_, rfl⟩ := shown
    exact idle
  refine ⟨t, ?_, shown⟩
  unfold closeBlocks
  rw [bind_ok closed, bind_ok (outcome_session t), still]
  rfl

/-! ## Lines -/

theorem outcome_blank_line (run : Runner) (blank : read? raw = none) (importing : Bool) (n : Int) (s : Session) :
    (lineWith run raw importing n).outcome s = (.ok (), { s with lineNumber := n }) := by
  rw [lineWith_eq_lineBy, lineBy, blank]
  rfl

section

variable (run : Runner) {raw : List Char} {l : Line} (read : read? raw = some l) (importing : Bool) (n : Int)
  {s : Session}

include read

theorem outcome_captured_line {name : String} {indent : Nat} (defining : s.defining = some (name, indent))
    (deeper : indent < l.indent) :
    (lineWith run raw importing n).outcome s = (.ok (), { s with lineNumber := n, pending := s.pending ++ [l] }) := by
  have captured : (capture l).outcome { s with lineNumber := n } =
      (.ok true, { s with lineNumber := n, pending := s.pending ++ [l] }) := by
    unfold capture
    rw [bind_ok (outcome_session _), defining]
    dsimp only
    rw [if_pos deeper]
    rfl
  rw [lineWith_eq_lineBy, lineBy, bind_ok (outcome_adjust _ s), read]
  refine outcome_recover_ok ?_ _
  rw [bind_ok captured]
  rfl

/-- The line is no part of the definition in progress. -/
def Executed (l : Line) (s : Session) : Prop := ∀ name indent, s.defining = some (name, indent) → l.indent ≤ indent

def settled (s : Session) : Session :=
  match s.defining with
  | none => s
  | some (name, _) => finished name s

omit read in
theorem outcome_capture_executed (executed : Executed l s) : (capture l).outcome s = (.ok false, settled s) := by
  unfold capture settled
  rw [bind_ok (outcome_session s)]
  rcases h : s.defining with _ | ⟨name, indent⟩
  · rfl
  · dsimp only
    rw [if_neg (Nat.not_lt.mpr (executed name indent h))]
    rfl

theorem outcome_executed_of_closed (executed : Executed l s)
    (closed : (closeBlocks run l.indent).outcome (settled { s with lineNumber := n }) = (.ok (), t)) :
    (lineWith run raw importing n).outcome s =
      (recover (process run l.code l.indent importing) (handle (trimRight (· = '\n') raw) importing n)).outcome t := by
  rw [lineWith_eq_lineBy, lineBy, bind_ok (outcome_adjust _ s), read]
  refine outcome_recover_congr ?_ _
  have captured := outcome_capture_executed (s := { s with lineNumber := n }) executed
  rw [bind_ok captured, Bool.not_false, if_pos rfl, bind_ok closed]

omit read in
theorem exists_closed (idle : s.loops = []) :
    ∃ t, (closeBlocks run l.indent).outcome (settled { s with lineNumber := n }) = (.ok (), t) ∧
      Shows { settled { s with lineNumber := n } with ifs := s.ifs.dropWhile fun b => l.indent ≤ b.indent } t := by
  have still : (settled { s with lineNumber := n }).loops = [] := by
    unfold settled
    split <;> exact idle
  have blocks : (settled { s with lineNumber := n }).ifs = s.ifs := by
    unfold settled
    split <;> rfl
  obtain ⟨t, closed, shown⟩ := exists_outcome_closeBlocks run l.indent still
  rw [blocks] at shown
  exact ⟨t, closed, shown⟩

theorem exists_outcome_executed (executed : Executed l s) (idle : s.loops = []) :
    ∃ t, Shows { settled { s with lineNumber := n } with ifs := s.ifs.dropWhile fun b => l.indent ≤ b.indent } t ∧
      (lineWith run raw importing n).outcome s =
        (recover (process run l.code l.indent importing) (handle (trimRight (· = '\n') raw) importing n)).outcome t := by
  obtain ⟨t, closed, shown⟩ := exists_closed run n idle (l := l)
  exact ⟨t, shown, outcome_executed_of_closed run read importing n executed closed⟩

end

/-! ## Commands -/

/-- The line comes to a command with its code, in a session in which blocks have been closed for it. -/
structure Reaches (run : Runner) (raw : List Char) (n : Int) (s : Session) (l : Line) (command : Command)
    (code : List Char) (t : Session) : Prop where
  read : read? raw = some l
  executed : Executed l s
  closed : (closeBlocks run l.indent).outcome (settled { s with lineNumber := n }) = (.ok (), t)
  coded : code = applyAliases t.aliases l.code
  taken : command =
    .of (t.loops.head?.any fun x => x.indent < l.indent) (t.ifs.head?.any fun b => !b.active && b.indent < l.indent) code

theorem Reaches.outcome {run : Runner} {n : Int} {l : Line} {command : Command} {code : List Char}
    (reaches : Reaches run raw n s l command code t) (importing : Bool) : (lineWith run raw importing n).outcome s =
      (recover (execute run command code l.indent importing) (handle (trimRight (· = '\n') raw) importing n)).outcome t := by
  rw [outcome_executed_of_closed run reaches.read importing n reaches.executed reaches.closed]
  refine outcome_recover_congr ?_ _
  unfold process
  rw [bind_ok (outcome_session t)]
  dsimp only
  rw [← reaches.coded, ← reaches.taken]

end LineScript.Run
