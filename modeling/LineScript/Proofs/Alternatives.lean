
import LineScript.Proofs.BlockInvariant
import LineScript.Proofs.Dispatch
import LineScript.Proofs.Executed

/-!
# Which condition an alternative belongs to

A session keeps two lists of blocks: closed blocks are taken off the first one only, and alternatives look at the second. So
an alternative belongs to the condition that was evaluated last, also where its block has been closed long ago. Both lists
can be read off a history of the lines that were executed.
-/

namespace LineScript

open List

/-- What an executed line has opened: a block by a condition that held or not, or by an alternative that runs or not. -/
inductive Opening where
  | nothing
  | condition (holds : Bool)
  | alternative (active : Bool)
  deriving DecidableEq

def Opening.block? : Opening → Option Bool
  | .nothing => none
  | .condition holds => some holds
  | .alternative active => some active

def Opening.condition? : Opening → Option Bool
  | .condition holds => some holds
  | _ => none

/-- A line that was executed: how deep it stood, and what it opened. -/
structure Entry where
  indent : Nat
  opening : Opening
  deriving DecidableEq

abbrev History := List Entry

namespace History

def opened (kind : Opening → Option Bool) (e : Entry) : Option Branch := (kind e.opening).map (⟨·, e.indent⟩)

/-- The blocks of a kind that are still open, the innermost first: no later line was at most as deep as their header. -/
def stillOpen (kind : Opening → Option Bool) : History → List Branch
  | [] => []
  | e :: h => (opened kind e).toList ++ (stillOpen kind h).filter (·.indent < e.indent)

def evaluated (h : History) : List Branch := h.filterMap (opened Opening.condition?)

/-- The innermost open block of a condition whose header is above a depth. -/
def innermost (h : History) (indent : Nat) : Option Branch :=
  (stillOpen Opening.condition? h).find? (·.indent < indent)

/-- Every alternative was deeper than the condition evaluated last before it, and runs if that one did not hold. -/
def Bound : History → Prop
  | [] => True
  | e :: h => Bound h ∧ ∀ active, e.opening = .alternative active →
      ∃ b, (evaluated h).head? = some b ∧ b.indent < e.indent ∧ active = !b.active

/-! ## Open blocks -/

theorem nested_stillOpen (kind : Opening → Option Bool) (h : History) :
    (stillOpen kind h).Pairwise fun inner outer => outer.indent < inner.indent := by
  induction h with
  | nil => exact Pairwise.nil
  | cons e h ih =>
    have outer : ((stillOpen kind h).filter (·.indent < e.indent)).Pairwise
        fun inner outer => outer.indent < inner.indent := ih.sublist filter_sublist
    unfold stillOpen opened
    cases kind e.opening with
    | none => exact outer
    | some active =>
      refine pairwise_cons.mpr ⟨fun b hb => ?_, outer⟩
      simpa using (mem_filter.mp hb).2

/-- The condition that was evaluated last, if its block is still open, has the innermost one. -/
theorem stillOpen_of_latest {h : History} {b : Branch} (latest : (evaluated h).head? = some b)
    (isOpen : b ∈ stillOpen Opening.condition? h) : ∃ outer, stillOpen Opening.condition? h = b :: outer := by
  induction h with
  | nil => cases latest
  | cons e h ih =>
    unfold stillOpen at isOpen ⊢
    unfold evaluated at latest
    rw [filterMap_cons] at latest
    cases first : opened Opening.condition? e with
    | some c =>
      rw [first] at latest
      cases latest
      exact ⟨_, rfl⟩
    | none =>
      rw [first] at latest isOpen
      obtain ⟨kept, above⟩ := mem_filter.mp isOpen
      obtain ⟨outer, same⟩ := ih latest kept
      rw [same]
      refine ⟨outer.filter (·.indent < e.indent), ?_⟩
      rw [Option.toList_none, nil_append, filter_cons, if_pos above]

theorem innermost_of_latest {h : History} {b : Branch} {indent : Nat} (latest : (evaluated h).head? = some b)
    (isOpen : b ∈ stillOpen Opening.condition? h) (above : b.indent < indent) : innermost h indent = some b := by
  obtain ⟨outer, same⟩ := stillOpen_of_latest latest isOpen
  unfold innermost
  rw [same, find?_cons_of_pos (by simpa using above)]

end History

/-! ## Sessions and their histories -/

/-- The blocks of a session and its alternatives are those of a history. -/
structure Session.Recorded (h : History) (s : Session) : Prop where
  loops : s.loops = []
  ifs : s.ifs = History.stillOpen Opening.block? h
  elses : s.elses = (History.evaluated h).map fun b => ⟨!b.active, b.indent⟩
  bound : History.Bound h

def Session.Extends (h : History) (s : Session) : Prop := ∃ later, s.Recorded (later ++ h)

namespace Session.Recorded

variable {s t : Session} {h : History} {indent : Nat}

theorem congr (recorded : s.Recorded h) (loops : t.loops = s.loops) (ifs : t.ifs = s.ifs) (elses : t.elses = s.elses) :
    t.Recorded h :=
  ⟨loops.trans recorded.loops, ifs.trans recorded.ifs, elses.trans recorded.elses, recorded.bound⟩

theorem extended (recorded : s.Recorded h) : s.Extends h := ⟨[], recorded⟩

/-- A line that opens nothing closes the blocks that it is not deeper than. -/
theorem close (recorded : s.Recorded h) (indent : Nat) :
    Recorded (⟨indent, .nothing⟩ :: h) { s with ifs := s.ifs.dropWhile fun b => indent ≤ b.indent } where
  loops := recorded.loops
  ifs := by
    rw [recorded.ifs]
    exact Session.Sound.dropWhile_eq_filter (History.nested_stillOpen _ h) indent
  elses := recorded.elses
  bound := ⟨recorded.bound, nofun⟩

theorem condition (recorded : s.Recorded (⟨indent, .nothing⟩ :: h)) (holds : Bool) :
    Recorded (⟨indent, .condition holds⟩ :: h)
      { s with ifs := ⟨holds, indent⟩ :: s.ifs, elses := ⟨!holds, indent⟩ :: s.elses } where
  loops := recorded.loops
  ifs := congrArg (List.cons _) recorded.ifs
  elses := congrArg (List.cons _) recorded.elses
  bound := ⟨recorded.bound.1, nofun⟩

theorem alternative (recorded : s.Recorded (⟨indent, .nothing⟩ :: h)) {b : Branch} (latest : (History.evaluated h).head? = some b)
    (above : b.indent < indent) :
    Recorded (⟨indent, .alternative !b.active⟩ :: h) { s with ifs := ⟨!b.active, indent⟩ :: s.ifs } where
  loops := recorded.loops
  ifs := congrArg (List.cons _) recorded.ifs
  elses := recorded.elses
  bound := by
    refine ⟨recorded.bound.1, fun active same => ⟨b, latest, above, ?_⟩⟩
    exact (Opening.alternative.inj same).symm

end Session.Recorded

namespace Run

open Text Line

variable {h : History} {s t : Session} {l : Line} {raw : List Char}

theorem loose_extends (h : History) : Loose (Keeps (Session.Extends h)) := by
  apply loose_keeps
  · rintro s ⟨later, recorded⟩
    exact recorded.loops
  · rintro s t - loops ifs elses - - ⟨later, recorded⟩
    exact ⟨later, recorded.congr loops ifs elses⟩

/-! ## What lines add to the history -/

/-- At a depth for which blocks have been closed: the line is recorded with what it opens, and others may follow. -/
def Records (indent : Nat) (s t : Session) : Prop :=
  ∀ h, s.Recorded (⟨indent, .nothing⟩ :: h) → ∃ opening, t.Extends (⟨indent, opening⟩ :: h)

def SameBlocks (s t : Session) : Prop := t.loops = s.loops ∧ t.ifs = s.ifs ∧ t.elses = s.elses

theorem stable_sameBlocks : Stable SameBlocks where
  refl _ := ⟨rfl, rfl, rfl⟩
  trans hst htu := ⟨htu.1.trans hst.1, htu.2.1.trans hst.2.1, htu.2.2.trans hst.2.2⟩
  outside _ _ := ⟨rfl, rfl, rfl⟩

theorem SameBlocks.recorded (same : SameBlocks s t) (recorded : s.Recorded h) :
    t.Recorded h := recorded.congr same.1 same.2.1 same.2.2

theorem closed_recorded {n : Int}
    (shown : Shows { settled { s with lineNumber := n } with ifs := s.ifs.dropWhile fun b => l.indent ≤ b.indent } t)
    (recorded : s.Recorded h) : t.Recorded (⟨l.indent, .nothing⟩ :: h) := by
  obtain ⟨output, rfl⟩ := shown
  have settled_ : SameBlocks s (settled { s with lineNumber := n }) := by
    unfold settled
    split <;> exact ⟨rfl, rfl, rfl⟩
  exact (recorded.close l.indent).congr settled_.1 rfl settled_.2.2

section

variable {α β : Type} {indent : Nat}

theorem records_of_keeps {x : Run α} (hx : ∀ h, Moves (Keeps (Session.Extends h)) x) : Moves (Records indent) x :=
  fun s _ recorded => ⟨.nothing, hx _ s recorded.extended⟩

theorem records_bind {x : Run α} {k : α → Run β} (hx : Moves SameBlocks x) (hk : ∀ a, Moves (Records indent) (k a)) :
    Moves (Records indent) (x >>= k) := by
  refine .andThen (fun s t same h recorded => ?_) (fun s t u same rest h recorded => ?_) hx hk
  · exact ⟨.nothing, (same.recorded recorded).extended⟩
  · exact rest h (same.recorded recorded)

theorem condition_records (code : List Char) : Moves (Records indent) (condition code indent) := by
  have hS := stable_sameBlocks
  have refl : ∀ s, Records indent s s := fun s h recorded => ⟨.nothing, recorded.extended⟩
  have opens : ∀ holds text, Moves (Records indent) (do
      adjust fun s => { s with ifs := ⟨holds, indent⟩ :: s.ifs, elses := ⟨!holds, indent⟩ :: s.elses }
      note text) := by
    intro holds text s h recorded
    have noted := Moves.note hS text { s with ifs := ⟨holds, indent⟩ :: s.ifs, elses := ⟨!holds, indent⟩ :: s.elses }
    exact ⟨.condition holds, (noted.recorded (recorded.condition holds)).extended⟩
  refine .guard refl fun _ => .wrapping _ ?_
  exact records_bind (.evaluate hS _) fun v => records_bind (.world hS) fun w => opens _ _

theorem outcome_alternative (recorded : s.Recorded (⟨indent, .nothing⟩ :: h)) :
    (alternative indent).outcome s =
      match (History.evaluated h).head? with
      | none => (.error (.fault (.malformed .elseWithoutIf)), s)
      | some b =>
        if b.indent < indent then (.ok (), { s with ifs := ⟨!b.active, indent⟩ :: s.ifs })
        else (.error (.fault (.malformed .elseIndent)), s) := by
  have elses : s.elses = (History.evaluated h).map fun b => ⟨!b.active, b.indent⟩ := recorded.elses
  unfold alternative
  rw [bind_ok (outcome_session s)]
  cases evaluated : History.evaluated h with
  | nil =>
    rw [evaluated] at elses
    rw [elses]
    rfl
  | cons b earlier =>
    rw [evaluated] at elses
    split
    · rename_i none
      cases none.symm.trans elses
    · rename_i c rest some
      obtain ⟨rfl, -⟩ := List.cons.inj (some.symm.trans elses)
      by_cases above : b.indent < indent
      · dsimp only [head?_cons]
        rw [if_neg (Nat.not_le.mpr above), if_pos above]
        rfl
      · dsimp only [head?_cons]
        rw [if_pos (Nat.not_lt.mp above), if_neg above]
        rfl

theorem alternative_records : Moves (Records indent) (alternative indent) := by
  intro s h recorded
  rw [outcome_alternative recorded]
  split
  · exact ⟨.nothing, recorded.extended⟩
  · rename_i b latest
    split
    · rename_i above
      exact ⟨.alternative !b.active, (recorded.alternative latest above).extended⟩
    · exact ⟨.nothing, recorded.extended⟩

variable {run : Runner} (hrun : ∀ h l b n, Moves (Keeps (Session.Extends h)) (run l b n))

include hrun

theorem execute_records (command : Command) (code : List Char) (importing : Bool) :
    Moves (Records indent) (execute run command code indent importing) := by
  by_cases other : command ≠ .alternative ∧ command ≠ .condition ∧ command ≠ .define
  · exact records_of_keeps fun h => .execute (loose_extends h) (hrun h) other code indent importing
  · cases command with
    | alternative => exact alternative_records
    | condition => exact condition_records code
    | define =>
      refine records_of_keeps fun h => .define (loose_extends h).toStable ?_ code
      rintro s name params ⟨later, recorded⟩
      exact ⟨later, recorded.congr rfl rfl rfl⟩
    | _ => exact absurd (by decide) other

/-- Every line that is executed is recorded at its depth, before the lines that it runs. -/
theorem executed_records (read : read? raw = some l) (importing : Bool) (n : Int) (executed : Executed l s)
    (recorded : s.Recorded h) :
    ∃ opening, ((lineWith run raw importing n).outcome s).2.Extends (⟨l.indent, opening⟩ :: h) := by
  obtain ⟨t, shown, line⟩ := exists_outcome_executed run read importing n executed recorded.loops
  have closed : t.Recorded (⟨l.indent, .nothing⟩ :: h) := closed_recorded shown recorded
  have processed : Moves (Records l.indent) (process run l.code l.indent importing) :=
    Moves.of_session fun s => execute_records hrun _ _ _ s
  obtain ⟨opening, extended⟩ := processed t h closed
  have hS := (loose_extends (⟨l.indent, opening⟩ :: h)).toStable
  rw [line]
  exact ⟨opening, Moves.recover_after hS (.handle hS _ _ _) _ t extended⟩

theorem lineWith_extends (h : History) (raw : List Char) (importing : Bool) (n : Int) :
    Moves (Keeps (Session.Extends h)) (lineWith run raw importing n) := by
  rintro s ⟨later, recorded⟩
  cases read : read? raw with
  | none =>
    rw [outcome_blank_line run read]
    exact ⟨later, recorded.congr rfl rfl rfl⟩
  | some l =>
    by_cases executed : Executed l s
    · obtain ⟨opening, more, extended⟩ := executed_records hrun read importing n executed recorded
      refine ⟨more ++ ⟨l.indent, opening⟩ :: later, ?_⟩
      rw [append_assoc]
      exact extended
    · unfold Executed at executed
      simp only [Classical.not_forall, Nat.not_le] at executed
      obtain ⟨name, indent, defining, deeper⟩ := executed
      rw [outcome_captured_line run read importing n defining deeper]
      exact ⟨later, recorded.congr rfl rfl rfl⟩

end

theorem runner_extends (depth : Nat) (h : History) (raw : List Char) (importing : Bool) (n : Int) :
    Moves (Keeps (Session.Extends h)) (runner depth raw importing n) := by
  induction depth generalizing h raw importing n with
  | zero => exact .fail (loose_extends h).toStable _
  | succ depth ih => exact lineWith_extends ih h raw importing n

theorem recorded_after_requests (d : Depot) (requests : List Request) :
    ∃ h, (requests.foldl Request.after { depot := d }).Recorded h := by
  have loose := loose_extends []
  have programs := Moves.programWith loose.toLax (runner_extends maxLevels []) loose.jumps
  have start : Session.Extends [] { depot := d } := ⟨[], rfl, rfl, rfl, trivial⟩
  obtain ⟨later, recorded⟩ := holds_after_requests (runner_extends _ _) programs loose.outside requests start
  exact ⟨_, recorded⟩

/-! ## Alternatives -/

theorem of_alternative {code : List Char} (word : Command.starts code "else")
    (noInput : Command.isInputAssign code = false) (inLoop skipped : Bool) :
    Command.of inLoop skipped code = .alternative := by
  have place : Command.order = [.eval, .input, .inputAssign, .shorthand] ++ .alternative :: Command.order.drop 5 := rfl
  refine Command.of_eq_of_fits place ?_ word
  obtain ⟨rest, rfl⟩ := isPrefixOf_iff_prefix.mp word
  intro other earlier
  simp only [mem_cons, not_mem_nil, or_false] at earlier
  rcases earlier with rfl | rfl | rfl | rfl
  · rfl
  · rfl
  · exact noInput
  · rfl

/-- What one would like: a block that an alternative opens belongs to the innermost condition whose block is open above
it, and runs if that one did not hold. -/
def BelongsToOpen (h : History) (indent : Nat) (s t : Session) : Prop :=
  ∀ active, t.ifs = ⟨active, indent⟩ :: s.ifs.filter (·.indent < indent) →
    ∃ b, History.innermost h indent = some b ∧ active = !b.active

/-- What happens: the condition that was evaluated last decides. -/
structure BelongsToLatest (h : History) (l : Line) (raw : List Char) (importing : Bool) (n : Int) (s t : Session) : Prop where
  accepted : ∀ b, (History.evaluated h).head? = some b → b.indent < l.indent →
    t.ifs = ⟨!b.active, l.indent⟩ :: s.ifs.filter (·.indent < l.indent)
  /-- A refused alternative is told of as an error, and opens nothing. -/
  refused : (∀ b, (History.evaluated h).head? = some b → l.indent ≤ b.indent) →
    t.ifs = s.ifs.filter (·.indent < l.indent) ∧ ∃ u f,
      f = .malformed (if (History.evaluated h).isEmpty then .elseWithoutIf else .elseIndent) ∧
        t = if importing then u else told (trimRight (· = '\n') raw) n f u

section

variable {s : Session} {h : History} (recorded : s.Recorded h) (run : Runner) {raw : List Char} {l : Line}
  (importing : Bool) (n : Int) (read : read? raw = some l) (executed : Executed l s)
  (word : Command.starts (applyAliases s.aliases l.code) "else" = true)
  (noInput : Command.isInputAssign (applyAliases s.aliases l.code) = false)

include recorded read executed word noInput

theorem outcome_alternative_line : ∃ t, t.Recorded (⟨l.indent, .nothing⟩ :: h) ∧ (lineWith run raw importing n).outcome s =
      (recover (alternative l.indent) (handle (trimRight (· = '\n') raw) importing n)).outcome t := by
  obtain ⟨t, shown, line⟩ := exists_outcome_executed run read importing n executed recorded.loops
  have aliases : t.aliases = s.aliases := by
    obtain ⟨output, rfl⟩ := shown
    unfold settled
    split <;> rfl
  refine ⟨t, closed_recorded shown recorded, line.trans (outcome_recover_congr ?_ _)⟩
  unfold process
  rw [bind_ok (outcome_session t), aliases]
  dsimp only
  rw [of_alternative word noInput]
  rfl

theorem exists_outcome_alternative_line :
    ∃ t, (lineWith run raw importing n).outcome s = (.ok (), t) ∧ BelongsToLatest h l raw importing n s t := by
  obtain ⟨u, closed, line⟩ := outcome_alternative_line recorded run importing n read executed word noInput
  have blocks : u.ifs = s.ifs.filter (·.indent < l.indent) := by
    rw [closed.ifs, recorded.ifs]
    rfl
  have ended := outcome_alternative closed
  have refused : ∀ {f : Malformed}, (alternative l.indent).outcome u = (.error (.fault (.malformed f)), u) →
      (lineWith run raw importing n).outcome s =
        (.ok (), if importing then u else told (trimRight (· = '\n') raw) n (.malformed f) u) := by
    intro f failed
    rw [line, recover, outcome_tryCatch, failed]
    exact outcome_handle (fun _ same => by cases same) _ _ _ _
  have same : ∀ f, (if importing then u else told (trimRight (· = '\n') raw) n f u).ifs = u.ifs := by
    intro f
    split <;> rfl
  cases latest : (History.evaluated h).head? with
  | none =>
    rw [latest] at ended
    have none : History.evaluated h = [] := head?_eq_none_iff.mp latest
    refine ⟨_, refused ended, fun b some => ?_, fun _ => ⟨(same _).trans blocks, u, _, rfl, ?_⟩⟩
    · cases latest.symm.trans some
    · rw [none]
      rfl
  | some b =>
    rw [latest] at ended
    by_cases above : b.indent < l.indent
    · dsimp only at ended
      rw [if_pos above] at ended
      refine ⟨_, line.trans (outcome_recover_ok ended _), fun b' some _ => ?_, fun deep => ?_⟩
      · obtain rfl := Option.some.inj (latest.symm.trans some)
        exact congrArg (List.cons _) blocks
      · exact absurd (deep b latest) (Nat.not_le.mpr above)
    · dsimp only at ended
      rw [if_neg above] at ended
      have some : (History.evaluated h).isEmpty = false := by
        cases given : History.evaluated h with
        | nil => rw [given] at latest; cases latest
        | cons => rfl
      refine ⟨_, refused ended, fun b' some' above' => ?_, fun _ => ⟨(same _).trans blocks, u, _, rfl, ?_⟩⟩
      · obtain rfl := Option.some.inj (latest.symm.trans some')
        exact absurd above' above
      · rw [some]
        rfl

end

/-- The two rules agree on a line if the alternative is refused, or if the condition that was evaluated last and the
innermost one whose block is open held alike. -/
theorem belongsToOpen_iff {importing : Bool} {n : Int} (binds : BelongsToLatest h l raw importing n s t) :
    BelongsToOpen h l.indent s t ↔ ∀ b, (History.evaluated h).head? = some b → b.indent < l.indent →
      ∃ c, History.innermost h l.indent = some c ∧ c.active = b.active := by
  constructor
  · intro belongs b latest above
    obtain ⟨c, inner, active⟩ := belongs _ (binds.accepted b latest above)
    exact ⟨c, inner, (Bool.not_inj active).symm⟩
  · intro agree active pushed
    by_cases accepted : ∃ b, (History.evaluated h).head? = some b ∧ b.indent < l.indent
    · obtain ⟨b, latest, above⟩ := accepted
      obtain ⟨c, inner, alike⟩ := agree b latest above
      have same := pushed.symm.trans (binds.accepted b latest above)
      refine ⟨c, inner, ?_⟩
      rw [alike]
      exact congrArg Branch.active (List.cons.inj same).1
    · have none := (binds.refused fun b latest => Nat.not_lt.mp fun above => accepted ⟨b, latest, above⟩).1
      exact absurd (congrArg List.length (pushed.symm.trans none)) (by simp)

/-- **An alternative belongs to the condition that was evaluated last.** Deeper than that one it opens a block that runs if the
condition did not hold; otherwise it is told of as an error. The innermost open condition decides the same exactly if it
held alike. -/
theorem alternative_belongs_to_latest (run : Runner) (importing : Bool) (n : Int) :
    (∀ (d : Depot) (requests : List Request), ∃ h, (requests.foldl Request.after { depot := d }).Recorded h) ∧
      ∀ {s : Session} {h : History}, s.Recorded h → ∀ {raw : List Char} {l : Line}, read? raw = some l →
        Executed l s →
        Command.starts (applyAliases s.aliases l.code) "else" = true →
        Command.isInputAssign (applyAliases s.aliases l.code) = false →
        ∃ t, (lineWith run raw importing n).outcome s = (.ok (), t) ∧ BelongsToLatest h l raw importing n s t ∧
          (BelongsToOpen h l.indent s t ↔ ∀ b, (History.evaluated h).head? = some b → b.indent < l.indent →
            ∃ c, History.innermost h l.indent = some c ∧ c.active = b.active) ∧
          (∀ b, (History.evaluated h).head? = some b → b ∈ History.stillOpen Opening.condition? h →
            BelongsToOpen h l.indent s t) := by
  refine ⟨recorded_after_requests, ?_⟩
  intro s h recorded raw l read executed word noInput
  obtain ⟨t, ended, binds⟩ := exists_outcome_alternative_line recorded run importing n read executed word noInput
  refine ⟨t, ended, binds, belongsToOpen_iff binds, fun b latest isOpen => ?_⟩
  refine (belongsToOpen_iff binds).mpr fun b' latest' above => ?_
  cases latest.symm.trans latest'
  exact ⟨b, History.innermost_of_latest latest isOpen above, rfl⟩

/-- A condition that holds, and inside it one that does not, whose block is closed again. -/
def closedInside : List (List Char) := ["if 1", ".if 0", ".x=1"].map String.toList

theorem alternative_belongs_to_latest_closedInside :
    ∃ h t, ((program closedInside).outcome {}).2.Recorded h ∧ History.innermost h 2 = some ⟨true, 0⟩ ∧
      (line "..else".toList false 4).outcome ((program closedInside).outcome {}).2 = (.ok (), t) ∧
      t.ifs = [⟨true, 2⟩, ⟨true, 0⟩] ∧ ¬ BelongsToOpen h 2 ((program closedInside).outcome {}).2 t := by
  generalize given : ((program closedInside).outcome {}).2 = s
  have ifs : s.ifs = [⟨true, 0⟩] := by
    rw [← given]
    decide +kernel
  have recorded : s.Recorded [⟨1, .nothing⟩, ⟨1, .condition false⟩, ⟨0, .condition true⟩] := by
    refine ⟨isEmpty_iff.mp ?_, ifs, ?_, ?_⟩
    · rw [← given]
      decide +kernel
    · rw [← given]
      decide +kernel
    · exact ⟨⟨⟨trivial, nofun⟩, nofun⟩, nofun⟩
  have idle : Executed ⟨2, "else".toList⟩ s := by
    have none : s.defining = none := by
      rw [← given]
      decide +kernel
    exact fun name indent some => by cases none.symm.trans some
  have aliases : s.aliases = [] := by
    rw [← given]
    decide +kernel
  have read : read? "..else".toList = some ⟨2, "else".toList⟩ := by decide +kernel
  obtain ⟨t, ended, binds, open_, -⟩ := (alternative_belongs_to_latest (runner 299) false 4).2 recorded read idle
    (by rw [aliases]; decide) (by rw [aliases]; decide)
  refine ⟨_, t, recorded, by decide, ended, ?_, fun belongs => ?_⟩
  · rw [binds.accepted ⟨false, 1⟩ rfl (by decide), ifs]
    rfl
  · obtain ⟨c, inner, active⟩ := open_.mp belongs ⟨false, 1⟩ rfl (by decide)
    cases inner
    cases active

/-- No block is open where the alternative stands, but the condition that was evaluated last did not hold. -/
def closedBefore : List (List Char) := ["if 0", "x=1", ".else", "..print 5"].map String.toList

theorem closed_condition_decides :
    ((program (closedBefore.take 2)).outcome {}).2.ifs = [] ∧
      ((program (closedBefore.take 3)).outcome {}).2.ifs = [⟨true, 1⟩] ∧
      ((program closedBefore).outcome {}).2.depot.world.output = "5\n" := by
  decide +kernel

end Run

end LineScript
