
import LineScript.Proofs.Footprint

/-!
# How often a program jumps

A program counts its jumps and fails when there are too many. But every program that is run from a file or as a package sets
the count to zero, also while another one is running. So a program is held to the limit only between two programs that it
runs.
-/

namespace LineScript.Run

variable {p q : Nat × Session} {n depth : Nat}

variable {run : Runner} {lines : List (List Char)}

/-! ## Rounds of a program -/

/-- One round of a program: its lines from a place on up to a jump. Gives the place and the session that the jump leads
to, and nothing if the lines end or stop otherwise, or if the jump is not taken. -/
def leap? (run : Runner) (lines : List (List Char)) (p : Nat × Session) : Option (Nat × Session) :=
  match (runLines run (p.1 + 1) (lines.drop p.1)).outcome p.2 with
  | (.ok (some target), t) =>
    match (takeJump target lines.length).outcome t with
    | (.ok (), u) => some (target - 1, u)
    | _ => none
  | _ => none

def leaps? (run : Runner) (lines : List (List Char)) : Nat → Nat × Session → Option (Nat × Session)
  | 0, p => some p
  | n + 1, p => (leap? run lines p).bind (leaps? run lines n)

theorem jumps_takeJump {target size : Nat} {t u : Session} (h : (takeJump target size).outcome t = (.ok (), u)) :
    u.jumps = t.jumps + 1 ∧ u.jumps ≤ maxJumps := by
  have stable : Stable fun s t : Session => t.jumps = s.jumps := ⟨fun _ => rfl, fun hst htu => htu.trans hst, fun _ _ => rfl⟩
  unfold takeJump at h
  split at h
  · cases h
  · rw [bind_ok (outcome_adjust _ t), bind_ok (outcome_session _)] at h
    split at h
    · cases h
    · rename_i within
      have noted := Moves.note stable ("Goto jump to line " ++ toString target) { t with jumps := t.jumps + 1 }
      rw [h] at noted
      refine ⟨noted, ?_⟩
      rw [noted]
      exact Nat.le_of_not_lt within

theorem leap?_eq_some (h : leap? run lines p = some q) :
    ∃ target t, (runLines run (p.1 + 1) (lines.drop p.1)).outcome p.2 = (.ok (some target), t) ∧
      (takeJump target lines.length).outcome t = (.ok (), q.2) ∧ q.1 = target - 1 := by
  unfold leap? at h
  split at h
  · rename_i target t round
    split at h
    · rename_i u taken
      cases h
      exact ⟨target, t, round, taken, rfl⟩
    · cases h
  · cases h

theorem outcome_runFrom_leap (h : leap? run lines p = some q) (fuel : Nat) :
    (runFrom run lines (fuel + 1) p.1).outcome p.2 = (runFrom run lines fuel q.1).outcome q.2 := by
  obtain ⟨target, t, round, taken, place⟩ := leap?_eq_some h
  rw [runFrom, bind_ok round, bind_ok taken, place]

theorem outcome_runFrom_leaps (h : leaps? run lines n p = some q) (fuel : Nat) :
    (runFrom run lines (n + fuel) p.1).outcome p.2 = (runFrom run lines fuel q.1).outcome q.2 := by
  induction n generalizing p with
  | zero =>
    cases h
    rw [Nat.zero_add]
  | succ n ih =>
    obtain ⟨r, first, rest⟩ := Option.bind_eq_some_iff.mp h
    rw [Nat.add_right_comm, outcome_runFrom_leap first, ih rest]

/-- A program that takes no more jump ends, with whatever patience. -/
theorem outcome_runFrom_of_no_leap (h : leap? run lines p = none) (fuel : Nat) :
    (runFrom run lines (fuel + 1) p.1).outcome p.2 = (runFrom run lines 1 p.1).outcome p.2 := by
  rw [runFrom, runFrom]
  rcases round : (runLines run (p.1 + 1) (lines.drop p.1)).outcome p.2 with ⟨e | none | target, t⟩
  · rw [bind_error round, bind_error round]
  · rw [bind_ok round, bind_ok round]
  · rw [bind_ok round, bind_ok round]
    rcases taken : (takeJump target lines.length).outcome t with ⟨e | u, v⟩
    · rw [bind_error taken, bind_error taken]
    · unfold leap? at h
      rw [round] at h
      dsimp only at h
      rw [taken] at h
      cases h

/-! ## Rounds in which programs are run -/

def alone : Watch where
  forbids _ command _ := command = .package || command = .runFile
  strict := false

/-- In the round that starts at a place, a line runs a file or asks for a package. -/
def restarts (depth : Nat) (lines : List (List Char)) (p : Nat × Session) : Prop :=
  ((runLines (alone.runner depth) (p.1 + 1) (lines.drop p.1)).outcome p.2).1 = .error givenUp

instance (depth : Nat) (lines : List (List Char)) (p : Nat × Session) : Decidable (restarts depth lines p) :=
  inferInstanceAs (Decidable (_ = Except.error givenUp))

def Climbs (s t : Session) : Prop := s.jumps ≤ t.jumps

theorem free_climbs : Free Climbs where
  refl _ := Nat.le_refl _
  trans := Nat.le_trans
  outside _ _ := Nat.le_refl _
  vars _ _ := Nat.le_refl _
  number _ _ := Nat.le_refl _
  aliased _ _ _ _ := Nat.le_refl _
  shown _ _ := Nat.le_refl _
  loops _ _ _ := Nat.le_refl _
  defined _ _ _ _ := Nat.le_refl _
  blocks _ _ _ := Nat.le_refl _

/-- A line that runs no program does not set the count back. -/
theorem tracks_alone (first : Session) (depth : Nat) :
    TracksLines True (Since Climbs first) Eq (alone.runner depth) (runner depth) :=
  Tracks.watchedRunner free_climbs rfl (fun _ _ => rfl) (Or.inl fun _ _ => rfl) first depth

theorem jumps_le_of_not_restarts (h : ¬ restarts depth lines p) :
    p.2.jumps ≤ ((runLines (runner depth) (p.1 + 1) (lines.drop p.1)).outcome p.2).2.jumps := by
  have tracked := Tracks.runLines (shares_since free_climbs.toLax) (tracks_alone p.2 depth) (p.1 + 1) (lines.drop p.1)
    p.2 p.2 ⟨rfl, Nat.le_refl _⟩
  rcases tracked with ⟨-, given⟩ | ⟨-, same, climbed⟩
  · exact absurd given h
  · rw [← same]
    exact climbed

/-- How many of the first rounds run a file or ask for a package. -/
def countRestarts (depth : Nat) (lines : List (List Char)) : Nat → Nat × Session → Nat
  | 0, _ => 0
  | n + 1, p =>
    (if restarts depth lines p then 1 else 0) +
      ((leap? (runner depth) lines p).map (countRestarts depth lines n)).getD 0

/-- The jumps that a program may take if so many of its rounds run a file or ask for a package. -/
def jumpBudget (restarts : Nat) : Nat := maxJumps * (restarts + 1)

/-- A round makes the count go up, or sets it back. Either way the jumps that are left are bounded by what the count
can still go up, and by a full count for every time that it is set back. -/
theorem leaps_bounded (h : leaps? (runner depth) lines n p = some q) (within : p.2.jumps ≤ maxJumps) :
    n + p.2.jumps ≤ jumpBudget (countRestarts depth lines n p) := by
  unfold jumpBudget
  induction n generalizing p with
  | zero => rwa [countRestarts, Nat.zero_add, Nat.zero_add, Nat.mul_one]
  | succ n ih =>
    obtain ⟨r, first, rest⟩ := Option.bind_eq_some_iff.mp h
    obtain ⟨target, t, round, taken, -⟩ := leap?_eq_some first
    obtain ⟨counted, limited⟩ := jumps_takeJump taken
    have left := ih rest limited
    rw [countRestarts, first, Option.map_some, Option.getD_some]
    by_cases set : restarts depth lines p
    -- whatever the count is set to, a full count can follow
    · have more : maxJumps * (1 + countRestarts depth lines n r + 1) =
          maxJumps * (countRestarts depth lines n r + 1) + maxJumps := by
        rw [Nat.add_comm 1, Nat.mul_succ]
      rw [if_pos set]
      omega
    -- the count after the jump is more than the one before the round
    · have climbed := jumps_le_of_not_restarts set
      rw [round] at climbed
      dsimp only at climbed
      rw [if_neg set, Nat.zero_add]
      omega

/-- A program that cannot take so many jumps takes a last one. -/
theorem exists_last_leap (h : leaps? run lines n p = none) :
    ∃ m < n, ∃ q, leaps? run lines m p = some q ∧ leap? run lines q = none := by
  induction n generalizing p with
  | zero => cases h
  | succ n ih =>
    cases first : leap? run lines p with
    | none => exact ⟨0, Nat.succ_pos n, p, rfl, first⟩
    | some r =>
      rw [leaps?, first] at h
      obtain ⟨m, less, q, rest, last⟩ := ih h
      refine ⟨m + 1, Nat.succ_lt_succ less, q, ?_, last⟩
      rw [leaps?, first, Option.bind_some, rest]

/-- **A program is held to the limit between the programs that it runs.** It takes at most `maxJumps` jumps for every round that
runs a file or asks for a package, and `maxJumps` more. -/
theorem program_jumps_bounded (depth : Nat) (lines : List (List Char)) (s : Session) :
    (∀ n q, leaps? (runner depth) lines n (0, { s with jumps := 0 }) = some q →
      (∀ fuel, (runFrom (runner depth) lines (n + fuel) 0).outcome { s with jumps := 0 } =
        (runFrom (runner depth) lines fuel q.1).outcome q.2) ∧
      n ≤ jumpBudget (countRestarts depth lines n (0, { s with jumps := 0 }))) ∧
    ((∀ n, countRestarts depth lines n (0, { s with jumps := 0 }) = 0) →
      ∃ n ≤ maxJumps, ∃ q, leaps? (runner depth) lines n (0, { s with jumps := 0 }) = some q ∧
        leap? (runner depth) lines q = none ∧
        (runFrom (runner depth) lines patience 0).outcome { s with jumps := 0 } =
          (runFrom (runner depth) lines 1 q.1).outcome q.2) := by
  have bound : ∀ n q, leaps? (runner depth) lines n (0, { s with jumps := 0 }) = some q →
      n ≤ jumpBudget (countRestarts depth lines n (0, { s with jumps := 0 })) :=
    fun n q h => leaps_bounded h (Nat.zero_le _)
  refine ⟨fun n q h => ⟨outcome_runFrom_leaps h, bound n q h⟩, fun never => ?_⟩
  -- one jump more than the limit is not taken, so there is a last one
  have short : leaps? (runner depth) lines (maxJumps + 1) (0, { s with jumps := 0 }) = none := by
    cases h : leaps? (runner depth) lines (maxJumps + 1) (0, { s with jumps := 0 }) with
    | none => rfl
    | some q =>
      have much := bound _ q h
      rw [never, jumpBudget, Nat.zero_add, Nat.mul_one] at much
      exact absurd much (Nat.not_succ_le_self _)
  obtain ⟨n, less, q, reached, last⟩ := exists_last_leap short
  have few : n ≤ maxJumps := Nat.le_of_lt_succ less
  refine ⟨n, few, q, reached, last, ?_⟩
  have room : n + (patience - n - 1 + 1) = patience := by
    unfold maxJumps at few
    unfold patience
    omega
  rw [← room, outcome_runFrom_leaps reached, outcome_runFrom_of_no_leap last]

/-- A program that runs an empty file and jumps back. -/
def refreshing : List (List Char) := ["guython a.gy".toList, "goto 1".toList]

def withEmptyFile : Session := { depot := { world := { disk := [("a.gy", .file [] 0)] } } }

def refreshed : Session := { withEmptyFile with jumps := 1, lineNumber := 2 }

/-- Every round leads to the same place and session. -/
theorem leaps?_refreshing (n : Nat) :
    leaps? (runner maxLevels) refreshing (n + 1) (0, { withEmptyFile with jumps := 0 }) = some (0, refreshed) := by
  have first : leap? (runner maxLevels) refreshing (0, { withEmptyFile with jumps := 0 }) = some (0, refreshed) := rfl
  have again : leap? (runner maxLevels) refreshing (0, refreshed) = some (0, refreshed) := rfl
  have rest : leaps? (runner maxLevels) refreshing n (0, refreshed) = some (0, refreshed) := by
    induction n with
    | zero => rfl
    | succ n ih => rw [leaps?, again, Option.bind_some, ih]
  rw [leaps?, first, Option.bind_some, rest]

theorem program_jumps_bounded_refreshing :
    leaps? (runner maxLevels) refreshing 2 (0, { withEmptyFile with jumps := 0 }) = some (0, refreshed) ∧
      2 ≤ jumpBudget (countRestarts maxLevels refreshing 2 (0, { withEmptyFile with jumps := 0 })) := by
  have twice := leaps?_refreshing 1
  exact ⟨twice, ((program_jumps_bounded maxLevels refreshing withEmptyFile).1 2 _ twice).2⟩

/-- It jumps as often as one likes, and ends only because it is given up. -/
theorem refreshing_jumps_without_end :
    (∀ n, ∃ q, leaps? (runner maxLevels) refreshing n (0, { withEmptyFile with jumps := 0 }) = some q) ∧
      ((program refreshing).outcome withEmptyFile).1 = .error .endless := by
  constructor
  · intro n
    cases n with
    | zero => exact ⟨_, rfl⟩
    | succ n => exact ⟨_, leaps?_refreshing n⟩
  · have through : (runFrom line refreshing patience 0).outcome { withEmptyFile with jumps := 0 } =
        (.error .endless, refreshed) := by
      have room : patience = (999999 + 1) + 0 := rfl
      rw [room, line, outcome_runFrom_leaps (leaps?_refreshing 999999) 0]
      rfl
    rw [program, programWith, bind_ok (outcome_adjust _ _), bind_error through]

end LineScript.Run
