
import LineScript.Proofs.ArrayAccess
import LineScript.Proofs.Containment

/-!
# Rounds of a loop

A loop tests its condition and runs its block in turn. It fails if the condition holds still after the last round that is
allowed, or has no value, or if a line of the block jumps (`loop_guard_exact`). A condition can change lists, and does so
also when it ends the loop.
-/

namespace LineScript.Run

variable {k : Nat} {condition : List Char} {body : List Line} {run : Runner} {s t u : Session}

/-- The condition of a loop, with the look at the index of packages before it. -/
def testLoop (condition : List Char) : Run Bool := do
  act Pkg.touch
  conditionHolds condition

/-- Rounds of a loop: the condition holds, and then every line of the block is run. -/
inductive Rounds (run : Runner) (condition : List Char) (body : List Line) : Nat → Session → Session → Prop
  | none (s : Session) : Rounds run condition body 0 s s
  | more {k : Nat} {s t u v : Session} (holds : (testLoop condition).outcome s = (.ok true, t))
      (pass : (runPass run body).outcome t = (.ok (), u)) (rest : Rounds run condition body k u v) :
      Rounds run condition body (k + 1) s v

/-- A fault as a loop tells it. -/
def asLoop (f : Fault) : Fault := if f.isLanguage then f else .runtime (.loopFailed f.message)

/-- Why a loop fails in a round that starts in a session, if `n` more passes are allowed. -/
inductive LoopFault (depth : Nat) (condition : List Char) (body : List Line) : Nat → Session → Fault → Session → Prop
  | limit {s t : Session} (holds : (testLoop condition).outcome s = (.ok true, t)) :
      LoopFault depth condition body 0 s (.runtime (.loopLimit maxIterations)) t
  | condition {n : Nat} {s t : Session} {text : String}
      (failed : (testLoop condition).outcome s = (.error (.fault (.runtime (.evaluating text))), t)) :
      LoopFault depth condition body n s (.runtime (.evaluating text)) t
  | jump {n target : Nat} {s t u v : Session} {before after : List Line} {l : Line}
      (holds : (testLoop condition).outcome s = (.ok true, u)) (block : body = before ++ l :: after)
      (ran : (runPass (runner depth) before).outcome u = (.ok (), v)) (raises : Raises depth l.text false 0 v target t) :
      LoopFault depth condition body (n + 1) s (.runtime (.loopFailed (Fault.jump target).message)) t
  | index {n : Nat} {s t : Session} {f g : Fault} (unreadable : (act Pkg.touch).outcome s = (.error (.fault f), t))
      (told : g = f ∨ g = asLoop f) : LoopFault depth condition body n s g t

/-- A loop fails after rounds, `n` of which would be allowed. -/
def LoopFails (depth : Nat) (condition : List Char) (body : List Line) (n : Nat) (s : Session) (f : Fault) (t : Session) :
    Prop :=
  ∃ k m u, k + m = n ∧ Rounds (runner depth) condition body k s u ∧ LoopFault depth condition body m u f t

/-! ## The condition -/

/-- Whether a condition holds, from what its text evaluates to. -/
theorem outcome_conditionHolds (condition : List Char) (s : Session) :
    (conditionHolds condition).outcome s =
      let r := (Expr.evaluate s.vars condition).run.run s.depot.world.store
      ((r.1.map (·.truthy r.2)).mapError .fault, s.withStore r.2) := by
  have ran := outcome_evaluation (Expr.evaluate s.vars condition) s
  unfold conditionHolds value
  rw [bind_assoc, bind_ok (outcome_session s)]
  rcases ended : (Expr.evaluate s.vars condition).run.run s.depot.world.store with ⟨f | x, store⟩
  · rw [ended] at ran
    exact bind_error ran
  · rw [ended] at ran
    exact (bind_ok ran).trans (bind_ok (outcome_world _))

theorem leads_expression (env : Env) (text : List Char) (store : Store) :
    Leads (Expr.evaluate env text) store (fun _ _ => True) fun f _ => ∃ text, f = .runtime (.evaluating text) :=
  .tryCatch ((Leads.run _ _).mono (fun _ _ _ => trivial) fun _ _ _ => .throw ⟨_, rfl⟩)

/-- A test fails as the index cannot be looked at, or as the condition has no value. -/
theorem leads_testLoop (condition : List Char) (s : Session) :
    Leads (testLoop condition) s (fun _ _ => True) fun e t =>
      (act Pkg.touch).outcome s = (.error e, t) ∨ ∃ text, e = .fault (.runtime (.evaluating text)) := by
  refine .bind ((Leads.run _ s).mono (fun _ t _ => ?_) fun _ _ => .inl)
  have ran : (conditionHolds condition).run.run t = _ := outcome_conditionHolds condition t
  have failed := leads_expression t.vars condition t.depot.world.store
  rcases ended : (Expr.evaluate t.vars condition).run.run t.depot.world.store with ⟨f | x, store⟩
  · obtain ⟨text, rfl⟩ := failed.reason ended
    rw [ended] at ran
    exact .of_error ran (.inr ⟨text, rfl⟩)
  · rw [ended] at ran
    exact .of_ok ran trivial

/-- A test changes nothing but the folder of packages and lists, and none that was there if its calls change none. -/
theorem exists_world_testLoop (condition : List Char) (s : Session) :
    ∃ disk store, ((testLoop condition).outcome s).2 =
        { s with depot := { s.depot with world := { s.depot.world with disk, store } } } ∧
      (Expr.Quiet (Expr.callsOf s.vars condition s.depot.world.store) → s.depot.world.store.Grows store) := by
  obtain ⟨disk, made⟩ := Pkg.exists_disk_touch s.depot.world
  have looked := outcome_act Pkg.touch s
  rw [made] at looked
  unfold testLoop
  rcases ended : (Pkg.touch.run.run s.depot.world).1 with e | _
  · rw [ended] at looked
    rw [bind_error looked]
    exact ⟨disk, _, rfl, fun _ => .refl _⟩
  · rw [ended] at looked
    rw [bind_ok looked, outcome_conditionHolds]
    exact ⟨disk, _, rfl, Expr.grows_evaluate⟩

/-! ## Rounds -/

/-- A loop, with the look at the index that comes before it. -/
def loopRounds (run : Runner) (condition : List Char) (body : List Line) (n : Nat) : Run Unit := do
  act Pkg.touch
  repeatLoop run condition body n

theorem loopRounds_zero (run : Runner) (condition : List Char) (body : List Line) :
    loopRounds run condition body 0 =
      (do if ← testLoop condition then broken (.loopLimit maxIterations)) := (bind_assoc _ _ _).symm

theorem loopRounds_succ (run : Runner) (condition : List Char) (body : List Line) (n : Nat) :
    loopRounds run condition body (n + 1) =
      (do if ← testLoop condition then do runPass run body; loopRounds run condition body n) := (bind_assoc _ _ _).symm

/-- After rounds a loop goes on with fewer passes left. -/
theorem Rounds.outcome (rounds : Rounds run condition body k s t) (m : Nat) :
    (loopRounds run condition body (k + m)).outcome s = (loopRounds run condition body m).outcome t := by
  induction rounds with
  | none s => rw [Nat.zero_add]
  | @more k s t u v holds pass rest ih =>
    rw [Nat.succ_add, loopRounds_succ, bind_ok holds, if_pos rfl, bind_ok pass, ih]

theorem outcome_loopRounds_false (failed : (testLoop condition).outcome s = (.ok false, t)) (m : Nat) :
    (loopRounds run condition body m).outcome s = (.ok (), t) := by
  cases m with
  | zero =>
    rw [loopRounds_zero, bind_ok failed]
    rfl
  | succ m =>
    rw [loopRounds_succ, bind_ok failed]
    rfl

/-- A block is left early by a line that jumps, if the lines tell of their other faults. -/
theorem leads_runPass (depth : Nat) (body : List Line) (s : Session) :
    Leads (runPass (runner (depth + 1)) body) s (fun _ _ => True) fun e t => ∀ f, e = .fault f →
      ∃ before l after u target, body = before ++ l :: after ∧ f = .jump target ∧
        (runPass (runner (depth + 1)) before).outcome s = (.ok (), u) ∧ Raises (depth + 1) l.text false 0 u target t := by
  induction body generalizing s with
  | nil => exact .pure trivial
  | cons l body ih =>
    refine .bind ((Leads.run _ s).mono (fun _ t ran => ?_) fun e t ended f fault => ?_)
    · refine (ih t).mono (fun _ _ => id) fun e v jumped f fault => ?_
      obtain ⟨before, l', after, u, target, rfl, jump, passed, raises⟩ := jumped f fault
      exact ⟨l :: before, l', after, u, target, rfl, jump, (bind_ok ran).trans passed, raises⟩
    · obtain ⟨target, rfl⟩ := tells_lineWith (runner depth) l.text false 0 s f (fault ▸ congrArg Prod.fst ended)
      subst fault
      exact ⟨[], l, body, s, target, rfl, rfl, rfl, (outcome_runner_jump_iff _ _ _ _ _ _ _).mp ended⟩

/-- What a loop comes to, round by round. -/
theorem leads_loopRounds (depth : Nat) (condition : List Char) (body : List Line) (n : Nat) (s : Session) :
    Leads (loopRounds (runner (depth + 1)) condition body n) s
      (fun _ t => ∃ k u, k ≤ n ∧ Rounds (runner (depth + 1)) condition body k s u ∧
        (testLoop condition).outcome u = (.ok false, t))
      fun e t => ∀ f, e = .fault f → LoopFails (depth + 1) condition body n s (asLoop f) t := by
  have untested : ∀ {n s e t}, (testLoop condition).outcome s = (.error e, t) → ∀ f, e = .fault f →
      LoopFails (depth + 1) condition body n s (asLoop f) t := by
    rintro n s e t ended f rfl
    refine ⟨0, n, s, Nat.zero_add n, .none s, ?_⟩
    rcases (leads_testLoop condition s).reason ended with unreadable | ⟨text, same⟩
    · exact .index unreadable (.inr rfl)
    · cases same
      exact .condition ended
  induction n generalizing s with
  | zero =>
    rw [loopRounds_zero]
    refine .bind ((Leads.run _ s).mono (fun holds t tested => ?_) fun _ _ => untested)
    cases holds with
    | false => exact .pure ⟨0, s, Nat.le_refl 0, .none s, tested⟩
    | true =>
      refine .throw ?_
      rintro f ⟨⟩
      exact ⟨0, 0, s, rfl, .none s, .limit tested⟩
  | succ n ih =>
    rw [loopRounds_succ]
    refine .bind ((Leads.run _ s).mono (fun holds t tested => ?_) fun _ _ => untested)
    cases holds with
    | false => exact .pure ⟨0, s, Nat.zero_le _, .none s, tested⟩
    | true =>
      refine .bind ((leads_runPass depth body t).traced.mono (fun _ u pass => ?_) fun e u left f fault => ?_)
      · refine (ih u).mono ?_ ?_
        · rintro _ v ⟨k, w, within, rounds, ended⟩
          exact ⟨k + 1, w, Nat.succ_le_succ within, .more tested pass.1 rounds, ended⟩
        · intro e v failed f fault
          obtain ⟨k, m, w, rfl, rounds, reason⟩ := failed f fault
          exact ⟨k + 1, m, w, Nat.succ_add k m, .more tested pass.1 rounds, reason⟩
      · obtain ⟨before, l, after, v, target, block, rfl, ran, raises⟩ := left f fault
        exact ⟨0, n + 1, s, Nat.zero_add _, .none s, .jump tested block ran raises⟩

/-- A loop is left as its rounds end, but that it tells of foreign faults in its own words. -/
theorem outcome_executeLoop (looked : (act Pkg.touch).outcome s = (.ok (), t)) : (executeLoop run condition body).outcome s =
      (((loopRounds run condition body maxIterations).outcome s).1.mapError (reworded asLoop),
        ((loopRounds run condition body maxIterations).outcome s).2) := by
  have entered : (executeLoop run condition body).outcome s =
      (wrappingForeign .loopFailed (repeatLoop run condition body maxIterations)).outcome t := bind_ok looked
  rw [entered, wrappingForeign_eq, outcome_recover_fail, loopRounds, bind_ok looked]
  rfl

/-- Where a test comes to an answer after rounds, the index could be looked at. -/
theorem Rounds.looked (rounds : Rounds run condition body k s u) {b : Bool}
    (tested : (testLoop condition).outcome u = (.ok b, t)) : ∃ v, (act Pkg.touch).outcome s = (.ok (), v) := by
  have first : ∃ b t, (testLoop condition).outcome s = (.ok b, t) := by
    cases rounds with
    | none => exact ⟨b, t, tested⟩
    | more holds => exact ⟨_, _, holds⟩
  obtain ⟨b, t, tested⟩ := first
  obtain ⟨_, v, looked, -⟩ := bind_eq_ok_iff.mp tested
  exact ⟨v, looked⟩

theorem Rounds.outcome_executeLoop (rounds : Rounds run condition body k s u) (within : k ≤ maxIterations)
    (failed : (testLoop condition).outcome u = (.ok false, t)) :
    (executeLoop run condition body).outcome s = (.ok (), t) := by
  obtain ⟨v, looked⟩ := rounds.looked failed
  obtain ⟨m, same⟩ := Nat.exists_eq_add_of_le within
  rw [Run.outcome_executeLoop looked, same, rounds.outcome, outcome_loopRounds_false failed]
  rfl

/-- **The guard of a loop is exact.** A loop ends well just if its condition fails after at most as many rounds as are allowed. A
test of the condition leaves all but the folder of packages and lists as it was. -/
theorem loop_guard_exact (depth : Nat) (condition : List Char) (body : List Line) (s : Session) :
    (∀ t, (executeLoop (runner (depth + 1)) condition body).outcome s = (.ok (), t) ↔
        ∃ k u, k ≤ maxIterations ∧ Rounds (runner (depth + 1)) condition body k s u ∧
          (testLoop condition).outcome u = (.ok false, t)) ∧
      (∀ u t, Rounds (runner (depth + 1)) condition body maxIterations s u →
        (testLoop condition).outcome u = (.ok true, t) →
        (executeLoop (runner (depth + 1)) condition body).outcome s =
          (.error (.fault (.runtime (.loopLimit maxIterations))), t)) ∧
      (∀ f t, (executeLoop (runner (depth + 1)) condition body).outcome s = (.error (.fault f), t) →
        LoopFails (depth + 1) condition body maxIterations s f t) ∧
      ∀ u, ∃ disk store, ((testLoop condition).outcome u).2 =
          { u with depot := { u.depot with world := { u.depot.world with disk, store } } } ∧
        (Expr.Quiet (Expr.callsOf u.vars condition u.depot.world.store) → u.depot.world.store.Grows store) := by
  have leads := leads_loopRounds depth condition body maxIterations s
  refine ⟨fun t => ⟨fun ended => ?_, ?_⟩, fun u t rounds holds => ?_, fun f t ended => ?_, exists_world_testLoop condition⟩
  · obtain ⟨_, v, looked, -⟩ := bind_eq_ok_iff.mp ended
    rw [outcome_executeLoop looked] at ended
    rcases ran : (loopRounds (runner (depth + 1)) condition body maxIterations).outcome s with ⟨e | _, w⟩
    · rw [ran] at ended
      cases ended
    · rw [ran] at ended
      cases ended
      exact leads.result ran
  · rintro ⟨k, u, within, rounds, failed⟩
    exact rounds.outcome_executeLoop within failed
  · obtain ⟨v, looked⟩ := rounds.looked holds
    have last := rounds.outcome 0
    rw [loopRounds_zero, bind_ok holds] at last
    rw [outcome_executeLoop looked]
    exact congrArg (fun r : Except Stop Unit × Session => (r.1.mapError (reworded asLoop), r.2)) last
  · rcases looked : (act Pkg.touch).outcome s with ⟨e | _, v⟩
    · cases (bind_error looked).symm.trans ended
      exact ⟨0, maxIterations, s, Nat.zero_add _, .none s, .index looked (.inl rfl)⟩
    · rw [outcome_executeLoop looked] at ended
      rcases ran : (loopRounds (runner (depth + 1)) condition body maxIterations).outcome s with ⟨e | _, w⟩
      · rw [ran] at ended
        cases e with
        | fault g =>
          cases ended
          exact leads.reason ran g rfl
        | _ => cases ended
      · rw [ran] at ended
        cases ended

/-- A session with a list for a condition to take from. -/
def emptying : Session := { vars := [("x", .list 0)], depot.world.store.lists := #[[.int 0]] }

/-- A loop without a pass leaves a list that its condition has changed. -/
theorem condition_changes_list :
    (emptying.depot.world.store.items 0).length = 1 ∧
      ∃ t, (executeLoop line "x.pop()".toList []).outcome emptying = (.ok (), t) ∧
        (t.depot.world.store.items 0).length = 0 := by
  have empty : (((testLoop "x.pop()".toList).outcome emptying).2.depot.world.store.items 0).length = 0 := by decide +kernel
  have failed : ((testLoop "x.pop()".toList).outcome emptying).1.toOption = some false := by decide +kernel
  rcases tested : (testLoop "x.pop()".toList).outcome emptying with ⟨e | b, t⟩
  · rw [tested] at failed
    cases failed
  · rw [tested] at failed empty
    cases failed
    exact ⟨rfl, t, (Rounds.none emptying).outcome_executeLoop (Nat.zero_le _) tested, empty⟩

end LineScript.Run
