
import LineScript.Session

/-!
# What a step may change

`Moves R x` says that `x` takes every session to one that stands in the relation `R` to it, however `x` ends. A frame
condition is such a relation (`t.functions = s.functions`), and so is an invariant (`Inv s → Inv t`). For preorders it is
enough to look at the parts of a step.
-/

namespace LineScript.Run

variable {s t : Session}

variable {α β : Type}

variable {k : α → Run β} (x : Run α)

def outcome (x : Run α) (s : Session) : Except Stop α × Session := x.run.run s

/-! ## Outcomes of the parts of a step -/

@[simp] theorem outcome_pure (a : α) (s : Session) : outcome (pure a) s = (.ok a, s) := rfl

@[simp] theorem outcome_throw (e : Stop) (s : Session) : outcome (throw e : Run α) s = (.error e, s) := rfl

@[simp] theorem outcome_session (s : Session) : outcome session s = (.ok s, s) := rfl

@[simp] theorem outcome_adjust (f : Session → Session) (s : Session) : outcome (adjust f) s = (.ok (), f s) := rfl

theorem outcome_bind (k : α → Run β) (s : Session) :
    (x >>= k).outcome s =
      (match (x.outcome s).1 with
        | .ok a => (k a).outcome (x.outcome s).2
        | .error e => (.error e, (x.outcome s).2)) := by
  unfold outcome
  rw [ExceptT.run_bind, StateT.run_bind]
  rcases StateT.run (ExceptT.run x) s with ⟨r, t⟩
  cases r <;> rfl

theorem outcome_tryCatch (h : Stop → Run α) (s : Session) :
    (tryCatch x h).outcome s =
      (match (x.outcome s).1 with
        | .ok a => (.ok a, (x.outcome s).2)
        | .error e => (h e).outcome (x.outcome s).2) := by
  unfold outcome
  rw [ExceptT.run_tryCatch, StateT.run_bind]
  rcases StateT.run (ExceptT.run x) s with ⟨r, t⟩
  cases r <;> rfl

theorem bind_ok {x : Run α} {a : α} (h : x.outcome s = (.ok a, t)) : (x >>= k).outcome s = (k a).outcome t := by
  rw [outcome_bind, h]

theorem bind_error {x : Run α} {e : Stop} (h : x.outcome s = (.error e, t)) :
    (x >>= k).outcome s = (.error e, t) := by
  rw [outcome_bind, h]

theorem bind_eq_ok_iff {x : Run α} {b : β} :
    (x >>= k).outcome s = (.ok b, t) ↔ ∃ a u, x.outcome s = (.ok a, u) ∧ (k a).outcome u = (.ok b, t) := by
  refine ⟨fun ended => ?_, fun ⟨_, _, first, second⟩ => (bind_ok first).trans second⟩
  rcases first : x.outcome s with ⟨e | a, u⟩
  · rw [bind_error first] at ended
    cases ended
  · exact ⟨a, u, rfl, (bind_ok first).symm.trans ended⟩

theorem outcome_pkg (x : Pkg α) (s : Session) :
    (pkg x).outcome s = ((x.run.run s.depot).1, { s with depot := (x.run.run s.depot).2 }) := by
  show outcome (match (x.run.run s.depot).1 with
    | .ok a => pure a
    | .error e => throw e) { s with depot := (x.run.run s.depot).2 } = _
  cases (x.run.run s.depot).1 <;> rfl

theorem outcome_act (x : Act α) (s : Session) :
    (act x).outcome s =
      ((x.run.run s.depot.world).1, { s with depot := { s.depot with world := (x.run.run s.depot.world).2 } }) := by
  unfold act
  rw [outcome_pkg, Pkg.run_act]

theorem outcome_world (s : Session) : world.outcome s = (.ok s.depot.world, s) := rfl

theorem outcome_recover_ok {x : Run α} {a : α} (ok : x.outcome s = (.ok a, t)) (h : Fault → Run α) :
    (recover x h).outcome s = (.ok a, t) := by
  unfold recover
  rw [outcome_tryCatch, ok]

def reworded (words : Fault → Fault) : Stop → Stop
  | .fault f => .fault (words f)
  | e => e

theorem outcome_recover_fail (words : Fault → Fault) (s : Session) :
    (recover x fun f => fail (words f)).outcome s = ((x.outcome s).1.mapError (reworded words), (x.outcome s).2) := by
  unfold recover
  rw [outcome_tryCatch]
  rcases x.outcome s with ⟨e | a, t⟩
  · cases e <;> rfl
  · rfl

theorem outcome_recover_congr {x y : Run α} (same : x.outcome s = y.outcome t) (h : Fault → Run α) :
    (recover x h).outcome s = (recover y h).outcome t := by
  unfold recover
  rw [outcome_tryCatch, outcome_tryCatch, same]

theorem outcome_note (silent : s.debug = false) (text : String) : (note text).outcome s = (.ok (), s) := by
  unfold note
  rw [bind_ok (outcome_session s), silent]
  rfl

def said (text : String) (s : Session) : Session :=
  { s with depot := { s.depot with world := ((Act.say text).run.run s.depot.world).2 } }

theorem outcome_say (text : String) (s : Session) : (act (Act.say text)).outcome s = (.ok (), said text s) := rfl

theorem outcome_ensuring (f : Session → Session) (s : Session) :
    (ensuring x (adjust f)).outcome s = ((x.outcome s).1, f (x.outcome s).2) := by
  unfold ensuring
  rcases h : x.outcome s with ⟨r, t⟩
  have caught : (tryCatch (do return Except.ok (← x)) fun e => return Except.error e).outcome s = (.ok r, t) := by
    rw [outcome_tryCatch, outcome_bind, h]
    cases r <;> rfl
  rw [bind_ok caught]
  cases r <;> rfl

/-! ## Relations between the session before a step and the one after it -/

/-- Every session is taken to one that stands in the relation to it, however the step ends. -/
def Moves (R : Session → Session → Prop) (x : Run α) : Prop := ∀ s, R s (x.outcome s).2

/-- Relations that steps can be put together for, and that do not look at what is outside the session. -/
structure Stable (R : Session → Session → Prop) : Prop where
  refl : ∀ s, R s s
  trans : ∀ {s t u}, R s t → R t u → R s u
  outside : ∀ s d, R s { s with depot := d }

variable {R S T : Session → Session → Prop}

namespace Moves

variable {x : Run α}

theorem mono (h : ∀ s t, R s t → S s t) (hx : Moves R x) : Moves S x :=
  fun s => h _ _ (hx s)

/-- Two steps in a row, each by a relation of its own. The first one may also stop. -/
theorem andThen {k : α → Run β} (stop : ∀ s t, R s t → T s t)
    (go : ∀ s t u, R s t → S t u → T s u) (hx : Moves R x) (hk : ∀ a, Moves S (k a)) : Moves T (x >>= k) := by
  intro s
  have hs := hx s
  rcases h : x.outcome s with ⟨r, t⟩
  rw [h] at hs
  cases r with
  | ok a =>
    rw [bind_ok h]
    exact go _ _ _ hs (hk a t)
  | error e =>
    rw [bind_error h]
    exact stop _ _ hs

protected theorem adjust {f : Session → Session} (h : ∀ s, R s (f s)) : Moves R (adjust f) := h

protected theorem guard (refl : ∀ s, R s s) {c : Prop} [Decidable c] {e : Stop} {k : PUnit → Run α}
    (hk : ∀ u, Moves R (k u)) : Moves R (if c then throw e >>= k else k ⟨⟩) := by
  split
  · exact refl
  · exact hk _

protected theorem wrapping (wrap : String → Runtime) (hx : Moves R x) : Moves R (wrapping wrap x) := by
  intro s
  have hs := hx s
  unfold Run.wrapping Run.recover
  rw [outcome_tryCatch]
  rcases h : (x.outcome s).1 with e | a
  · cases e <;> exact hs
  · exact hs

variable (hR : Stable R)

include hR

protected theorem pure (a : α) : Moves R (pure a) := hR.refl

protected theorem throw (e : Stop) : Moves R (throw e : Run α) := hR.refl

protected theorem fail (f : Fault) : Moves R (fail f : Run α) := hR.refl

protected theorem malformed (c : Malformed) : Moves R (malformed c : Run α) := hR.refl

protected theorem broken (c : Runtime) : Moves R (broken c : Run α) := hR.refl

protected theorem session : Moves R session := hR.refl

protected theorem bind {k : α → Run β} (hx : Moves R x) (hk : ∀ a, Moves R (k a)) : Moves R (x >>= k) :=
  andThen (fun _ _ h => h) (fun _ _ _ => hR.trans) hx hk

protected theorem tryCatch {h : Stop → Run α} (hx : Moves R x)
    (hh : ∀ e, Moves R (h e)) : Moves R (tryCatch x h) := by
  intro s
  have hs := hx s
  rcases hr : x.outcome s with ⟨r, t⟩
  rw [hr] at hs
  cases r with
  | ok a =>
    rw [outcome_tryCatch, hr]
    exact hs
  | error e =>
    rw [outcome_tryCatch, hr]
    exact hR.trans hs (hh e t)

protected theorem recover {h : Fault → Run α} (hx : Moves R x)
    (hh : ∀ f, Moves R (h f)) : Moves R (recover x h) := by
  apply Moves.tryCatch hR hx
  intro e
  cases e with
  | fault f => exact hh f
  | _ => exact .throw hR _

/-- Handling a fault starts in the session that the fault leaves. -/
theorem recover_after {h : Fault → Run α} (hh : ∀ f, Moves R (h f)) (x : Run α) (s : Session) :
    R (x.outcome s).2 ((recover x h).outcome s).2 := by
  unfold Run.recover
  rw [outcome_tryCatch]
  rcases x.outcome s with ⟨(f | _ | _ | _) | a, t⟩
  · exact hh f t
  all_goals exact hR.refl t

/-! ## Steps over lists -/

protected theorem forM {f : α → Run PUnit} (hf : ∀ a, Moves R (f a)) :
    ∀ xs : List α, Moves R (xs.forM f)
  | [] => .pure hR _
  | a :: xs => .bind hR (hf a) fun _ => Moves.forM hf xs

/-! ## Steps that stay outside the session -/

protected theorem pkg (x : Pkg α) : Moves R (pkg x) := by
  intro s
  rw [outcome_pkg]
  exact hR.outside s _

protected theorem act (x : Act α) : Moves R (act x) := .pkg hR _

protected theorem world : Moves R world := .bind hR (.session hR) fun _ => .pure hR _

protected theorem note (text : String) : Moves R (note text) := by
  apply Moves.bind hR (.session hR)
  intro s
  split
  · exact .act hR _
  · exact .pure hR _

protected theorem value (s : List Char) : Moves R (value s) :=
  .bind hR (.session hR) fun _ => .act hR _

protected theorem evaluate (s : List Char) : Moves R (evaluate s) :=
  .bind hR (.act hR _) fun _ => .value hR s

end Moves

end LineScript.Run
