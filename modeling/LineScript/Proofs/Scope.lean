
import LineScript.Proofs.Footprint

/-!
# The scope of a call

A call binds its parameters in the variables of the caller and gives them back what they stood for when it ends. The bindings
are undone one after the other: giving back swallows a binding of any name that it still has to give back, and it does not
move names that were there before the call.
-/

namespace LineScript.Run

open Text Line List

variable {p q : String} {saved env : Env} {params : List String} {t : Session}

/-! ## Giving back -/

def Known (saved env : Env) : Prop := ∀ x, (saved.find? x).isSome → (env.find? x).isSome

theorem Known.set (h : Known saved env) (p : String) (v : Value) : Known saved (env.set p v) := by
  intro x hx
  by_cases hpx : p = x
  · subst hpx
    rw [Table.find?_set_self]
    rfl
  · rw [Table.find?_set_of_ne env hpx]
    exact h x hx

theorem Known.restoreOne (h : Known saved env) (p : String) : Known saved (restoreOne saved env p) := by
  unfold Run.restoreOne
  split
  · exact h.set p _
  · rename_i absent
    intro x hx
    by_cases hpx : p = x
    · subst hpx
      rw [absent] at hx
      cases hx
    · rw [Table.find?_erase_of_ne env hpx]
      exact h x hx

theorem find?_restoreOne_self (saved env : Env) (p : String) : (restoreOne saved env p).find? p = saved.find? p := by
  unfold restoreOne
  split
  · rename_i v there
    rw [Table.find?_set_self, there]
  · rename_i absent
    rw [Table.find?_erase_self, absent]

theorem find?_restoreOne_of_ne (saved env : Env) (h : p ≠ q) : (restoreOne saved env p).find? q = env.find? q := by
  unfold restoreOne
  split
  · exact Table.find?_set_of_ne env h _
  · exact Table.find?_erase_of_ne env h

/-- A name is given back if it is a parameter, or is kept if it did not change. -/
theorem find?_restore_of_or (h : p ∈ params ∨ env.find? p = saved.find? p) :
    (restore saved params env).find? p = saved.find? p := by
  unfold restore
  -- what holds of the name after its last place in the list is not changed by the places of other names
  induction params generalizing env with
  | nil => exact h.resolve_left not_mem_nil
  | cons q params ih =>
    rw [foldl_cons]
    apply ih
    by_cases hqp : q = p
    · subst hqp
      exact Or.inr (find?_restoreOne_self saved env q)
    · rw [find?_restoreOne_of_ne saved env hqp]
      exact h.imp_left fun hp => (mem_cons.mp hp).resolve_left fun e => hqp e.symm

theorem find?_restore_of_not_mem (saved env : Env) (hp : p ∉ params) : (restore saved params env).find? p = env.find? p := by
  unfold restore
  induction params generalizing env with
  | nil => rfl
  | cons q params ih =>
    have other : q ≠ p := by
      rintro rfl
      exact hp mem_cons_self
    rw [foldl_cons, ih _ fun there => hp (mem_cons_of_mem q there), find?_restoreOne_of_ne saved env other]

theorem restoreOne_set_self (saved env : Env) (p : String) (v : Value) :
    restoreOne saved (env.set p v) p = restoreOne saved env p := by
  unfold restoreOne
  split
  · exact Table.set_set env p v _
  · exact Table.erase_set_self env p v

/-- A binding of one name and giving back another can be swapped. -/
theorem restoreOne_set_of_ne (known : Known saved env) (h : p ≠ q) (v : Value) :
    restoreOne saved (env.set p v) q = (restoreOne saved env q).set p v := by
  unfold restoreOne
  split
  · rename_i w there
    exact Table.set_comm env h (known q (by rw [there]; rfl)) v w
  · exact Table.erase_set_of_ne env h v

/-- Giving back swallows a binding of a name that is given back. -/
theorem restore_set (known : Known saved env) (hp : p ∈ params) (v : Value) :
    restore saved params (env.set p v) = restore saved params env := by
  unfold restore
  -- the binding moves past the names before `p`; at the place of `p` it is overwritten or erased
  induction params generalizing env with
  | nil => cases hp
  | cons q params ih =>
    rw [foldl_cons, foldl_cons]
    by_cases hpq : p = q
    · subst hpq
      rw [restoreOne_set_self]
    · have hp' : p ∈ params := (mem_cons.mp hp).resolve_left hpq
      rw [restoreOne_set_of_ne known hpq]
      exact ih (known.restoreOne q) hp'

theorem restore_self (env : Env) (params : List String) : restore env params env = env := by
  have one : ∀ p, restoreOne env env p = env := by
    intro p
    unfold restoreOne
    split
    · exact Table.set_of_find? env ‹_›
    · exact Table.erase_of_find? env ‹_›
  unfold restore
  induction params with
  | nil => rfl
  | cons p params ih => rw [foldl_cons, one, ih]

/-! ## Binding, and what a call does -/

/-- Whatever is given back to the parameters after the step could have been given back before it. -/
def Undone (params : List String) (s t : Session) : Prop :=
  ∀ saved, Known saved s.vars → Known saved t.vars ∧ restore saved params t.vars = restore saved params s.vars

theorem stable_undone (params : List String) : Stable (Undone params) where
  refl _ _ known := ⟨known, rfl⟩
  trans first second saved known := by
    obtain ⟨known', same⟩ := first saved known
    obtain ⟨known'', same'⟩ := second saved known'
    exact ⟨known'', same'.trans same⟩
  outside _ _ _ known := ⟨known, rfl⟩

theorem Moves.bindFrom_undone (i : Nat) {pairs : List (String × List Char)} (names : ∀ pair ∈ pairs, pair.1 ∈ params) :
    Moves (Undone params) (bindFrom i pairs) := by
  have stable := stable_undone params
  induction pairs generalizing i with
  | nil => exact .pure stable _
  | cons pair pairs ih =>
    obtain ⟨param, arg⟩ := pair
    have first : param ∈ params := names _ mem_cons_self
    refine .bind stable (.recover stable ?_ fun f => ?_) fun _ =>
      ih (i + 1) fun pair h => names pair (mem_cons_of_mem _ h)
    · refine .bind stable (.argument stable arg) fun v => .adjust fun s saved known => ?_
      exact ⟨known.set param v, restore_set known first v⟩
    · exact .bind stable (.act stable _) fun _ => .broken stable _

/-- The call `code` finds the function `f`, has as many arguments as `f` has parameters, and can bind all of them:
the body starts in the session `t`. -/
structure Enters (s : Session) (code : List Char) (f : Func) (t : Session) : Prop where
  marked : endsWith (splitCall code).1 ['_'] = true
  found : s.functions.find? (String.ofList (splitCall code).1.dropLast) = some f
  arity : (splitCall code).2.length = f.params.length
  bound : (bindFrom 1 (f.params.zip (splitCall code).2)).outcome s = (.ok (), t)

def bodyOutcome (run : Runner) (importing : Bool) (f : Func) (saved : Env) (t : Session) : Except Stop Unit × Session :=
  let (r, u) := (runBody run importing f.body).outcome t
  (r, { u with vars := restore saved f.params u.vars })

section

variable (run : Runner) {code : List Char} (importing : Bool) {s : Session} {f : Func}

theorem outcome_call_of_found (marked : endsWith (splitCall code).1 ['_'])
    (found : s.functions.find? (String.ofList (splitCall code).1.dropLast) = some f) :
    (call run code importing).outcome s =
      (if (splitCall code).2.length ≠ f.params.length then
        (.error (.fault (.runtime (.arity (String.ofList (splitCall code).1.dropLast) f.params.length
          (splitCall code).2.length))), s)
      else
        (ensuring (do bindFrom 1 (f.params.zip (splitCall code).2); runBody run importing f.body)
          (adjust fun t => { t with vars := restore s.vars f.params t.vars })).outcome s) := by
  unfold call
  dsimp only
  rw [marked, Bool.not_true, if_neg Bool.false_ne_true, bind_ok (outcome_session s), found]
  dsimp only
  split <;> rfl

/-- Once the body has started, the call ends as the body does. -/
theorem outcome_call_of_enters (h : Enters s code f t) :
    (call run code importing).outcome s = bodyOutcome run importing f s.vars t := by
  rw [outcome_call_of_found run importing h.marked h.found, if_neg (not_not_intro h.arity), outcome_ensuring,
    bind_ok h.bound]
  rfl

/-- However far the binding of the arguments gets, it is undone. -/
theorem restore_bindFrom (f : Func) (args : List (List Char)) (s : Session) :
    restore s.vars f.params ((bindFrom 1 (f.params.zip args)).outcome s).2.vars = s.vars := by
  have names : ∀ pair ∈ f.params.zip args, pair.1 ∈ f.params := fun _ h => (of_mem_zip h).1
  have undone := Moves.bindFrom_undone 1 names s s.vars fun _ h => h
  exact undone.2.trans (restore_self s.vars f.params)

/-- A call that does not reach its body fails, and the variables are as before. -/
theorem call_fails_of_not_enters (h : ¬ ∃ f t, Enters s code f t) :
    (∃ e, ((call run code importing).outcome s).1 = .error e) ∧ ((call run code importing).outcome s).2.vars = s.vars := by
  cases marked : endsWith (splitCall code).1 ['_'] with
  | false =>
    unfold call
    dsimp only
    rw [marked]
    exact ⟨⟨_, rfl⟩, rfl⟩
  | true =>
  cases found : s.functions.find? (String.ofList (splitCall code).1.dropLast) with
  | none =>
    unfold call
    dsimp only
    rw [marked, Bool.not_true, if_neg Bool.false_ne_true, bind_ok (outcome_session s), found]
    exact ⟨⟨_, rfl⟩, rfl⟩
  | some f =>
  rw [outcome_call_of_found run importing marked found]
  by_cases arity : (splitCall code).2.length = f.params.length
  · have undone := restore_bindFrom f (splitCall code).2 s
    rcases bound : (bindFrom 1 (f.params.zip (splitCall code).2)).outcome s with ⟨r, t⟩
    rw [bound] at undone
    cases r with
    | ok u => exact absurd ⟨f, t, marked, found, arity, bound⟩ h
    | error e =>
      rw [if_neg (not_not_intro arity), outcome_ensuring, bind_error bound]
      exact ⟨⟨e, rfl⟩, undone⟩
  · rw [if_pos arity]
    exact ⟨⟨_, rfl⟩, rfl⟩

theorem vars_call_of_empty (h : Enters s code f t) (empty : f.body = []) :
    ((call run code importing).outcome s).2.vars = s.vars := by
  have undone := restore_bindFrom f (splitCall code).2 s
  rw [h.bound] at undone
  rw [outcome_call_of_enters run importing h, bodyOutcome, empty]
  exact undone

end

/-- However a call ends, each parameter of the function stands for what it stood for before, or again for nothing. A call that
ends before a line of the body is run leaves all variables as they were, in their order. -/
theorem call_keeps_scope (run : Runner) (code : List Char) (importing : Bool) (s : Session) :
    (∀ f, s.functions.find? (String.ofList (splitCall code).1.dropLast) = some f → ∀ p ∈ f.params,
      ((call run code importing).outcome s).2.vars.find? p = s.vars.find? p) ∧
    ((¬ ∃ f t, Enters s code f t) → ∃ e, ((call run code importing).outcome s).1 = .error e) ∧
    ((∀ f t, Enters s code f t → f.body = []) → ((call run code importing).outcome s).2.vars = s.vars) := by
  by_cases entered : ∃ f t, Enters s code f t
  · obtain ⟨g, t, h⟩ := entered
    refine ⟨fun f found p hp => ?_, fun never => absurd ⟨g, t, h⟩ never, fun empty => ?_⟩
    · obtain rfl : f = g := Option.some.inj (found.symm.trans h.found)
      rw [outcome_call_of_enters run importing h]
      exact find?_restore_of_or (Or.inl hp)
    · exact vars_call_of_empty run importing h (empty g t h)
  · obtain ⟨fails, same⟩ := call_fails_of_not_enters run importing entered
    exact ⟨fun _ _ p _ => by rw [same], fun _ => fails, fun _ => same⟩

/-- A parameter that is listed twice, with a body that changes it and then jumps away. -/
def twiceBound : Session :=
  { vars := [("a", .int 1), ("b", .int 2)]
    functions := [("f", ⟨["a", "a"], [⟨1, "a=b+5".toList⟩, ⟨1, "goto1".toList⟩]⟩)] }

theorem call_keeps_scope_twiceBound :
    ((call line "f_ b, 7".toList false).outcome twiceBound).2.vars.find? "a" = twiceBound.vars.find? "a" := by
  have name : String.ofList (splitCall "f_ b, 7".toList).1.dropLast = "f" := by decide +kernel
  have found : twiceBound.functions.find? (String.ofList (splitCall "f_ b, 7".toList).1.dropLast) =
      some ⟨["a", "a"], [⟨1, "a=b+5".toList⟩, ⟨1, "goto1".toList⟩]⟩ := by
    rw [name]
    rfl
  exact (call_keeps_scope line "f_ b, 7".toList false twiceBound).1 _ found "a" mem_cons_self

end LineScript.Run
