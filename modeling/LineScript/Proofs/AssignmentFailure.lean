
import LineScript.Proofs.ListGrowth
import LineScript.Proofs.ModuleFiles
import LineScript.Proofs.RunSteps

/-!
# Assignments that fail

A failed assignment should leave the variables alone, and the lists that they stand for. But once a value is written its text
is made, for a note that is shown in debug mode only; a whole number can have too many digits for that, and then the value
stays. Expressions that call a method that changes a list are left out.
-/

namespace LineScript

open Text Line List

namespace Store

theorem items_setItems_self {s : Store} {ref : Nat} (there : ref < s.lists.size) (vs : List Value) :
    (s.setItems ref vs).items ref = vs := by
  simp [items, setItems, there]

theorem items_setItems_of_ne (s : Store) {ref other : Nat} (apart : ref ≠ other) (vs : List Value) :
    (s.setItems ref vs).items other = s.items other := by
  simp [items, setItems, apart]

end Store

namespace Run

variable {v : Value} {x : String} {ref : Nat} {u : Session} {code target : List Char} {e : Stop} {a : Assignment}

/-! ## What is assigned -/

/-- A statement that assigns: the code of an assignment to a variable, or an element as it is written and its value. -/
inductive Assignment where
  | plain (code : List Char)
  | element (target : List Char) (v : Value)

namespace Assignment

def run : Assignment → Run Unit
  | .plain code => assign code
  | .element target v => assignElement target v

def indexed? (target : List Char) : Option (String × List Char) :=
  (splitBracket? target).bind fun parts =>
    (find? [']'] target).map fun stop => (parts.1, (target.take stop).drop ((target.takeWhile (· ≠ '[')).length + 1))

def parts? : Assignment → Option (String × List Char)
  | .plain code => (sides? code).bind named?
  | .element target _ => indexed? target

/-- An assignment comes to write a value. It also says what stood there, and the values whose texts are made for the note. -/
inductive Writes : Assignment → Session → Option Value → Value → List Value → Prop where
  | plain {code : List Char} {x : String} {expr : List Char} {v : Value} {s u : Session}
      (parts : (sides? code).bind named? = some (x, expr)) (evaluated : (evaluate expr).outcome s = (.ok v, u)) :
      Writes (.plain code) s (s.vars.find? x) v [v]
  | element {target : List Char} {x : String} {expr : List Char} {ref : Nat} {index v : Value} {n : Int} {s u : Session}
      (parts : indexed? target = some (x, expr)) (list : s.vars.find? x = some (.list ref))
      (there : ref < s.depot.world.store.lists.size) (evaluated : (evaluate expr).outcome s = (.ok index, u))
      (whole : Value.count? index = some n) (from_zero : 0 ≤ n) (inside : n < (s.depot.world.store.items ref).length) :
      Writes (.element target v) s (s.depot.world.store.items ref)[n.toNat]? v [index, v]

end Assignment

/-- The variables are the same, and every list that was there has the same elements. -/
structure Kept (s t : Session) : Prop where
  vars : t.vars = s.vars
  lists : ∀ ref, ref < s.depot.world.store.lists.size → t.depot.world.store.items ref = s.depot.world.store.items ref

/-- What an assignment that fails leaves. If it has come to write a value, then a text could not be made; and all is kept just
if what it has written, if anything, stood there already. -/
structure KeptUnlessWritten (a : Assignment) (s t : Session) : Prop where
  unshown : ∀ old v shown, a.Writes s old v shown → ∃ w ∈ shown, ∃ f, w.display t.depot.world.store = .error f
  kept_iff : Kept s t ↔ ∀ old v shown, a.Writes s old v shown → old = some v

/-- Evaluating a text in a session calls no method that changes a list. -/
def EvaluatesQuietly (s : Session) (text : List Char) : Prop :=
  Expr.Quiet (Expr.callsOf s.vars text s.depot.world.store)

section

variable {s t u : Session} {expr : List Char}

theorem kept_of_grows (vars : t.vars = s.vars) (grows : s.depot.world.store.Grows t.depot.world.store) : Kept s t :=
  ⟨vars, fun _ there => grows.items there⟩

theorem grows_of_evaluate {r : Except Stop Value} (quiet : EvaluatesQuietly s expr)
    (evaluated : (evaluate expr).outcome s = (r, u)) : u.vars = s.vars ∧ s.depot.world.store.Grows u.depot.world.store := by
  rw [outcome_evaluate, outcome_appraise] at evaluated
  obtain ⟨-, rfl⟩ := Prod.mk.inj evaluated
  refine ⟨rfl, ?_⟩
  unfold appraised
  split
  · exact Expr.grows_evaluate quiet
  · exact .refl _

/-! ## Elements -/

theorem leads_variableNamed {post : Value → Session → Prop} {stop : Stop → Session → Prop}
    (go : ∀ v, s.vars.find? x = some v → post v s) (halt : s.vars.find? x = none → ∀ f, stop (.fault f) s) :
    Leads (variableNamed x) s post stop := by
  refine .bind (leads_session ?_)
  cases found : s.vars.find? x with
  | none => exact .throw (halt found _)
  | some v => exact .pure (go v found)

theorem leads_indexValue {index : Value} {post : Int → Session → Prop} {stop : Stop → Session → Prop}
    (go : ∀ n, Value.count? index = some n → post n s) (halt : Value.count? index = none → ∀ f, stop (.fault f) s) :
    Leads (indexValue index) s post stop := by
  unfold indexValue
  cases count : Value.count? index with
  | none => exact .throw (halt count _)
  | some n => exact .pure (go n count)

theorem leads_elementPlace (index : Value) (n : Int) (size : Nat) :
    Leads (elementPlace index n size) s (fun i t => t = s ∧ n = i ∧ i < size) fun _ t => t = s ∧ ¬(0 ≤ n ∧ n < size) := by
  unfold elementPlace
  by_cases inside : 0 ≤ n ∧ n < size
  · have fine : (decide (n < 0) || decide (n ≥ size)) = false := by
      simp
      omega
    rw [fine]
    exact .pure ⟨rfl, by omega, by omega⟩
  · have wrong : (decide (n < 0) || decide (n ≥ size)) := by
      simp
      omega
    rw [wrong]
    exact .bind (leads_display (fun _ _ => .throw ⟨rfl, inside⟩) fun _ _ => ⟨rfl, inside⟩)

theorem wrappingForeign_eq {α : Type} (wrap : String → Runtime) (x : Run α) :
    wrappingForeign wrap x = recover x fun f => fail (if f.isLanguage then f else .runtime (wrap f.message)) := by
  unfold wrappingForeign
  congr 1
  funext f
  split <;> rfl

def replaced (ref i : Nat) (v : Value) (u : Session) : Session :=
  u.withStore (u.depot.world.store.setItems ref ((u.depot.world.store.items ref).set i v))

end

/-! ## What is kept -/

namespace Assignment

/-- An assignment writes one value at most. -/
theorem Writes.unique {a : Assignment} {s : Session} {old old' : Option Value} {v v' : Value} {shown shown' : List Value}
    (h : a.Writes s old v shown) (h' : a.Writes s old' v' shown') : old = old' ∧ v = v' ∧ shown = shown' := by
  cases h with
  | plain parts evaluated =>
    cases h' with
    | plain parts' evaluated' =>
      cases parts.symm.trans parts'
      cases evaluated.symm.trans evaluated'
      exact ⟨rfl, rfl, rfl⟩
  | element parts list there evaluated whole from_zero inside =>
    cases h' with
    | element parts' list' there' evaluated' whole' =>
      cases parts.symm.trans parts'
      cases list.symm.trans list'
      cases evaluated.symm.trans evaluated'
      cases whole.symm.trans whole'
      exact ⟨rfl, rfl, rfl⟩

end Assignment

section

variable {s t : Session} {e : Stop} {expr : List Char}

theorem kept_set_iff (vars : u.vars = s.vars) (grows : s.depot.world.store.Grows u.depot.world.store) :
    Kept s { u with vars := u.vars.set x v } ↔ s.vars.find? x = some v := by
  constructor
  · intro kept
    have same : u.vars.set x v = s.vars := kept.vars
    rw [← same]
    exact Table.find?_set_self _ _ _
  · intro found
    refine kept_of_grows ?_ grows
    rw [vars]
    exact Table.set_of_find? _ found

theorem items_replaced_of_ne {other : Nat} (apart : ref ≠ other) (i : Nat) (v : Value) :
    (replaced ref i v u).depot.world.store.items other = u.depot.world.store.items other :=
  Store.items_setItems_of_ne _ apart _

theorem kept_replaced_iff {i : Nat} (vars : u.vars = s.vars) (grows : s.depot.world.store.Grows u.depot.world.store)
    (there : ref < s.depot.world.store.lists.size) (inside : i < (s.depot.world.store.items ref).length) :
    Kept s (replaced ref i v u) ↔ (s.depot.world.store.items ref)[i]? = some v := by
  have still : ref < u.depot.world.store.lists.size := by
    obtain ⟨new, more⟩ := grows
    rw [more, Array.size_append]
    omega
  have items : (replaced ref i v u).depot.world.store.items ref = (s.depot.world.store.items ref).set i v := by
    rw [← grows.items there]
    exact Store.items_setItems_self still _
  constructor
  · intro kept
    rw [← kept.lists ref there, items]
    simp [inside]
  · intro found
    refine ⟨vars, fun other there' => ?_⟩
    by_cases same : ref = other
    · rw [← same, items]
      obtain ⟨_, rfl⟩ := List.getElem?_eq_some_iff.mp found
      exact set_getElem_self _
    · rw [items_replaced_of_ne same, grows.items there']

/-- Where nothing is written, what is kept is all. -/
theorem KeptUnlessWritten.of_not_writes (kept : Kept s t) (unwritten : ∀ old v shown, ¬a.Writes s old v shown) :
    KeptUnlessWritten a s t where
  unshown old v shown writes := absurd writes (unwritten old v shown)
  kept_iff := ⟨fun _ old v shown writes => absurd writes (unwritten old v shown), fun _ => kept⟩

theorem KeptUnlessWritten.of_writes {old : Option Value} {shown : List Value} (writes : a.Writes s old v shown)
    (unshown : ∃ w ∈ shown, ∃ f, w.display t.depot.world.store = .error f) (kept : Kept s t ↔ old = some v) :
    KeptUnlessWritten a s t where
  unshown old' v' shown' writes' := by
    obtain ⟨-, -, rfl⟩ := writes.unique writes'
    exact unshown
  kept_iff := by
    rw [kept]
    constructor
    · intro same old' v' shown' writes'
      obtain ⟨rfl, rfl, -⟩ := writes.unique writes'
      exact same
    · intro all
      exact all _ _ _ writes

theorem leads_assign (quiet : ∀ x expr, (sides? code).bind named? = some (x, expr) → EvaluatesQuietly s expr) :
    Leads (assign code) s (fun _ _ => True) fun _ => KeptUnlessWritten (.plain code) s := by
  have unnamed : (sides? code).bind named? = none → KeptUnlessWritten (.plain code) s s := by
    refine fun none => .of_not_writes (kept_of_grows rfl (.refl _)) ?_
    rintro old v shown ⟨parts, -⟩
    cases none.symm.trans parts
  unfold assign
  cases cut : cut? ['='] code with
  | none => exact .throw (unnamed (by rw [sides?, cut]; rfl))
  | some sides =>
    dsimp only
    cases valid : isValidName (strip sides.1) with
    | false => exact .throw (unnamed (by simp [sides?, cut, named?, valid]))
    | true =>
      have parts : (sides? code).bind named? = some (String.ofList (strip sides.1), strip sides.2) := by
        simp [sides?, cut, named?, valid]
      refine leads_reworded (.bind ((Leads.run _ s).mono (fun v u evaluated => ?_) fun e u evaluated => ?_)) _
      all_goals obtain ⟨vars, grows⟩ := grows_of_evaluate (quiet _ _ parts) evaluated
      · refine .bind (.modify (.bind (leads_display (fun _ _ => leads_note trivial trivial) fun f unshown => ?_)))
        exact .of_writes (.plain parts evaluated) ⟨v, mem_cons_self, f, unshown⟩ (kept_set_iff vars grows)
      · refine .of_not_writes (kept_of_grows vars grows) ?_
        rintro old v shown ⟨parts', evaluated'⟩
        cases parts.symm.trans parts'
        cases evaluated.symm.trans evaluated'

theorem keptUnlessWritten_replaced {index : Value} {i : Nat} (parts : Assignment.indexed? target = some (x, expr))
    (list : s.vars.find? x = some (.list ref)) (vars : u.vars = s.vars)
    (grows : s.depot.world.store.Grows u.depot.world.store) (evaluated : (evaluate expr).outcome s = (.ok index, u))
    (whole : Value.count? index = some (i : Int)) (inside : i < (u.depot.world.store.items ref).length)
    (unshown : ∃ w ∈ [index, v], ∃ f, w.display (replaced ref i v u).depot.world.store = .error f) :
    KeptUnlessWritten (.element target v) s (replaced ref i v u) := by
  by_cases there : ref < s.depot.world.store.lists.size
  · rw [grows.items there] at inside
    refine .of_writes (.element parts list there evaluated whole (by omega) (by omega)) unshown ?_
    exact kept_replaced_iff vars grows there (by omega)
  · -- the variable stands for a list that is not there
    refine .of_not_writes ⟨vars, fun other there' => ?_⟩ ?_
    · rw [items_replaced_of_ne (by omega), grows.items there']
    · rintro old w shown (_ | ⟨parts', list', there', -⟩)
      cases parts.symm.trans parts'
      cases list.symm.trans list'
      exact there there'

theorem leads_assignElement (quiet : ∀ x expr, Assignment.indexed? target = some (x, expr) → EvaluatesQuietly s expr) :
    Leads (assignElement target v) s (fun _ _ => True) fun _ => KeptUnlessWritten (.element target v) s := by
  have missing : (∀ x expr ref, Assignment.indexed? target = some (x, expr) → s.vars.find? x ≠ some (.list ref)) →
      KeptUnlessWritten (.element target v) s s := by
    refine fun missing => .of_not_writes (kept_of_grows rfl (.refl _)) ?_
    rintro old w shown (_ | ⟨parts, found, -⟩)
    exact missing _ _ _ parts found
  unfold assignElement
  cases split : splitBracket? target with
  | none => exact .throw (missing fun _ _ _ parts => by simp [Assignment.indexed?, split] at parts)
  | some bracket =>
    obtain ⟨x, rest⟩ := bracket
    have named : ∀ {y expr}, Assignment.indexed? target = some (y, expr) → y = x := by
      intro y expr parts
      rw [Assignment.indexed?, split, Option.bind_some] at parts
      obtain ⟨_, -, same⟩ := Option.map_eq_some_iff.mp parts
      exact (Prod.mk.inj same).1.symm
    refine .bind (leads_variableNamed (fun w list => ?_) fun none _ => missing fun _ _ _ parts => by simp [named parts, none])
    cases w with
    | list ref =>
      cases closing : find? [']'] target with
      | none => exact .throw (missing fun _ _ _ parts => by simp [Assignment.indexed?, closing] at parts)
      | some stop =>
        have parts : Assignment.indexed? target =
            some (x, (target.take stop).drop ((target.takeWhile (· ≠ '[')).length + 1)) := by
          rw [Assignment.indexed?, split, closing]
          rfl
        dsimp only
        rw [wrappingForeign_eq]
        refine leads_reworded (.bind ((Leads.run _ s).mono (fun index u evaluated => ?_) fun e u evaluated => ?_)) _
        all_goals obtain ⟨vars, grows⟩ := grows_of_evaluate (quiet _ _ parts) evaluated
        · have unwritten : (∀ n, Value.count? index = some n → ¬(0 ≤ n ∧ n < (u.depot.world.store.items ref).length)) →
              KeptUnlessWritten (.element target v) s u := by
            refine fun outside => .of_not_writes (kept_of_grows vars grows) ?_
            rintro old w shown (_ | ⟨parts', list', there, evaluated', whole, from_zero, inside⟩)
            cases parts.symm.trans parts'
            cases list.symm.trans list'
            cases evaluated.symm.trans evaluated'
            rw [← grows.items there] at inside
            exact outside _ whole ⟨from_zero, inside⟩
          refine .bind (leads_indexValue (fun n whole => ?_) fun none _ => unwritten fun n whole => ?_)
          · refine .bind (leads_world (.bind ((leads_elementPlace index n _).mono ?_ ?_)))
            · rintro i _ ⟨rfl, rfl, inside⟩
              have written := keptUnlessWritten_replaced parts list vars grows evaluated whole inside (v := v)
              refine .bind (leads_act (.modify (.bind (leads_display (fun _ _ => .bind ?_) fun f unshown => ?_))))
              · exact leads_display (fun _ _ => leads_note trivial trivial) fun f unshown => written ⟨v, by simp, f, unshown⟩
              · exact written ⟨index, mem_cons_self, f, unshown⟩
            · rintro _ _ ⟨rfl, outside⟩
              exact unwritten fun n' whole' => Option.some.inj (whole.symm.trans whole') ▸ outside
          · cases none.symm.trans whole
        · refine .of_not_writes (kept_of_grows vars grows) ?_
          rintro old w shown (_ | ⟨parts', -, -, evaluated', -⟩)
          cases parts.symm.trans parts'
          cases evaluated.symm.trans evaluated'
    | _ => exact .throw (missing fun _ _ _ parts => by simp [named parts, list])

end

/-- **A failed assignment keeps the variables unless it has written.** What it may have written is a value of which a text could
not be made, and only another value than stood there is a change. -/
theorem failed_assignment_keeps_iff (a : Assignment) {s t : Session} {e : Stop} (failed : a.run.outcome s = (.error e, t))
    (quiet : ∀ x expr, a.parts? = some (x, expr) → EvaluatesQuietly s expr) : KeptUnlessWritten a s t := by
  cases a with
  | plain code => exact (leads_assign quiet).reason failed
  | element target v => exact (leads_assignElement quiet).reason failed

def twoVariables : Session :=
  { vars := [("x", .int 5), ("a", .list 0)]
    depot := { index := .obj [], world := { disk := [("packages", .folder [])], store := { lists := #[[.int 7]] } } } }

def longNumber : List Char := "x=10**5000".toList

theorem failed_assignment_keeps_iff_longNumber :
    ∃ e t, (Assignment.plain longNumber).run.outcome twoVariables = (.error e, t) ∧
      KeptUnlessWritten (.plain longNumber) twoVariables t := by
  have quiet : ∀ x expr, (Assignment.plain longNumber).parts? = some (x, expr) → EvaluatesQuietly twoVariables expr := by
    intro x expr parts
    obtain rfl : "10**5000".toList = expr := by
      have parts' : (Assignment.plain longNumber).parts? = some ("x", "10**5000".toList) := by decide
      exact congrArg Prod.snd (Option.some.inj (parts'.symm.trans parts))
    have none : (Expr.callsOf twoVariables.vars "10**5000".toList twoVariables.depot.world.store).isEmpty = true := by
      decide +kernel
    intro c hc
    rw [List.isEmpty_iff.mp none] at hc
    cases hc
  have fails : ((Assignment.plain longNumber).run.outcome twoVariables).1.isOk = false := by decide +kernel
  rcases failed : (Assignment.plain longNumber).run.outcome twoVariables with ⟨e | _, t⟩
  · exact ⟨e, t, rfl, failed_assignment_keeps_iff (.plain longNumber) failed quiet⟩
  · rw [failed] at fails
    cases fails

/-- The assignment fails and the number stays, to the variable as well as to the element. -/
theorem longNumber_is_written :
    ((assign longNumber).outcome twoVariables).1.isOk = false ∧
      ((twoVariables.vars.find? "x").bind Value.count?) = some 5 ∧
      ((((assign longNumber).outcome twoVariables).2.vars.find? "x").bind Value.count?) ≠ some 5 ∧
      ((assignElement "a[0]".toList (.int (Nat.pow 10 5000))).outcome twoVariables).1.isOk = false ∧
      (twoVariables.depot.world.store.items 0).map Value.count? = [some 7] ∧
      (((assignElement "a[0]".toList (.int (Nat.pow 10 5000))).outcome twoVariables).2.depot.world.store.items 0).map
        Value.count? ≠ [some 7] :=
  ⟨by decide +kernel, by decide +kernel, by decide +kernel, by decide +kernel, by decide +kernel, by decide +kernel⟩

end Run

end LineScript
