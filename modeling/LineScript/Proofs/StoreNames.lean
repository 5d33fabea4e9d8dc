
import LineScript.Proofs.BlockInvariant
import LineScript.Proofs.Scope

/-!
# Names in the store

Assignments, input and definitions check the names of variables. An import does not, and a definition takes a parameter
without a name, which is bound while a call runs. The invariant is kept by every step of every line, and says whether such a
parameter is bound, since other calls keep that as it is.
-/

namespace LineScript

open Line List

/-- What an import binds: the members of a script, or a library. -/
def Value.isImported : Value → Bool
  | .record _ => true
  | .package _ _ _ _ => true
  | _ => false

/-- Variables as sessions hold them; `unnamed` says whether one may have no name. -/
def inStore (unnamed : Bool) (x : String) (v : Value) : Bool :=
  isValidName x.toList || v.isImported || (unnamed && x = "")

/-- What holds of the variables of a session, and of the names that calls will bind. -/
structure Session.Named (unnamed : Bool) (s : Session) : Prop where
  vars : ∀ x v, s.vars.find? x = some v → inStore unnamed x v = true
  params : ∀ name f, s.functions.find? name = some f → Run.Parameters f.params

section

variable {unnamed : Bool}

theorem inStore_of_valid {x : String} (valid : isValidName x.toList) (v : Value) : inStore unnamed x v := by
  simp [inStore, valid]

theorem inStore_of_imported (x : String) {v : Value} (imported : v.isImported) : inStore unnamed x v := by
  simp [inStore, imported]

end

/-! ## Changes of the store -/

namespace Session.Named

open Run

variable {unnamed : Bool} {s t : Session}

theorem congr (h : s.Named unnamed) (vars : t.vars = s.vars) (functions : t.functions = s.functions) : t.Named unnamed :=
  ⟨by rw [vars]; exact h.vars, by rw [functions]; exact h.params⟩

theorem fresh (unnamed : Bool) (d : Depot) : ({ depot := d } : Session).Named unnamed where
  vars _ _ found := by cases found
  params _ _ found := by cases found

theorem mono (h : s.Named unnamed) {more : Bool} (allowed : unnamed → more) : s.Named more where
  vars x v found := by
    have known := h.vars x v found
    cases unnamed with
    | false =>
      unfold inStore at known ⊢
      simp_all
    | true =>
      rw [allowed rfl]
      exact known
  params := h.params

theorem set (h : s.Named unnamed) {x : String} {v : Value} (known : inStore unnamed x v) :
    Session.Named unnamed { s with vars := s.vars.set x v } where
  vars y w found := by
    by_cases same : x = y
    · subst same
      rw [Table.find?_set_self] at found
      cases found
      exact known
    · rw [Table.find?_set_of_ne _ same] at found
      exact h.vars y w found
  params := h.params

theorem enter (h : s.Named unnamed) (name : String) {params : List String} (checked : Parameters params) (indent : Nat) :
    Session.Named unnamed { s with
      functions := s.functions.set name ⟨params, []⟩, defining := some (name, indent), pending := [] } where
  vars := h.vars
  params other f found := by
    by_cases same : name = other
    · subst same
      rw [Table.find?_set_self] at found
      cases found
      exact checked
    · rw [Table.find?_set_of_ne _ same] at found
      exact h.params other f found

theorem finish (h : s.Named unnamed) (name : String) : (finished name s).Named unnamed where
  vars := h.vars
  params other f found := by
    unfold finished at found
    split at found
    · rename_i g known
      by_cases same : name = other
      · subst same
        rw [Table.find?_set_self] at found
        cases found
        exact h.params name g known
      · rw [Table.find?_set_of_ne _ same] at found
        exact h.params other f found
    · exact h.params other f found

/-- What a call has bound is given back, and with it a parameter without a name. -/
theorem restore {u : Session} {params : List String} (before : s.Named unnamed)
    (after : u.Named (unnamed || params.contains "")) :
    Session.Named unnamed { u with vars := Run.restore s.vars params u.vars } where
  vars x v found := by
    by_cases bound : x ∈ params
    · rw [find?_restore_of_or (Or.inl bound)] at found
      exact before.vars x v found
    · rw [find?_restore_of_not_mem s.vars u.vars bound] at found
      have known := after.vars x v found
      unfold inStore at known ⊢
      by_cases empty : x = ""
      · simp_all
      · simp_all
  params := after.params

end Session.Named

namespace Run

variable {unnamed : Bool} {watched : Prop}

theorem seesAll_named : SeesAll (Both (Session.Named unnamed)) where
  vars h := h.1 ▸ rfl
  debug h := h.1 ▸ rfl
  depot h := h.1 ▸ rfl
  setWorld h _ := ⟨h.1 ▸ rfl, h.2.congr rfl rfl⟩

theorem shares_named : Shares (Both (Session.Named unnamed)) Eq where
  toComputes := seesAll_named.toSees.toComputes
  assigns h _ v _ := ⟨h.1 ▸ rfl, h.2.set (inStore_of_valid (by rwa [String.toList_ofList]) v)⟩
  aliases h := h.1 ▸ rfl
  setAlias h _ _ _ := ⟨h.1 ▸ rfl, h.2.congr rfl rfl⟩
  setShown h _ := ⟨h.1 ▸ rfl, h.2.congr rfl rfl⟩
  loops h := h.1 ▸ rfl
  collects h _ _ _ _ := ⟨h.1 ▸ rfl, h.2.congr rfl rfl⟩
  setLoops h _ _ := ⟨h.1 ▸ rfl, h.2.congr rfl rfl⟩
  same _ := rfl
  number h := h.1 ▸ rfl
  setNumber := by rintro s _ ⟨rfl, h⟩ n _ rfl; exact ⟨rfl, h.congr rfl rfl⟩

theorem counts_named : Counts (Both (Session.Named unnamed)) where
  jumps h := h.1 ▸ rfl
  setJumps h _ := ⟨h.1 ▸ rfl, h.2.congr rfl rfl⟩

theorem defines_named : Defines (Both (Session.Named unnamed)) where
  ifs h := h.1 ▸ rfl
  elses h := h.1 ▸ rfl
  setIfs h _ := ⟨h.1 ▸ rfl, h.2.congr rfl rfl⟩
  setElses h _ := ⟨h.1 ▸ rfl, h.2.congr rfl rfl⟩
  defining h := h.1 ▸ rfl
  enter h name _ indent checked := ⟨h.1 ▸ rfl, h.2.enter name checked indent⟩
  keepLine h _ := ⟨h.1 ▸ rfl, h.2.congr rfl rfl⟩
  finish h name := ⟨h.1 ▸ rfl, h.2.finish name⟩

theorem binds_named : Binds (Both (Session.Named unnamed)) :=
  fun h x _ _ _ _ => ⟨h.1 ▸ rfl, h.2.set (inStore_of_imported x rfl)⟩

/-! ## Imported scripts and calls -/

/-- A script starts with no variables, and what it leaves is bound as one variable of the importer. -/
theorem tracks_runScript_named {program program' : ProgramRunner}
    (hprogram : ∀ lines, Tracks watched (Both (Session.Named unnamed)) (program lines) (program' lines)) (path : List Char)
    (bound : String) :
    Tracks watched (Both (Session.Named unnamed)) (runScript program path bound) (runScript program' path bound) := by
  refine .session fun s t h => ?_
  obtain ⟨rfl, outer⟩ := h
  have emptied : Session.Named unnamed { s with vars := [], exported := none } :=
    ⟨fun _ _ found => (by cases found), outer.params⟩
  refine TracksAt.bind (Or.inr ⟨rfl, rfl, emptied⟩) fun _ => ?_
  refine Tracks.ensuring (.bind (.act seesAll_named _) fun _ => hprogram _) fun u v h => ?_
  obtain ⟨rfl, inner⟩ := h
  have members (fields : Env) : inStore unnamed bound (.record fields) := inStore_of_imported bound rfl
  refine ⟨rfl, ⟨fun x v found => ?_, inner.params⟩⟩
  exact ((outer.set (members [])).set (members _)).vars x v found

/-- While a call runs, the parameter without a name may be bound, if the function has one. -/
theorem tracksAt_call_named {run run' : Runner} {importing : Bool} (hrun : ∀ unnamed l {m n : Int}, m = n →
      Tracks watched (Both (Session.Named unnamed)) (run l importing m) (run' l importing n))
    {s t : Session} (h : Both (Session.Named unnamed) s t) (code : List Char) :
    TracksAt watched (Both (Session.Named unnamed)) (call run code importing) (call run' code importing) s t := by
  unfold Run.call
  dsimp only
  refine .guard h fun _ => .session ?_
  obtain ⟨rfl, before⟩ := h
  split
  · exact Tracks.broken _ s s ⟨rfl, before⟩
  · rename_i f found
    refine .guard ⟨rfl, before⟩ fun _ => ?_
    have set (x : String) (v : Value) (param : x ∈ f.params) :
        Tracks watched (Both (Session.Named (unnamed || f.params.contains ""))) (setVariable x v) (setVariable x v) := by
      refine .adjust fun s _ h => ?_
      obtain ⟨rfl, h⟩ := h
      refine ⟨rfl, h.set ?_⟩
      rcases before.params _ f found x param with rfl | valid
      · simp [inStore, param]
      · exact inStore_of_valid valid v
    have body : Tracks watched (Both (Session.Named (unnamed || f.params.contains "")))
        (do bindFrom 1 (f.params.zip (splitCall code).2); runBody run importing f.body)
        (do bindFrom 1 (f.params.zip (splitCall code).2); runBody run' importing f.body) :=
      .bind (.bindFrom seesAll_named.toSees set _ _ fun _ pair => (of_mem_zip pair).1) fun _ =>
        .runBody shares_named.toAligned (hrun _) _
    have ends := body s s ⟨rfl, before.mono fun on => by rw [on, Bool.true_or]⟩
    unfold TracksAt at ends ⊢
    rw [outcome_ensuring, outcome_ensuring]
    rcases ends with given | ⟨same, one, after⟩
    · exact Or.inl given
    · refine Or.inr ⟨same, ?_, before.restore after⟩
      rw [one]

/-! ## Lines -/

def strays : Watch where
  forbids s _ _ := s.vars.names.any fun x => (s.vars.find? x).any fun v => !inStore true x v
  strict := false

theorem strays_forbids {s : Session} (named : s.Named unnamed) (command : Command) (code : List Char) :
    strays.forbids s command code = false := by
  refine any_eq_false.mpr fun x _ => ?_
  cases found : s.vars.find? x with
  | none => simp
  | some v => simpa using (named.mono fun _ => rfl).vars x v found

/-- A line at any depth keeps the names, and no command that it runs starts with another one. -/
theorem tracks_strays (depth : Nat) (unnamed : Bool) :
    TracksLines False (Both (Session.Named unnamed)) Eq (strays.runner depth) (runner depth) := by
  induction depth generalizing unnamed with
  | zero => exact fun _ _ _ _ _ => .fail _
  | succ depth ih =>
    rintro raw importing m _ rfl
    have hprogram := Tracks.programWith shares_named (ih unnamed) counts_named
    refine .watchedLine shares_named defines_named ?_ rfl rfl (ih unnamed) (fun s t h command code indent _ => ?_) fun f => ?_
    · rintro s _ ⟨rfl, named⟩ command code forbidden
      rw [strays_forbids named] at forbidden
      cases forbidden
    · refine Tracks.execute shares_named defines_named (ih unnamed) seesAll_named.toSees h command code indent importing
        (fun _ => ?_) (fun _ => hprogram) fun _ => tracksAt_call_named (fun unnamed l => ih unnamed l importing) h code
      refine Tracks.packageCommand seesAll_named ?_ binds_named (tracks_runScript_named hprogram) _ s t h
      rintro s _ ⟨rfl, h⟩ d
      exact ⟨rfl, h.congr rfl rfl⟩
    · exact .handle seesAll_named.toSees _ _ _ f

/-- A step that keeps the names does the same when it is watched. -/
theorem Tracks.outcome_named {α : Type} {x y : Run α} (tracked : Tracks False (Both (Session.Named unnamed)) x y)
    {s : Session} (named : s.Named unnamed) : x.outcome s = y.outcome s ∧ (y.outcome s).2.Named unnamed := by
  rcases tracked s s ⟨rfl, named⟩ with ⟨off, -⟩ | ⟨same, one, kept⟩
  · exact off.elim
  · exact ⟨Prod.ext same.symm one, one ▸ kept⟩

theorem tracks_strays_program (depth : Nat) (lines : List (List Char)) :
    Tracks False (Both (Session.Named unnamed)) (programWith (strays.runner depth) lines) (programWith (runner depth) lines) :=
  .programWith shares_named (tracks_strays depth unnamed) counts_named lines

def afterRequests (d : Depot) (requests : List Request) : Session := requests.foldl Request.after { depot := d }

theorem named_afterRequests (d : Depot) (requests : List Request) : (afterRequests d requests).Named false := by
  refine holds_after_requests (fun text importing n s named => ?_) (fun lines s named => ?_)
    (fun s depot named => named.congr rfl rfl) requests (.fresh false d)
  · exact ((tracks_strays maxLevels false text importing rfl).outcome_named named).2
  · exact ((tracks_strays_program maxLevels lines).outcome_named named).2

/-- **Only imports bind names that are not valid**, so a builtin is hidden by an import only. No command at any depth starts while
a variable has another name, but for the parameter without a name inside calls. -/
theorem valid_or_imported (d : Depot) (requests : List Request) :
    (∀ x v, (afterRequests d requests).vars.find? x = some v → isValidName x.toList = true ∨ v.isImported = true) ∧
    (∀ x v, (Expr.builtins.lookup x).isSome = true → (afterRequests d requests).vars.find? x = some v →
      v.isImported = true) ∧
    (∀ depth raw importing n, (strays.runner depth raw importing n).outcome (afterRequests d requests) =
      (runner depth raw importing n).outcome (afterRequests d requests)) ∧
    ∀ depth lines, (programWith (strays.runner depth) lines).outcome (afterRequests d requests) =
      (programWith (runner depth) lines).outcome (afterRequests d requests) := by
  have named := named_afterRequests d requests
  have known (x : String) (v : Value) (found : (afterRequests d requests).vars.find? x = some v) :
      isValidName x.toList = true ∨ v.isImported = true := by
    simpa [inStore] using named.vars x v found
  refine ⟨known, fun x v builtin found => ?_, fun depth raw importing n => ?_, fun depth lines => ?_⟩
  · refine (known x v found).resolve_left fun valid => ?_
    unfold isValidName at valid
    rw [String.ofList_toList] at valid
    simp [builtin] at valid
  · exact ((tracks_strays depth false raw importing rfl).outcome_named named).1
  · exact ((tracks_strays_program depth lines).outcome_named named).1

/-- A script is installed. -/
def withScript : Depot where
  index := .obj [("p", .obj [("version", .str "1.0"), ("main", .str "main"), ("language", .str "guython")])]
  world :=
    { disk := [("packages", .folder [("p", .folder [("main.gy", .file ("y=1\n".toList.map fun c => c.toNat.toUInt8) 420)])])] }

/-- A script is imported under the name of a builtin, and the builtin is called. -/
def importUnderBuiltin : List Request :=
  ["gpd import p as abs", "print abs(-5)"].map fun line => .line line.toList false 1

theorem valid_or_imported_builtin :
    (Expr.builtins.lookup "abs").isSome = true ∧
      ∃ v, (afterRequests withScript importUnderBuiltin).vars.find? "abs" = some v ∧ v.isImported = true := by
  have builtin : (Expr.builtins.lookup "abs").isSome = true := by decide +kernel
  have bound : ((afterRequests withScript importUnderBuiltin).vars.find? "abs").isSome = true := by decide +kernel
  obtain ⟨v, found⟩ := Option.isSome_iff_exists.mp bound
  exact ⟨builtin, v, found, (valid_or_imported withScript importUnderBuiltin).2.1 "abs" v builtin found⟩

/-- The name of a builtin is no valid name, an import binds it, and the builtin cannot be called any more. -/
theorem import_hides_builtin :
    isValidName "abs".toList = false ∧
      (afterRequests withScript importUnderBuiltin).vars.names = ["abs"] ∧
      (afterRequests withScript importUnderBuiltin).depot.world.output = "Imported Guython package: p\n[Error]\n" :=
  ⟨by decide +kernel, by decide +kernel, by decide +kernel⟩

end Run

end LineScript
