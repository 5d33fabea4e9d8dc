
import LineScript.Proofs.Moves
import LineScript.Script.Interpreter

/-!
# Two runs side by side

From sessions that `R` relates, `Tracks R x y` says that `x` and `y` end alike and in sessions that `R` relates. The first
may be watched and given up, and nothing is said about the second from there on. That a change goes unseen (`t = f s`), that
something stays as it was, and that two runs differ in a few parts only are all such relations.
-/

namespace LineScript

open Text Line List

variable {α β : Type}

namespace Run

def givenUp : Stop := .endless

instance (r : Except Stop α) (e : Stop) : Decidable (r = .error e) :=
  match r with
  | .ok _ => isFalse nofun
  | .error other => decidable_of_iff (other = e) ⟨fun h => by rw [h], fun h => Except.error.inj h⟩

/-- From two sessions, the steps end alike and in related sessions, unless the first is watched and given up. -/
def TracksAt (watched : Prop) (R : Session → Session → Prop) (x y : Run α) (s t : Session) : Prop :=
  (watched ∧ (x.outcome s).1 = .error givenUp) ∨
    ((y.outcome t).1 = (x.outcome s).1 ∧ R (x.outcome s).2 (y.outcome t).2)

def Tracks (watched : Prop) (R : Session → Session → Prop) (x y : Run α) : Prop :=
  ∀ s t, R s t → TracksAt watched R x y s t

abbrev Alike (watched : Prop) (R : Session → Session → Prop) (x : Run α) : Prop := Tracks watched R x x

/-- Two runners of lines, each with its own numbers of the lines. -/
abbrev TracksLines (watched : Prop) (R : Session → Session → Prop) (N : Int → Int → Prop) (run run' : Runner) : Prop :=
  ∀ l b {m n}, N m n → Tracks watched R (run l b m) (run' l b n)

end Run

def Session.withStore (store : Store) (s : Session) : Session :=
  { s with depot := { s.depot with world := { s.depot.world with store } } }

namespace Run

variable {t s : Session}

theorem outcome_evaluation (x : Eval α) (s : Session) : (act (Act.evaluate x)).outcome s =
      ((x.run.run s.depot.world.store).1.mapError Stop.fault, s.withStore (x.run.run s.depot.world.store).2) := by
  have ran : (Act.evaluate x).run.run s.depot.world =
      (do set { s.depot.world with store := (x.run.run s.depot.world.store).2 }
          Act.check (x.run.run s.depot.world.store).1 : Act α).run.run s.depot.world := rfl
  rw [outcome_act, ran]
  cases (x.run.run s.depot.world.store).1 <;> rfl

theorem outcome_display (v : Value) (s : Session) :
    (display v).outcome s = ((v.display s.depot.world.store).mapError Stop.fault, s) := by
  -- whatever is computed from the store
  have look (r : Store → Except Fault String) : (act (do Act.check (r (← get).store))).outcome s =
      ((r s.depot.world.store).mapError Stop.fault, s) := by
    have ran : (do Act.check (r (← get).store) : Act String).run.run s.depot.world =
        (Act.check (r s.depot.world.store)).run.run s.depot.world := rfl
    rw [outcome_act, ran]
    cases r s.depot.world.store <;> rfl
  exact look fun store => v.display store

/-- Relations between sessions that look alike to whatever evaluates expressions. -/
structure Computes (R : Session → Session → Prop) : Prop where
  vars : ∀ {s t}, R s t → t.vars = s.vars
  store : ∀ {s t}, R s t → t.depot.world.store = s.depot.world.store
  setStore : ∀ {s t}, R s t → ∀ store, R (s.withStore store) (t.withStore store)
  touch : Tracks False R (act Pkg.touch) (act Pkg.touch)
  note : ∀ text, Tracks False R (note text) (note text)

/-- Relations between sessions that look alike also to whatever shows text, asks the user and opens script files. -/
structure Sees (R : Session → Session → Prop) : Prop extends Computes R where
  say : ∀ text, Tracks False R (act (Act.say text)) (act (Act.say text))
  ask : ∀ prompt, Tracks False R (act (Act.ask prompt)) (act (Act.ask prompt))
  denied : ∀ {s t}, R s t → t.depot.world.denied = s.depot.world.denied
  isFile : ∀ {s t}, R s t → ∀ {p}, isScriptName p = true → t.depot.world.disk.isFile p = s.depot.world.disk.isFile p
  readLines : ∀ {s t}, R s t → ∀ {p}, isScriptName p = true → s.depot.world.disk.isFile p = true →
    TracksAt False R (act (Act.readLines p)) (act (Act.readLines p)) s t

/-- Relations between sessions that have the same packages in the same world. -/
structure SeesAll (R : Session → Session → Prop) : Prop where
  vars : ∀ {s t}, R s t → t.vars = s.vars
  debug : ∀ {s t}, R s t → t.debug = s.debug
  depot : ∀ {s t}, R s t → t.depot = s.depot
  setWorld : ∀ {s t}, R s t → ∀ w,
    R { s with depot := { s.depot with world := w } } { t with depot := { s.depot with world := w } }

def SetsDepot (R : Session → Session → Prop) : Prop :=
  ∀ {s t}, R s t → ∀ d, R { s with depot := d } { t with depot := d }

def SetsVars (R : Session → Session → Prop) : Prop :=
  ∀ {s t}, R s t → ∀ v, R { s with vars := v } { t with vars := v }

def Assigns (R : Session → Session → Prop) : Prop :=
  ∀ {s t}, R s t → ∀ name v, isValidName name = true →
    R { s with vars := s.vars.set (String.ofList name) v } { t with vars := t.vars.set (String.ofList name) v }

def Binds (R : Session → Session → Prop) : Prop :=
  ∀ {s t}, R s t → ∀ x name path lib load,
    R { s with vars := s.vars.set x (.package name path lib load) }
      { t with vars := t.vars.set x (.package name path lib load) }

/-- Relations between sessions that look alike to statements that show nothing and run no lines. Their line numbers may
differ, as `N` says. -/
structure Aligned (R : Session → Session → Prop) (N : Int → Int → Prop) : Prop extends Computes R where
  assigns : Assigns R
  aliases : ∀ {s t}, R s t → t.aliases = s.aliases
  setAlias : ∀ {s t}, R s t → ∀ name target, isValidName name = true →
    R { s with aliases := s.aliases.set (String.ofList name) target }
      { t with aliases := s.aliases.set (String.ofList name) target }
  loops : ∀ {s t}, R s t → t.loops = s.loops
  collects : ∀ {s t}, R s t → ∀ l rest, s.loops = l :: rest → ∀ body,
    R { s with loops := { l with body } :: rest } { t with loops := { l with body } :: rest }
  same : ∀ n, N n n
  number : ∀ {s t}, R s t → N s.lineNumber t.lineNumber
  setNumber : ∀ {s t}, R s t → ∀ {m n}, N m n → R { s with lineNumber := m } { t with lineNumber := n }

/-- Relations between sessions that look alike to all simple statements, and to loops that end. -/
structure Shares (R : Session → Session → Prop) (N : Int → Int → Prop) : Prop extends Aligned R N where
  setShown : ∀ {s t}, R s t → ∀ v, R { s with lastOutput := v } { t with lastOutput := v }
  setLoops : ∀ {s t}, R s t → s.loops ≠ [] → ∀ l, R { s with loops := l } { t with loops := l }

/-- Relations between sessions that have jumped alike. -/
structure Counts (R : Session → Session → Prop) : Prop where
  jumps : ∀ {s t}, R s t → t.jumps = s.jumps
  setJumps : ∀ {s t}, R s t → ∀ n, R { s with jumps := n } { t with jumps := n }

/-- Relations between sessions that are known to importers by the same variables. -/
structure Exports (R : Session → Session → Prop) : Prop where
  exported : ∀ {s t}, R s t → t.exported = s.exported
  setExported : ∀ {s t}, R s t → ∀ v e, R { s with vars := v, exported := e } { t with vars := v, exported := e }

def finished (name : String) (s : Session) : Session :=
  { s with
    functions := match s.functions.find? name with
      | some f => s.functions.set name { f with body := s.pending }
      | none => s.functions
    defining := none
    pending := [] }

/-- Parameters as a definition takes them: each has a valid name, or none. -/
def Parameters (params : List String) : Prop := ∀ x ∈ params, x = "" ∨ isValidName x.toList = true

/-- Relations between sessions with the same open blocks, which define functions alike. -/
structure Defines (R : Session → Session → Prop) : Prop where
  ifs : ∀ {s t}, R s t → t.ifs = s.ifs
  elses : ∀ {s t}, R s t → t.elses = s.elses
  setIfs : ∀ {s t}, R s t → ∀ ifs, R { s with ifs } { t with ifs }
  setElses : ∀ {s t}, R s t → ∀ elses, R { s with elses } { t with elses }
  defining : ∀ {s t}, R s t → t.defining = s.defining
  enter : ∀ {s t}, R s t → ∀ name params indent, Parameters params →
    R { s with functions := s.functions.set name ⟨params, []⟩, defining := some (name, indent), pending := [] }
      { t with functions := t.functions.set name ⟨params, []⟩, defining := some (name, indent), pending := [] }
  keepLine : ∀ {s t}, R s t → ∀ l, R { s with pending := s.pending ++ [l] } { t with pending := t.pending ++ [l] }
  finish : ∀ {s t}, R s t → ∀ name, R (finished name s) (finished name t)

variable {watched : Prop} {R : Session → Session → Prop} {N : Int → Int → Prop}

/-! ## Parts of a step -/

variable {x y : Run α}

theorem TracksAt.mono (h : TracksAt False R x y s t) : TracksAt watched R x y s t := by
  rcases h with ⟨off, -⟩ | ends
  · exact off.elim
  · exact Or.inr ends

theorem TracksAt.bind {k l : α → Run β} (hx : TracksAt watched R x y s t)
    (hk : ∀ a u v, R u v → TracksAt watched R (k a) (l a) u v) : TracksAt watched R (x >>= k) (y >>= l) s t := by
  rcases hs : x.outcome s with ⟨r, u⟩
  rcases ht : y.outcome t with ⟨q, v⟩
  unfold TracksAt at hx
  rw [hs, ht] at hx
  rcases hx with ⟨on, given⟩ | ⟨same, related⟩
  · obtain rfl : r = .error givenUp := given
    refine Or.inl ⟨on, ?_⟩
    rw [bind_error hs]
  · obtain rfl : q = r := same
    cases q with
    | ok a =>
      unfold TracksAt
      rw [bind_ok hs, bind_ok ht]
      exact hk a u v related
    | error e =>
      unfold TracksAt
      rw [bind_error hs, bind_error ht]
      exact Or.inr ⟨rfl, related⟩

theorem TracksAt.session {k l : Session → Run α} (h : TracksAt watched R (k s) (l t) s t) :
    TracksAt watched R (session >>= k) (session >>= l) s t := by
  exact h

theorem TracksAt.world {k l : World → Run α} (h : TracksAt watched R (k s.depot.world) (l t.depot.world) s t) :
    TracksAt watched R (world >>= k) (world >>= l) s t := by
  exact h

theorem TracksAt.guard {c : Prop} [Decidable c] {e : Stop} {k l : PUnit → Run α} (h : R s t)
    (hk : ¬ c → TracksAt watched R (k ⟨⟩) (l ⟨⟩) s t) :
    TracksAt watched R (if c then throw e >>= k else k ⟨⟩) (if c then throw e >>= l else l ⟨⟩) s t := by
  split
  · exact Or.inr ⟨rfl, h⟩
  · exact hk ‹_›

theorem TracksAt.recover {h h' : Fault → Run α} (hx : TracksAt watched R x y s t)
    (hh : ∀ f u v, R u v → TracksAt watched R (h f) (h' f) u v) : TracksAt watched R (recover x h) (recover y h') s t := by
  rcases hs : x.outcome s with ⟨r, u⟩
  rcases ht : y.outcome t with ⟨q, v⟩
  unfold TracksAt at hx ⊢
  unfold Run.recover
  rw [hs, ht] at hx
  rw [outcome_tryCatch, outcome_tryCatch, hs, ht]
  rcases hx with ⟨on, given⟩ | ⟨same, related⟩
  · obtain rfl : r = .error givenUp := given
    exact Or.inl ⟨on, rfl⟩
  · obtain rfl : q = r := same
    rcases q with (f | _ | _ | _) | a
    · exact hh f u v related
    all_goals exact Or.inr ⟨rfl, related⟩

theorem TracksAt.ensuring {f g : Session → Session} (hx : TracksAt watched R x y s t)
    (h : ∀ s t, R s t → R (f s) (g t)) : TracksAt watched R (ensuring x (adjust f)) (ensuring y (adjust g)) s t := by
  unfold TracksAt
  rw [outcome_ensuring, outcome_ensuring]
  rcases hx with given | ⟨same, related⟩
  · exact Or.inl given
  · exact Or.inr ⟨same, h _ _ related⟩

namespace Tracks

variable {x y : Run α}

protected theorem pure (a : α) : Alike watched R (pure a) := fun _ _ h => Or.inr ⟨rfl, h⟩

protected theorem throw (e : Stop) : Alike watched R (throw e : Run α) := fun _ _ h => Or.inr ⟨rfl, h⟩

protected theorem fail (f : Fault) : Alike watched R (fail f : Run α) := .throw _

protected theorem failing (f : Fault) (k l : α → Run β) : Tracks watched R (fail f >>= k) (fail f >>= l) := by
  intro s t h
  exact Or.inr ⟨rfl, h⟩

protected theorem malformed (c : Malformed) : Alike watched R (malformed c : Run α) := .throw _

protected theorem broken (c : Runtime) : Alike watched R (broken c : Run α) := .throw _

protected theorem check (x : Except Fault α) : Alike watched R (check x) := by
  cases x with
  | ok a => exact .pure a
  | error f => exact .fail f

protected theorem adjust {f g : Session → Session} (h : ∀ s t, R s t → R (f s) (g t)) :
    Tracks watched R (adjust f) (adjust g) := fun s t hst => Or.inr ⟨rfl, h s t hst⟩

protected theorem bind {k l : α → Run β} (hx : Tracks watched R x y)
    (hk : ∀ a, Tracks watched R (k a) (l a)) : Tracks watched R (x >>= k) (y >>= l) :=
  fun s t h => (hx s t h).bind hk

protected theorem session {k l : Session → Run α} (hk : ∀ s t, R s t → TracksAt watched R (k s) (l t) s t) :
    Tracks watched R (session >>= k) (session >>= l) := fun s t h => .session (hk s t h)

protected theorem guard {c : Prop} [Decidable c] {e : Stop} {k l : PUnit → Run α}
    (hk : ¬ c → Tracks watched R (k ⟨⟩) (l ⟨⟩)) :
    Tracks watched R (if c then throw e >>= k else k ⟨⟩) (if c then throw e >>= l else l ⟨⟩) :=
  fun s t h => .guard h fun granted => hk granted s t h

protected theorem recover {h h' : Fault → Run α} (hx : Tracks watched R x y)
    (hh : ∀ f, Tracks watched R (h f) (h' f)) : Tracks watched R (recover x h) (recover y h') :=
  fun s t hst => .recover (hx s t hst) hh

protected theorem wrapping (wrap : String → Runtime) (hx : Tracks watched R x y) :
    Tracks watched R (wrapping wrap x) (wrapping wrap y) := .recover hx fun _ => .broken _

protected theorem wrappingForeign (wrap : String → Runtime) (hx : Tracks watched R x y) :
    Tracks watched R (wrappingForeign wrap x) (wrappingForeign wrap y) := by
  refine .recover hx fun f => ?_
  split
  · exact .fail f
  · exact .broken _

protected theorem ensuring {f g : Session → Session} (hx : Tracks watched R x y)
    (h : ∀ s t, R s t → R (f s) (g t)) : Tracks watched R (ensuring x (adjust f)) (ensuring y (adjust g)) :=
  fun s t hst => .ensuring (hx s t hst) h

protected theorem forM {f g : α → Run PUnit} (hf : ∀ a, Tracks watched R (f a) (g a)) :
    ∀ xs : List α, Tracks watched R (xs.forM f) (xs.forM g)
  | [] => .pure _
  | a :: xs => .bind (hf a) fun _ => Tracks.forM hf xs

protected theorem mapM {f g : α → Run β} (hf : ∀ a, Tracks watched R (f a) (g a)) (xs : List α) :
    Tracks watched R (xs.mapM f) (xs.mapM g) := by
  induction xs with
  | nil => exact .pure _
  | cons a xs ih =>
    rw [mapM_cons, mapM_cons]
    exact .bind (hf a) fun _ => .bind ih fun _ => .pure _

/-! ## Evaluation, and acts on the outside -/

/-- What needs no watching may be watched. -/
theorem mono (h : Tracks False R x y) : Tracks watched R x y := fun s t hst => (h s t hst).mono

protected theorem world {k l : World → Run α}
    (hk : ∀ s t, R s t → TracksAt watched R (k s.depot.world) (l t.depot.world) s t) :
    Tracks watched R (world >>= k) (world >>= l) := fun s t h => .world (hk s t h)

section

variable (hC : Computes R)

include hC

protected theorem touch : Alike watched R (act Pkg.touch) := hC.touch.mono

protected theorem note (text : String) : Alike watched R (note text) := (hC.note text).mono

protected theorem evaluation (x : Eval α) : Alike watched R (act (Act.evaluate x)) := by
  intro s t h
  unfold TracksAt
  rw [outcome_evaluation, outcome_evaluation, hC.store h]
  exact Or.inr ⟨rfl, hC.setStore h _⟩

protected theorem display (v : Value) : Alike watched R (display v) := by
  intro s t h
  unfold TracksAt
  rw [outcome_display, outcome_display, hC.store h]
  exact Or.inr ⟨rfl, h⟩

protected theorem value (text : List Char) : Alike watched R (value text) := by
  refine .session fun s t h => ?_
  rw [hC.vars h]
  exact Tracks.evaluation hC _ s t h

protected theorem evaluate (text : List Char) : Alike watched R (evaluate text) :=
  .bind (.touch hC) fun _ => .value hC text

end

section

variable (hS : Sees R)

include hS

protected theorem say (text : String) : Alike watched R (act (Act.say text)) := (hS.say text).mono

protected theorem ask (prompt : String) : Alike watched R (act (Act.ask prompt)) :=
  (hS.ask prompt).mono

end

section

variable (hA : SeesAll R)

include hA

protected theorem pkg (hd : SetsDepot R) (x : Pkg α) : Alike watched R (pkg x) := by
  intro s t h
  unfold TracksAt
  rw [outcome_pkg, outcome_pkg, hA.depot h]
  exact Or.inr ⟨rfl, hd h _⟩

protected theorem act (x : Act α) : Alike watched R (act x) := by
  intro s t h
  unfold TracksAt
  rw [outcome_act, outcome_act, hA.depot h]
  exact Or.inr ⟨rfl, hA.setWorld h _⟩

protected theorem wholeWorld : Alike watched R world := by
  refine .session fun s t h => ?_
  rw [hA.depot h]
  exact Tracks.pure _ s t h

end

end Tracks

/-- What has the same packages in the same world looks alike. -/
theorem SeesAll.toSees (hA : SeesAll R) : Sees R where
  vars := hA.vars
  store h := by rw [hA.depot h]
  setStore {s t} h store := by
    have set := hA.setWorld h { s.depot.world with store }
    unfold Session.withStore
    rwa [hA.depot h]
  touch := .act hA _
  note text := by
    refine .session fun s t h => ?_
    rw [hA.debug h]
    split
    · exact Tracks.act hA _ s t h
    · exact Tracks.pure _ s t h
  say _ := .act hA _
  ask _ := .act hA _
  denied h := by rw [hA.depot h]
  isFile h _ _ := by rw [hA.depot h]
  readLines h _ _ _ := Tracks.act hA _ _ _ h

theorem Computes.assigns_of_setsVars (hC : Computes R) (hv : SetsVars R) : Assigns R := by
  intro s t h name v _
  rw [hC.vars h]
  exact hv h _

theorem Computes.binds_of_setsVars (hC : Computes R) (hv : SetsVars R) : Binds R := by
  intro s t h x name path lib load
  rw [hC.vars h]
  exact hv h _

end Run

end LineScript
