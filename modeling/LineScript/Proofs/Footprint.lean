
import LineScript.Proofs.Watched

/-!
# What the statements of a script change

A statement moves by every relation that does not look at the parts of a session that it can change; one that runs lines
moves as the runner of the lines does. A run is compared with itself for this.
-/

namespace LineScript.Run

open Text Line

variable {α : Type} {R : Session → Session → Prop}

def IgnoresVars (R : Session → Session → Prop) : Prop := ∀ s v, R s { s with vars := v }

/-- Relations that do not look at what simple statements change, and at loops only where there are none. -/
structure Lax (R : Session → Session → Prop) : Prop extends Stable R where
  vars : IgnoresVars R
  number : ∀ s n, R s { s with lineNumber := n }
  aliased : ∀ s name target, isValidName name = true →
    R s { s with aliases := s.aliases.set (String.ofList name) target }
  shown : ∀ s v, R s { s with lastOutput := v }
  loops : ∀ s l, s.loops ≠ [] → R s { s with loops := l }

def IgnoresJumps (R : Session → Session → Prop) : Prop := ∀ s n, R s { s with jumps := n }

/-- Relations that look at blocks and definitions only, and at loops only where there are none. -/
structure Loose (R : Session → Session → Prop) : Prop extends Lax R where
  exported : ∀ s v e, R s { s with vars := v, exported := e }
  jumps : IgnoresJumps R

/-- Relations that look at blocks and definitions no more than at variables. -/
structure Free (R : Session → Session → Prop) : Prop extends Lax R where
  defined : ∀ s functions defining pending, R s { s with functions, defining, pending }
  blocks : ∀ s ifs elses, R s { s with ifs, elses }

/-! ## A run compared with itself -/

/-- Two sessions are one, of which something holds. -/
def Both (P : Session → Prop) (s t : Session) : Prop := s = t ∧ P s

/-- Two sessions are one, and it stands in a relation to an earlier one. -/
def Since (R : Session → Session → Prop) (first s t : Session) : Prop := s = t ∧ R first s

section

variable {first : Session}

theorem seesAll_since (hR : Stable R) : SeesAll (Since R first) where
  vars h := h.1 ▸ rfl
  debug h := h.1 ▸ rfl
  depot h := h.1 ▸ rfl
  setWorld h _ := ⟨h.1 ▸ rfl, hR.trans h.2 (hR.outside _ _)⟩

theorem sees_since (hR : Stable R) : Sees (Since R first) := (seesAll_since hR).toSees

theorem setsDepot_since (hR : Stable R) : SetsDepot (Since R first) :=
  fun h d => ⟨h.1 ▸ rfl, hR.trans h.2 (hR.outside _ d)⟩

theorem setsVars_since (hR : Stable R) (hv : IgnoresVars R) : SetsVars (Since R first) :=
  fun h v => ⟨h.1 ▸ rfl, hR.trans h.2 (hv _ v)⟩

theorem shares_since (hR : Lax R) : Shares (Since R first) Eq where
  toComputes := (sees_since hR.toStable).toComputes
  assigns := (sees_since hR.toStable).assigns_of_setsVars (setsVars_since hR.toStable hR.vars)
  aliases h := h.1 ▸ rfl
  setAlias h name target valid := ⟨h.1 ▸ rfl, hR.trans h.2 (hR.aliased _ name target valid)⟩
  setShown h v := ⟨h.1 ▸ rfl, hR.trans h.2 (hR.shown _ v)⟩
  loops h := h.1 ▸ rfl
  collects h _ _ some _ := ⟨h.1 ▸ rfl, hR.trans h.2 (hR.loops _ _ (by rw [some]; exact List.cons_ne_nil _ _))⟩
  setLoops h some l := ⟨h.1 ▸ rfl, hR.trans h.2 (hR.loops _ l some)⟩
  same _ := rfl
  number h := h.1 ▸ rfl
  setNumber := by rintro s _ ⟨rfl, h⟩ n _ rfl; exact ⟨rfl, hR.trans h (hR.number s n)⟩

theorem counts_since (hR : Stable R) (hj : IgnoresJumps R) : Counts (Since R first) where
  jumps h := h.1 ▸ rfl
  setJumps h n := ⟨h.1 ▸ rfl, hR.trans h.2 (hj _ n)⟩

theorem exports_since (hR : Loose R) : Exports (Since R first) where
  exported h := h.1 ▸ rfl
  setExported h v e := ⟨h.1 ▸ rfl, hR.trans h.2 (hR.exported _ v e)⟩

theorem defines_since (hR : Free R) : Defines (Since R first) where
  ifs h := h.1 ▸ rfl
  elses h := h.1 ▸ rfl
  setIfs h _ := ⟨h.1 ▸ rfl, hR.trans h.2 (hR.blocks _ _ _)⟩
  setElses h _ := ⟨h.1 ▸ rfl, hR.trans h.2 (hR.blocks _ _ _)⟩
  defining h := h.1 ▸ rfl
  enter h _ _ _ _ := ⟨h.1 ▸ rfl, hR.trans h.2 (hR.defined _ _ _ _)⟩
  keepLine h _ := ⟨h.1 ▸ rfl, hR.trans h.2 (hR.defined _ _ _ _)⟩
  finish h _ := ⟨h.1 ▸ rfl, hR.trans h.2 (hR.defined _ _ _ _)⟩

end

namespace Moves

variable {watched : Prop} {first : Session}

theorem of_session {k : Session → Run α} (h : ∀ s, R s ((k s).outcome s).2) : Moves R (session >>= k) := by
  intro s
  exact h s

theorem of_tracks {x : Run α} (refl : ∀ s, R s s) (h : ∀ first, Tracks False (Since R first) x x) : Moves R x := by
  intro s
  rcases h s s s ⟨rfl, refl s⟩ with ⟨off, -⟩ | ⟨-, -, moved⟩
  · exact off.elim
  · exact moved

theorem tracks (hR : Stable R) {x : Run α} (hx : Moves R x) : Tracks watched (Since R first) x x := by
  rintro s _ ⟨rfl, h⟩
  exact Or.inr ⟨rfl, rfl, hR.trans h (hx s)⟩

variable {run : Runner} {program : ProgramRunner}

theorem tracks_runner (hR : Stable R) (hrun : ∀ l b n, Moves R (run l b n)) (l : List Char) (b : Bool) {m n : Int}
    (same : m = n) : Tracks watched (Since R first) (run l b m) (run l b n) :=
  same ▸ tracks hR (hrun l b m)

/-! ## Statements -/

section

variable (hR : Stable R)

include hR

variable (code : List Char) (importing : Bool)

protected theorem assign (hv : IgnoresVars R) (code : List Char) : Moves R (assign code) :=
  of_tracks hR.refl fun _ =>
    .assign (sees_since hR).toComputes ((sees_since hR).assigns_of_setsVars (setsVars_since hR hv)) code

protected theorem print : Moves R (print code importing) :=
  of_tracks hR.refl fun _ => .print (sees_since hR) code importing

protected theorem printInput : Moves R (printInput importing) :=
  of_tracks hR.refl fun _ => .printInput (sees_since hR) importing

protected theorem inputAssign (hv : IgnoresVars R) (code : List Char) (importing : Bool) :
    Moves R (inputAssign code importing) :=
  of_tracks hR.refl fun _ =>
    .inputAssign (sees_since hR) ((sees_since hR).assigns_of_setsVars (setsVars_since hR hv)) code importing

protected theorem goto : Moves R (goto code) :=
  of_tracks hR.refl fun _ => .goto (sees_since hR).toComputes code

protected theorem argument (arg : List Char) : Moves R (argument arg) :=
  of_tracks hR.refl fun _ => .argument (sees_since hR) arg

protected theorem handle (line : List Char) (importing : Bool) (n : Int) (f : Fault) : Moves R (handle line importing n f) :=
  of_tracks hR.refl fun _ => .handle (sees_since hR) line importing n f

end

/-! ## Statements that run lines and programs -/

section

variable (hR : Lax R) (hrun : ∀ l b n, Moves R (run l b n))

include hR hrun

protected theorem call (code : List Char) (importing : Bool) : Moves R (call run code importing) := by
  refine of_tracks hR.refl fun first s t h => ?_
  refine Tracks.call (shares_since hR) (tracks_runner hR.toStable hrun) (sees_since hR.toStable)
    (setsVars_since hR.toStable hR.vars) h code importing ?_
  obtain ⟨rfl, -⟩ := h
  exact ⟨rfl, fun _ => rfl⟩

protected theorem programWith (hj : IgnoresJumps R) (lines : List (List Char)) : Moves R (programWith run lines) :=
  of_tracks hR.refl fun _ =>
    .programWith (shares_since hR) (tracks_runner hR.toStable hrun) (counts_since hR.toStable hj) lines

end

protected theorem runScript (hR : Loose R) (hprogram : ∀ lines, Moves R (program lines)) (path : List Char)
    (bound : String) : Moves R (runScript program path bound) :=
  of_tracks hR.refl fun _ =>
    .runScript (seesAll_since hR.toStable) (exports_since hR) (fun lines => tracks hR.toStable (hprogram lines)) path bound

protected theorem packageCommand (hS : Stable R) (hv : IgnoresVars R)
    (hscript : ∀ path bound, Moves R (runScript program path bound)) (code : List Char) :
    Moves R (packageCommand program code) :=
  of_tracks hS.refl fun _ =>
    .packageCommand (seesAll_since hS) (setsDepot_since hS) ((sees_since hS).binds_of_setsVars (setsVars_since hS hv))
      (fun path bound => tracks hS (hscript path bound)) code

/-! ## Statements that open blocks and start definitions -/

section

variable (hS : Stable R)

include hS

protected theorem define {indent : Nat}
    (enter : ∀ s name params,
      R s { s with functions := s.functions.set name ⟨params, []⟩, defining := some (name, indent), pending := [] })
    (code : List Char) : Moves R (define code indent) := by
  refine .guard hS.refl fun _ => ?_
  split
  · exact .malformed hS _
  · refine .guard hS.refl fun _ => ?_
    split
    · exact .bind hS (.malformed hS _) fun _ => .adjust fun s => enter s _ _
    · exact .adjust fun s => enter s _ _

protected theorem condition (push : ∀ s ifs elses, R s { s with ifs, elses }) (code : List Char) (indent : Nat) :
    Moves R (condition code indent) := by
  refine .guard hS.refl fun _ => .wrapping _ (.bind hS (.evaluate hS _) fun v => .bind hS (.world hS) fun w => ?_)
  exact .bind hS (.adjust fun s => push s _ _) fun _ => .note hS _

protected theorem alternative (push : ∀ s ifs elses, R s { s with ifs, elses }) (indent : Nat) :
    Moves R (alternative indent) := by
  refine .bind hS (.session hS) fun s => ?_
  split
  · exact .malformed hS _
  · exact .guard hS.refl fun _ => .adjust fun s => push s _ s.elses

end

/-- Commands that neither open blocks nor start definitions keep what can be seen of blocks and definitions only. -/
protected theorem execute (hR : Loose R) (hrun : ∀ l b n, Moves R (run l b n)) {command : Command}
    (other : command ≠ .alternative ∧ command ≠ .condition ∧ command ≠ .define) (code : List Char) (indent : Nat)
    (importing : Bool) : Moves R (execute run command code indent importing) := by
  have hL := hR.toLax
  have hS := hR.toStable
  have hprogram := Moves.programWith hL hrun hR.jumps
  refine of_tracks hR.refl fun first s t h => ?_
  refine Tracks.executeClosed (shares_since hL) (tracks_runner hS hrun) (sees_since hS) h command code indent importing
    (fun _ => ?_) (fun _ lines => tracks hS (hprogram lines)) (fun _ => ?_) other
  · exact tracks hS (.packageCommand hS hL.vars (.runScript hR hprogram) _) s t h
  · exact tracks hS (.call hL hrun code importing) s t h

/-! ## Lines -/

/-- Every line keeps what neither blocks nor statements are seen by, if the lines and programs that it runs do. -/
protected theorem lineWith (hR : Free R) (hrun : ∀ l b n, Moves R (run l b n))
    (hscript : ∀ path bound, Moves R (runScript (programWith run) path bound))
    (hprogram : ∀ lines, Moves R (programWith run lines)) (line : List Char) (importing : Bool) (n : Int) :
    Moves R (lineWith run line importing n) := by
  have hL := hR.toLax
  have hS := hR.toStable
  refine of_tracks hR.refl fun first => ?_
  rw [lineWith_eq_lineBy]
  have lines : TracksLines False (Since R first) Eq run run := tracks_runner hS hrun
  refine .lineBy (shares_since hL).toAligned (defines_since hR) rfl rfl (fun l _ => ?_) (fun l _ => ?_) fun f => ?_
  · exact .closeBlocks (shares_since hL) (defines_since hR) lines l.indent
  · refine .process_of_execute (shares_since hL).toAligned (defines_since hR) fun s t h command code => ?_
    refine Tracks.execute (shares_since hL) (defines_since hR) lines (sees_since hS) h command code l.indent importing
      (fun _ => ?_) (fun _ lines => ?_) (fun _ => ?_)
    · exact tracks hS (.packageCommand hS hL.vars hscript _) s t h
    · exact tracks hS (hprogram lines)
    · exact tracks hS (.call hL hrun code importing) s t h
  · exact .handle (sees_since hS) _ _ _ f

protected theorem runner (hR : Free R) (hj : IgnoresJumps R)
    (hscript : ∀ {program : ProgramRunner}, (∀ lines, Moves R (program lines)) →
      ∀ path bound, Moves R (runScript program path bound)) (depth : Nat) (line : List Char) (importing : Bool)
    (n : Int) : Moves R (runner depth line importing n) := by
  induction depth generalizing line importing n with
  | zero => exact .fail hR.toStable _
  | succ depth ih =>
    have hprogram := Moves.programWith hR.toLax ih hj
    exact .lineWith hR ih (hscript hprogram) hprogram line importing n

end Moves

/-! ## Watched lines -/

/-- A line that is watched for packages moves as statements do until it is given up. It is watched for files too, or
jumps are not looked at. -/
theorem Tracks.watchedRunner (hR : Free R) {w : Watch} (lenient : w.strict = false)
    (packages : ∀ s code, w.forbids s .package code)
    (files : (∀ s code, w.forbids s .runFile code) ∨ IgnoresJumps R) (first : Session) (depth : Nat) :
    TracksLines True (Since R first) Eq (w.runner depth) (runner depth) := by
  have hS : Shares (Since R first) Eq := shares_since hR.toLax
  have hD : Defines (Since R first) := defines_since hR
  have hV : Sees (Since R first) := sees_since hR.toStable
  refine Tracks.watchedLines lenient hS hD hV (fun hrun s t h command code indent importing permitted => ?_) depth
  refine Tracks.execute hS hD hrun hV h command code indent importing ?_ ?_ ?_
  -- what the watch forbids has been given up before it is executed
  · rintro rfl
    rw [packages] at permitted
    cases permitted
  · rintro rfl lines
    rcases files with files | jumps
    · rw [files] at permitted
      cases permitted
    · exact .programWith hS hrun (counts_since hR.toStable jumps) lines
  · refine fun _ => Tracks.call hS hrun hV (setsVars_since hR.toStable hR.vars) h _ _ ?_
    obtain ⟨rfl, -⟩ := h
    exact ⟨rfl, fun _ => rfl⟩

end LineScript.Run
