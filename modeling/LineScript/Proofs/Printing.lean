
import LineScript.Proofs.ModuleFiles
import LineScript.Proofs.PackageAgreement

/-!
# Printing

What is printed is written in chunks of quoted texts and names between commas. One scanner cuts at commas and another one
cuts a chunk into its parts, and they agree on where a quoted text ends (`splitOutsideQuotes_joinWith`, `printTokens_strip`).
Before a name is evaluated the index of packages is looked at, and if that fails no name has a value.
-/

namespace LineScript

open Text Line List
open LineScript.Run (Solid)

/-! ## What can be written -/

structure Literal where
  mark : Char
  text : List Char
  isMark : Line.isMark mark = true
  free : mark ∉ text

/-- A part of a chunk. -/
inductive Atom where
  | literal (l : Literal)
  | name (x : Expr.Identifier)

namespace Atom

def written : Atom → List Char
  | .literal l => l.mark :: l.text ++ [l.mark]
  | .name x => x.name.toList

def isName : Atom → Bool
  | .literal _ => false
  | .name _ => true

def shown (value : Expr.Identifier → String) : Atom → String
  | .literal l => String.ofList l.text
  | .name x => value x

end Atom

/-- Atoms in a row, each with a number of spaces in front, and more spaces at the end. Names do not stand side by side. -/
structure Chunk where
  atoms : List (Nat × Atom)
  after : Nat
  apart : atoms.IsChain fun a b => a.2.isName = true → b.2.isName = true → 0 < b.1

def spaces (n : Nat) : List Char := List.replicate n ' '

def writtenAtoms (atoms : List (Nat × Atom)) : List Char := atoms.flatMap fun a => spaces a.1 ++ a.2.written

def Chunk.written (c : Chunk) : List Char := writtenAtoms c.atoms ++ spaces c.after

def Chunk.isNamed (c : Chunk) : Bool := c.atoms.any fun a => a.2.isName

def Chunk.Known (env : Env) (c : Chunk) : Prop :=
  ∀ a ∈ c.atoms, ∀ x, a.2 = .name x → ∃ v, env.find? x.name = some (.str v)

def Chunk.shown (value : Expr.Identifier → String) (c : Chunk) : String :=
  "".intercalate (c.atoms.map fun a => a.2.shown value)

def printCode (chunks : List Chunk) : List Char := "print".toList ++ joinWith [','] (chunks.map Chunk.written)

def shownLine (value : Expr.Identifier → String) (chunks : List Chunk) : String :=
  " ".intercalate (chunks.map fun c => c.shown value)

namespace Line

variable {c q d : Char} {rest a text b : List Char} {atoms : List (Nat × Atom)}

theorem isMark_iff : isMark c ↔ c = '"' ∨ c = '\x27' := by
  unfold isMark
  rw [Bool.or_eq_true, decide_eq_true_iff, decide_eq_true_iff]

/-! ## Cutting at commas -/

/-- A text in which no comma is outside quotes and no quote stays open. -/
def Closed (w : List Char) : Prop :=
  ∀ piece rest, splitFrom ',' none piece (w ++ rest) = splitFrom ',' none (w.reverse ++ piece) rest

namespace Closed

protected theorem append {v w : List Char} (hv : Closed v) (hw : Closed w) : Closed (v ++ w) := by
  intro piece rest
  rw [append_assoc, hv, hw, reverse_append, append_assoc]

protected theorem plain {w : List Char} (h : ∀ c ∈ w, c ≠ ',' ∧ isMark c = false) : Closed w := by
  intro piece rest
  rw [splitFrom_append (covered_of_not_mem fun mem => (h _ mem).1 rfl), scan_plain fun c hc => (h c hc).2]

end Closed

theorem literal_written_append (l : Literal) (rest : List Char) :
    (Atom.literal l).written ++ rest = l.mark :: (l.text ++ l.mark :: rest) := by
  unfold Atom.written
  simp

theorem closed_literal (l : Literal) : Closed (Atom.literal l).written := by
  intro piece rest
  have opened : Mark.after none l.mark = some l.mark := by
    unfold Mark.after
    rw [l.isMark]
    rfl
  have closed : Mark.after (some l.mark) l.mark = none := if_pos rfl
  have covered : Covered ',' (some l.mark) l.text := by
    intro a b same
    rw [scan_inside fun mem => l.free (same ▸ mem_append_left _ mem)]
    exact Option.some_ne_none _
  have other : l.mark ≠ ',' := by
    intro same
    cases same ▸ l.isMark
  rw [literal_written_append, splitFrom_keep (absurd · other), opened, splitFrom_append covered, scan_inside l.free,
    splitFrom_keep fun _ => Option.some_ne_none _, closed]
  unfold Atom.written
  simp

theorem closed_spaces (n : Nat) : Closed (spaces n) := by
  refine .plain fun c hc => ?_
  obtain rfl := eq_of_mem_replicate hc
  decide

theorem identifier_solid (x : Expr.Identifier) (hc : c ∈ x.name.toList) :
    c ≠ ',' ∧ c ≠ ' ' ∧ isMark c = false ∧ isBlank c = false :=
  Expr.alphanum_forall (P := fun c => c ≠ ',' ∧ c ≠ ' ' ∧ isMark c = false ∧ isBlank c = false) (by decide) (x.solid c hc)

theorem closed_atom (a : Atom) : Closed a.written := by
  cases a with
  | literal l => exact closed_literal l
  | name x => exact .plain fun c hc => ⟨(identifier_solid x hc).1, (identifier_solid x hc).2.2.1⟩

theorem closed_chunk (c : Chunk) : Closed c.written := by
  refine .append ?_ (closed_spaces c.after)
  have atoms : ∀ atoms, Closed (writtenAtoms atoms) := by
    intro atoms
    induction atoms with
    | nil => exact fun _ _ => rfl
    | cons a atoms ih => exact ((closed_spaces a.1).append (closed_atom a.2)).append ih
  exact atoms c.atoms

/-- Closed texts between commas are what the scanner cuts. -/
theorem splitOutsideQuotes_joinWith {texts : List (List Char)} (filled : texts ≠ []) (closed : ∀ w ∈ texts, Closed w) :
    splitOutsideQuotes (joinWith [','] texts) ',' = texts := by
  unfold splitOutsideQuotes
  fun_induction joinWith [','] texts with
  | case1 => exact absurd rfl filled
  | case2 w =>
    have cut := closed w mem_cons_self [] []
    rw [append_nil, append_nil, splitFrom, reverse_reverse] at cut
    exact cut
  | case3 w texts more ih =>
    have cut := closed w mem_cons_self []
    rw [append_assoc, cut, append_nil, singleton_append, splitFrom, if_pos (by decide),
      reverse_reverse, ih more fun v hv => closed v (mem_cons_of_mem w hv)]

/-! ## White space around pieces -/

theorem exists_append_strip (s : List Char) : ∃ a b, s = a ++ strip s ++ b ∧ (∀ c ∈ a, isBlank c) ∧ ∀ c ∈ b, isBlank c := by
  have left := takeWhile_append_dropWhile (p := isBlank) (l := s)
  have right := congrArg List.reverse (takeWhile_append_dropWhile (p := isBlank) (l := (s.dropWhile isBlank).reverse))
  rw [reverse_append, reverse_reverse] at right
  refine ⟨s.takeWhile isBlank, ((s.dropWhile isBlank).reverse.takeWhile isBlank).reverse, ?_,
    all_eq_true.mp all_takeWhile, fun c hc => all_eq_true.mp all_takeWhile c (mem_reverse.mp hc)⟩
  rw [append_assoc]
  calc s = s.takeWhile isBlank ++ s.dropWhile isBlank := left.symm
    _ = _ := by
      refine congrArg (s.takeWhile isBlank ++ ·) ?_
      exact right.symm

theorem strip_append_left (blank : ∀ c ∈ a, isBlank c) (s : List Char) : strip (a ++ s) = strip s := by
  unfold strip trim trimLeft
  rw [dropWhile_append_of_pos blank]

/-- White space in front of a text stands in front of its first piece. -/
theorem map_strip_splitFrom_append (blank : ∀ c ∈ a, isBlank c) (d : Char) (mark : Mark) (piece s : List Char) :
    (splitFrom d mark (piece ++ a.reverse) s).map strip = (splitFrom d mark piece s).map strip := by
  induction s generalizing mark piece with
  | nil =>
    rw [splitFrom, reverse_append, reverse_reverse, map_singleton, strip_append_left blank]
    rfl
  | cons c s ih =>
    rw [splitFrom, splitFrom]
    split
    · rw [reverse_append, reverse_reverse, map_cons, strip_append_left blank]
      rfl
    · exact ih _ (c :: piece)

/-- White space after a text stands after its last piece, also where a quote is open. -/
theorem map_strip_splitFrom_blank (blank : ∀ c ∈ b, isBlank c) (solid : isBlank d = false) (mark : Mark)
    (piece s : List Char) : (splitFrom d mark piece (s ++ b)).map strip = (splitFrom d mark piece s).map strip := by
  induction s generalizing mark piece with
  | nil =>
    have free : d ∉ b := fun mem => Bool.false_ne_true (solid.symm.trans (blank d mem))
    have whole : splitFrom d mark piece b = [piece.reverse ++ b] := by
      rw [← append_nil b, splitFrom_append (covered_of_not_mem free)]
      simp [splitFrom]
    rw [nil_append, whole]
    exact congrArg (fun t => [t]) (trim_append_of_all blank _)
  | cons c s ih =>
    rw [cons_append, splitFrom, splitFrom]
    split
    · rw [map_cons, map_cons, ih]
    · exact ih _ _

/-- Trimmed pieces are the same if the whole is trimmed first. -/
theorem map_strip_splitOutsideQuotes_strip (s : List Char) :
    (splitOutsideQuotes (strip s) ',').map strip = (splitOutsideQuotes s ',').map strip := by
  obtain ⟨a, b, shape, before, after⟩ := exists_append_strip s
  have plain : Closed a := by
    refine .plain fun c hc => ⟨?_, ?_⟩
    · rintro rfl
      cases before _ hc
    · refine Bool.eq_false_iff.mpr fun mark => ?_
      rcases isMark_iff.mp mark with rfl | rfl <;> cases before _ hc
  calc (splitOutsideQuotes (strip s) ',').map strip
      = (splitFrom ',' none ([] ++ a.reverse) (strip s)).map strip := (map_strip_splitFrom_append before ',' none [] _).symm
    _ = (splitOutsideQuotes (a ++ strip s) ',').map strip := by
      rw [splitOutsideQuotes, plain, append_nil, nil_append]
    _ = (splitOutsideQuotes (a ++ strip s ++ b) ',').map strip := (map_strip_splitFrom_blank after rfl none [] _).symm
    _ = (splitOutsideQuotes s ',').map strip := by rw [← shape]

/-! ## Cutting a chunk -/

theorem tokensFrom_spaces (n : Nat) (rest : List Char) : tokensFrom none [] (spaces n ++ rest) = tokensFrom none [] rest := by
  induction n with
  | zero => rfl
  | succ n ih => exact ih

def Breaks : List Char → Prop
  | [] => True
  | c :: _ => c = ' ' ∨ isMark c = true

theorem tokensFrom_breaks (breaks : Breaks rest) (piece : List Char) :
    tokensFrom none piece rest = flush piece ++ tokensFrom none [] rest := by
  cases rest with
  | nil => exact (append_nil _).symm
  | cons c rest =>
    rw [tokensFrom, tokensFrom]
    rcases breaks with rfl | mark
    · rfl
    · rw [if_pos mark, if_pos mark]
      rfl

theorem tokensFrom_word {w : List Char} (solid : ∀ c ∈ w, c ≠ ' ' ∧ isMark c = false) (piece rest : List Char) :
    tokensFrom none piece (w ++ rest) = tokensFrom none (w.reverse ++ piece) rest := by
  induction w generalizing piece with
  | nil => rfl
  | cons c w ih =>
    obtain ⟨other, unmarked⟩ := solid c mem_cons_self
    rw [cons_append, tokensFrom, unmarked, if_neg other, ih fun d hd => solid d (mem_cons_of_mem c hd)]
    simp

theorem tokensFrom_inside (free : q ∉ text) (piece rest : List Char) :
    tokensFrom (some q) piece (text ++ q :: rest) = (piece.reverse ++ text ++ [q]) :: tokensFrom none [] rest := by
  induction text generalizing piece with
  | nil =>
    rw [nil_append, tokensFrom]
    simp
  | cons c text ih =>
    have other : c ≠ q := fun same => free (same ▸ mem_cons_self)
    rw [cons_append, tokensFrom, if_neg other, ih fun mem => free (mem_cons_of_mem c mem)]
    simp

theorem tokensFrom_atom (a : Atom) (ends : a.isName → Breaks rest) :
    tokensFrom none [] (a.written ++ rest) = a.written :: tokensFrom none [] rest := by
  cases a with
  | literal l =>
    rw [literal_written_append, tokensFrom, if_pos l.isMark, tokensFrom_inside l.free]
    rfl
  | name x =>
    have solid : ∀ c ∈ (Atom.name x).written, c ≠ ' ' ∧ isMark c = false := fun c hc =>
      ⟨(identifier_solid x hc).2.1, (identifier_solid x hc).2.2.1⟩
    obtain ⟨c, cs, shape, -⟩ := x.exists_letter
    have filled : (Atom.name x).written.reverse.isEmpty = false := by
      rw [isEmpty_reverse]
      show x.name.toList.isEmpty = false
      rw [shape]
      rfl
    rw [tokensFrom_word solid, append_nil, tokensFrom_breaks (ends rfl), flush, filled, if_neg Bool.false_ne_true,
      reverse_reverse]
    rfl

/-- What follows a name in a chunk does not go on with it. -/
theorem breaks_writtenAtoms {a : Nat × Atom} (name : a.2.isName)
    (apart : (a :: atoms).IsChain fun a b => a.2.isName = true → b.2.isName → 0 < b.1) (n : Nat) :
    Breaks (writtenAtoms atoms ++ spaces n) := by
  cases atoms with
  | nil =>
    cases n with
    | zero => trivial
    | succ n => exact Or.inl rfl
  | cons b atoms =>
    obtain ⟨k, b⟩ := b
    have gap := (isChain_cons_cons.mp apart).1 name
    cases k with
    | succ k => exact Or.inl rfl
    | zero =>
      cases b with
      | literal l => exact Or.inr l.isMark
      | name x => exact absurd (gap rfl) (Nat.lt_irrefl 0)

theorem tokensFrom_writtenAtoms (apart : atoms.IsChain fun a b => a.2.isName = true → b.2.isName → 0 < b.1)
    (n : Nat) : tokensFrom none [] (writtenAtoms atoms ++ spaces n) = atoms.map fun a => a.2.written := by
  induction atoms with
  | nil =>
    have none := tokensFrom_spaces n []
    rwa [append_nil] at none
  | cons a atoms ih =>
    have shape : writtenAtoms (a :: atoms) ++ spaces n = spaces a.1 ++ (a.2.written ++ (writtenAtoms atoms ++ spaces n)) := by
      unfold writtenAtoms
      simp
    rw [shape, tokensFrom_spaces, tokensFrom_atom a.2 fun name => breaks_writtenAtoms name apart n, ih apart.tail]
    rfl

theorem solid_atom (a : Atom) : Solid a.written := by
  cases a with
  | literal l =>
    have solid : isBlank l.mark = false := by
      rcases isMark_iff.mp l.isMark with mark | mark <;> rw [mark] <;> decide
    refine ⟨cons_ne_nil _ _, fun c h => ?_, fun c h => ?_⟩
    · cases h
      exact solid
    · cases getLast?_concat.symm.trans h
      exact solid
  | name x =>
    obtain ⟨c, cs, shape, -⟩ := x.exists_letter
    exact ⟨fun none => cons_ne_nil c cs (shape.symm.trans none),
      fun c h => (identifier_solid x (mem_of_mem_head? h)).2.2.2,
      fun c h => (identifier_solid x (mem_of_getLast? h)).2.2.2⟩

theorem solid_atoms (a : Atom) (atoms : List (Nat × Atom)) : Solid (a.written ++ writtenAtoms atoms) := by
  induction atoms generalizing a with
  | nil =>
    rw [writtenAtoms, flatMap_nil, append_nil]
    exact solid_atom a
  | cons b atoms ih =>
    have shape : a.written ++ writtenAtoms (b :: atoms) = a.written ++ spaces b.1 ++ (b.2.written ++ writtenAtoms atoms) := by
      unfold writtenAtoms
      simp
    rw [shape]
    exact (solid_atom a).append (ih b.2) (spaces b.1)

theorem isBlank_of_mem_spaces {n : Nat} (h : c ∈ spaces n) : isBlank c := by
  rw [eq_of_mem_replicate h]
  decide

theorem printTokens_strip (c : Chunk) : printTokens (strip c.written) = c.atoms.map fun a => a.2.written := by
  have trimmed : strip c.written = strip (writtenAtoms c.atoms) := trim_append_of_all (fun _ => isBlank_of_mem_spaces) _
  have tokens := tokensFrom_writtenAtoms c.apart 0
  rw [spaces, replicate_zero, append_nil] at tokens
  rw [trimmed, ← tokens]
  cases c.atoms with
  | nil => rfl
  | cons a atoms =>
    have shape : writtenAtoms (a :: atoms) = spaces a.1 ++ (a.2.written ++ writtenAtoms atoms) := by
      unfold writtenAtoms
      simp
    rw [shape, tokensFrom_spaces, (solid_atoms a.2 atoms).strip_append fun _ => isBlank_of_mem_spaces, printTokens]

end Line

namespace Run

variable {α β : Type}

/-! ## The pieces -/

/-- Steps that each give a result and at most settle something once leave it settled if one of them settles it. -/
theorem outcome_mapM {f : α → Run β} {g : α → β} {settles : α → Bool} (state : Bool → Session) {xs : List α}
    (each : ∀ a ∈ xs, ∀ settled, (f a).outcome (state settled) = (.ok (g a), state (settled || settles a))) (settled : Bool) :
    (xs.mapM f).outcome (state settled) = (.ok (xs.map g), state (settled || xs.any settles)) := by
  induction xs generalizing settled with
  | nil => simp
  | cons a xs ih =>
    rw [mapM_cons, bind_ok (each a mem_cons_self settled),
      bind_ok (ih (fun b hb => each b (mem_cons_of_mem a hb)) _), Bool.or_assoc]
    rfl

def looked (s : Session) (seen : Bool) : Session :=
  if seen then s.onGround ⟨(Pkg.look s.depot.world.disk).2, s.depot.world.store⟩ else s

theorem look_looked (s : Session) (seen : Bool) :
    Pkg.look (looked s seen).depot.world.disk = Pkg.look s.depot.world.disk := by
  cases seen with
  | false => rfl
  | true => exact Pkg.look_twice _

theorem vars_looked (s : Session) (seen : Bool) : (looked s seen).vars = s.vars := by
  cases seen <;> rfl

theorem onGround_looked (s : Session) (seen : Bool) :
    (looked s seen).onGround ⟨(Pkg.look s.depot.world.disk).2, (looked s seen).depot.world.store⟩ = looked s true := by
  cases seen <;> rfl

def stringOf (env : Env) (x : Expr.Identifier) : String :=
  match env.find? x.name with
  | some (.str v) => v
  | _ => ""

def nameShown (s : Session) (x : Expr.Identifier) : String :=
  if (Pkg.look s.depot.world.disk).1.isOk then stringOf s.vars x else errorMark

theorem outcome_printToken_name {s : Session} {x : Expr.Identifier} {v : String} (found : s.vars.find? x.name = some (.str v))
    (seen : Bool) : (printToken x.name.toList).outcome (looked s seen) = (.ok (nameShown s x), looked s true) := by
  have value : Expr.evaluate (looked s seen).vars x.name.toList = pure (.str v) := by
    refine Expr.evaluate_identifier x ?_
    rw [vars_looked]
    exact found
  have evaluated := outcome_appraise (looked s seen).vars x.name.toList (looked s seen)
  rw [← outcome_evaluate] at evaluated
  unfold appraised Session.ground at evaluated
  rw [look_looked, value] at evaluated
  unfold printToken recover nameShown stringOf
  rw [isQuoted_name fun c hc => (identifier_solid x hc).2.2.1, if_neg Bool.false_ne_true, outcome_tryCatch]
  have settled := onGround_looked s seen
  rcases there : Pkg.look s.depot.world.disk with ⟨f | _, disk⟩
  · rw [there] at evaluated settled
    rw [bind_error evaluated]
    exact congrArg (Prod.mk _) settled
  · rw [there] at evaluated settled
    rw [bind_ok evaluated, found]
    exact congrArg (Prod.mk _) settled

theorem outcome_printToken_literal (l : Literal) (s : Session) :
    (printToken (Atom.literal l).written).outcome s = (.ok (String.ofList l.text), s) := by
  have quoted : isQuoted (Atom.literal l).written := by
    have first : (Atom.literal l).written.head? = some l.mark := rfl
    have last : (Atom.literal l).written.getLast? = some l.mark := getLast?_concat
    unfold isQuoted
    rw [first, last]
    dsimp only
    rw [l.isMark, decide_eq_true rfl]
    rfl
  have between : inner (Atom.literal l).written = l.text := dropLast_concat
  unfold printToken
  rw [quoted, between]
  rfl

section

variable {s : Session}

/-- Printing a chunk looks at the index if there is a name in it. -/
theorem outcome_printChunk {c : Chunk} (known : c.Known s.vars) (seen : Bool) :
    (printChunk c.written).outcome (looked s seen) = (.ok (c.shown (nameShown s)), looked s (seen || c.isNamed)) := by
  have each : ∀ a ∈ c.atoms, ∀ seen, (printToken (strip a.2.written)).outcome (looked s seen) =
      (.ok (a.2.shown (nameShown s)), looked s (seen || a.2.isName)) := by
    intro a ha seen
    rw [(solid_atom a.2).strip]
    rcases shape : a.2 with l | x
    · rw [outcome_printToken_literal, Atom.isName, Bool.or_false]
      rfl
    · obtain ⟨v, found⟩ := known a ha x shape
      rw [Atom.isName, Bool.or_true]
      exact outcome_printToken_name found seen
  unfold printChunk
  rw [printTokens_strip, mapM_map]
  exact bind_ok (outcome_mapM (looked s) each seen)

theorem printChunk_strip (w : List Char) : printChunk (strip w) = printChunk w := by
  unfold printChunk
  rw [strip, strip, trim_trim]

theorem mapM_printChunk_strip (w : List Char) :
    (splitOutsideQuotes (strip w) ',').mapM printChunk = (splitOutsideQuotes w ',').mapM printChunk := by
  have trimmed : ∀ pieces : List (List Char), (pieces.map strip).mapM printChunk = pieces.mapM printChunk := by
    intro pieces
    rw [mapM_map]
    exact congrArg (fun f => pieces.mapM f) (funext printChunk_strip)
  rw [← trimmed, map_strip_splitOutsideQuotes_strip, trimmed]

theorem outcome_print {chunks : List Chunk} (filled : chunks ≠ []) (known : ∀ c ∈ chunks, c.Known s.vars) :
    (print (printCode chunks) false).outcome s =
      (.ok (), said (shownLine (nameShown s) chunks) (looked s (chunks.any Chunk.isNamed))) := by
  have closed : ∀ w ∈ chunks.map Chunk.written, Closed w := forall_mem_map.mpr fun c _ => closed_chunk c
  have pieces : ((splitOutsideQuotes (strip ((printCode chunks).drop 5)) ',').mapM printChunk).outcome s =
      (.ok (chunks.map fun c => c.shown (nameShown s)), looked s (chunks.any Chunk.isNamed)) := by
    have code : (printCode chunks).drop 5 = joinWith [','] (chunks.map Chunk.written) := rfl
    rw [mapM_printChunk_strip, code, splitOutsideQuotes_joinWith (by simpa using filled) closed, mapM_map]
    exact outcome_mapM (looked s) (fun c hc => outcome_printChunk (known c hc)) false
  unfold print
  rw [if_neg Bool.false_ne_true]
  dsimp only
  split
  · -- nothing is written, which is one piece with nothing in it
    rename_i nothing
    rw [isEmpty_iff.mp nothing] at pieces
    obtain ⟨texts, same⟩ := Prod.mk.inj pieces
    unfold shownLine
    rw [← Except.ok.inj texts, ← same]
    rfl
  · rw [bind_ok pieces]
    rfl

theorem shownLine_congr {f g : Expr.Identifier → String} {chunks : List Chunk}
    (same : ∀ c ∈ chunks, ∀ a ∈ c.atoms, ∀ x, a.2 = .name x → f x = g x) : shownLine f chunks = shownLine g chunks := by
  have atom : ∀ c ∈ chunks, ∀ a ∈ c.atoms, a.2.shown f = a.2.shown g := by
    intro c hc a ha
    rcases shape : a.2 with l | x
    · rfl
    · exact same c hc a ha x shape
  refine congrArg " ".intercalate (map_congr_left fun c hc => ?_)
  exact congrArg "".intercalate (map_congr_left fun a ha => atom c hc a ha)

end

/-- **Printing joins the parts of a chunk, and the chunks.** It shows one line: the texts and strings of each chunk side by side,
and a space between chunks. Where the index of packages cannot be looked at, an error mark stands for each name. -/
theorem print_shows_one_line {s : Session} {chunks : List Chunk} (filled : chunks ≠ [])
    (known : ∀ c ∈ chunks, c.Known s.vars) :
    ∃ line t, (print (printCode chunks) false).outcome s = (.ok (), said line t) ∧
      t = s.onGround ⟨if chunks.any Chunk.isNamed then (Pkg.look s.depot.world.disk).2 else s.depot.world.disk,
        s.depot.world.store⟩ ∧
      ((Pkg.look s.depot.world.disk).1.isOk = true ∨ chunks.any Chunk.isNamed = false →
        line = shownLine (stringOf s.vars) chunks) ∧
      ((Pkg.look s.depot.world.disk).1.isOk = false → line = shownLine (fun _ => errorMark) chunks) := by
  refine ⟨_, _, outcome_print filled known, ?_, ?_, ?_⟩
  · cases chunks.any Chunk.isNamed <;> rfl
  · intro fine
    refine shownLine_congr fun c hc a ha x shape => ?_
    rcases fine with there | none
    · exact if_pos there
    · have named : chunks.any Chunk.isNamed = true := by
        refine any_eq_true.mpr ⟨c, hc, any_eq_true.mpr ⟨a, ha, ?_⟩⟩
        rw [shape]
        rfl
      rw [named] at none
      cases none
  · intro missing
    refine shownLine_congr fun _ _ _ _ x _ => ?_
    exact if_neg (by rw [missing]; exact Bool.false_ne_true)

/-- A quoted text that holds a comma and the other mark, right before a name, and a chunk with nothing in it. -/
def mixedChunks : List Chunk :=
  [⟨[(1, .literal ⟨'"', "b, 'c".toList, by decide, by decide⟩), (0, .name Expr.nameA)], 2, by decide⟩,
   ⟨[], 1, by decide⟩,
   ⟨[(3, .name Expr.nameA), (1, .name Expr.nameA)], 0, by decide⟩]

/-- A session with a variable, and an index of packages with these bytes. -/
def indexed (index : Text.Bytes) : Session :=
  { vars := [("a", .str "hi")]
    depot := { index := .obj [], world := { disk := [("packages", .folder [("gpd_index.json", .file index 420)])] } } }

theorem print_shows_one_line_mixedChunks :
    printCode mixedChunks = "print \"b, 'c\"a  , ,   a a".toList ∧ (∀ c ∈ mixedChunks, c.Known (indexed []).vars) ∧
      ∃ line t, (print (printCode mixedChunks) false).outcome (indexed []) = (.ok (), said line t) ∧
        line = "b, 'chi  hihi" := by
  have known : ∀ c ∈ mixedChunks, c.Known (indexed []).vars := by
    intro c hc a ha x shape
    refine ⟨"hi", ?_⟩
    obtain rfl : x = Expr.nameA := by
      simp only [mixedChunks, mem_cons, not_mem_nil, or_false] at hc
      rcases hc with rfl | rfl | rfl <;> simp only [mem_cons, not_mem_nil, or_false] at ha
      · rcases ha with rfl | rfl
        · cases shape
        · exact (Atom.name.inj shape).symm
      · rcases ha with rfl | rfl <;> exact (Atom.name.inj shape).symm
    rfl
  obtain ⟨line, t, printed, -, joined, -⟩ := print_shows_one_line (cons_ne_nil _ _) known
  exact ⟨by decide, known, line, t, printed, (joined (Or.inl (by decide +kernel))).trans (by decide +kernel)⟩

/-- A name that is bound to a string is printed as an error where the index is no text. -/
theorem undecodable_index_spoils_print :
    (indexed [0xff]).vars.find? "a" = some (.str "hi") ∧
      ((print "print a".toList false).outcome (indexed [0xff])).1.isOk = true ∧
      ((print "print a".toList false).outcome (indexed [0xff])).2.depot.world.output = "[Error]\n" :=
  ⟨rfl, by decide +kernel, by decide +kernel⟩

end Run

end LineScript
