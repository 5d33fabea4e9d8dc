
import LineScript.Proofs.BlockInvariant
import LineScript.Proofs.Executed
import LineScript.Proofs.Passing
import Mathlib.Data.Bool.AllAny

/-!
# Calls replay their source

The lines of a body lose their comments and are written anew from depth and code before they are run, so they are read as the
same lines again. What is left of the detour is the function itself and the number of the line. Lines that call the function,
jump or fail are kept out by a watched run that is not given up.
-/

namespace LineScript

def Session.without (f : String) (s : Session) : Session := { s with functions := s.functions.erase f, lineNumber := 0 }

def Session.AliasesValid (s : Session) : Prop := ∀ entry ∈ s.aliases, Line.isValidName entry.1.toList = true

namespace Run

open Text Line List

variable {s t : Session} {f : String} {lines : List (List Char)} {raw code : List Char} {l : Line} {r : Except Stop Unit}

/-! ## Sessions that differ in a function -/

/-- Two sessions that differ at most in a function and the number of the line. -/
def AlikeBut (f : String) (s t : Session) : Prop := t.without f = s.without f

section

variable {f : String} {s t : Session}

/-- What is asked of the sessions without the function has the same answer. -/
theorem AlikeBut.congr {α : Type} (h : AlikeBut f s t) (ask : Session → α) :
    ask (t.without f) = ask (s.without f) := congrArg ask h

theorem AlikeBut.change (h : AlikeBut f s t) (change : Session → Session) :
    change (t.without f) = change (s.without f) := h.congr change

theorem AlikeBut.erase (h : AlikeBut f s t) : t.functions.erase f = s.functions.erase f := h.congr Session.functions

theorem AlikeBut.find? (h : AlikeBut f s t) {name : String} (other : name ≠ f) :
    t.functions.find? name = s.functions.find? name := by
  rw [← Table.find?_erase_of_ne t.functions other.symm, h.erase, Table.find?_erase_of_ne s.functions other.symm]

theorem AlikeBut.erase_set (h : AlikeBut f s t) (name : String) (g : Func) :
    (t.functions.set name g).erase f = (s.functions.set name g).erase f := by
  by_cases same : name = f
  · rw [same, Table.erase_set_self, Table.erase_set_self, h.erase]
  · rw [Table.erase_set_of_ne _ same, Table.erase_set_of_ne _ same, h.erase]

/-- What a definition that ends leaves of the functions. -/
theorem AlikeBut.erase_finished (h : AlikeBut f s t) (name : String) :
    (finished name t).functions.erase f = (finished name s).functions.erase f := by
  by_cases same : name = f
  · -- the function itself: whatever becomes of it, it is taken off
    subst same
    have off : ∀ u : Session, (finished name u).functions.erase name = u.functions.erase name := by
      intro u
      unfold finished
      split
      · exact Table.erase_set_self _ _ _
      · rfl
    rw [off, off, h.erase]
  · have pending : t.pending = s.pending := h.congr Session.pending
    unfold finished
    rw [h.find? same, pending]
    split
    · exact h.erase_set name _
    · exact h.erase

end

theorem seesAll_alikeBut (f : String) : SeesAll (AlikeBut f) where
  vars h := h.congr Session.vars
  debug h := h.congr Session.debug
  depot h := h.congr Session.depot
  setWorld {s _} h w := h.change fun u => { u with depot := { s.depot with world := w } }

theorem setsVars_alikeBut (f : String) : SetsVars (AlikeBut f) := fun h v => h.change fun u => { u with vars := v }

theorem shares_alikeBut (f : String) : Shares (AlikeBut f) fun _ _ => True where
  toComputes := (seesAll_alikeBut f).toSees.toComputes
  assigns := (seesAll_alikeBut f).toSees.assigns_of_setsVars (setsVars_alikeBut f)
  aliases h := h.congr Session.aliases
  setAlias {s _} h name target _ :=
    h.change fun u => { u with aliases := s.aliases.set (String.ofList name) target }
  setShown h v := h.change fun u => { u with lastOutput := v }
  loops h := h.congr Session.loops
  collects h l rest _ body := h.change fun u => { u with loops := { l with body } :: rest }
  setLoops h _ l := h.change fun u => { u with loops := l }
  same _ := trivial
  number _ := trivial
  setNumber h _ _ _ := h

theorem counts_alikeBut (f : String) : Counts (AlikeBut f) where
  jumps h := h.congr Session.jumps
  setJumps h n := h.change fun u => { u with jumps := n }

theorem exports_alikeBut (f : String) : Exports (AlikeBut f) where
  exported h := h.congr Session.exported
  setExported h v e := h.change fun u => { u with vars := v, exported := e }

theorem defines_alikeBut (f : String) : Defines (AlikeBut f) where
  ifs h := h.congr Session.ifs
  elses h := h.congr Session.elses
  setIfs h ifs := h.change fun u => { u with ifs }
  setElses h elses := h.change fun u => { u with elses }
  defining h := h.congr Session.defining
  enter {s t} h name params indent _ := by
    have step := h.change fun u =>
      { u with functions := (s.functions.set name ⟨params, []⟩).erase f, defining := some (name, indent), pending := [] }
    unfold AlikeBut Session.without
    rw [h.erase_set name]
    exact step
  keepLine {s t} h l := by
    have pending : t.pending = s.pending := h.congr Session.pending
    rw [pending]
    exact h.change fun u => { u with pending := s.pending ++ [l] }
  finish {s t} h name := by
    have step := h.change fun u =>
      { u with functions := (finished name s).functions.erase f, defining := none, pending := [] }
    unfold AlikeBut Session.without
    rw [h.erase_finished name]
    exact step

/-! ## Lines that do not know of the function -/

/-- Watches that no line calls a function or one that is not there, fails or jumps. -/
def unaware (f : String) : Watch where
  forbids s command code := command = .call && (called code = f || (s.functions.find? (called code)).isNone)
  strict := true

theorem sameCallee_of_permitted (permitted : (unaware f).forbids s .call code = false) (h : AlikeBut f s t) :
    SameCallee code s t := by
  have known : called code ≠ f ∧ (s.functions.find? (called code)).isNone = false := by
    simpa [unaware] using permitted
  refine ⟨h.find? known.1, fun none => ?_⟩
  rw [none] at known
  cases known.2

/-- What an unaware line does, it does also where the function is there, and where lines may run deeper. -/
theorem tracks_unaware (f : String) {depth levels : Nat} (room : depth ≤ levels) {raw' : List Char}
    (same : read? raw' = read? raw) (importing : Bool) (m n : Int) :
    Tracks True (AlikeBut f) ((unaware f).runner depth raw importing m) (runner levels raw' importing n) := by
  have hR := shares_alikeBut f
  have hD := defines_alikeBut f
  induction depth generalizing levels raw raw' importing m n with
  | zero => exact .giveUp _
  | succ depth ih =>
    obtain ⟨levels, rfl⟩ : ∃ k, levels = k + 1 := ⟨levels - 1, by omega⟩
    have hrun : TracksLines True (AlikeBut f) (fun _ _ => True) ((unaware f).runner depth) (runner levels) :=
      fun l b _ _ _ => ih (by omega) rfl b _ _
    have hprogram := Tracks.programWith hR hrun (counts_alikeBut f)
    refine .watchedLine hR hD (fun _ _ _ _ _ _ => trivial) same trivial hrun
      (fun s t h command code indent permitted => ?_) fun _ => .giveUp _
    have hA := seesAll_alikeBut f
    refine Tracks.execute hR hD hrun hA.toSees h command code indent importing (fun _ => ?_) (fun _ => hprogram)
      (fun call => ?_)
    · refine Tracks.packageCommand hA ?_ (hR.binds_of_setsVars (setsVars_alikeBut f)) ?_ _ s t h
      · exact fun h d => h.change fun u => { u with depot := d }
      · exact .runScript hA (exports_alikeBut f) hprogram
    · subst call
      exact Tracks.call hR hrun hA.toSees (setsVars_alikeBut f) h _ _ (sameCallee_of_permitted permitted h)

/-! ## Header and call -/

/-- Names that lines can define and call as functions: letters and digits, and no word that another command starts
with. -/
structure Callable (f : String) : Prop where
  plain : ∀ c ∈ f.toList, c.isAlphanum = true
  valid : isValidName f.toList = true
  free : ∀ word ∈ Command.callStops, Command.starts f.toList word = false

/-- Names that lines can define as functions, also where another command is in the way of calling them. -/
structure Definable (f : String) : Prop where
  plain : ∀ c ∈ f.toList, c.isAlphanum = true
  valid : isValidName f.toList = true

theorem Callable.definable (callable : Callable f) : Definable f := ⟨callable.plain, callable.valid⟩

theorem isInputAssign_of_not_mem (unequal : '=' ∉ code) : Command.isInputAssign code = false := by
  unfold Command.isInputAssign Command.holds
  rw [contains_eq_false (by decide) unequal, contains_eq_false (by decide) unequal]
  rfl

def headerText (f : String) : List Char := 'd' :: 'e' :: 'f' :: ' ' :: (f.toList ++ ['_'])

section

variable {f : String} (definable : Definable f)

include definable

theorem Definable.isWordForm : isWordForm f.toList := isWordForm_of_isValidName definable.valid

theorem Definable.not_mem {c : Char} (strange : Line.isNameChar c = false) : c ∉ f.toList ++ ['_'] := by
  intro h
  rcases mem_append.mp h with h | h
  · unfold Line.isNameChar at strange
    rw [definable.plain c h] at strange
    cases strange
  · rw [mem_singleton.mp h] at strange
    cases strange

theorem Definable.not_mem_name : '_' ∉ f.toList := fun h => absurd (definable.plain '_' h) (by decide)

theorem Definable.strip_name : Text.strip f.toList = f.toList := by
  have solid : ∀ c ∈ f.toList, isBlank c = false := fun c hc =>
    isBlank_of_isNameChar (by rw [Line.isNameChar, definable.plain c hc]; rfl)
  exact trim_of_solid solid

theorem Definable.read?_call : read? (callText f []) = some ⟨0, f.toList ++ ['_']⟩ := by
  obtain ⟨solid, -⟩ := solid_of_isWordForm definable.isWordForm
  have tidy : Tidy (f.toList ++ ['_']) := by
    refine ⟨definable.not_mem (by decide), fun h => ?_, solid.last⟩
    exact definable.not_mem (by decide : Line.isNameChar '.' = false) (mem_of_mem_head? h)
  obtain ⟨c, hc⟩ : ∃ c, (f.toList ++ ['_']).head? = some c := by
    cases h : f.toList ++ ['_'] with
    | nil => exact absurd h solid.nonempty
    | cons c => exact ⟨c, rfl⟩
  have text : callText f [] = Line.text ⟨0, f.toList ++ ['_']⟩ := rfl
  rw [text]
  exact read?_text tidy hc (solid.first c hc)

theorem Definable.read?_header : read? (headerText f) = some ⟨0, headerText f⟩ := by
  have tidy : Tidy (headerText f) := by
    refine ⟨?_, nofun, fun c hc => ?_⟩
    · simp only [headerText, mem_cons, definable.not_mem (by decide : Line.isNameChar '\x7b' = false)]
      decide
    · have final : (headerText f).getLast? = some '_' := by
        show ("def ".toList ++ f.toList ++ ['_']).getLast? = some '_'
        rw [getLast?_concat]
      cases final.symm.trans hc
      decide
  have text : headerText f = Line.text ⟨0, headerText f⟩ := rfl
  have head : (headerText f).head? = some 'd' := rfl
  rw [text]
  exact read?_text tidy head (by decide)

theorem Definable.of_header : Command.of false false (headerText f) = .define := by
  have unequal : '=' ∉ headerText f := by
    simp only [headerText, mem_cons, definable.not_mem (by decide : Line.isNameChar '=' = false)]
    decide
  have noAssign := isInputAssign_of_not_mem unequal
  have noInput : Command.isInput (headerText f) = false := rfl
  have others : ∀ word ∈ ["eval ", "alias ", "else", "exit_", "gpd "], Command.starts (headerText f) word = false := by
    intro word hw
    simp only [mem_cons, not_mem_nil, or_false] at hw
    rcases hw with rfl | rfl | rfl | rfl | rfl <;> rfl
  have first : Command.starts (headerText f) "def" := rfl
  unfold Command.of
  simp only [noAssign, noInput, others, first, mem_cons, true_or, or_true, Bool.false_eq_true, if_false, if_true]

end

section

variable {f : String} (callable : Callable f)

include callable

/-- A call starts with no word that the name does not start with. -/
theorem Callable.starts_call {word : String} (stop : word ∈ Command.callStops) :
    Command.starts (f.toList ++ ['_']) word = false := by
  have bare : '_' ∉ word.toList := by
    have all : ∀ word ∈ Command.callStops, '_' ∉ word.toList := by decide
    exact all word stop
  refine Bool.eq_false_iff.mpr fun h => ?_
  rcases prefix_concat_iff.mp (List.isPrefixOf_iff_prefix.mp h) with whole | front
  · exact bare (by rw [whole]; simp)
  · have started := callable.free word stop
    rw [Command.starts, startsWith, isPrefixOf_iff_prefix.mpr front] at started
    cases started

theorem Callable.of_call : Command.of false false (f.toList ++ ['_']) = .call := by
  have noSpace : ∀ word : String, ' ' ∈ word.toList → Command.starts (f.toList ++ ['_']) word = false :=
    fun _ h => startsWith_eq_false h (callable.definable.not_mem (by decide))
  have noAssign := isInputAssign_of_not_mem (callable.definable.not_mem (by decide))
  have noInput : Command.isInput (f.toList ++ ['_']) = false := by
    unfold Command.isInput Command.starts
    rw [startsWith_eq_false (by decide) (callable.definable.not_mem (by decide : Line.isNameChar '"' = false)),
      startsWith_eq_false (by decide) (callable.definable.not_mem (by decide : Line.isNameChar '\x27' = false))]
    rfl
  have noExit : Command.starts (f.toList ++ ['_']) "exit_" = false := by
    have stop := callable.starts_call (by decide : "exit" ∈ Command.callStops)
    refine Bool.eq_false_iff.mpr fun h => ?_
    have longer : "exit".toList <+: "exit_".toList := ⟨['_'], rfl⟩
    rw [Command.starts, startsWith, isPrefixOf_iff_prefix.mpr
      (longer.trans (List.isPrefixOf_iff_prefix.mp h))] at stop
    cases stop
  have isCall : Command.isCall (f.toList ++ ['_']) := by
    have ended : Command.ends (f.toList ++ ['_']) "_" := isSuffixOf_iff_suffix.mpr ⟨f.toList, rfl⟩
    have unstopped : Command.callStops.any (Command.starts (f.toList ++ ['_'])) = false :=
      any_eq_false.mpr fun word stop => by rw [callable.starts_call stop]; exact Bool.false_ne_true
    rw [Command.isCall, ended, unstopped, Bool.or_true]
    rfl
  unfold Command.of
  rw [noSpace "eval " (by decide), noInput, noAssign, noSpace "alias " (by decide),
    callable.starts_call (by decide : "else" ∈ Command.callStops), noExit, noSpace "gpd " (by decide),
    callable.starts_call (by decide : "def" ∈ Command.callStops),
    callable.starts_call (by decide : "while" ∈ Command.callStops),
    callable.starts_call (by decide : "if" ∈ Command.callStops),
    callable.starts_call (by decide : "goto" ∈ Command.callStops),
    callable.starts_call (by decide : "guython" ∈ Command.callStops), isCall]
  rfl

end

variable (run : Runner)

/-- No alias is replaced in a code that starts with no alias. -/
theorem applyAliases_eq_self {aliases : List (String × String)}
    (h : ∀ entry ∈ aliases, startsWith code (entry.1.toList ++ [' ']) = false) : applyAliases aliases code = code := by
  unfold applyAliases
  induction aliases with
  | nil => rfl
  | cons entry aliases ih =>
    have kept := h entry mem_cons_self
    rw [foldl_cons]
    dsimp only
    rw [kept]
    exact ih fun entry hentry => h entry (mem_cons_of_mem _ hentry)

/-- No alias is replaced in a code that starts with a word which no alias can have. -/
theorem applyAliases_reserved (valid : s.AliasesValid) (word : List Char) (spaceless : ' ' ∉ word)
    (reserved : isValidName word = false) (rest : List Char) :
    applyAliases s.aliases (word ++ ' ' :: rest) = word ++ ' ' :: rest := by
  refine applyAliases_eq_self fun entry hentry => Bool.eq_false_iff.mpr fun h => ?_
  have named := valid entry hentry
  obtain ⟨after, whole⟩ := isPrefixOf_iff_prefix.mp h
  have solid : ' ' ∉ entry.1.toList := fun h =>
    (solid_of_isWordForm (isWordForm_of_isValidName named)).2 (mem_append_left _ h)
  -- the alias and the word both stand before the first space
  have cutAlias : cut? [' '] (word ++ ' ' :: rest) = some (entry.1.toList, after) := by
    rw [← whole, append_assoc]
    exact cut?_append solid after
  obtain ⟨same, -⟩ := Prod.mk.inj (Option.some.inj (cutAlias.symm.trans (cut?_append spaceless rest)))
  rw [same, reserved] at named
  cases named

theorem Definable.applyAliases_call (definable : Definable f) (aliases : List (String × String)) :
    applyAliases aliases (f.toList ++ ['_']) = f.toList ++ ['_'] :=
  applyAliases_eq_self fun _ _ => startsWith_eq_false (mem_append_right _ mem_cons_self)
    (definable.not_mem (by decide))

/-! ## Definition and call in a session with no block open -/

structure Outermost (s : Session) : Prop where
  ifs : s.ifs = []
  loops : s.loops = []

theorem outcome_closeBlocks_outermost (outermost : Outermost s) (indent : Nat) :
    (closeBlocks run indent).outcome s = (.ok (), s) := by
  have closed : (closeIfs indent).outcome s = (.ok (), s) := by
    have same : { s with ifs := s.ifs.dropWhile fun b => indent ≤ b.indent } = s := by
      obtain ⟨ifs, -⟩ := outermost
      cases s
      subst ifs
      rfl
    unfold closeIfs
    rw [bind_ok (outcome_session s), bind_ok (outcome_adjust _ s), same, outermost.ifs]
    rfl
  unfold closeBlocks
  rw [bind_ok closed, bind_ok (outcome_session s), outermost.loops]
  rfl

/-- With no block open, a line that is not part of a definition does what its code asks for. -/
theorem reaches_outermost (read : read? raw = some l) (n : Int) (executed : Executed l s)
    (ended : settled { s with lineNumber := n } = t) (outermost : Outermost t)
    (plain : applyAliases t.aliases l.code = l.code) : Reaches run raw n s l (.of false false l.code) l.code t := by
  refine ⟨read, executed, ?_, plain.symm, ?_⟩
  · rw [ended]
    exact outcome_closeBlocks_outermost run outermost l.indent
  · rw [outermost.loops, outermost.ifs]
    rfl

theorem reaches_idle (read : read? raw = some l) (n : Int) (idle : s.defining = none) (outermost : Outermost s)
    (plain : applyAliases s.aliases l.code = l.code) :
    Reaches run raw n s l (.of false false l.code) l.code { s with lineNumber := n } := by
  have executed : Executed l s := fun _ _ defining => by cases idle.symm.trans defining
  have ended : settled { s with lineNumber := n } = { s with lineNumber := n } := by
    unfold settled
    rw [idle]
  exact reaches_outermost run read n executed ended ⟨outermost.ifs, outermost.loops⟩ plain

/-- With no definition in progress, no block open and no alias, a line does what its code asks for. -/
theorem outcome_line_outermost (read : read? raw = some l) (n : Int) (closed : s.defining = none)
    (outermost : Outermost s) (unaliased : s.aliases = []) :
    (lineWith run raw false n).outcome s =
      (recover (execute run (.of false false l.code) l.code l.indent false)
        (handle (trimRight (· = '\n') raw) false n)).outcome { s with lineNumber := n } := by
  have plain : applyAliases s.aliases l.code = l.code := by
    rw [unaliased]
    rfl
  exact (reaches_idle run read n closed outermost plain).outcome false

def begun (f : String) (n : Int) (s : Session) : Session :=
  { s with
    lineNumber := n, functions := s.functions.set f ⟨[], []⟩, defining := some (f, 0), pending := [] }

theorem outcome_header_line (definable : Definable f) (n : Int) (idle : s.defining = none)
    (outermost : Outermost s) (aliases : s.AliasesValid) :
    (lineWith run (headerText f) false n).outcome s = (.ok (), begun f n s) := by
  have defined : (define (headerText f) 0).outcome { s with lineNumber := n } = (.ok (), begun f n s) := by
    obtain ⟨solid, -⟩ := solid_of_isWordForm definable.isWordForm
    have form : (!Command.starts (headerText f) "def" || !(headerText f).contains '_') = false := by
      have marked : (headerText f).contains '_' := by simp [headerText]
      rw [marked]
      rfl
    have named : cut? ['_'] (strip ((headerText f).drop 3)) = some (f.toList, []) := by
      have space : ∀ c ∈ [' '], isBlank c := forall_mem_singleton.mpr (by decide)
      have rest : strip ((headerText f).drop 3) = f.toList ++ ['_'] := solid.strip_append space
      rw [rest]
      exact cut?_append definable.not_mem_name []
    unfold define
    rw [form, named]
    dsimp only
    rw [definable.strip_name, definable.valid, String.ofList_toList]
    rfl
  have kept := applyAliases_reserved aliases "def".toList (by decide) (by decide) (f.toList ++ ['_'])
  have reaches := reaches_idle run definable.read?_header n idle outermost kept
  rw [reaches.outcome, definable.of_header]
  exact outcome_recover_ok defined _

theorem outcome_captured (n : Int) (deep : ∀ l, read? raw = some l → 1 ≤ l.indent)
    (defining : s.defining = some (f, 0)) :
    (lineWith run raw false n).outcome s =
      (.ok (), { s with lineNumber := n, pending := s.pending ++ (read? raw).toList }) := by
  cases h : read? raw with
  | none =>
    rw [Option.toList_none, append_nil]
    exact outcome_blank_line run h false n s
  | some l => exact outcome_captured_line run h false n defining (deep l h)

abbrev Deep (lines : List (List Char)) : Prop := ∀ raw ∈ lines, ∀ l, read? raw = some l → 1 ≤ l.indent

def collected (n : Int) (lines : List (List Char)) (s : Session) : Session :=
  { s with lineNumber := n, pending := s.pending ++ lines.filterMap read? }

theorem outcome_captured_lines (n : Nat) (deep : Deep lines)
    (defining : s.defining = some (f, 0)) :
    ∃ m, (runLines (lineWith run) n lines).outcome s = (.ok none, collected m lines s) := by
  unfold collected
  induction lines generalizing n s with
  | nil => exact ⟨s.lineNumber, by rw [filterMap_nil, append_nil]; rfl⟩
  | cons raw lines ih =>
    have first := outcome_captured run n (deep raw mem_cons_self) defining
    obtain ⟨m, rest⟩ := ih (n + 1) (s := { s with lineNumber := n, pending := s.pending ++ (read? raw).toList })
      (fun raw hraw => deep raw (mem_cons_of_mem _ hraw)) defining
    have joined : (read? raw).toList ++ lines.filterMap read? = (raw :: lines).filterMap read? := by
      cases h : read? raw with
      | none => rw [filterMap_cons_none h]; rfl
      | some l => rw [filterMap_cons_some h]; rfl
    refine ⟨m, ?_⟩
    rw [outcome_runLines_ok first, rest, append_assoc, joined]

/-- The session in which a call runs the lines that were taken down: the definition has ended. -/
def concluded (f : String) (n : Int) (s : Session) : Session :=
  { s with lineNumber := n, functions := s.functions.set f ⟨[], s.pending⟩, defining := none, pending := [] }

/-- The line of a call does what its text is taken for, which need not be a call. It stands no deeper than the header,
which ends the definition before anything else. -/
theorem outcome_calling_line (definable : Definable f) (importing : Bool) (n : Int)
    (outermost : Outermost s) (defining : s.defining = some (f, 0)) (known : s.functions.find? f = some ⟨[], []⟩) :
    (lineWith run (callText f []) importing n).outcome s =
      (recover (execute run (.of false false (f.toList ++ ['_'])) (f.toList ++ ['_']) 0 importing)
        (handle (trimRight (· = '\n') (callText f [])) importing n)).outcome (concluded f n s) := by
  have executed : Executed ⟨0, f.toList ++ ['_']⟩ s := fun name indent _ => Nat.zero_le indent
  have ended : settled { s with lineNumber := n } = concluded f n s := by
    unfold settled finished
    rw [defining]
    dsimp only
    rw [known]
    rfl
  have reaches := reaches_outermost run definable.read?_call n executed ended ⟨outermost.ifs, outermost.loops⟩
    (definable.applyAliases_call _)
  exact reaches.outcome importing

/-- Taken for a call, it runs the lines that were taken down. -/
theorem outcome_call_line (callable : Callable f) (importing : Bool) (n : Int) (outermost : Outermost s)
    (defining : s.defining = some (f, 0)) (known : s.functions.find? f = some ⟨[], []⟩)
    (ran : (runBody run importing s.pending).outcome (concluded f n s) = (r, t)) (passed : PassedOn r) :
    (lineWith run (callText f []) importing n).outcome s = (r, t) := by
  have found : (concluded f n s).functions.find? f = some ⟨[], s.pending⟩ := Table.find?_set_self _ _ _
  have enters : Enters (concluded f n s) (callText f []) ⟨[], s.pending⟩ (concluded f n s) :=
    enters_of_free callable.definable.isWordForm found rfl nofun nofun
  have called : (call run (callText f []) importing).outcome (concluded f n s) = (r, t) := by
    rw [outcome_call_of_enters run importing enters, bodyOutcome, ran]
    rfl
  rw [outcome_calling_line run callable.definable importing n outermost defining known, callable.of_call]
  exact outcome_recover_handle called passed _ _ _

/-! ## The two runs -/

def runEach (run : Runner) (n : Nat) : List (List Char) → Run Unit
  | [] => return ()
  | raw :: rest => do
    run raw false n
    runEach run (n + 1) rest

def replayed (f : String) (lines : List (List Char)) : List (List Char) := headerText f :: (lines ++ [callText f []])

theorem not_fault_unaware (f : String) (depth : Nat) (raw : List Char) (importing : Bool) (n : Int) (s : Session)
    (e : Fault) : (((unaware f).runner depth raw importing n).outcome s).1 ≠ .error (.fault e) := by
  intro same
  cases depth with
  | zero => cases same
  | succ depth =>
    rw [Watch.runner, lineBy, bind_ok (outcome_adjust _ s)] at same
    cases h : read? raw with
    | none =>
      rw [h] at same
      cases same
    | some l =>
      rw [h] at same
      unfold recover at same
      rw [outcome_tryCatch] at same
      split at same
      · cases same
      · rename_i stop _
        cases stop <;> cases same

theorem tracks_body (f : String) (depth n : Nat) (deep : Deep lines) :
    Tracks True (AlikeBut f) (runEach ((unaware f).runner depth) n lines)
      (runBody (runner depth) false (lines.filterMap read?)) := by
  induction lines generalizing n with
  | nil => exact .pure _
  | cons raw lines ih =>
    have rest := ih (n + 1) fun raw hraw => deep raw (mem_cons_of_mem _ hraw)
    cases h : read? raw with
    | none =>
      -- a blank line changes the number of the line only
      rw [filterMap_cons_none h]
      refine .bind (y := pure ()) (fun s t alike => ?_) fun _ => rest
      cases depth with
      | zero => exact Tracks.giveUp _ s t alike
      | succ depth =>
        rw [Watch.runner, lineBy, h]
        exact Or.inr ⟨rfl, alike⟩
    | some l =>
      have again : read? l.text = read? raw := by
        rw [h]
        exact read?_text_of_deep (deep raw mem_cons_self l h) (tidy_of_read? h)
      rw [filterMap_cons_some h]
      intro s t alike
      have line := tracks_unaware f (Nat.le_refl depth) again false n t.lineNumber s t alike
      have both := line.bind fun _ => rest
      exact both

theorem not_fault_runEach (f : String) (depth n : Nat) (lines : List (List Char)) (s : Session) (e : Fault) :
    ((runEach ((unaware f).runner depth) n lines).outcome s).1 ≠ .error (.fault e) := by
  induction lines generalizing n s with
  | nil => exact nofun
  | cons raw lines ih =>
    have calm := not_fault_unaware f depth raw false n s e
    rcases h : ((unaware f).runner depth raw false n).outcome s with ⟨r, t⟩
    rw [h] at calm
    cases r with
    | ok u =>
      rw [runEach, bind_ok h]
      exact ih (n + 1) t
    | error stop =>
      rw [runEach, bind_error h]
      exact calm

/-- Where no line jumps, a program runs its lines to their end. -/
theorem outcome_runFrom_unaware (f : String) (depth fuel : Nat) (lines : List (List Char)) (s : Session) :
    (runFrom ((unaware f).runner depth) lines (fuel + 1) 0).outcome s =
      (runEach ((unaware f).runner depth) 1 lines).outcome s := by
  have through : ∀ n s, (runLines ((unaware f).runner depth) n lines).outcome s =
      (do runEach ((unaware f).runner depth) n lines; return none : Run (Option Nat)).outcome s := by
    intro n s
    induction lines generalizing n s with
    | nil => rfl
    | cons raw lines ih =>
      have calm := not_fault_unaware f depth raw false n s
      rw [runEach, bind_assoc]
      rcases h : ((unaware f).runner depth raw false n).outcome s with ⟨r, t⟩
      rw [h] at calm
      cases r with
      | ok u => rw [outcome_runLines_ok h, bind_ok h, ih (n + 1) t]
      | error e =>
        have noJump : ∀ target, e ≠ .fault (.jump target) := fun target he => calm (.jump target) (by rw [he])
        rw [outcome_runLines_error h noJump, bind_error h]
  rw [runFrom, drop_zero, outcome_bind, through]
  rcases h : (runEach ((unaware f).runner depth) 1 lines).outcome s with ⟨r, t⟩
  cases r with
  | ok u =>
    rw [bind_ok h]
    rfl
  | error e => rw [bind_error h]

def entering (f : String) (lines : List (List Char)) (s : Session) : Session :=
  { s with
    lineNumber := ((2 + lines.length : Nat) : Int)
    functions := s.functions.set f ⟨[], lines.filterMap read?⟩
    defining := none
    pending := [] }

theorem alikeBut_entering (f : String) (lines : List (List Char)) (idle : s.defining = none) (clean : s.pending = []) :
    AlikeBut f s (entering f lines s) := by
  unfold AlikeBut Session.without entering
  rw [Table.erase_set_self, idle, clean]

/-- Defining and calling the function comes to running its body. -/
theorem outcome_replayed (callable : Callable f) (fuel : Nat) (deep : Deep lines) (idle : s.defining = none)
    (outermost : Outermost s) (aliases : s.AliasesValid) (ran : (runBody run false (lines.filterMap read?)).outcome (entering f lines s) = (r, t))
    (calm : ∀ e, r ≠ .error (.fault e)) : (runFrom (lineWith run) (replayed f lines) (fuel + 1) 0).outcome s = (r, t) := by
  have header := outcome_header_line run callable.definable (1 : Nat) idle outermost aliases
  obtain ⟨m, taken⟩ := outcome_captured_lines run 2 deep (s := begun f (1 : Nat) s) rfl
  have called : (lineWith run (callText f []) false ((2 + lines.length : Nat) : Int)).outcome
      (collected m lines (begun f (1 : Nat) s)) = (r, t) := by
    refine outcome_call_line run callable false _ ⟨outermost.ifs, outermost.loops⟩ rfl (Table.find?_set_self _ _ _) ?_
      fun e he => absurd he (calm e)
    unfold concluded collected begun
    rw [Table.set_set]
    exact ran
  have last : (runLines (lineWith run) (2 + lines.length) [callText f []]).outcome
      (collected m lines (begun f (1 : Nat) s)) = (r.map fun _ => none, t) := by
    cases r with
    | ok u =>
      rw [outcome_runLines_ok called]
      rfl
    | error e =>
      have noJump : ∀ target, e ≠ .fault (.jump target) := fun target he => calm (.jump target) (by rw [he])
      rw [outcome_runLines_error called noJump]
      rfl
  have all : (runLines (lineWith run) 1 (replayed f lines)).outcome s = (r.map fun _ => none, t) := by
    rw [replayed, outcome_runLines_ok header, runLines_append, bind_ok taken]
    exact last
  rw [runFrom, drop_zero, outcome_bind, all]
  cases r <;> rfl

/-- Lines run where they stand, by a watched run, and lines run in a function that is defined and called. -/
theorem tracks_replayed (callable : Callable f) (depth fuel : Nat) (deep : Deep lines) (idle : s.defining = none)
    (clean : s.pending = []) (outermost : Outermost s) (aliases : s.AliasesValid) :
    TracksAt True (AlikeBut f) (runFrom ((unaware f).runner depth) lines (fuel + 1) 0)
      (runFrom (runner (depth + 1)) (replayed f lines) (fuel + 1) 0) s s := by
  have calm := not_fault_runEach f depth 1 lines s
  have body := tracks_body f depth 1 deep s _ (alikeBut_entering f lines idle clean)
  rcases ran : (runBody (runner depth) false (lines.filterMap read?)).outcome (entering f lines s) with ⟨r, t⟩
  unfold TracksAt at body ⊢
  rw [ran] at body
  rw [outcome_runFrom_unaware]
  rcases body with given | ⟨same, alike⟩
  · exact Or.inl given
  · rw [← same] at calm
    rw [show runner (depth + 1) = lineWith (runner depth) from rfl,
      outcome_replayed (runner depth) callable fuel deep idle outermost aliases ran calm]
    exact Or.inr ⟨same, alike⟩

/-- Lines with a comment, a blank one, an inner block and an inner function. -/
def sampleLines : List (List Char) :=
  [".x=1 \x7bone\x7d", "", ".def g_ y", "..print y", ".if x", "..g_ x"].map String.toList

theorem keeps_aliasesValid (same : t.aliases = s.aliases) : Keeps Session.AliasesValid s t :=
  fun h entry hentry => h entry (same ▸ hentry)

theorem free_aliasesValid : Free (Keeps Session.AliasesValid) where
  refl _ h := h
  trans hst htu h := htu (hst h)
  outside _ _ := keeps_aliasesValid rfl
  vars _ _ := keeps_aliasesValid rfl
  number _ _ := keeps_aliasesValid rfl
  aliased s name target valid h entry hentry := by
    rcases Table.mem_set hentry with rfl | old
    · rw [String.toList_ofList]
      exact valid
    · exact h entry old
  shown _ _ := keeps_aliasesValid rfl
  loops _ _ _ := keeps_aliasesValid rfl
  defined _ _ _ _ := keeps_aliasesValid rfl
  blocks _ _ _ := keeps_aliasesValid rfl

/-- Whatever a new session was asked for, its aliases have names that can be given. -/
theorem aliasesValid_after_requests (d : Depot) (requests : List Request) :
    (requests.foldl Request.after { depot := d }).AliasesValid := by
  have jumps : IgnoresJumps (Keeps Session.AliasesValid) := fun _ _ => keeps_aliasesValid rfl
  have loose : Loose (Keeps Session.AliasesValid) := ⟨free_aliasesValid.toLax, fun _ _ _ => keeps_aliasesValid rfl, jumps⟩
  have hrun := Moves.runner free_aliasesValid jumps (Moves.runScript loose)
  exact holds_after_requests (hrun _) (Moves.programWith loose.toLax (hrun _) jumps) loose.outside requests
    fun _ h => absurd h not_mem_nil

end Run

end LineScript
