
import LineScript.Proofs.Footprint

/-!
# Blocks and definitions between lines

Whatever lines and programs a session has run, and however they ended, no loop is open, conditional blocks are nested deeper
and deeper, a definition in progress has its function, and every line kept for later is tidy code at a depth of at least one.
In the middle of a line, all open conditional blocks lie above its depth.
-/

namespace LineScript

open Line List

structure Line.Kept (l : Line) : Prop where
  deep : 1 ≤ l.indent
  tidy : Tidy l.code

/-- What holds of the blocks and definitions of a session. -/
structure Session.Sound (s : Session) : Prop where
  loops : s.loops = []
  /-- The innermost block comes first. -/
  ifs : s.ifs.Pairwise fun inner outer => outer.indent < inner.indent
  defining : ∀ name indent, s.defining = some (name, indent) →
    s.functions.contains name = true ∧ ∀ l ∈ s.pending, indent < l.indent
  idle : s.defining = none → s.pending = []
  bodies : ∀ entry ∈ s.functions, ∀ l ∈ entry.2.body, l.Kept
  pending : ∀ l ∈ s.pending, l.Kept

def Session.Above (indent : Nat) (s : Session) : Prop := ∀ b ∈ s.ifs, b.indent < indent

theorem Session.Sound.congr {s t : Session} (h : s.Sound) (functions : t.functions = s.functions)
    (loops : t.loops = s.loops) (ifs : t.ifs = s.ifs) (defining : t.defining = s.defining)
    (pending : t.pending = s.pending) : t.Sound := by
  refine ⟨loops.trans h.loops, ?_, ?_, ?_, ?_, ?_⟩
  · rw [ifs]
    exact h.ifs
  · rw [functions, defining, pending]
    exact h.defining
  · rw [defining, pending]
    exact h.idle
  · rw [functions]
    exact h.bodies
  · rw [pending]
    exact h.pending

theorem Session.sound_fresh (d : Depot) : ({ depot := d } : Session).Sound where
  loops := rfl
  ifs := List.Pairwise.nil
  defining _ _ h := by cases h
  idle _ := rfl
  bodies _ h := by cases h
  pending _ h := by cases h

/-! ## Changes of blocks and definitions -/

namespace Session.Sound

variable {s : Session}

theorem enter (h : s.Sound) (name : String) (params : List String) (indent : Nat) :
    Session.Sound { s with
      functions := s.functions.set name ⟨params, []⟩, defining := some (name, indent), pending := [] } := by
  constructor
  case loops => exact h.loops
  case ifs => exact h.ifs
  case defining =>
    rintro name' indent' ⟨⟩
    refine ⟨?_, fun _ hl => nomatch hl⟩
    show (Table.find? (s.functions.set name ⟨params, []⟩) name).isSome
    rw [Table.find?_set_self]
    rfl
  case idle => rintro ⟨⟩
  case bodies =>
    intro entry hentry l hl
    rcases Table.mem_set hentry with rfl | old
    · nomatch hl
    · exact h.bodies entry old l hl
  case pending => exact fun _ hl => nomatch hl

theorem capture (h : s.Sound) {name : String} {indent : Nat} (hdef : s.defining = some (name, indent)) {l : Line}
    (deeper : indent < l.indent) (tidy : Tidy l.code) :
    Session.Sound { s with pending := s.pending ++ [l] } := by
  constructor
  case loops => exact h.loops
  case ifs => exact h.ifs
  case defining =>
    intro name' indent' e
    obtain ⟨known, below⟩ := h.defining name' indent' e
    refine ⟨known, fun l' hl' => ?_⟩
    rcases mem_append.mp hl' with old | new
    · exact below l' old
    · obtain rfl := mem_singleton.mp new
      obtain ⟨-, rfl⟩ := Prod.mk.inj (Option.some.inj (hdef.symm.trans e))
      exact deeper
  case idle => exact fun e => nomatch hdef.symm.trans e
  case bodies => exact h.bodies
  case pending =>
    intro l' hl'
    rcases mem_append.mp hl' with old | new
    · exact h.pending l' old
    · obtain rfl := mem_singleton.mp new
      exact ⟨by omega, tidy⟩

theorem finish (h : s.Sound) (name : String) :
    Session.Sound { s with
      functions := match s.functions.find? name with
        | some f => s.functions.set name { f with body := s.pending }
        | none => s.functions
      defining := none
      pending := [] } := by
  constructor
  case loops => exact h.loops
  case ifs => exact h.ifs
  case defining => rintro name' indent' ⟨⟩
  case idle => exact fun _ => rfl
  case bodies =>
    intro entry hentry l hl
    split at hentry
    · rcases Table.mem_set hentry with rfl | old
      · exact h.pending l hl
      · exact h.bodies entry old l hl
    · exact h.bodies entry hentry l hl
  case pending => exact fun _ hl => nomatch hl

/-- Of nested blocks, those that are closed come first. -/
theorem dropWhile_eq_filter {ifs : List Branch} (nested : ifs.Pairwise fun inner outer => outer.indent < inner.indent)
    (indent : Nat) : ifs.dropWhile (fun b => indent ≤ b.indent) = ifs.filter (·.indent < indent) := by
  induction ifs with
  | nil => rfl
  | cons b ifs ih =>
    obtain ⟨outer, rest⟩ := pairwise_cons.mp nested
    by_cases closed : indent ≤ b.indent
    · rw [dropWhile_cons_of_pos (by simpa using closed), filter_cons_of_neg (by simpa using closed)]
      exact ih rest
    · rw [dropWhile_cons_of_neg (by simpa using closed)]
      refine (filter_eq_self.mpr fun b' hb' => ?_).symm
      rcases mem_cons.mp hb' with rfl | hb'
      · simpa using closed
      · have := outer b' hb'
        simp only [decide_eq_true_eq]
        omega

theorem above_dropWhile {ifs : List Branch} (nested : ifs.Pairwise fun inner outer => outer.indent < inner.indent)
    (indent : Nat) : ∀ b ∈ ifs.dropWhile (fun b => indent ≤ b.indent), b.indent < indent := by
  rw [dropWhile_eq_filter nested]
  intro b member
  simpa using (mem_filter.mp member).2

theorem close (h : s.Sound) (indent : Nat) :
    Session.Sound { s with ifs := s.ifs.dropWhile fun b => indent ≤ b.indent } :=
  ⟨h.loops, h.ifs.sublist (dropWhile_sublist _), h.defining, h.idle, h.bodies, h.pending⟩

theorem push (h : s.Sound) {indent : Nat} (above : s.Above indent) (active : Bool) (elses : List Branch) :
    Session.Sound { s with ifs := ⟨active, indent⟩ :: s.ifs, elses := elses } :=
  ⟨h.loops, pairwise_cons.mpr ⟨above, h.ifs⟩, h.defining, h.idle, h.bodies, h.pending⟩

end Session.Sound

namespace Run

open Text

def Keeps (P : Session → Prop) (s t : Session) : Prop := P s → P t

/-- A step at a depth may count on the blocks that are not above it being closed. -/
def KeepsAt (indent : Nat) (s t : Session) : Prop := s.Sound → s.Above indent → t.Sound

def ClosesTo (indent : Nat) (s t : Session) : Prop := s.Sound → t.Sound ∧ t.Above indent

/-- Properties of blocks and definitions alone, which allow no open loop, are kept by all that leaves blocks
and definitions as they are. -/
theorem loose_keeps {P : Session → Prop} (hloops : ∀ s, P s → s.loops = [])
    (congr : ∀ s t : Session, t.functions = s.functions → t.loops = s.loops → t.ifs = s.ifs → t.elses = s.elses →
      t.defining = s.defining → t.pending = s.pending → P s → P t) : Loose (Keeps P) where
  refl _ h := h
  trans hst htu h := htu (hst h)
  outside s _ := congr s _ rfl rfl rfl rfl rfl rfl
  vars s _ := congr s _ rfl rfl rfl rfl rfl rfl
  exported s _ _ := congr s _ rfl rfl rfl rfl rfl rfl
  number s _ := congr s _ rfl rfl rfl rfl rfl rfl
  jumps s _ := congr s _ rfl rfl rfl rfl rfl rfl
  aliased s _ _ _ := congr s _ rfl rfl rfl rfl rfl rfl
  shown s _ := congr s _ rfl rfl rfl rfl rfl rfl
  loops s _ open_ h := absurd (hloops s h) open_

theorem loose_sound : Loose (Keeps Session.Sound) :=
  loose_keeps (fun _ h => h.loops) fun _ _ hf hl hi _ hd hp h => h.congr hf hl hi hd hp

theorem loose_sound_above (indent : Nat) : Loose (Keeps fun s => s.Sound ∧ s.Above indent) := by
  apply loose_keeps (fun _ h => h.1.loops)
  intro s t hf hl hi _ hd hp h
  refine ⟨h.1.congr hf hl hi hd hp, ?_⟩
  unfold Session.Above
  rw [hi]
  exact h.2

/-! ## Steps that change blocks and definitions -/

theorem capture_sound (l : Line) (tidy : Tidy l.code) : Moves (Keeps Session.Sound) (capture l) := by
  apply Moves.of_session
  intro s
  split
  · exact fun h => h
  · rename_i name indent hdef
    split
    · rename_i deeper
      exact fun h => h.capture hdef deeper tidy
    · exact fun h => h.finish name

theorem closeIfs_sound (indent : Nat) : Moves (ClosesTo indent) (closeIfs indent) := by
  have hS := (loose_sound_above indent).toStable
  intro s h
  have said := Moves.forM hS (fun b : Branch => Moves.note hS
    ("Closed if block: was_active=" ++ flagText b.active ++ ", indent=" ++ toString b.indent))
    (s.ifs.takeWhile fun b => indent ≤ b.indent)
  exact said _ ⟨h.close indent, Session.Sound.above_dropWhile h.ifs indent⟩

theorem closeBlocks_sound (run : Runner) (indent : Nat) : Moves (ClosesTo indent) (closeBlocks run indent) := by
  have loops : Moves (Keeps fun s => s.Sound ∧ s.Above indent) (do
      closeLoops run (fun l => l.indent < indent) (← session).loops.length) := by
    apply Moves.of_session
    intro s h
    rw [h.1.loops]
    exact h
  exact Moves.andThen (fun _ _ h => h) (fun _ _ _ hst htu h => htu (hst h)) (closeIfs_sound indent) fun _ => loops

section AtDepth

variable {α β : Type} {indent : Nat}

theorem keepsAt_bind {x : Run α} {k : α → Run β}
    (hx : Moves (Keeps fun s => s.Sound ∧ s.Above indent) x) (hk : ∀ a, Moves (KeepsAt indent) (k a)) :
    Moves (KeepsAt indent) (x >>= k) := by
  refine .andThen (fun _ _ hst h above => (hst ⟨h, above⟩).1) ?_ hx hk
  intro s t u hst htu h above
  obtain ⟨sound, above⟩ := hst ⟨h, above⟩
  exact htu sound above

theorem keepsAt_of_keeps {x : Run α} (hx : Moves (Keeps Session.Sound) x) : Moves (KeepsAt indent) x :=
  hx.mono fun _ _ hst h _ => hst h

theorem keepsAt_adjust {f : Session → Session} {k : Unit → Run β}
    (hf : ∀ s : Session, s.Sound → s.Above indent → (f s).Sound) (hk : ∀ u, Moves (Keeps Session.Sound) (k u)) :
    Moves (KeepsAt indent) (adjust f >>= k) :=
  .andThen (fun _ _ h => h) (fun _ _ _ hst htu h above => htu (hst h above)) (.adjust hf) hk

end AtDepth

theorem condition_sound (code : List Char) (indent : Nat) : Moves (KeepsAt indent) (condition code indent) := by
  have hS := loose_sound.toStable
  have hA := (loose_sound_above indent).toStable
  refine .guard (fun _ h _ => h) fun _ => .wrapping _ ?_
  refine keepsAt_bind (.evaluate hA _) fun v => keepsAt_bind (.world hA) fun w => ?_
  exact keepsAt_adjust (fun s h above => h.push above _ _) fun _ => .note hS _

theorem alternative_sound (indent : Nat) : Moves (KeepsAt indent) (alternative indent) := by
  apply Moves.of_session
  intro s
  split
  · exact fun h _ => h
  · rename_i b rest helses
    split
    · exact fun h _ => h
    · exact fun h above => h.push above b.active s.elses

/-! ## Lines and programs -/

variable {run : Runner}

theorem execute_sound (hrun : ∀ l b n, Moves (Keeps Session.Sound) (run l b n)) (command : Command)
    (code : List Char) (indent : Nat) (importing : Bool) :
    Moves (KeepsAt indent) (execute run command code indent importing) := by
  by_cases other : command ≠ .alternative ∧ command ≠ .condition ∧ command ≠ .define
  · exact keepsAt_of_keeps (.execute loose_sound hrun other code indent importing)
  · cases command with
    | alternative => exact alternative_sound indent
    | condition => exact condition_sound code indent
    | define => exact keepsAt_of_keeps (.define loose_sound.toStable (fun _ name params h => h.enter name params indent) code)
    | _ => exact absurd (by decide) other

/-- One line, whatever it runs, if the lines that it runs keep the invariant. -/
theorem lineWith_sound (hrun : ∀ l b n, Moves (Keeps Session.Sound) (run l b n)) (line : List Char)
    (importing : Bool) (n : Int) : Moves (Keeps Session.Sound) (lineWith run line importing n) := by
  have hS := loose_sound.toStable
  refine .bind hS (.adjust fun s => loose_sound.number s n) fun _ => ?_
  split
  · exact .pure hS _
  · refine .recover hS (.bind hS (capture_sound _ (tidy_splitIndent _)) fun captured => ?_) (.handle hS _ _ _)
    split
    · refine .andThen (fun _ _ hst h => (hst h).1) ?_ (closeBlocks_sound run _)
        fun _ => Moves.of_session fun s => execute_sound hrun _ _ _ _ s
      exact fun _ _ _ hst htu h => htu (hst h).1 (hst h).2
    · exact .pure hS _

theorem runner_sound (depth : Nat) (line : List Char) (importing : Bool) (n : Int) :
    Moves (Keeps Session.Sound) (runner depth line importing n) := by
  induction depth generalizing line importing n with
  | zero => exact .fail loose_sound.toStable _
  | succ depth ih => exact lineWith_sound ih line importing n

/-- What is asked of an interpreter, and what may happen outside between two requests. -/
inductive Request where
  | line (text : List Char) (importing : Bool) (n : Int)
  | program (lines : List (List Char))
  /-- Files, packages, network and keyboard are changed from outside. -/
  | outside (depot : Depot)

def Request.after (s : Session) : Request → Session
  | .line text importing n => ((Run.line text importing n).outcome s).2
  | .program lines => ((Run.program lines).outcome s).2
  | .outside depot => { s with depot }

section

variable {P : Session → Prop} (lines : ∀ text importing n, Moves (Keeps P) (line text importing n))
  (programs : ∀ lines, Moves (Keeps P) (program lines)) (outside : ∀ s depot, Keeps P s { s with depot })

include lines programs outside

theorem holds_after_request (r : Request) {s : Session} (h : P s) : P (r.after s) := by
  cases r with
  | line text importing n => exact lines text importing n s h
  | program text => exact programs text s h
  | outside depot => exact outside s depot h

theorem holds_after_requests (requests : List Request) {s : Session} (h : P s) : P (requests.foldl Request.after s) := by
  induction requests generalizing s with
  | nil => exact h
  | cons r requests ih => exact ih (holds_after_request lines programs outside r h)

end

theorem Request.after_sound {s : Session} (h : s.Sound) (r : Request) : (r.after s).Sound :=
  holds_after_request (runner_sound _) (Moves.programWith loose_sound.toLax (runner_sound _) loose_sound.jumps)
    loose_sound.outside r h

/-- **Blocks and definitions stay sound.** After any requests to a new session, whatever files, packages and
input it meets, the invariant holds. -/
theorem sound_after_requests (d : Depot) (requests : List Request) :
    (requests.foldl Request.after { depot := d }).Sound := by
  suffices run : ∀ s : Session, s.Sound → (requests.foldl Request.after s).Sound from
    run _ (Session.sound_fresh d)
  induction requests with
  | nil => exact fun _ h => h
  | cons r requests ih => exact fun s h => ih _ (Request.after_sound h r)

end Run

end LineScript
