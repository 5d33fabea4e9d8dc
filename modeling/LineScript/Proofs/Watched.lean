
import LineScript.Proofs.TrackedStatements
import LineScript.Proofs.LineText

/-!
# Watched runs

A watched run does what the lines ask for until a line asks for something that it is watched for; there it is given up. Until
then it is the run itself: whatever relation statements keep, a watched run and the run keep it too.
-/

namespace LineScript.Run

open Text Line

/-- Runs a line by how blocks are closed, code is processed and faults are told. -/
def lineBy (close : Nat → Run Unit) (process : List Char → Nat → Bool → Run Unit)
    (tell : List Char → Bool → Int → Fault → Run Unit) (raw : List Char) (importing : Bool) (n : Int) : Run Unit := do
  adjust fun s => { s with lineNumber := n }
  match read? raw with
  | none => return ()
  | some line =>
    recover (do
      if !(← capture line) then
        close line.indent
        process line.code line.indent importing)
      (tell (trimRight (· = '\n') raw) importing n)

theorem lineWith_eq_lineBy (run : Runner) : lineWith run = lineBy (closeBlocks run) (process run) handle := by
  funext raw importing n
  unfold lineWith lineBy read?
  dsimp only
  split <;> rfl

/-- What a run is watched for: what a line may not do in a session, and whether no line may fail or jump. -/
structure Watch where
  forbids : Session → Command → List Char → Bool
  strict : Bool

namespace Watch

variable (w : Watch)

def process (run : Runner) (code : List Char) (indent : Nat) (importing : Bool) : Run Unit := do
  let s ← session
  let code := applyAliases s.aliases code
  let inLoop := s.loops.head?.any fun l => l.indent < indent
  let skipped := s.ifs.head?.any fun b => !b.active && b.indent < indent
  if w.forbids s (.of inLoop skipped code) code then throw givenUp
  execute run (.of inLoop skipped code) code indent importing

def tell (line : List Char) (importing : Bool) (n : Int) (f : Fault) : Run Unit :=
  if w.strict then throw givenUp else handle line importing n f

def runner : Nat → Runner
  | 0 => fun _ _ _ => if w.strict then throw givenUp else fail (.tooDeep "")
  | depth + 1 => lineBy (closeBlocks (runner depth)) (w.process (runner depth)) w.tell

end Watch

namespace Tracks

variable {importing : Bool} {code raw' raw : List Char} {m n : Int} {indent : Nat}

variable {watched : Prop} {R : Session → Session → Prop} {N : Int → Int → Prop} {run run' : Runner} {w : Watch}

protected theorem giveUp {α : Type} (x : Run α) : Tracks True R (throw givenUp) x := fun _ _ _ => Or.inl ⟨trivial, rfl⟩

/-- Two texts that are read as the same line. -/
protected theorem lineBy (hR : Aligned R N) (hD : Defines R) {close close' : Nat → Run Unit}
    {process process' : List Char → Nat → Bool → Run Unit} {tell tell' : List Char → Bool → Int → Fault → Run Unit}
    (same : read? raw' = read? raw) (hN : N m n)
    (hclose : ∀ l ∈ read? raw, Tracks watched R (close l.indent) (close' l.indent)) (hprocess : ∀ l ∈ read? raw,
      Tracks watched R (process l.code l.indent importing) (process' l.code l.indent importing))
    (htell : ∀ f, Tracks watched R (tell (trimRight (· = '\n') raw) importing m f)
      (tell' (trimRight (· = '\n') raw') importing n f)) :
    Tracks watched R (lineBy close process tell raw importing m) (lineBy close' process' tell' raw' importing n) := by
  refine .bind (.adjust fun s t h => hR.setNumber h hN) fun _ => ?_
  rw [same]
  split
  · exact .pure _
  · rename_i line read
    refine .recover (.bind (.capture hD _) fun captured => ?_) htell
    split
    · exact .bind (hclose line read) fun _ => hprocess line read
    · exact .pure _

/-- Processing code in two runs is the command of the code, since both see the same blocks and aliases. -/
theorem process_of_execute (hR : Aligned R N) (hD : Defines R) (hexecute : ∀ s t, R s t → ∀ command code,
      TracksAt watched R (execute run command code indent importing) (execute run' command code indent importing)
        s t) : Tracks watched R (process run code indent importing) (process run' code indent importing) := by
  refine .session fun s t h => ?_
  rw [hR.aliases h, hR.loops h, hD.ifs h]
  exact hexecute s t h _ _

theorem watchedProcess_of_execute (hR : Aligned R N) (hD : Defines R)
    (gives : ∀ s t, R s t → ∀ command code, w.forbids s command code → watched) (hexecute : ∀ s t, R s t → ∀ command code,
      command = .of (s.loops.head?.any fun l => l.indent < indent)
        (s.ifs.head?.any fun b => !b.active && b.indent < indent) code → w.forbids s command code = false →
      TracksAt watched R (execute run command code indent importing) (execute run' command code indent importing) s t) :
    Tracks watched R (w.process run code indent importing) (process run' code indent importing) := by
  refine .session fun s t h => ?_
  rw [hR.aliases h, hR.loops h, hD.ifs h]
  dsimp only
  split
  · rename_i forbidden
    exact Or.inl ⟨gives s t h _ _ forbidden, rfl⟩
  · rename_i permitted
    exact hexecute s t h _ _ rfl ((Bool.not_eq_true _).mp permitted)

/-- A watched line and the line, for two texts that are read as the same line. -/
theorem watchedLine (hR : Shares R N) (hD : Defines R)
    (gives : ∀ s t, R s t → ∀ command code, w.forbids s command code → watched) (same : read? raw' = read? raw)
    (hN : N m n) (hrun : TracksLines watched R N run run')
    (hexecute : ∀ s t, R s t → ∀ command code indent, w.forbids s command code = false →
      TracksAt watched R (execute run command code indent importing) (execute run' command code indent importing) s t)
    (htell : ∀ f, Tracks watched R (w.tell (trimRight (· = '\n') raw) importing m f)
      (handle (trimRight (· = '\n') raw') importing n f)) :
    Tracks watched R (lineBy (closeBlocks run) (w.process run) w.tell raw importing m) (lineWith run' raw' importing n) := by
  rw [lineWith_eq_lineBy]
  refine .lineBy hR.toAligned hD same hN (fun l _ => .closeBlocks hR hD hrun l.indent) (fun l _ => ?_) htell
  exact watchedProcess_of_execute hR.toAligned hD gives fun s t h command code _ => hexecute s t h command code l.indent

/-- Lines at every depth keep two runs side by side if the commands do that a watch lets pass. -/
theorem watchedLines (lenient : w.strict = false) (hR : Shares R Eq) (hD : Defines R) (hS : Sees R)
    (hexecute : ∀ {run run' : Runner}, TracksLines True R Eq run run' → ∀ s t, R s t → ∀ command code indent importing,
      w.forbids s command code = false →
        TracksAt True R (execute run command code indent importing) (execute run' command code indent importing) s t)
    (depth : Nat) : TracksLines True R Eq (w.runner depth) (runner depth) := by
  induction depth with
  | zero =>
    intro raw importing m n _
    rw [Watch.runner, lenient]
    exact .fail _
  | succ depth ih =>
    rintro raw importing m _ rfl
    refine .watchedLine hR hD (fun _ _ _ _ _ _ => trivial) rfl rfl ih
      (fun s t h command code indent => hexecute ih s t h command code indent importing) fun f => ?_
    rw [Watch.tell, lenient]
    exact .handle hS _ _ _ f

end Tracks

end LineScript.Run
