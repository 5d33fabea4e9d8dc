
import LineScript.Proofs.RunSteps
import LineScript.Proofs.WindowRegistry

/-!
# Window commands that fail

A window command reads its numbers before it does anything else (`Parses`). Then it makes one call, and no call fails once it
has changed the registry. So what fails leaves the registry as it was (`Careful`).
-/

namespace LineScript.Run

open Text Line Window List

variable {α β : Type} {s t : Session}

/-- What a call on windows leads to. The session changes in its screen, and what the call does is noted outside. -/
theorem leads_gui {x : Gui α} {post : α → Session → Prop} {stop : Stop → Session → Prop}
    (hx : Leads x { s.screen with log := [] } (fun a u => ∀ depot, post a { s with screen := { u with log := [] }, depot })
      fun f u => ∀ depot, stop (.fault f) { s with screen := { u with log := [] }, depot }) : Leads (gui x) s post stop := by
  have emitted : ∀ (log : List Effect) (t : Session), Leads (log.forM fun e => act (Act.emit e)) t
      (fun _ u => ∃ depot, u = { t with depot }) fun _ _ => False := by
    intro log
    induction log with
    | nil => exact fun t => .pure ⟨t.depot, rfl⟩
    | cons e log ih =>
      refine fun t => .bind (leads_act (.modify ((ih _).imp ?_)))
      rintro _ _ ⟨depot, rfl⟩
      exact ⟨depot, rfl⟩
  refine .bind (.get ?_)
  refine .bind (.set (.bind ((emitted _ _).mono ?_ fun _ _ => False.elim)))
  rintro _ _ ⟨depot, rfl⟩
  exact leads_check (fun a ended => hx.1 a ended depot) fun f ended => hx.2 f ended depot

/-! ## Numbers -/

def isNumeral (args : List (List Char)) (i : Nat) : Bool := (Value.toInt (.ofText (args.getD i []))).isOk

/-- A step that reads the arguments at some places as numbers, and does nothing else. -/
def Parses (args : List (List Char)) (places : List Nat) (x : Run α) : Prop :=
  ∀ s, Leads x s (fun _ t => t = s ∧ places.all (isNumeral args) = true)
    fun e t => t = s ∧ places.all (isNumeral args) = false ∧ ∃ f : Fault, e = .fault f ∧ f.isValue = true

namespace Parses

variable {args : List (List Char)} {places later : List Nat}

protected theorem pure (a : α) : Parses args [] (pure a : Run α) := fun _ => .pure ⟨rfl, rfl⟩

protected theorem bind {x : Run α} {k : α → Run β} (hx : Parses args places x) (hk : ∀ a, Parses args later (k a)) :
    Parses args (places ++ later) (x >>= k) := by
  refine fun s => .bind ((hx s).mono ?_ ?_)
  · rintro a _ ⟨rfl, good⟩
    refine (hk a _).mono ?_ ?_
    · rintro _ _ ⟨rfl, more⟩
      exact ⟨rfl, by rw [all_append, good, more]; rfl⟩
    · rintro _ _ ⟨rfl, bad, fault⟩
      exact ⟨rfl, by rw [all_append, bad, Bool.and_false], fault⟩
  · rintro _ _ ⟨rfl, bad, fault⟩
    exact ⟨rfl, by rw [all_append, bad, Bool.false_and], fault⟩

protected theorem wholeArg (i : Nat) : Parses args [i] (wholeArg args i) := by
  have numeral : [i].all (isNumeral args) = (Value.toInt (.ofText (args.getD i []))).isOk := Bool.and_true _
  refine fun s => .bind (leads_check (fun v read => ?_) fun f failed => ⟨rfl, by rw [numeral, failed]; rfl, f, rfl, ?_⟩)
  · have good : [i].all (isNumeral args) := by rw [numeral, read]; rfl
    cases v <;> exact .pure ⟨rfl, good⟩
  · dsimp only [Value.ofText, Value.toInt, Value.readIntValue] at failed
    split at failed <;> cases failed <;> rfl

protected theorem boxArg (i : Nat) : Parses args (if args.length ≥ i + 4 then [i, i + 1, i + 2, i + 3] else []) (boxArg args i) := by
  unfold boxArg
  split
  · exact .bind (.wholeArg i) fun _ => .bind (.wholeArg _) fun _ => .bind (.wholeArg _) fun _ => .bind (.wholeArg _) fun _ => .pure _
  · exact .pure _

protected theorem windowSpec : Parses args (if args.length ≥ 4 then [2, 3] else []) (windowSpec args) := by
  unfold windowSpec
  extract_lets spec rest
  have resized (spec : Gui.WindowSpec) : Parses args [] (rest spec) := by
    dsimp only [rest]
    split <;> exact .pure _
  split
  · exact .bind (.wholeArg 2) fun width => .bind (.wholeArg 3) fun height =>
      resized { spec with width := toString width, height := toString height }
  · exact resized spec

end Parses

/-! ## Commands -/

/-- The places of the arguments that a command reads as numbers if it has so many arguments, its own word counted. -/
def numberPlaces (command : String) (count : Nat) : List Nat :=
  match command with
  | "createWindow" => if count ≥ 4 then [2, 3] else []
  | "createButton" | "createLabel" => if count ≥ 6 then [2, 3, 4, 5] else []
  | "createEntry" => if count ≥ 5 then [1, 2, 3, 4] else []
  | "createImage" =>
    if count < 4 then [] else [2, 3] ++ ((if count ≥ 5 then [4] else []) ++ (if count ≥ 6 then [5] else []))
  | _ => []

/-- A step that fails with the registry as it was, and because of a value just if an argument at a place is no numeral. -/
def Careful (args : List (List Char)) (places : List Nat) (x : Run α) : Prop :=
  ∀ s, Leads x s (fun _ _ => True) fun e t => t.screen.registry = s.screen.registry ∧
    ∃ f : Fault, e = .fault f ∧ f.isValue = !places.all (isNumeral args)

namespace Careful

variable {args : List (List Char)} {places : List Nat}

theorem read {x : Run α} {k : α → Run β} {later : List Nat} (hx : Parses args places x) (hk : ∀ a, Careful args later (k a)) :
    Careful args (places ++ later) (x >>= k) := by
  refine fun s => .bind ((hx s).mono ?_ ?_)
  · rintro a _ ⟨rfl, good⟩
    rw [all_append, good]
    exact hk a _
  · rintro _ _ ⟨rfl, bad, f, rfl, value⟩
    exact ⟨rfl, f, rfl, by rw [all_append, bad, value]; rfl⟩

theorem parsed {x : Run α} {k : α → Run β} (hx : Parses args places x) (hk : ∀ a, Careful args [] (k a)) :
    Careful args places (x >>= k) :=
  places.append_nil ▸ read hx hk

protected theorem gui {x : Gui α} (hx : ∀ s, Leads x s (fun _ _ => True) (Refused s)) : Careful args [] (gui x) :=
  fun _ => leads_gui ((hx _).mono (fun _ _ _ _ => trivial) fun f _ refused _ => ⟨refused.registry, f, rfl, refused.cause⟩)

protected theorem apart {x : Gui α} (hx : Window.Apart x) : Careful args [] (Run.gui x) :=
  .gui fun s => (hx s).imp fun _ _ _ => trivial

protected theorem maker (m : Maker) : Careful args [] (Run.gui m.run) :=
  .gui fun s => (m.adds s).imp fun _ _ _ => trivial

theorem told {x : Run α} (hx : Careful args places x) (text : α → String) :
    Careful args places (x >>= fun a => act (Act.say (text a))) :=
  fun s => (hx s).andThen fun _ _ _ => leads_say trivial

theorem size {c : Prop} [Decidable c] (i : Nat) {k : Option Int → Run α} (hk : ∀ n, Careful args places (k n)) :
    Careful args ((if c then [i] else []) ++ places) (if c then (some <$> wholeArg args i) >>= k else pure none >>= k) := by
  split
  · exact .read (.bind (.wholeArg i) fun _ => .pure _) hk
  · exact hk none

protected theorem imageCommand : Careful args (numberPlaces "createImage" args.length) (imageCommand args) := by
  have picture (path : String) : Parses args [] (pictureFault path) := by
    refine fun s => .bind (leads_world ?_)
    split <;> exact .pure ⟨rfl, rfl⟩
  show Careful args (if args.length < 4 then [] else [2] ++ ([3] ++ (_ ++ _))) _
  unfold imageCommand
  split
  · exact fun s => .bind (.throw ⟨rfl, _, rfl, rfl⟩)
  · refine .read (.wholeArg 2) fun x => .read (.wholeArg 3) fun y => .size 4 fun width => ?_
    rw [← append_nil (if args.length ≥ 6 then [5] else [])]
    exact .size 5 fun height => .told (.read (picture _) fun missing => .maker (.image _ x y width height missing)) _

protected theorem windowAction (command : String) : Careful args (numberPlaces command args.length) (windowAction command args) := by
  unfold windowAction
  split
  · refine .parsed .windowSpec fun spec => .told (.gui fun s => ?_) _
    obtain ⟨t, ran, -⟩ := exists_run_createWindow spec s
    exact .of_ok ran trivial
  · exact .parsed (.boxArg 2) fun box => .told (.maker (.button _ box _)) _
  · exact .parsed (.boxArg 2) fun box => .told (.maker (.label _ box)) _
  · exact .parsed (.boxArg 1) fun box => .told (.maker (.entry box _)) _
  · exact .imageCommand
  · exact .apart (.note _ _ _ _)
  · refine .apart (.bind .get fun s => ?_)
    split
    · exact .config _ _
    · exact .pure _
  · refine .told (.gui fun s => .bind (.get ?_)) _
    split
    · exact .bind (.set (.tryCatch ⟨fun _ _ => trivial, fun _ _ => .pure trivial⟩))
    · exact .pure trivial
  · refine .apart (.bind .get fun s => ?_)
    split
    · exact .noteCall _ _ _ _
    · exact .pure _
  · have none : numberPlaces command args.length = [] := by
      unfold numberPlaces
      split <;> simp_all
    rw [none]
    exact fun s => .throw ⟨rfl, _, rfl, rfl⟩

end Careful

/-- How a command fails: for its form if an argument that it reads as a number is no numeral, and at run time otherwise. -/
def refusal (command : String) (args : List (List Char)) (detail : String) : Fault :=
  if (numberPlaces command args.length).all (isNumeral args) then .runtime (.guiCommand command detail)
  else .malformed (.guiParameters command detail)

theorem leads_windowCommand {code word : List Char} {rest : List (List Char)} (split : arguments code = word :: rest) :
    Leads (windowCommand code false) s (fun _ _ => True) fun e t => t.screen.registry = s.screen.registry ∧
      ∃ detail, e = .fault (refusal (String.ofList word) (word :: rest) detail) := by
  unfold windowCommand
  rw [split]
  refine .tryCatch ((Careful.windowAction _ s).mono (fun _ _ => id) ?_)
  rintro _ u ⟨kept, f, rfl, cause⟩
  unfold refusal
  dsimp only
  rw [cause]
  cases (numberPlaces (String.ofList word) (word :: rest).length).all (isNumeral (word :: rest))
  all_goals exact .throw ⟨kept, f.message, rfl⟩

end LineScript.Run
