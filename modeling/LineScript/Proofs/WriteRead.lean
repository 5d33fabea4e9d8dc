
import LineScript.Proofs.EvalText
import LineScript.Proofs.FileWriting

/-!
# Writing a file and reading it

What is written to a new file is read from it exactly if no modifier stands in the text or in the name of the file.
-/

namespace LineScript.Path

open List

/-! ## Names in the folder of the program -/

theorem local?_of_solid {p : List Char} (filled : p ≠ []) (solid : '/' ∉ p) :
    local? p = some (if p = here then ["."] else [String.ofList p]) := by
  have apart : Text.startsWith p (here ++ ['/']) = false := by
    refine Bool.eq_false_iff.mpr fun starts => solid ?_
    exact (List.isPrefixOf_iff_prefix.mp starts).subset (by decide)
  have free : ∀ c ∈ p, isSlash c = false := by
    intro c hc
    refine decide_eq_false ?_
    rintro rfl
    exact solid hc
  have first : p.head?.any isSlash = false := by
    cases p with
    | nil => rfl
    | cons c p => exact free c mem_cons_self
  have last : p.getLast?.any isSlash = false := by
    cases h : p.getLast? with
    | none => rfl
    | some c => exact free c (mem_of_getLast? h)
  have one : steps p = [String.ofList p] := by
    rw [steps_eq, last, names_of_solid filled solid]
    rfl
  unfold local?
  rw [apart, first, one]
  split <;> rfl

theorem target_of_solid {p : List Char} (filled : p ≠ []) (solid : '/' ∉ p) :
    target p = some [] ∨ target p = some [String.ofList p] := by
  unfold target
  rw [local?_of_solid filled solid]
  split
  · exact Or.inl rfl
  · show some (normalStep [] (String.ofList p)) = some [] ∨ some (normalStep [] (String.ofList p)) = some [String.ofList p]
    unfold normalStep
    split
    · exact Or.inl rfl
    · split
      · exact Or.inl rfl
      · exact Or.inr rfl

section

variable {name : String} (nameable : Nameable name)

include nameable

theorem Nameable.step : ∀ x ∈ [name], x ≠ "." ∧ x ≠ ".." ∧ x.utf8ByteSize ≤ Disk.maxName := by
  intro x hx
  rw [mem_singleton.mp hx]
  exact ⟨nameable.notHere, nameable.notUp, nameable.short⟩

theorem Nameable.contains_null : name.toList.contains '\x00' = false := by
  simpa using nameable.clean

end

end LineScript.Path

namespace LineScript.Disk

open LineScript.Path List

theorem place_of_plain {name : String} (plain : Plain name) (other : name.toList ≠ here) (d : Disk) :
    d.place name.toList = walk d [] [name] := by
  have filled : name.toList.isEmpty = false := by
    rw [isEmpty_eq_false_iff]
    exact plain.toList_ne_nil
  unfold place
  rw [filled, local?_of_solid plain.toList_ne_nil plain.solid, if_neg other, String.ofList_toList]
  rfl

/-! ## A new file -/

section

variable {name : String} {d : Disk} (new : d.isThere name.toList = false)

include new

theorem ne_here_of_new : name.toList ≠ here := by
  intro same
  rw [same] at new
  cases new

variable (nameable : Nameable name)

include nameable

variable (content : Text.Bytes)

theorem find?_of_new : Table.find? d name = none := by
  cases found : Table.find? d name with
  | none => rfl
  | some n =>
    have led := walk_eq_taken nameable.step ((find?_singleton d name).trans found)
    have other := ne_here_of_new new
    unfold isThere node? at new
    rw [nameable.contains_null, place_of_plain nameable.toPlain other, led] at new
    cases new

theorem update_new (f : Text.Bytes → Text.Bytes) :
    d.update name.toList f = .ok (Table.set d name (.file (f []) newMode)) := by
  have led : walk d [] ([] ++ [name]) = .free [] name := walk_eq_free nameable.step rfl (find?_of_new new nameable)
  rw [nil_append] at led
  unfold update
  rw [nameable.contains_null, place_of_plain nameable.toPlain (ne_here_of_new new), led]
  rfl

theorem place_set (mode : Nat) :
    place (Table.set d name (.file content mode)) name.toList = .taken [name] (.file content mode) := by
  rw [place_of_plain nameable.toPlain (ne_here_of_new new)]
  refine walk_eq_taken nameable.step ?_
  rw [find?_singleton, Table.find?_set_self]

theorem read_set (mode : Nat) : read (Table.set d name (.file content mode)) name.toList = .ok content := by
  unfold read stat
  rw [nameable.contains_null, place_set new nameable]
  rfl

theorem chmod_set (mode other : Nat) :
    chmod (Table.set d name (.file content mode)) name.toList other = .ok (Table.set d name (.file content other)) := by
  unfold chmod
  rw [nameable.contains_null, place_set new nameable]
  show Except.ok (Table.set (Table.set d name _) name _) = _
  rw [Table.set_set]

end

end LineScript.Disk

namespace LineScript.Run

open Text Line List

variable {content path text : List Char} {s t : Session} {create add plain : Bool} {mode : Option (List Char)}

/-! ## Storing a text -/

def withDisk (d : Disk) (s : Session) : Session :=
  { s with depot := { s.depot with world := { s.depot.world with disk := d } } }

theorem outcome_alter_ok {f : Disk → Except Fault Disk} {e : Disk} (changed : f s.depot.world.disk = .ok e) :
    (act (Act.alter f)).outcome s = (.ok (), withDisk e s) := by
  rw [outcome_act, Pkg.run_alter, changed]
  rfl

/-- A step whose faults are all passed on ends well only if it meets none. -/
theorem outcome_of_recover_ok {x : Run Unit} {h : Fault → Run Unit} (fails : ∀ f u, (h f).outcome u ≠ (.ok (), t))
    (ended : (recover x h).outcome s = (.ok (), t)) : x.outcome s = (.ok (), t) := by
  unfold recover at ended
  rw [outcome_tryCatch] at ended
  rcases ran : x.outcome s with ⟨(f | _ | _ | _) | a, u⟩
  all_goals rw [ran] at ended
  · exact absurd ended (fails f u)
  all_goals exact ended

theorem parent_of_solid {p : List Char} (solid : '/' ∉ p) : Path.parent p = [] := by
  have whole : Path.base p = p := by
    have free : ∀ c ∈ p.reverse, (!Path.isSlash c) := by
      intro c hc
      have other : c ≠ '/' := by
        rintro rfl
        exact solid (mem_reverse.mp hc)
      simp [Path.isSlash, other]
    unfold Path.base
    rw [← append_nil p.reverse, takeWhile_append_of_pos free, takeWhile_nil, append_nil, reverse_reverse]
  unfold Path.parent
  rw [whole, Nat.sub_self]
  rfl

/-- The text that a file gets; an addition starts a new line. -/
def storedText (add : Bool) (content : List Char) : List Char := if add then '\n' :: content else content

/-- The session once a new file has been stored. -/
def stored (name : String) (add : Bool) (content : List Char) (mode : Nat) (s : Session) : Session :=
  noted ((if add then "Appended to" else "Wrote") ++ " file: " ++ name)
    (said ("File " ++ (if add then "appended to" else "written") ++ ": " ++ name)
      (withDisk (Table.set s.depot.world.disk name (.file (encode (storedText add content)) mode)) s))

section

variable {name : String} {s : Session} (new : s.depot.world.disk.isThere name.toList = false)
  (nameable : Path.Nameable name) (allowed : s.depot.world.denied.contains name = false)

include new nameable

theorem outcome_setPermissions (content : Bytes) (mode : Nat) (digits : List Char)
    (before : t = withDisk (Table.set s.depot.world.disk name (.file content mode)) s) :
    (∃ e, (setPermissions name.toList digits).outcome t = (.error e, t)) ∨
      ∃ other, (setPermissions name.toList digits).outcome t =
        (.ok (), withDisk (Table.set s.depot.world.disk name (.file content other)) s) := by
  unfold setPermissions
  cases Value.toIntBase (.ofText digits) (.int 8) with
  | error f =>
    have refused : ∃ e, (if f.isValue then broken (.permissionsFormat (String.ofList digits))
        else broken (.settingPermissions f.message) : Run Value).outcome t = (.error e, t) := by
      split <;> exact ⟨_, rfl⟩
    obtain ⟨e, refused⟩ := refused
    exact Or.inl ⟨e, bind_error refused⟩
  | ok v =>
    have known : ∀ h, (recover (check (.ok v)) h).outcome t = (.ok v, t) := fun _ => rfl
    rw [bind_ok (known _)]
    cases v with
    | int n =>
      dsimp only
      by_cases large : n ≥ maxMode
      · left
        rw [if_pos large]
        exact ⟨_, rfl⟩
      · right
        rw [if_neg large]
        refine ⟨n.toNat % 4096, outcome_recover_ok ?_ _⟩
        rw [before]
        exact outcome_alter_ok (Disk.chmod_set new nameable content mode _)
    | _ => exact Or.inr ⟨mode, before ▸ rfl⟩

/-- What is done once the content of a file is on the disk. -/
def finishStore (path : List Char) (add : Bool) (mode : Option (List Char)) : Run Unit := do
  match mode with
  | some mode => setPermissions path mode
  | none => pure ()
  Act.say ("File " ++ (if add then "appended to" else "written") ++ ": " ++ String.ofList path)
  note ((if add then "Appended to" else "Wrote") ++ " file: " ++ String.ofList path)

omit new nameable in
theorem outcome_storeFile_eq (solid : '/' ∉ path) (content : List Char) (add : Bool) (mode : Option (List Char)) :
    (storeFile path content add mode false).outcome s =
      (do
        needAllowed path
        act (Act.alter (if add then (·.append path (encode ('\n' :: content))) else (·.write path (encode content))))
        finishStore path add mode : Run Unit).outcome s := by
  unfold storeFile finishStore
  rw [parent_of_solid solid]
  cases add <;> cases mode <;> rfl

include allowed

theorem outcome_storeFile (content : List Char) (add : Bool) (mode : Option (List Char)) :
    (mode ≠ none ∧ ∃ e t, (storeFile name.toList content add mode false).outcome s = (.error e, t)) ∨
      ∃ bits, (mode = none → bits = Disk.newMode) ∧
        (storeFile name.toList content add mode false).outcome s = (.ok (), stored name add content bits s) := by
  have updated : ∀ f : Bytes → Bytes, s.depot.world.disk.update name.toList f = .ok _ := Disk.update_new new nameable
  have placed : (act (Act.alter (if add then (·.append name.toList (encode ('\n' :: content)))
      else (·.write name.toList (encode content))))).outcome s =
        (.ok (), withDisk (Table.set s.depot.world.disk name (.file (encode (storedText add content)) Disk.newMode)) s) := by
    cases add with
    | true => exact outcome_alter_ok (updated (· ++ encode ('\n' :: content)))
    | false => exact outcome_alter_ok (updated fun _ => encode content)
  have told : ∀ bits : Nat, (do
      Act.say ("File " ++ (if add then "appended to" else "written") ++ ": " ++ String.ofList name.toList)
      note ((if add then "Appended to" else "Wrote") ++ " file: " ++ String.ofList name.toList) : Run Unit).outcome
        (withDisk (Table.set s.depot.world.disk name (.file (encode (storedText add content)) bits)) s) =
          (.ok (), stored name add content bits s) := by
    intro bits
    rw [String.ofList_toList]
    exact (bind_ok (outcome_say _ _)).trans (outcome_noted _ _)
  have opened : (needAllowed name.toList).outcome s = (.ok (), s) :=
    outcome_needAllowed (by rw [String.ofList_toList]; exact allowed)
  rw [outcome_storeFile_eq nameable.solid, bind_ok opened, bind_ok placed]
  cases mode with
  | none => exact Or.inr ⟨Disk.newMode, fun _ => rfl, told _⟩
  | some digits =>
    rcases outcome_setPermissions new nameable _ Disk.newMode digits rfl with ⟨e, failed⟩ | ⟨bits, changed⟩
    · exact Or.inl ⟨Option.some_ne_none digits, e, _, bind_error failed⟩
    · exact Or.inr ⟨bits, nofun, (bind_ok changed).trans (told bits)⟩

/-- Where nothing is, a line that writes makes a file, or fails because of the permissions asked for. -/
theorem outcome_writeTo_new (content : List Char) (add plain create : Bool) (mode : Option (List Char)) :
    (mode ≠ none ∧ ∀ t, (writeTo name.toList content add plain create mode).outcome s ≠ (.ok (), t)) ∨
      ∃ bits, (mode = none → bits = Disk.newMode) ∧ (writeTo name.toList content add plain create mode).outcome s =
          (.ok (), stored name add (if plain then stripComments content else content) bits s) := by
  have absent : s.depot.world.disk.isFile name.toList = false := by
    have none : s.depot.world.disk.node? name.toList = none := Option.isSome_eq_false_iff.mp new |> Option.isNone_iff_eq_none.mp
    unfold Disk.isFile
    rw [none]
  unfold writeTo
  rw [bind_ok (outcome_world s), absent]
  simp only [Bool.and_false, pure_bind]
  rcases outcome_storeFile new nameable allowed (if plain then stripComments content else content) add mode with
    ⟨some, e, t, failed⟩ | ⟨bits, unasked, ended⟩
  · refine Or.inl ⟨some, fun u ended => ?_⟩
    have through := outcome_of_recover_ok (fun f v => ?_) ended
    · rw [failed] at through
      cases through
    · split <;> exact nofun
  · exact Or.inr ⟨bits, unasked, outcome_recover_ok ended _⟩

end

/-! ## Showing a file -/

/-- A file that holds a text is shown as that text. -/
theorem outcome_readCommand {name : String} (filled : name.toList ≠ []) (solid : ∀ c ∈ name.toList, isBlank c = false)
    (unmarked : ∀ flag ∈ readFlags, Command.holds name.toList flag = false)
    (allowed : s.depot.world.denied.contains name = false)
    (held : s.depot.world.disk.read name.toList = .ok (encode text)) (straight : '\r' ∉ text) :
    (readCommand (readCode name.toList) false).outcome s =
      (.ok (), noted ("Read file: " ++ name) (said (String.ofList text) s)) := by
  have read : (act (Act.readText name.toList)).outcome s = (.ok text, s) := by
    have reads := Pkg.reads_readText name.toList s.depot.world
    rw [held, Pkg.textOf_decoded (Value.decodeUtf8_encode text), universalNewlines_eq_self straight] at reads
    rw [outcome_act, reads]
    rfl
  rw [readCommand_readCode filled solid unmarked]
  refine outcome_recover_ok ?_ _
  unfold showFile
  have opened : (needAllowed name.toList).outcome s = (.ok (), s) :=
    outcome_needAllowed (by rw [String.ofList_toList]; exact allowed)
  rw [bind_ok opened]
  refine (bind_ok read).trans ?_
  rw [String.ofList_toList]
  exact (bind_ok (outcome_say _ _)).trans (outcome_noted _ _)

/-! ## Other files stay -/

/-- A line that writes leaves other names in the folder alone. -/
theorem item?_writeTo (filled : path ≠ []) (solid : '/' ∉ path) {x : String} (other : String.ofList path ≠ x)
    (wrote : (writeTo path content add plain create mode).outcome s = (.ok (), t)) :
    t.depot.world.disk.item? [x] = s.depot.world.disk.item? [x] := by
  have apart : Path.target path ≠ some [x] := by
    intro same
    rcases Path.target_of_solid filled solid with root | name
    · cases root.symm.trans same
    · exact other (List.cons.inj (Option.some.inj (name.symm.trans same))).1
  have led := leads_writeAt (s := s) path (fun _ => rfl) (fun u => .pure (a := content) ⟨(rfl : _ = u.depot.world.disk), rfl⟩)
    add plain create false mode
  have ran : (writeTo path content add plain create mode).run.run s = (.ok (), t) := wrote
  unfold Leads at led
  rw [← writeTo_eq, ran] at led
  obtain ⟨d, ⟨c, rfl, made⟩, left⟩ := led.1 () rfl
  cases made with
  | folder inside _ => exact absurd (parent_of_solid solid) inside
  | same =>
    rcases left with same | ⟨-, written⟩
    · rw [same]
    · exact written.same _ apart

/-! ## Writing, then reading -/

def writeModifiers : List String := writeFlags ++ ["-permissions"]

def readModifiers : List String := ["-lines", "-size", "-exists"]

theorem readFlags_free {name : List Char} (uncommented : Command.holds name "-ign" = false)
    (unasked : ∀ flag ∈ readModifiers, Command.holds name flag = false) :
    ∀ flag ∈ readFlags, Command.holds name flag = false := by
  intro flag h
  rcases mem_cons.mp h with rfl | h
  · exact uncommented
  · exact unasked flag h

def Unmarked (text : List Char) : Prop := ∀ flag ∈ writeModifiers, Command.holds text flag = false

/-- A text is written to a file, nothing else is made, and reading the file shows the text. -/
def Echoed (name : String) (content : List Char) (s : Session) : Prop :=
  ∃ t node, (writeCommand (writeCode name.toList content) false).outcome s = (.ok (), t) ∧
    t.depot.world.disk = s.depot.world.disk ++ [(name, node)] ∧
    (readCommand (readCode name.toList) false).outcome t =
      (.ok (), noted ("Read file: " ++ name) (said (String.ofList content) t))

theorem unmarked_iff : Unmarked text ↔
    (∀ flag ∈ writeFlags, Command.holds text flag = false) ∧ Command.holds text "-permissions" = false := by
  constructor
  · intro unmarked
    exact ⟨fun flag h => unmarked flag (mem_append_left _ h), unmarked "-permissions" (by decide)⟩
  · rintro ⟨deleted, permissions⟩ flag h
    rcases mem_append.mp h with h | h
    · exact deleted flag h
    · rw [mem_singleton.mp h]
      exact permissions

def writtenText (plain : Bool) (content : List Char) : List Char :=
  if plain then stripComments (removeAll writeFlags (takePermissions 0 content).2)
  else removeAll writeFlags (takePermissions 0 content).2

theorem writtenText_sublist (plain : Bool) (content : List Char) :
    (writtenText plain content).Sublist (removeAll writeFlags (takePermissions 0 content).2) := by
  unfold writtenText
  split
  · exact stripComments_sublist _
  · exact Sublist.refl _

theorem removeAll_takePermissions_sublist (content : List Char) :
    (removeAll writeFlags (takePermissions 0 content).2).Sublist content :=
  (removeAll_sublist (apart_writeFlags ' ' (by decide)) _).trans (takePermissions_sublist content)

/-- The text that is stored is shorter than the one in the line, if a modifier is deleted from it or a mode taken. -/
theorem length_storedText_lt (add plain : Bool)
    (less : (takePermissions 0 content).1 ≠ none ∨ ∃ flag ∈ writeFlags, Command.holds content flag) :
    (storedText add (writtenText plain content)).length < content.length := by
  have apart := apart_writeFlags ' ' (by decide)
  have bound : (removeAll writeFlags (takePermissions 0 content).2).length + 2 ≤ content.length := by
    by_cases none : (takePermissions 0 content).1 = none
    · obtain found := less.resolve_left (absurd none)
      rw [takePermissions_of_none none]
      exact length_removeAll_add_le apart (by decide) found
    · have shorter := (takePermissions_of_some none).2
      have flag : permissionsFlag.length = 12 := by decide
      have rest := (removeAll_sublist apart (takePermissions 0 content).2).length_le
      omega
  have written := (writtenText_sublist plain content).length_le
  unfold storedText
  cases add <;> simp only [if_true, if_false, Bool.false_eq_true, length_cons] <;> omega

/-- What is shown before a note can be told from the session after it. -/
theorem said_injective {a b remark : String} (same : noted remark (said a s) = noted remark (said b s)) : a = b := by
  have outputs : (said a s).depot.world.output = (said b s).depot.world.output := by
    have debug : ∀ text, (said text s).debug = s.debug := fun _ => rfl
    unfold noted at same
    rw [debug, debug] at same
    cases h : s.debug with
    | false =>
      rw [h] at same
      exact congrArg (·.depot.world.output) same
    | true =>
      rw [h] at same
      exact String.append_left_inj _ |>.mp (congrArg (·.depot.world.output) same)
  exact (String.append_left_inj _).mp ((String.append_right_inj _).mp outputs)

section

variable {name : String} {s : Session}

/-- Of the world, the disk is all that a stored file changes besides the screen. -/
theorem world_stored (add : Bool) (content : List Char) (mode : Nat) : (stored name add content mode s).depot.world.disk =
        Table.set s.depot.world.disk name (.file (encode (storedText add content)) mode) ∧
      (stored name add content mode s).depot.world.denied = s.depot.world.denied := by
  unfold stored noted
  split <;> split <;> exact ⟨rfl, rfl⟩

variable (new : s.depot.world.disk.isThere name.toList = false) (nameable : Path.Nameable name)
  (solid : ∀ c ∈ name.toList, isBlank c = false) (allowed : s.depot.world.denied.contains name = false)

include new nameable solid allowed

/-- A file that has just been stored is shown as the text it got. -/
theorem outcome_read_stored (unmarked : ∀ flag ∈ readFlags, Command.holds name.toList flag = false)
    (straight : '\r' ∉ content) (add : Bool) (mode : Nat) :
    (readCommand (readCode name.toList) false).outcome (stored name add content mode s) =
      (.ok (), noted ("Read file: " ++ name)
        (said (String.ofList (storedText add content)) (stored name add content mode s))) := by
  have text : '\r' ∉ storedText add content := by
    unfold storedText
    cases add with
    | true => simpa using straight
    | false => exact straight
  refine outcome_readCommand nameable.toList_ne_nil solid unmarked ?_ ?_ text
  · rw [(world_stored add content mode).2]
    exact allowed
  · rw [(world_stored add content mode).1]
    exact Disk.read_set new nameable _ mode

theorem outcome_write_unmarked (named : Unmarked name.toList) (plain : Unmarked content) :
    (writeCommand (writeCode name.toList content) false).outcome s = (.ok (), stored name false content Disk.newMode s) := by
  have held : ∀ flag ∈ writeModifiers, Command.holds (writeCode name.toList content) flag = false := by
    intro flag h
    have parts : ' ' ∉ flag.toList ∧ '"' ∉ flag.toList ∧ contains "write .".toList flag.toList = false := by
      revert flag
      decide
    rw [holds_writeCode parts.1 parts.2.1 parts.2.2, named flag h, plain flag h]
    rfl
  have kept : ∀ text, Unmarked text → removeAll writeFlags text = text := fun text unmarked =>
    removeAll_eq_self (apart_writeFlags ' ' (by decide)) (unmarked_iff.mp unmarked).1
  have bare : takePermissions 0 content = (none, content) := by
    refine takePermissions_of_none (Classical.byContradiction fun some => ?_)
    have inside : Command.holds content "-permissions" := (takePermissions_of_some some).1
    rw [plain "-permissions" (by decide)] at inside
    cases inside
  have left : removeAll writeFlags name.toList ≠ [] := by
    rw [kept _ named]
    exact nameable.toList_ne_nil
  rw [writeCommand_writeCode solid left, bare]
  dsimp only
  rw [held "-permissions" (by decide), held "-add" (by decide), held "-ign" (by decide), held "-create" (by decide),
    kept _ named, kept _ plain, Bool.false_and, if_neg Bool.false_ne_true]
  rcases outcome_writeTo_new new nameable allowed content false false false none with ⟨other, -⟩ | ⟨bits, unasked, ended⟩
  · exact absurd rfl other
  · rw [unasked rfl] at ended
    exact ended

omit solid allowed in
/-- If a file of the name is made, no modifier was deleted from the name. -/
theorem unmarked_of_made (left : removeAll writeFlags name.toList ≠ []) {node : Node}
    (wrote : (writeTo (removeAll writeFlags name.toList) content add plain create mode).outcome s = (.ok (), t))
    (made : t.depot.world.disk = s.depot.world.disk ++ [(name, node)]) :
    ∀ flag ∈ writeFlags, Command.holds name.toList flag = false := by
  intro flag h
  refine Bool.eq_false_iff.mpr fun holds => ?_
  have apart := apart_writeFlags ' ' (by decide)
  have shorter := length_removeAll_add_le (m := 1) apart (by decide) ⟨flag, h, holds⟩
  have other : String.ofList (removeAll writeFlags name.toList) ≠ name := by
    intro same
    have lists := congrArg String.toList same
    rw [String.toList_ofList] at lists
    rw [lists] at shorter
    omega
  have single : '/' ∉ removeAll writeFlags name.toList := fun slash =>
    nameable.solid ((removeAll_sublist apart _).subset slash)
  have kept := item?_writeTo left single other wrote
  have none := Disk.find?_of_new new nameable
  rw [made, ← Table.set_of_find?_eq_none none, Disk.item?_cons, Disk.item?_cons, Table.find?_set_self, none, Option.bind_some,
    Disk.below?_nil] at kept
  cases kept

/-- If what was written is shown, no modifier was deleted on the way. -/
theorem unmarked_of_echoed (unasked : ∀ flag ∈ readModifiers, Command.holds name.toList flag = false)
    (left : removeAll writeFlags name.toList ≠ []) (straight : '\r' ∉ content) (echoed : Echoed name content s) :
    Unmarked name.toList ∧ Unmarked content := by
  obtain ⟨t, node, wrote, made, showed⟩ := echoed
  rw [writeCommand_writeCode solid left] at wrote
  dsimp only at wrote
  split at wrote
  · cases wrote
  rename_i allowedMode
  have named := unmarked_of_made new nameable left wrote made
  have unmarked := readFlags_free (named "-ign" (by decide)) unasked
  rw [removeAll_eq_self (apart_writeFlags ' ' (by decide)) named] at wrote
  rcases outcome_writeTo_new new nameable allowed (removeAll writeFlags (takePermissions 0 content).2)
    (Command.holds (writeCode name.toList content) "-add") (Command.holds (writeCode name.toList content) "-ign")
    (Command.holds (writeCode name.toList content) "-create") (takePermissions 0 content).1 with ⟨-, fails⟩ | ⟨bits, -, ended⟩
  · exact absurd wrote (fails t)
  rw [ended] at wrote
  obtain rfl := (Prod.mk.inj wrote).2
  -- what is stored is shown as it is, so a text that lost something would be shown shorter
  have part : '\r' ∉ writtenText (Command.holds (writeCode name.toList content) "-ign") content := fun h =>
    straight (((writtenText_sublist _ content).trans (removeAll_takePermissions_sublist content)).subset h)
  have shown := (outcome_read_stored new nameable solid allowed unmarked part _ bits).symm.trans showed
  have text := congrArg String.toList (said_injective (Prod.mk.inj shown).2)
  rw [String.toList_ofList, String.toList_ofList] at text
  have whole : ¬ ((takePermissions 0 content).1 ≠ none ∨ ∃ flag ∈ writeFlags, Command.holds content flag) := fun less =>
    absurd (congrArg List.length text) (Nat.ne_of_lt (length_storedText_lt _ _ less))
  rw [not_or, not_not] at whole
  obtain ⟨bare, plain⟩ := whole
  have unset : Command.holds (writeCode name.toList content) "-permissions" = false := by
    rw [bare, Option.isNone_none, Bool.and_true] at allowedMode
    exact Bool.eq_false_iff.mpr allowedMode
  rw [holds_writeCode (by decide) (by decide) (by decide), Bool.or_eq_false_iff] at unset
  have deleted : ∀ flag ∈ writeFlags, Command.holds content flag = false := fun flag h =>
    Bool.eq_false_iff.mpr fun holds => plain ⟨flag, h, holds⟩
  exact ⟨unmarked_iff.mpr ⟨named, unset.1⟩, unmarked_iff.mpr ⟨deleted, unset.2⟩⟩

end

/-- A text without modifiers is written to a new file, and nothing else changes on the disk. Reading the file shows the text
exactly if its name has no modifiers: those of a line are deleted wherever they stand in it. -/
theorem write_then_read {name : String} (nameable : Path.Nameable name) (solid : ∀ c ∈ name.toList, isBlank c = false)
    {content : List Char} (straight : '\r' ∉ content) {s : Session}
    (new : s.depot.world.disk.isThere name.toList = false) (allowed : s.depot.world.denied.contains name = false) :
    (Unmarked name.toList → Unmarked content →
        (writeCommand (writeCode name.toList content) false).outcome s =
            (.ok (), stored name false content Disk.newMode s) ∧
          (stored name false content Disk.newMode s).depot.world.disk =
            s.depot.world.disk ++ [(name, .file (encode content) Disk.newMode)]) ∧
      ((∀ flag ∈ readModifiers, Command.holds name.toList flag = false) → removeAll writeFlags name.toList ≠ [] →
        (Echoed name content s ↔ Unmarked name.toList ∧ Unmarked content)) := by
  have disk : (stored name false content Disk.newMode s).depot.world.disk =
      s.depot.world.disk ++ [(name, .file (encode content) Disk.newMode)] := by
    rw [(world_stored false content Disk.newMode).1, Table.set_of_find?_eq_none (Disk.find?_of_new new nameable)]
    rfl
  refine ⟨fun named plain => ?_, fun unasked left => ⟨?_, ?_⟩⟩
  · exact ⟨outcome_write_unmarked new nameable solid allowed named plain, disk⟩
  · exact unmarked_of_echoed new nameable solid allowed unasked left straight
  · rintro ⟨named, plain⟩
    have unmarked := readFlags_free (named "-ign" (by decide)) unasked
    exact ⟨_, _, outcome_write_unmarked new nameable solid allowed named plain, disk,
      outcome_read_stored new nameable solid allowed unmarked straight false Disk.newMode⟩

theorem write_then_read_note :
    Echoed "note" "a b".toList {} ∧ ¬ Echoed "note" "a -ign b".toList {} := by
  have nameable : Path.Nameable "note" := ⟨⟨by decide, by decide, by decide, by decide⟩, by decide, by decide⟩
  have solid : ∀ c ∈ "note".toList, isBlank c = false := all_iff_forall_prop.mp (by decide)
  have named : Unmarked "note".toList := by
    unfold Unmarked
    decide
  have plain : Unmarked "a b".toList := by
    unfold Unmarked
    decide
  constructor
  · exact ((write_then_read nameable solid (by decide) rfl rfl).2 (by decide) (by decide)).mpr ⟨named, plain⟩
  · intro echoed
    have unmarked := (((write_then_read nameable solid (by decide) rfl rfl).2 (by decide) (by decide)).mp echoed).2
    exact absurd (unmarked "-ign" (by decide)) (by decide)

def writeAndRead (name content : String) : Except Stop Unit × Session :=
  (do
    writeCommand (writeCode name.toList content.toList) false
    readCommand (readCode name.toList) false : Run Unit).outcome {}

/-- A modifier in the text changes the writing, and one in the name the reading. -/
theorem modifier_in_text_or_name :
    (writeAndRead "n" "a-add b").2.depot.world.output = "File appended to: n\n\na b\n" ∧
      (writeAndRead "x-lines" "a b").1 = .error (.fault (.runtime (.fileNotFound "x"))) := by
  decide +kernel

end LineScript.Run
