
import LineScript.Proofs.FileLines
import LineScript.Proofs.IndexContent
import LineScript.Proofs.Printing

/-!
# What a line that writes leaves

The user is asked if data would be lost, the text is evaluated, the folder of the file is made, and the file is stored. Of
the disk this changes nothing but folders and the place that the path leads to (`writeCommand_leaves`), and no step is undone
when a later one fails. What cannot be read as a text is not taken for data.
-/

namespace LineScript

open Text Line List

def Session.files (s : Session) : Disk × List String := (s.depot.world.disk, s.depot.world.denied)

namespace Run

variable {path text : List Char} {d e : Disk} {t : Session} {importing add : Bool} {c : Char}

variable {s : Session}

/-! ## Asking -/

/-- The user has been asked and has agreed. -/
structure Agreed (question : String) (s t : Session) : Prop where
  shown : t.depot.world.output = s.depot.world.output ++ question
  answered : ∃ line rest, s.depot.world.input = .line line :: rest ∧ String.ofList (lower (strip line.toList)) ∈ ["y", "yes"]

theorem leads_confirm (message : String) : Leads (confirm message) s
      (fun agreed t => t.files = s.files ∧ (agreed = true → Agreed (message ++ " (Y/N): ") s t)) fun _ _ => False := by
  refine .bind (.tryCatch (.bind ((leads_ask _).mono ?_ ?_)))
  · rintro line _ ⟨rest, typed, rfl⟩
    refine .pure (.pure ⟨rfl, fun yes => ⟨rfl, line, rest, typed, ?_⟩⟩)
    simpa using yes
  · rintro _ _ (⟨-, rfl, rfl⟩ | ⟨_, -, rfl, rfl⟩)
    all_goals exact .pure (.pure ⟨rfl, nofun⟩)

def overwriteQuestion (path : List Char) : String :=
  "File '" ++ String.ofList path ++ "' already contains data. Overwrite?" ++ " (Y/N): "

theorem leads_needAllowed (path : List Char) :
    Leads (needAllowed path) s (fun _ t => t = s ∧ s.depot.world.denied.contains (String.ofList path) = false)
      (ByFault fun t => t = s ∧ s.depot.world.denied.contains (String.ofList path)) := by
  refine .bind (leads_world ?_)
  split
  · rename_i denied
    exact .throw ⟨rfl, denied⟩
  · rename_i allowed
    exact .pure ⟨rfl, Bool.eq_false_iff.mpr allowed⟩

structure Filled (path : List Char) (s : Session) : Prop where
  allowed : s.depot.world.denied.contains (String.ofList path) = false
  filled : ∃ text, Pkg.textOf (s.depot.world.disk.read path) = .ok text ∧ strip text ≠ []

/-- A file with data is overwritten only if the user agrees. -/
theorem leads_mayOverwrite (path : List Char) : Leads (mayOverwrite path) s
      (fun agreed t => t.files = s.files ∧ (agreed = true → Filled path s → Agreed (overwriteQuestion path) s t))
      fun _ _ => False := by
  refine leads_recover (.bind ((leads_needAllowed path).mono ?_ ?_))
    fun f t (kept : t.files = s.files ∧ ¬ Filled path s) => .pure ⟨kept.1, fun _ file => absurd file kept.2⟩
  · rintro _ _ ⟨rfl, allowed⟩
    refine .bind ((leads_readText path).mono ?_ ?_)
    · rintro text _ ⟨rfl, read⟩
      dsimp only
      split
      · rename_i blank
        refine .pure ⟨rfl, fun _ file => ?_⟩
        obtain ⟨text', read', filled⟩ := file.filled
        rw [read] at read'
        rw [← Except.ok.inj read'] at filled
        exact absurd (isEmpty_iff.mp blank) filled
      · refine (leads_confirm _).mono ?_ fun _ _ => False.elim
        rintro agreed t ⟨same, yes⟩
        exact ⟨same, fun h _ => yes h⟩
    · refine fun _ _ => .mono ?_
      rintro ⟨rfl, f, unread⟩
      refine ⟨rfl, fun file => ?_⟩
      obtain ⟨text, read, -⟩ := file.filled
      rw [unread] at read
      cases read
  · refine fun _ _ => .mono ?_
    rintro ⟨rfl, denied⟩
    refine ⟨rfl, fun file => ?_⟩
    rw [file.allowed] at denied
    cases denied

/-! ## Evaluating -/

/-- The disk is as it was, but for the folder of packages once the index has been looked at. -/
def Looked (d e : Disk) : Prop := e = d ∨ e = (Pkg.look d).2

theorem leads_evaluate (expr : List Char) : Tame (evaluate expr) s fun t =>
    Looked s.depot.world.disk t.depot.world.disk ∧ t.depot.world.denied = s.depot.world.denied := by
  have ran := (outcome_evaluate expr s).trans (outcome_appraise s.vars expr s)
  have looked : (s.onGround (appraised s.vars expr s.ground).2).depot.world.disk = (Pkg.look s.depot.world.disk).2 := by
    unfold appraised Session.onGround Session.ground
    rcases Pkg.look s.depot.world.disk with ⟨_ | _, disk⟩ <;> rfl
  exact leads_of_outcome ran (fun _ _ => ⟨.inr looked, rfl⟩) fun _ _ => ⟨.inr looked, rfl⟩

theorem leads_contentText (content : List Char) : Leads (contentText content) s
      (fun _ t => Looked s.depot.world.disk t.depot.world.disk ∧ t.depot.world.denied = s.depot.world.denied)
      fun _ _ => False := by
  unfold contentText
  split
  · exact .pure ⟨.inl rfl, rfl⟩
  · refine leads_recover ((leads_evaluate content).andThen fun v t looked => ?_)
      fun _ _ looked => .pure looked
    exact .bind (leads_of_outcome (outcome_display v t) (fun _ _ => .pure looked) fun _ _ => looked)

/-! ## Storing -/

/-- Disks that a line may leave before it writes to a path: the folder of the path is made if it is not there. -/
inductive Made (path : List Char) (d : Disk) : Disk → Prop
  | same : Made path d d
  | folder (inside : Path.parent path ≠ []) (missing : d.isThere (Path.parent path) = false) :
    Made path d (d.makeFolders (Path.parent path)).1

theorem leads_setPermissions (path mode : List Char) :
    Tame (setPermissions path mode) s fun t => Disk.SameBut path s.depot.world.disk t.depot.world.disk := by
  refine .bind (leads_recover (leads_check (fun v _ => ?_) fun _ _ => rfl) fun f t (same : s = t) => ?_)
  · refine leads_recover ?_ fun _ _ kept => .throw kept
    split
    · split
      · exact .throw (Disk.SameBut.refl path _)
      · refine leads_act (Act.leads_alter (fun e changed => ?_) fun _ _ => Disk.SameBut.refl path _)
        exact Disk.sameBut_chmod changed
    · exact .pure (Disk.SameBut.refl path _)
  · subst same
    split <;> exact .throw (Disk.SameBut.refl path _)

/-- The folder of a path has been made if it was not there, and then the disk has changed where the path leads. -/
def Stored (path : List Char) (s t : Session) : Prop :=
  s.depot.world.denied.contains (String.ofList path) = false ∧
    ∃ d, Made path s.depot.world.disk d ∧ Disk.SameBut path d t.depot.world.disk

/-- What is left of an attempt that failed: folders, unless all that failed was to set permissions. -/
def Attempted (path : List Char) (mode : Option (List Char)) (s t : Session) : Prop :=
  Made path s.depot.world.disk t.depot.world.disk ∨ mode ≠ none ∧ Stored path s t

theorem leads_storeFile (path content : List Char) (add : Bool) (mode : Option (List Char)) (importing : Bool) :
    Leads (storeFile path content add mode importing) s (fun _ => Stored path s) (ByFault (Attempted path mode s)) := by
  unfold storeFile
  extract_lets shown dir last tell finish fill
  -- from the last step to the first
  have told : ∀ t, Stored path s t → Leads (tell ()) t (fun _ => Stored path s) (ByFault (Attempted path mode s)) := by
    intro t kept
    show Leads (if _ then _ else _) t _ _
    split
    · exact .bind (leads_say (leads_note kept kept))
    · exact leads_note kept kept
  have finished : ∀ t, Stored path s t → Leads (finish ()) t (fun _ => Stored path s) (ByFault (Attempted path mode s)) := by
    intro t ⟨allowed, d, made, same⟩
    cases mode with
    | some bits =>
      refine .bind ((leads_setPermissions path bits).mono (fun _ u more => ?_) fun _ u => .mono fun more => .inr ⟨?_, ?_⟩)
      · exact told u ⟨allowed, d, made, same.trans more⟩
      · exact Option.some_ne_none bits
      · exact ⟨allowed, d, made, same.trans more⟩
    | none => exact told t ⟨allowed, d, made, same⟩
  have filled : ∀ d, Made path s.depot.world.disk d → ∀ t : Session, t.files = (d, s.depot.world.denied) →
      Leads (fill ()) t (fun _ => Stored path s) (ByFault (Attempted path mode s)) := by
    intro d made t files
    obtain ⟨rfl, denied⟩ := Prod.mk.inj files
    refine .bind ((leads_needAllowed path).mono ?_ fun _ _ => .mono fun same => .inl (same.1 ▸ made))
    rintro _ u ⟨rfl, allowed⟩
    rw [denied] at allowed
    have changed : ∀ f, Leads (act (Act.alter (·.update path f)) >>= finish) u (fun _ => Stored path s) (ByFault (Attempted path mode s)) :=
      fun f => .bind (leads_act (Act.leads_alter
        (fun e updated => finished _ ⟨allowed, _, made, Disk.sameBut_update updated⟩) fun _ _ => .inl made))
    cases add with
    | true => exact changed (· ++ encode ('\n' :: content))
    | false => exact changed fun _ => encode content
  refine .bind (leads_world ?_)
  split
  · rename_i new
    rw [Bool.and_eq_true, Bool.not_eq_true', Bool.not_eq_true', isEmpty_eq_false_iff] at new
    exact .bind (leads_act (Act.leads_alterPartly (fun _ => filled _ (.folder new.1 new.2) _ rfl)
      fun _ _ => .inl (.folder new.1 new.2)))
  · exact filled _ .same s rfl

/-! ## Lines that write -/

/-- Writes a text to a path, once the line is read. -/
def writeAt (path : List Char) (text : Run (List Char)) (add plain create importing : Bool) (mode : Option (List Char)) :
    Run Unit := do
  let there := (← world).disk.isFile path
  if create && there then
    if !importing then Act.say ("File already exists: " ++ String.ofList path)
  else
    let agreed ← if there && !add && !importing then mayOverwrite path else pure true
    if !agreed then Act.say "Write operation cancelled."
    else
      let content ← text
      recover (storeFile path (if plain then stripComments content else content) add mode importing) fun f =>
        if f.isKind .permission then broken (.writeDenied (String.ofList path))
        else broken (.writing (String.ofList path) f.message)

theorem writeTo_eq (path content : List Char) (add plain create : Bool) (mode : Option (List Char)) :
    writeTo path content add plain create mode = writeAt path (pure content) add plain create false mode := by
  unfold writeTo writeAt
  simp only [Bool.not_false, Bool.and_true, if_true, pure_bind]

/-- The path that a line writes to, if the line has the right form. -/
def writePath? (code : List Char) : Option (List Char) :=
  if Command.holds code "-permissions" && (takePermissions 0 code).1.isNone then none
  else match wordsMax 3 (strip (removeAll writeFlags (takePermissions 0 code).2)) with
    | [_, dir, name, _] => some (pathFrom dir name)
    | _ => none

theorem writeCommand_cases (code : List Char) (importing : Bool) :
    writePath? code = none ∧ (∃ reason, writeCommand code importing = malformed reason) ∨
      ∃ path content, writePath? code = some path ∧
        (Command.holds code "-permissions" = false → (takePermissions 0 code).1 = none) ∧
        writeCommand code importing = writeAt path (contentText content) (Command.holds code "-add") (Command.holds code "-ign")
          (Command.holds code "-create") importing (takePermissions 0 code).1 := by
  have bare : Command.holds code "-permissions" = false → (takePermissions 0 code).1 = none := by
    intro unset
    refine Classical.byContradiction fun some => ?_
    rw [show Command.holds code "-permissions" = true from (takePermissions_of_some some).1] at unset
    cases unset
  have taken : (if Command.holds code "-permissions" then takePermissions 0 code else (none, code)) = takePermissions 0 code := by
    split
    · rfl
    · rename_i unset
      exact (takePermissions_of_none (bare (Bool.eq_false_iff.mpr unset))).symm
  rw [writeCommand_eq, taken]
  unfold writePath? writeWords
  dsimp only
  split
  · exact .inl ⟨rfl, _, rfl⟩
  · generalize wordsMax 3 _ = words
    rcases words with _ | ⟨_, _ | ⟨dir, _ | ⟨name, _ | ⟨content, _ | _⟩⟩⟩⟩
    case cons.cons.cons.cons.nil => exact .inr ⟨pathFrom dir name, content, rfl, bare, rfl⟩
    all_goals exact .inl ⟨rfl, _, rfl⟩

/-- The user has been asked before the file of a path is overwritten, and has agreed. -/
def Consented (path : List Char) (s : Session) : Prop :=
  ∃ t, (mayOverwrite path).outcome s = (.ok true, t) ∧ Agreed (overwriteQuestion path) s t

/-- Disks that a line may leave before it writes to a path: the text is evaluated, and the folder of the path is made. -/
def Prepared (evaluated : Disk → Disk → Prop) (path : List Char) (d e : Disk) : Prop := ∃ c, evaluated d c ∧ Made path c e

/-- A disk has been changed where a path leads. A file with data there was given up by the user. -/
structure Written (path : List Char) (add importing : Bool) (s t : Session) (d : Disk) : Prop where
  allowed : s.depot.world.denied.contains (String.ofList path) = false
  agreed : s.depot.world.disk.isFile path = true → add = false → importing = false → Filled path s → Consented path s
  same : Disk.SameBut path d t.depot.world.disk

/-- What a line that writes leaves: a disk that is prepared, and that is written to only if `may`. -/
def Left (evaluated : Disk → Disk → Prop) (path : List Char) (add importing : Bool) (may : Prop) (s t : Session) : Prop :=
  ∃ d, Prepared evaluated path s.depot.world.disk d ∧ (t.depot.world.disk = d ∨ may ∧ Written path add importing s t d)

/-- A line that fails has written to the disk only if what failed is to set permissions. -/
theorem leads_writeAt (path : List Char) {text : Run (List Char)} {evaluated : Disk → Disk → Prop}
    (idle : ∀ d, evaluated d d) (ht : ∀ u : Session, Leads text u (fun _ t => evaluated u.depot.world.disk t.depot.world.disk ∧
      t.depot.world.denied = u.depot.world.denied) fun _ _ => False)
    (add plain create importing : Bool) (mode : Option (List Char)) :
    Leads (writeAt path text add plain create importing mode) s (fun _ => Left evaluated path add importing True s)
      (ByFault (Left evaluated path add importing (mode ≠ none) s)) := by
  have kept : ∀ t : Session, t.files = s.files → Left evaluated path add importing True s t := fun t same =>
    ⟨_, ⟨_, idle _, .same⟩, .inl (Prod.mk.inj same).1⟩
  refine .bind (leads_world ?_)
  extract_lets there rest
  have through : ∀ agreed (t : Session), t.files = s.files → (agreed = true → there → add = false → importing = false →
      Filled path s → Consented path s) → Leads (rest agreed) t (fun _ => Left evaluated path add importing True s)
        (ByFault (Left evaluated path add importing (mode ≠ none) s)) := by
    intro agreed t same consent
    cases agreed with
    | false => exact leads_say (kept _ same)
    | true =>
      refine .bind ((ht t).mono (fun content u so => ?_) fun _ _ => False.elim)
      rw [(Prod.mk.inj same).1, (Prod.mk.inj same).2] at so
      have written : ∀ v, Stored path u v → ∃ d, Prepared evaluated path s.depot.world.disk d ∧ Written path add importing s v d :=
        fun v ⟨allowed, d, made, rest⟩ => ⟨d, ⟨_, so.1, made⟩, so.2 ▸ allowed, consent rfl, rest⟩
      refine leads_recover ((leads_storeFile path _ add mode importing).imp fun _ v stored => ?_) fun f v left => ?_
      · obtain ⟨d, prepared, all⟩ := written v stored
        exact ⟨d, prepared, .inr ⟨trivial, all⟩⟩
      · have failed : Left evaluated path add importing (mode ≠ none) s v := by
          rcases left with made | ⟨some, stored⟩
          · exact ⟨_, ⟨_, so.1, made⟩, .inl rfl⟩
          · obtain ⟨d, prepared, all⟩ := written v stored
            exact ⟨d, prepared, .inr ⟨some, all⟩⟩
        split <;> exact .throw failed
  split
  · split
    · exact leads_say (kept _ rfl)
    · exact .pure (kept _ rfl)
  · split
    · refine .bind ((leads_mayOverwrite path).traced.mono (fun agreed t h => ?_) fun _ _ => False.elim)
      obtain ⟨ran, same, yes⟩ := h
      refine through agreed t same fun sure _ _ _ filled => ?_
      subst sure
      exact ⟨t, ran, yes rfl filled⟩
    · rename_i unasked
      refine .bind (.pure (through true s rfl fun _ found new open_ _ => absurd ?_ unasked))
      rw [found, new, open_]
      rfl

/-! ## What a line that writes leaves -/

theorem Prepared.grown (h : Prepared Looked path d e) : Disk.Grown d e := by
  obtain ⟨c, looked, made⟩ := h
  have first : Disk.Grown d c := by
    rcases looked with rfl | rfl
    · exact .refl _
    · unfold Pkg.look
      split
      · rename_i made
        exact Disk.grown_ensureFolder made
      · exact .refl _
  cases made with
  | same => exact first
  | folder _ _ => exact first.trans (Disk.grown_makeFoldersFrom false _ c _)

theorem Prepared.eq_self (h : Prepared Looked path d e) (packages : d.isDir Pkg.folder)
    (inside : Path.parent path = [] ∨ d.isThere (Path.parent path)) : e = d := by
  obtain ⟨c, looked, made⟩ := h
  have first : c = d := by
    rcases looked with rfl | rfl
    · rfl
    · unfold Pkg.look
      rw [Pkg.ensureFolder_of_isDir packages]
  subst first
  cases made with
  | same => rfl
  | folder some missing =>
    rcases inside with none | there
    · exact absurd none some
    · rw [missing] at there
      cases there

theorem writeCommand_leaves {code : List Char} {r : Except Stop Unit}
    (ended : (writeCommand code importing).outcome s = (r, t)) :
    writePath? code = none ∧ t = s ∨ ∃ path, writePath? code = some path ∧
      Left Looked path (Command.holds code "-add") importing (Command.holds code "-permissions" = false → r = .ok ()) s t := by
  rcases writeCommand_cases code importing with ⟨unnamed, reason, failed⟩ | ⟨path, content, named, bare, wrote⟩
  · rw [failed] at ended
    exact .inl ⟨unnamed, (Prod.mk.inj ended).2.symm⟩
  · have led := leads_writeAt (s := s) path (fun _ => .inl rfl) (fun _ => leads_contentText content)
      (Command.holds code "-add") (Command.holds code "-ign") (Command.holds code "-create") importing (takePermissions 0 code).1
    have ran : (writeCommand code importing).run.run s = (r, t) := ended
    unfold Leads at led
    rw [← wrote, ran] at led
    refine .inr ⟨path, named, ?_⟩
    cases r with
    | ok _ =>
      obtain ⟨d, prepared, left⟩ := led.1 () rfl
      exact ⟨d, prepared, left.imp_right fun written => ⟨fun _ => rfl, written.2⟩⟩
    | error e =>
      obtain ⟨f, -, d, prepared, left⟩ := (led.2 e rfl).exists_fault
      exact ⟨d, prepared, left.imp_right fun written => ⟨fun unset => absurd (bare unset) written.1, written.2⟩⟩

/-! ## Consent -/

theorem mem_universalNewlines (member : c ∈ text) (solid : c ≠ '\r') : c ∈ universalNewlines text := by
  fun_induction universalNewlines text with
  | case1 => exact member
  | case2 cs ih =>
    rcases mem_cons.mp member with rfl | member
    · exact absurd rfl solid
    · rcases mem_cons.mp member with rfl | member
      · exact mem_cons_self
      · exact mem_cons_of_mem _ (ih member)
  | case3 x cs _ ih =>
    rcases mem_cons.mp member with rfl | member
    · rw [if_neg solid]
      exact mem_cons_self
    · exact mem_cons_of_mem _ (ih member)

theorem strip_ne_nil (member : c ∈ text) (solid : isBlank c = false) : strip text ≠ [] := by
  intro empty
  obtain ⟨a, b, parts, left, right⟩ := exists_append_strip text
  rw [parts, empty, append_nil] at member
  rcases mem_append.mp member with h | h
  · rw [left c h] at solid
    cases solid
  · rw [right c h] at solid
    cases solid

def reluctant : Session where
  depot := { world := { disk := [("a", .file (encode "data".toList) 0o644)], input := [.line "n"] } }

def forbidden : Session where
  depot := { world := { disk := [], denied := ["new/f"] } }

end Run

end LineScript
