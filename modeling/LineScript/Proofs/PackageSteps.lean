
import LineScript.Proofs.PackageNetwork
import Mathlib.Logic.Relation

/-!
# What a package command does, step by step

There are few ways for a package command to leave something behind, and `Change` lists them. Every command is a sequence of
such changes, however it ends (`leads_install`, `leads_uninstall`, `leads_update`); a package that neither the index nor the
network knows is not touched.
-/

namespace LineScript

open List

variable {α β : Type}

/-! ## Changes -/

/-- What a depot holds: the index in memory, and the disk. -/
structure Holding where
  index : Json
  disk : Disk

def Depot.holding (d : Depot) : Holding := ⟨d.index, d.world.disk⟩

theorem Untouched.holding {d : Depot} {v : World} (same : Untouched d.world v) :
    Depot.holding { d with world := v } = d.holding := by
  unfold Depot.holding
  rw [same.disk]

namespace Pkg

variable {version remote data index : Json} {language : String}

/-- An index in which the entry of one package is set or deleted. -/
inductive Edit (name : String) (index : Json) : Json → Prop
  | set {entry index' : Json} (whole : index.WellFormed → entry.WellFormed) (changed : index.setField name entry = .ok index') :
      Edit name index index'
  | delete {index' : Json} (changed : index.deleteField name = .ok index') : Edit name index index'

/-- One change that a command makes for a package. -/
inductive Change (remote : Table Reply) (name : String) : Holding → Holding → Prop
  /-- The folder of the package, or one around a file of it, is made, as far as it can be. -/
  | folder {index : Json} {d : Disk} {p : List Char}
      (own : p = packageFolder name ∨
        ∃ file ∈ listed remote name, p = Path.parent (Path.join (packageFolder name) file.toList)) :
      Change remote name ⟨index, d⟩ ⟨index, (d.ensureFolders p).1⟩
  /-- A file of the package is written. -/
  | file {index : Json} {d e : Disk} {file : String} {content : Text.Bytes} (member : file ∈ listed remote name)
      (written : d.write (Path.join (packageFolder name) file.toList) content = .ok e) :
      Change remote name ⟨index, d⟩ ⟨index, e⟩
  | remove {index : Json} {d e : Disk} (removed : d.removeTree (packageFolder name) = .ok e) :
      Change remote name ⟨index, d⟩ ⟨index, e⟩
  | empty {index : Json} {d e : Disk} (emptied : d.emptyTree (packageFolder name) = .ok e) :
      Change remote name ⟨index, d⟩ ⟨index, e⟩
  | discard (index : Json) (d : Disk) : Change remote name ⟨index, d⟩ ⟨index, d.discard (packageFolder name)⟩
  /-- The index is changed in memory and on disk. -/
  | save {index index' : Json} {d e : Disk} {text : List Char} (edit : Edit name index index')
      (written : index'.toText = .ok text) (saved : d.write indexFile (Text.encode text) = .ok e) :
      Change remote name ⟨index, d⟩ ⟨index', e⟩
  /-- The index is changed in memory and cannot be written to disk. -/
  | keep {index index' : Json} {d : Disk} (edit : Edit name index index')
      (unsaved : ∀ text, index'.toText = .ok text → ∀ e, d.write indexFile (Text.encode text) ≠ .ok e) :
      Change remote name ⟨index, d⟩ ⟨index', d⟩

def Known (d : Depot) (name : String) : Prop :=
  d.index.hasName name = .ok true ∨ name ∈ offers d.world.remote

def Allowed (d : Depot) (name : String) (h h' : Holding) : Prop := Known d name ∧ Change d.world.remote name h h'

/-- The second depot comes from the first one by steps of a kind. -/
structure Reaches (step : Holding → Holding → Prop) (d e : Depot) : Prop where
  remote : e.world.remote = d.world.remote
  steps : Relation.ReflTransGen step d.holding e.holding

/-- The second depot comes from the first one by changes for a package. -/
abbrev Changed (d : Depot) (name : String) : Depot → Prop := Reaches (Allowed d name) d

abbrev Undone : Depot → Depot → Prop := Reaches fun _ _ => False

namespace Reaches

variable {step : Holding → Holding → Prop} {c d e : Depot}

theorem refl (step : Holding → Holding → Prop) (d : Depot) : Reaches step d d := ⟨rfl, .refl⟩

theorem untouched (so : Reaches step c d) {v : World} (same : Untouched d.world v) :
    Reaches step c { d with world := v } := by
  refine ⟨same.remote.trans so.remote, ?_⟩
  rw [same.holding]
  exact so.steps

theorem andThen (so : Reaches step c d) (remote : e.world.remote = d.world.remote) (one : step d.holding e.holding) :
    Reaches step c e :=
  ⟨remote.trans so.remote, so.steps.tail one⟩

theorem holding_eq (so : Reaches step d e) (none : ∀ h h', ¬ step h h') : e.holding = d.holding := by
  rcases so.steps.cases_tail with same | ⟨h, -, one⟩
  · exact same
  · exact absurd one (none _ _)

/-- What is not done is done by no step. -/
theorem undone (so : Reaches step c d) (same : Undone d e) : Reaches step c e := by
  refine ⟨same.remote.trans so.remote, ?_⟩
  rw [same.holding_eq fun _ _ => id]
  exact so.steps

end Reaches

/-! ## Commands -/

section Commands

variable {name : String} {step : Holding → Holding → Prop} {c d : Depot} {post : α → Depot → Prop} {keep : Depot → Prop}
  {after : Unit → Depot → Prop}
  {stop : Stop → Depot → Prop}

protected theorem leads_act {x : Act α}
    (hx : Leads x d.world (fun a v => post a { d with world := v }) fun e v => stop e { d with world := v }) :
    Leads (act x) d post stop := by
  unfold Leads
  rw [run_act]
  exact hx

theorem leads_quiet {x : Act α} {fact : Table Reply → α → Prop} (hx : Quiet x fact) (so : Reaches step c d)
    (go : ∀ a v, Untouched d.world v → fact c.world.remote a → post a { d with world := v }) :
    Leads (act x) d post (ByFault (Reaches step c)) := by
  refine Pkg.leads_act ((hx d.world).mono (fun a v h => ?_) fun _ _ => .mono so.untouched)
  exact go a v h.1 (so.remote ▸ h.2)

theorem leads_check {r : Except Fault α} (so : keep d) (go : ∀ a, r = .ok a → post a d) :
    Leads (check r) d post (ByFault keep) := by
  cases r with
  | error f => exact .throw so
  | ok a => exact .pure (go a rfl)

theorem leads_check_ok {r : Except Fault α} {a : α} (known : r = .ok a) (go : post a d) : Leads (check r) d post stop := by
  rw [known]
  exact .pure go

theorem leads_fail {f : Fault} (so : stop (.fault f) d) : Leads (fail f) d post stop := .throw so

theorem leads_say {text : String}
    (go : after () { d with world := { d.world with output := d.world.output ++ (text ++ "\n") } }) :
    Leads (act (Act.say text)) d after stop :=
  Pkg.leads_act (.modify go)

theorem leads_recover {x : Pkg α} {h : Fault → Pkg α} (hx : Leads x d post (ByFault keep))
    (hh : ∀ f e, keep e → Leads (h f) e post stop) : Leads (recover x h) d post stop := by
  refine .tryCatch (hx.mono (fun _ _ => id) fun e t stopped => ?_)
  obtain ⟨f, rfl, kept⟩ := stopped.exists_fault
  exact hh f t kept

theorem leads_alter {f : Disk → Except Fault Disk} (so : Reaches step c d)
    (one : ∀ e, f d.world.disk = .ok e → step d.holding ⟨d.index, e⟩) (go : ∀ e, Reaches step c e → after () e) :
    Leads (act (Act.alter f)) d after (ByFault (Reaches step c)) :=
  Pkg.leads_act (Act.leads_alter (fun e changed => go _ (so.andThen rfl (one e changed))) fun _ _ => so)

theorem leads_alterPartly {f : Disk → Disk × Option Fault} (so : Reaches step c d)
    (one : step d.holding ⟨d.index, (f d.world.disk).1⟩) (go : ∀ e, Reaches step c e → after () e) :
    Leads (act (Act.alterPartly f)) d after (ByFault (Reaches step c)) :=
  have reached := so.andThen (e := { d with world := { d.world with disk := (f d.world.disk).1 } }) rfl one
  Pkg.leads_act (Act.leads_alterPartly (fun _ => go _ reached) fun _ _ => reached)

theorem leads_tell {text : String} (so : Reaches step c d) : Tame (act (Act.say text)) d (Reaches step c) :=
  leads_quiet (.say _) so fun _ _ same _ => so.untouched same

structure Kept (d : Depot) (index : Json) (e : Depot) : Prop where
  memory : e.index = index
  remote : e.world.remote = d.world.remote
  file : ∃ text, index.toText = .ok text ∧ d.world.disk.write indexFile (Text.encode text) = .ok e.world.disk

/-- An index that has been set is saved if it has a text and the disk takes it. -/
theorem leads_saveIndex (d : Depot) (index : Json) :
    Leads saveIndex { d with index } (fun _ => Kept d index) (ByFault fun e => e = { d with index } ∧
      ∀ text, index.toText = .ok text → ∀ disk, d.world.disk.write indexFile (Text.encode text) ≠ .ok disk) := by
  refine .bind (.get ?_)
  cases written : index.toText with
  | error f => exact .bind (.throw ⟨rfl, fun text same => by cases same⟩)
  | ok text =>
    refine .bind (.pure (Pkg.leads_act (Act.leads_alter (fun e saved => ⟨rfl, rfl, text, written, saved⟩) fun f failed => ?_)))
    refine ⟨rfl, fun text' same e saved => ?_⟩
    cases same
    cases failed.symm.trans saved

theorem leads_save (so : Changed c name d) (known : Known c name)
    (edit : Edit name d.index index) (go : ∀ e, Changed c name e → after () e) :
    Leads saveIndex { d with index } after (ByFault (Changed c name)) := by
  refine (leads_saveIndex d index).mono (fun _ e kept => go e (so.andThen kept.remote ⟨known, ?_⟩)) fun _ e => .mono ?_
  · obtain ⟨text, written, saved⟩ := kept.file
    rw [Depot.holding, Depot.holding, kept.memory]
    exact .save edit written saved
  · rintro ⟨rfl, unsaved⟩
    exact so.andThen rfl ⟨known, .keep edit unsaved⟩

/-- The steps by which the folder of a package is filled: folders are made, and files are written. -/
structure Fills (remote : Table Reply) (name : String) (step : Holding → Holding → Prop) : Prop where
  folder : ∀ {index : Json} {d : Disk} {p : List Char},
    (p = packageFolder name ∨ ∃ file ∈ listed remote name, p = Path.parent (Path.join (packageFolder name) file.toList)) →
      step ⟨index, d⟩ ⟨index, (d.ensureFolders p).1⟩
  file : ∀ {index : Json} {d e : Disk} {file : String} {content : Text.Bytes}, file ∈ listed remote name →
    d.write (Path.join (packageFolder name) file.toList) content = .ok e → step ⟨index, d⟩ ⟨index, e⟩

theorem leads_download {entry : Json} (fills : Fills c.world.remote name step)
    (own : ∀ file, entry = .str file → file ∈ listed c.world.remote name) (so : Reaches step c d) :
    Tame (download name (packageFolder name) entry) d (Reaches step c) := by
  refine .bind (leads_check so fun shown _ => leads_recover (.bind (leads_quiet (quiet_page _) so fun body v same _ => ?_)) ?_)
  · have so := so.untouched same
    cases entry with
    | str file =>
      have member := own file rfl
      refine .bind (leads_alterPartly so (fills.folder (.inr ⟨file, member, rfl⟩)) fun d so => ?_)
      refine .bind (leads_alter so (fun e written => fills.file member written) fun d so => ?_)
      exact (leads_tell so).andThen fun _ _ so => .pure so
    | _ => exact leads_fail so
  · intro f d so
    split
    · exact (leads_tell so).andThen fun _ _ so => .pure so
    · exact leads_fail so

/-- Clearing a folder removes it if it is there. One that cannot be removed by its name can have been emptied. -/
theorem leads_clearFolder (dir : List Char) (w : World) :
    Leads (clearFolder dir) w
      (fun _ v => w.disk.isThere dir = false ∧ v = w ∨ ∃ e, w.disk.removeTree dir = .ok e ∧ v = { w with disk := e })
      (ByFault fun v => isRemovable dir = true ∧ (∃ f, w.disk.removeTree dir = .error f) ∧ v = w ∨
        isRemovable dir = false ∧ (v = w ∨ ∃ e, w.disk.emptyTree dir = .ok e ∧ v = { w with disk := e })) := by
  refine .bind (.get ?_)
  split
  · split
    · rename_i removable
      exact Act.leads_alter (fun e removed => .inr ⟨e, removed, rfl⟩) fun f failed => .inl ⟨removable, ⟨f, failed⟩, rfl⟩
    · rename_i removable
      have never : isRemovable dir = false := by simpa using removable
      refine .bind (Act.leads_alter (fun e emptied => .bind (.get (.bind ?_))) fun _ _ => .inr ⟨never, .inl rfl⟩)
      exact Act.leads_check (fun _ _ => .throw (.inr ⟨never, .inr ⟨e, emptied, rfl⟩⟩))
        fun _ _ => .inr ⟨never, .inr ⟨e, emptied, rfl⟩⟩
  · rename_i missing
    exact .pure (.inl ⟨by simpa using missing, rfl⟩)

theorem changed_clearFolder (known : Known c name) (so : Changed c name d)
    (go : ∀ e, Changed c name e → after () e) :
    Leads (act (clearFolder (packageFolder name))) d after (ByFault (Changed c name)) := by
  refine Pkg.leads_act ((leads_clearFolder _ _).mono ?_ fun _ _ => .mono ?_)
  · rintro - v (⟨-, rfl⟩ | ⟨e, removed, rfl⟩)
    · exact go d so
    · exact go _ (so.andThen rfl ⟨known, .remove removed⟩)
  · rintro (⟨-, -, rfl⟩ | ⟨-, rfl | ⟨e, emptied, rfl⟩⟩)
    · exact so
    · exact so
    · exact so.andThen rfl ⟨known, .empty emptied⟩

theorem wellFormed_entry (whole : version.WellFormed) (main language : String) (files : List String) :
    (Json.obj [("version", version), ("main", .str main), ("language", .str language),
      ("files", .arr (files.map .str))]).WellFormed := by
  refine .obj (by simp [Table.names]) fun f member => ?_
  simp only [mem_cons, not_mem_nil, or_false] at member
  rcases member with rfl | rfl | rfl | rfl
  · exact whole
  · exact .str _
  · exact .str _
  · exact .arr (forall_mem_map.mpr fun _ _ => .str _)

/-! ## Loading the files, and entering the package -/

/-- Loads the files of a package into its folder: the main file, and the files that could be had. -/
def loadFiles (name : String) (dir : List Char) (data : Json) : Pkg (String × List String) := do
  let entries ← check (do (← data.need "files").elements)
  let files := (← entries.mapM (download name dir)).filterMap id
  let base ← check ((← check (data.get? "main")).getD (.str "main")).display
  let candidates := mainCandidates base name
  match ← findMain dir candidates with
  | none =>
    refuse ("No main file found in package " ++ name ++ "\nDownloaded files: " ++ quotedList files ++
      "\nTried: " ++ quotedList candidates)
  | some main => return (main, files)

/-- Enters a package into the index. -/
def enterPackage (name language : String) (data : Json) (main : String) (files : List String) : Pkg Unit := do
  let version ← check (data.need "version")
  let entry : Json := .obj [("version", version), ("main", .str (withoutExtension main)),
    ("language", .str language), ("files", .arr (files.map .str))]
  setIndex (← check ((← depot).index.setField name entry))
  saveIndex
  Act.say ("✓ Successfully installed " ++ name ++ " v" ++ (← check version.display))
  Act.say ("Main file: " ++ main)

theorem installInto_eq (name language : String) (dir : List Char) (data : Json) :
    installInto name language dir data = (do
      Act.alterPartly (·.ensureFolders dir)
      let loaded ← loadFiles name dir data
      enterPackage name language data loaded.1 loaded.2) := by
  unfold installInto loadFiles
  simp only [bind_assoc]
  refine bind_congr fun _ => bind_congr fun entries => bind_congr fun files => ?_
  refine bind_congr fun main => bind_congr fun base => bind_congr fun found => ?_
  cases found with
  | none => rfl
  | some main => rfl

/-- A main file that can be found in a folder: a script by one of the names to try, or any script that the folder lists. -/
structure IsMain (disk : Disk) (dir : List Char) (main : String) : Prop where
  script : isScript main = true
  inside : disk.isThere (Path.join dir main.toList) = true ∨ ∃ names, disk.list dir = .ok names ∧ main ∈ names

theorem isScript_of_mem_mainCandidates {base name main : String} (member : main ∈ mainCandidates base name) :
    isScript main := by
  have py (stem : String) : isScript (stem ++ ".py") := by simp [isScript, Text.endsWith]
  have gy (stem : String) : isScript (stem ++ ".gy") := by simp [isScript, Text.endsWith]
  simp only [mainCandidates, mem_cons, not_mem_nil, or_false] at member
  rcases member with rfl | rfl | rfl | rfl | rfl | rfl
  · exact py _
  · exact gy _
  · exact py "main"
  · exact gy "main"
  · exact py _
  · exact gy _

theorem leads_findMain (dir : List Char) (base name : String) (w : World) : Leads (findMain dir (mainCandidates base name)) w
      (fun found v => v = w ∧ ∀ main, found = some main → IsMain w.disk dir main) (ByFault fun v => v = w) := by
  refine .bind (.get ?_)
  dsimp only
  split
  · rename_i main found
    refine .pure ⟨rfl, fun _ same => ?_⟩
    cases same
    exact ⟨isScript_of_mem_mainCandidates (mem_of_find?_eq_some found), .inl (by simpa using find?_some found)⟩
  · refine .bind (Act.leads_check (fun names listed => .pure ⟨rfl, fun main found => ?_⟩) fun _ _ => rfl)
    exact ⟨find?_some found, .inr ⟨names, listed, mem_of_find?_eq_some found⟩⟩

theorem leads_loadFiles (fills : Fills c.world.remote name step) (offer : offered? c.world.remote = some index)
    (found : index.need name = .ok data) (so : Reaches step c d) :
    Tame (loadFiles name (packageFolder name) data) d (Reaches step c) := by
  refine .bind (leads_check so fun entries all => ?_)
  obtain ⟨files, filesOf, elements⟩ := Json.exists_of_bind_eq_ok all
  have each : ∀ entry ∈ entries, ∀ t, Reaches step c t →
      Tame (download name (packageFolder name) entry) t (Reaches step c) := by
    intro entry member t so
    refine leads_download fills (fun file same => ?_) so
    subst same
    exact mem_listed offer found filesOf elements member
  refine (Leads.mapM each so).andThen fun files d so => ?_
  refine .bind (leads_check so fun main _ => .bind (leads_check so fun base _ => ?_))
  refine .bind (Pkg.leads_act ((leads_findMain _ _ _ _).mono ?_ ?_))
  · rintro main - ⟨rfl, -⟩
    cases main with
    | none => exact leads_fail so
    | some main => exact .pure so
  · rintro e v
    refine .mono ?_
    rintro rfl
    exact so

theorem leads_enterPackage (known : Known c name) (whole : data.WellFormed) (main : String) (files : List String)
    (so : Changed c name d) : Tame (enterPackage name language data main files) d (Changed c name) := by
  refine .bind (leads_check so fun version versionOf => .bind (.get (.bind (leads_check so fun index' changed => ?_))))
  have edit := Edit.set (fun _ => wellFormed_entry (whole.need versionOf) _ _ _) changed
  refine .bind (.modify (.bind (leads_save so known edit fun e so => .bind (leads_check so fun shown _ => ?_))))
  exact (leads_tell so).andThen fun _ _ so => leads_tell so

theorem leads_installInto (known : Known c name) (offer : offered? c.world.remote = some index)
    (found : index.need name = .ok data) (so : Changed c name d) :
    Tame (installInto name language (packageFolder name) data) d (Changed c name) := by
  have whole : data.WellFormed := (wellFormed_of_offered? offer).need found
  have fills : Fills c.world.remote name (Allowed c name) :=
    ⟨fun own => ⟨known, .folder own⟩, fun member written => ⟨known, .file member written⟩⟩
  rw [installInto_eq]
  refine .bind (leads_alterPartly so (fills.folder (.inl rfl)) fun d so => ?_)
  exact (leads_loadFiles fills offer found so).andThen fun loaded e so => leads_enterPackage known whole loaded.1 loaded.2 so

/-- A package that is not installed is described, its folder is filled, and what fails on the way clears the folder again. -/
theorem leads_install_cases (keep : Depot → Prop) {lost : Depot → Prop}
    (before : ∀ e, Undone d e → lost e) (there : d.index.hasName name = .ok true → ∀ e, Undone d e → after () e)
    (inside : d.index.hasName name = .ok false → ∀ (e : Depot) (index data : Json), Undone d e →
      offered? d.world.remote = some index → index.need name = .ok data →
        Leads (installInto name (languageAt d.world.remote name) (packageFolder name) data) e after (ByFault keep))
    (cleared : ∀ e, keep e → Tame (act (clearFolder (packageFolder name))) e lost) :
    Leads (install name) d after (ByFault lost) := by
  have so : Undone d d := .refl _ d
  have first : Leads (do check ((← depot).index.hasName name) : Pkg Bool) d
      (fun known e => d.index.hasName name = .ok known ∧ d = e) (ByFault (Undone d)) :=
    .bind (.get (leads_check so fun known named => ⟨named, rfl⟩))
  refine (leads_recover first fun _ e same => leads_fail (before e same)).andThen ?_
  rintro known _ ⟨named, rfl⟩
  cases known with
  | true => exact (leads_tell so).mono (fun _ => there named) fun _ _ => .mono (before _)
  | false =>
    have told : Leads (act (describe name)) d (fun told e => Undone d e ∧ ∃ index, offered? d.world.remote = some index ∧
        index.need name = .ok told.1 ∧ told.2 = languageAt d.world.remote name) (ByFault (Undone d)) :=
      leads_quiet (quiet_describe name) so fun _ v same fact => ⟨so.untouched same, fact⟩
    refine (leads_recover told fun _ e same => leads_fail (before e same)).andThen fun told e h => ?_
    obtain ⟨data, language⟩ := told
    obtain ⟨same, index, offer, found, rfl⟩ := h
    refine leads_recover (inside named e index data same offer found) fun f e kept => ?_
    exact (cleared e kept).andThen fun _ _ so => leads_fail so

theorem leads_install (so : Changed c name d) : Tame (install name) d (Changed c name) := by
  -- a package is described, and its folder is cleared, only if the network offers it
  refine leads_install_cases (fun e => Known c name ∧ Changed c name e) (fun e => so.undone) (fun _ e => so.undone)
    (fun _ e index data same offer found => ?_) fun e kept => changed_clearFolder kept.1 kept.2 fun _ so => so
  rw [so.remote] at offer
  have known : Known c name := .inr (mem_offers offer found)
  exact (leads_installInto known offer found (so.undone same)).mono (fun _ _ => id) fun _ _ => .mono fun so => ⟨known, so⟩

/-- Removing a folder by a command takes away what stands at its path, or does nothing: without a command of the system a
path can be refused, and with one the command can fail. -/
theorem leads_removeFolder (dir : List Char) (w : World) :
    Leads (removeFolder dir) w (fun _ v => Untouched { w with disk := w.disk.discard dir } v) (ByFault (Untouched w)) := by
  have discard {v : World} (same : Untouched w v) :
      Leads (Act.alter fun d => .ok (d.discard dir)) v (fun _ u => Untouched { w with disk := w.disk.discard dir } u)
        (ByFault (Untouched w)) := by
    refine Act.leads_alter (fun e discarded => ⟨?_, same.remote⟩) nofun
    rw [← Except.ok.inj discarded, same.disk]
  refine .bind (.get ?_)
  split
  · split
    · exact .throw (Untouched.refl w)
    · split
      · exact .throw (Untouched.refl w)
      · exact discard (.refl w)
  · refine (Quiet.emit _ w).andThen fun _ v h => ?_
    split
    · exact discard h.1
    · exact .throw h.1

theorem changed_removeFolder (known : Known c name) (so : Changed c name d)
    (go : ∀ e, Changed c name e → after () e) :
    Leads (act (removeFolder (packageFolder name))) d after (ByFault (Changed c name)) := by
  refine Pkg.leads_act ((leads_removeFolder _ _).mono (fun _ v gone => go _ ?_) fun _ _ => .mono so.untouched)
  have removed : Changed c name { d with world := { d.world with disk := d.world.disk.discard (packageFolder name) } } :=
    so.andThen rfl ⟨known, .discard _ _⟩
  exact removed.untouched gone

theorem leads_uninstall (d : Depot) : Tame (uninstall name) d (Changed d name) := by
  have so : Changed d name d := .refl _ d
  refine leads_recover (.bind (.get (.bind (leads_check so fun there named => ?_)))) fun _ _ so => leads_fail so
  cases there with
  | false => exact leads_tell so
  | true =>
    have known : Known d name := .inl named
    refine .bind (changed_removeFolder known so fun e so => ?_)
    refine .bind (.get (.bind (leads_check so fun index changed => .bind (.modify ?_))))
    exact .bind (leads_save so known (.delete changed) fun e so => leads_tell so)

theorem leads_enterVersion (known : Known c name) (offer : offered? c.world.remote = some remote)
    (whole : version.WellFormed) (so : Changed c name d) : Tame (enterVersion name remote version) d (Changed c name) := by
  refine .bind (leads_check so fun data found => .bind (leads_check so fun other versionOf => .bind (.get ?_)))
  have part : (other.getD version).WellFormed := by
    cases other with
    | none => exact whole
    | some v => exact ((wellFormed_of_offered? offer).need found).get? versionOf
  refine .bind (leads_check so fun entry entered => .bind (leads_check so fun index changed => ?_))
  obtain ⟨old, oldOf, set⟩ := Json.exists_of_bind_eq_ok entered
  have edit : Edit name d.index index := .set (fun h => (h.need oldOf).setField part set) changed
  exact .bind (.modify (leads_save so known edit fun _ so => so))

theorem exists_of_remoteVersion (found : remoteVersion remote name = .ok (some version)) :
    ∃ data, remote.get? name = .ok (some data) ∧ data.get? "version" = .ok (some version) := by
  obtain ⟨data, dataOf, rest⟩ := Json.exists_of_bind_eq_ok found
  obtain ⟨other, versionOf, last⟩ := Json.exists_of_bind_eq_ok rest
  cases data with
  | none =>
    obtain rfl : other = none := (Except.ok.inj versionOf).symm
    cases last
  | some data =>
    refine ⟨data, dataOf, ?_⟩
    split at last
    · cases last
    · cases last
    · cases Except.ok.inj last
      exact versionOf

theorem wellFormed_remoteVersion {replies : Table Reply} (offer : offered? replies = some remote)
    (found : remoteVersion remote name = .ok (some version)) : version.WellFormed := by
  obtain ⟨data, dataOf, versionOf⟩ := exists_of_remoteVersion found
  exact ((wellFormed_of_offered? offer).get? dataOf).get? versionOf

/-! ## Updating -/

/-- The index on the network and the version in it, if an installed package has another one. -/
def newVersion (name : String) : Pkg (Option (Json × Json)) := do
  if !(← check ((← depot).index.hasName name)) then
    Act.say ("Package '" ++ name ++ "' is not installed.")
    return none
  else
    match ← tryFetchIndex with
    | none => return none
    | some remote =>
      let entry ← check ((← depot).index.need name)
      let current ← check (localVersion entry)
      match ← check (remoteVersion remote name) with
      | none =>
        Act.say ("Package '" ++ name ++ "' not found in remote repository.")
        return none
      | some version =>
        if current.beq version then
          Act.say ("'" ++ name ++ "' is already up to date.")
          return none
        else
          Act.say ("Updating '" ++ name ++ "' from " ++ (← check current.display) ++ " to " ++
            (← check version.display) ++ "...")
          return some (remote, version)

def withdraw (name : String) : Pkg Unit := do
  clearFolder (packageFolder name)
  let index := (← depot).index
  if ← check (index.hasName name) then
    setIndex (← check (index.deleteField name))
    saveIndex

def tryReinstall (name : String) (remote version : Json) : Pkg (Option String) :=
  recover (do
    reinstall name remote version
    return none) fun
    | .package text => return some text
    | f => fail f

/-- An update up to its report: the text of a failure that will be told. -/
def attempt (name : String) : Pkg (Option String) := do
  match ← newVersion name with
  | none => return none
  | some (remote, version) =>
    withdraw name
    tryReinstall name remote version

def report : Option String → Pkg Unit
  | some text => Act.say ("Update failed: " ++ text)
  | none => return ()

theorem recover_updateFailed (x : Pkg Unit) :
    recover x updateFailed = recover (x >>= fun _ => pure none) (fun
      | .package text => return some text
      | f => fail f) >>= report := by
  refine ExceptT.ext (StateT.ext fun d => ?_)
  unfold recover
  simp only [ExceptT.run_bind, ExceptT.run_tryCatch, StateT.run_bind]
  rcases StateT.run (ExceptT.run x) d with ⟨(_ | _ | _ | _) | a, t⟩
  · rename_i f
    cases f <;> rfl
  all_goals rfl

theorem update_eq (name : String) : update name = attempt name >>= report := by
  have again (remote version : Json) : replaceWith name remote version =
      withdraw name >>= fun _ => tryReinstall name remote version >>= report := by
    unfold replaceWith withdraw tryReinstall
    simp only [bind_assoc, recover_updateFailed]
    refine bind_congr fun _ => bind_congr fun d => bind_congr fun there => ?_
    cases there <;> simp
  unfold update attempt newVersion
  simp only [bind_assoc]
  refine bind_congr fun d => bind_congr fun there => ?_
  cases there with
  | false => simp [report]
  | true =>
    simp only [Bool.not_true, Bool.false_eq_true, if_false, bind_assoc]
    refine bind_congr fun found => ?_
    cases found with
    | none => rfl
    | some remote =>
      simp only [bind_assoc]
      refine bind_congr fun d => bind_congr fun entry => bind_congr fun current => bind_congr fun version => ?_
      cases version with
      | none => simp [report]
      | some version =>
        by_cases same : current.beq version
        · simp [same, report]
        · simp [same, again]

theorem leads_newVersion (name : String) (d : Depot) : Leads (newVersion name) d
      (fun found e => Undone d e ∧ ∀ remote version, found = some (remote, version) → d.index.hasName name = .ok true ∧
        offered? d.world.remote = some remote ∧ remoteVersion remote name = .ok (some version)) (ByFault (Undone d)) := by
  have so : Undone d d := .refl _ d
  refine .bind (.get (.bind (leads_check so fun there named => ?_)))
  cases there with
  | false => exact (leads_tell so).andThen fun _ _ so => .pure ⟨so, nofun⟩
  | true =>
    refine .bind (leads_quiet quiet_tryFetchIndex so fun found v same offer => ?_)
    have so := so.untouched same
    cases found with
    | none => exact .pure ⟨so, nofun⟩
    | some remote =>
      refine .bind (.get (.bind (leads_check so fun entry _ => .bind (leads_check so fun current _ => ?_))))
      refine .bind (leads_check so fun version versionOf => ?_)
      cases version with
      | none => exact (leads_tell so).andThen fun _ _ so => .pure ⟨so, nofun⟩
      | some version =>
        dsimp only
        split
        · exact (leads_tell so).andThen fun _ _ so => .pure ⟨so, nofun⟩
        · refine .bind (leads_check so fun old _ => .bind (leads_check so fun new _ => ?_))
          refine (leads_tell so).andThen fun _ _ so => .pure ⟨so, fun _ _ found => ?_⟩
          cases Option.some.inj found
          exact ⟨named, offer remote rfl, versionOf⟩

theorem changed_withdraw (known : Known c name) (so : Changed c name d) : Tame (withdraw name) d (Changed c name) := by
  refine .bind (changed_clearFolder known so fun d so => .bind (.get (.bind (leads_check so fun there named => ?_))))
  cases there with
  | false => exact .pure so
  | true =>
    refine .bind (leads_check so fun index changed => .bind (.modify ?_))
    exact leads_save so known (.delete changed) fun _ so => so

theorem changed_attempt (d : Depot) : Tame (attempt name) d (Changed d name) := by
  have start : Changed d name d := .refl _ d
  refine .bind ((leads_newVersion name d).mono (fun found e h => ?_) fun _ _ => .mono start.undone)
  rcases found with _ | ⟨remote, version⟩
  · exact .pure (start.undone h.1)
  · obtain ⟨named, offer, versionOf⟩ := h.2 remote version rfl
    have known : Known d name := .inl named
    have whole := wellFormed_remoteVersion offer versionOf
    refine (changed_withdraw known (start.undone h.1)).andThen fun _ c so => ?_
    have again : Tame (reinstall name remote version) c (Changed d name) :=
      (leads_install so).andThen fun _ _ so => (leads_enterVersion known offer whole so).andThen fun _ _ so => leads_tell so
    refine leads_recover (again.andThen fun _ _ so => .pure so) fun f c so => ?_
    cases f with
    | package text => exact .pure so
    | _ => exact leads_fail so

theorem leads_update (d : Depot) : Tame (update name) d (Changed d name) := by
  rw [update_eq]
  refine (changed_attempt d).andThen fun told e so => ?_
  cases told with
  | none => exact .pure so
  | some text => exact leads_tell so

theorem leads_checkUpdates (d : Depot) : Tame checkUpdates d (Undone d) := by
  have so : Undone d d := .refl _ d
  refine .bind (leads_quiet quiet_tryFetchIndex so fun found v same _ => ?_)
  have so := so.untouched same
  cases found with
  | none => exact .pure so
  | some remote =>
    refine .bind (.get (.bind (leads_check so fun entries _ => ?_)))
    have each : ∀ entry ∈ entries, ∀ t, Undone d t →
        Tame (act (checkOne remote entry.1 entry.2)) t (Undone d) :=
      fun entry _ t so => leads_quiet (quiet_checkOne remote entry.1 entry.2) so fun _ v same _ => so.untouched same
    refine (Leads.mapM each so).andThen fun found d so => ?_
    split
    · exact leads_tell so
    · exact .pure so

theorem leads_installed (d : Depot) : Tame installed d (Undone d) :=
  have so : Undone d d := .refl _ d
  .bind (.get (.bind (leads_check so fun _ _ => .pure so)))

end Commands

/-- What can be done with one package. -/
inductive Action where
  | install
  | uninstall
  | update

def Action.run : Action → String → Pkg Unit
  | .install => Pkg.install
  | .uninstall => Pkg.uninstall
  | .update => Pkg.update

/-- However it ends, an action has made changes for its package and no others. -/
theorem Action.reaches (action : Action) (name : String) (d : Depot) : Changed d name ((action.run name).run.run d).2 := by
  cases action with
  | install => exact (leads_install (.refl _ d)).ends
  | uninstall => exact (leads_uninstall d).ends
  | update => exact (leads_update d).ends

end Pkg

end LineScript
