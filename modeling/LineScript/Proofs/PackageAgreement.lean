
import LineScript.Proofs.PackageIndex

/-!
# The index in memory and on disk

After each command to a depot, however it ended, the index is loaded from the disk as it is in memory (`index_agrees`). The
invariant (`Agreeing`) says besides that the folder of packages is there and no folder stands in the place of the index file.
It is kept by every change that a command makes (`Agreeing.step`).
-/

namespace LineScript.Pkg

variable {d e : Disk} {index : Json} {name : String}

/-! ## Making a depot -/

theorem target_folder : Path.target folder = some ["packages"] := by decide

theorem item?_ensureFolder (made : d.ensureFolder folder = .ok e) : e.item? ["packages"] = some .folder := by
  obtain ⟨t, leads, item⟩ := Disk.item?_of_isDir (Disk.isDir_ensureFolder (by decide) (by decide) made)
  rw [target_folder] at leads
  cases leads
  exact item

theorem bare_folder :
    (if (Text.trimRight Path.isSlash folder).isEmpty then folder else Text.trimRight Path.isSlash folder) = folder := by
  decide

/-- The folder around the folder of packages is always there, so that only this one may have to be made. -/
theorem ensureFolders_folder (d : Disk) : d.ensureFolders folder = d.makeLast true folder := by
  rcases Disk.makeFoldersFrom_succ true folder.length d folder with last | ⟨-, missing, -⟩
  · exact last
  · cases missing

theorem ensureFolder_eq (d : Disk) :
    d.ensureFolder folder = tryCatch (d.makeFolder folder) fun f => if d.isDir folder then .ok d else .error f := by
  unfold Disk.ensureFolder
  rw [ensureFolders_folder]
  unfold Disk.makeLast
  cases d.makeFolder folder with
  | ok e => rfl
  | error f =>
    cases d.isDir folder <;> rfl

theorem ensureFolder_of_isDir (there : d.isDir folder) : d.ensureFolder folder = .ok d := by
  obtain ⟨-, steps, entries, taken⟩ := Disk.isDir_iff.mp there
  have refused : d.makeFolder folder = .error (Disk.alreadyThere folder) := by
    unfold Disk.makeFolder
    dsimp only
    rw [if_neg (by decide), bare_folder, taken]
  rw [ensureFolder_eq, refused, there]
  rfl

theorem ensureFolder_eq_self (packages : d.item? ["packages"] = some .folder) : d.ensureFolder folder = .ok d :=
  ensureFolder_of_isDir (isDir_folder packages)

theorem look_twice (d : Disk) : look (look d).2 = look d := by
  unfold look
  cases made : d.ensureFolder folder with
  | error f =>
    rw [made]
  | ok e =>
    rw [ensureFolder_of_isDir (Disk.isDir_ensureFolder bare_folder (by decide) made)]

/-! ## The invariant -/

theorem wellFormed_indexOf {bytes : Except Fault Text.Bytes} (loaded : indexOf bytes = .ok index) : index.WellFormed := by
  unfold indexOf at loaded
  cases read : textOf bytes >>= Json.ofText with
  | ok j =>
    rw [read] at loaded
    obtain rfl : j = index := Except.ok.inj loaded
    obtain ⟨text, -, read⟩ := Json.exists_of_bind_eq_ok read
    exact Json.wellFormed_ofText read
  | error f =>
    rw [read] at loaded
    change (if _ then _ else _) = _ at loaded
    split at loaded
    · cases loaded
      exact .obj List.nodup_nil nofun
    · cases loaded

/-- The index in memory is the one on disk, and can be written there. -/
structure Agreeing (h : Holding) : Prop where
  whole : h.index.WellFormed
  names : ∀ x, h.index.hasName x = .ok true → OwnName x
  packages : h.disk.item? ["packages"] = some .folder
  lone : h.disk.item? indexPlace ≠ some .folder
  same : indexOf (h.disk.read indexFile) = .ok h.index

theorem Agreeing.of_init {w : World} (made : (init.run.run w).1 = .ok index)
    (names : ∀ x, index.hasName x = .ok true → OwnName x) : Agreeing ⟨index, (init.run.run w).2.disk⟩ := by
  cases ensured : w.disk.ensureFolder folder with
  | error f =>
    rw [run_init_error ensured] at made
    cases made
  | ok e =>
    rw [run_init ensured] at made ⊢
    have same : indexOf (e.read indexFile) = .ok index := by
      cases loaded : indexOf (e.read indexFile) with
      | error f =>
        rw [loaded] at made
        cases made
      | ok j =>
        rw [loaded] at made
        exact congrArg Except.ok (Except.ok.inj made)
    have packages := item?_ensureFolder ensured
    refine ⟨wellFormed_indexOf same, names, packages, fun blocked => ?_, same⟩
    rw [read_indexFile packages, blocked] at same
    cases same

theorem Agreeing.loads {d : Depot} (so : Agreeing d.holding) :
    (loadIndex.run.run d.world).1 = .ok d.index ∧ (init.run.run d.world).1 = .ok d.index := by
  have same : indexOf (d.world.disk.read indexFile) = .ok d.index := so.same
  constructor
  · rw [reads_loadIndex d.world, same]
    rfl
  · rw [run_init (ensureFolder_eq_self so.packages), same]
    rfl

theorem Edit.hasName {x : String} {index' : Json} (edit : Edit name index index') (there : index'.hasName x = .ok true) :
    x = name ∨ index.hasName x = .ok true := by
  obtain ⟨fields, fields', rfl, rfl, same⟩ := edit.exists_fields
  by_cases other : x = name
  · exact .inl other
  · change Except.ok (fields'.find? x).isSome = _ at there
    rw [same x other] at there
    exact .inr there

theorem Agreeing.step (own : OwnName name) {h h' : Holding} (so : Agreeing h) (one : OnIndex name h h') : Agreeing h' := by
  have edited {index : Json} (edit : Edit name h.index index) (x : String) (there : index.hasName x = .ok true) :
      OwnName x := by
    rcases edit.hasName there with rfl | old
    · exact own
    · exact so.names x old
  cases one with
  | apart memory file folder =>
    have packages := folder so.packages
    refine ⟨memory ▸ so.whole, memory ▸ so.names, packages, file ▸ so.lone, ?_⟩
    have same := so.same
    rw [read_indexFile so.packages] at same
    rw [read_indexFile packages, file, memory]
    exact same
  | saved edit written items =>
    have whole := edit.wellFormed so.whole
    have packages : h'.disk.item? ["packages"] = some .folder := (items _).trans ((if_neg (by decide)).trans so.packages)
    have file := (items indexPlace).trans (if_pos rfl)
    refine ⟨whole, edited edit, packages, ?_, ?_⟩
    · rw [file]
      intro blocked
      cases blocked
    · rw [read_indexFile packages, file]
      exact indexOf_written whole written
  | unsaved edit _ failed =>
    -- the index has a text and the file can be written, so this does not happen
    obtain ⟨text, written, -⟩ := Json.exists_print (edit.wellFormed so.whole) 0
    obtain ⟨e, saved⟩ := exists_write_indexFile so.packages so.lone (Text.encode text)
    exact absurd saved (failed text written e)

/-! ## Commands -/

inductive Command where
  | about (action : Action) (name : String)
  | checkUpdates
  | list

def Command.run : Command → Pkg Unit
  | .about action name => action.run name
  | .checkUpdates => Pkg.checkUpdates
  | .list => installed >>= fun _ => pure ()

/-- A command, what the network answers meanwhile, and how the machine removes folders. -/
structure Call where
  command : Command
  remote : Table Reply := []
  shell : Shell := .absent

def Call.after (call : Call) (d : Depot) : Depot :=
  (call.command.run.run.run { d with world := { d.world with remote := call.remote, shell := call.shell } }).2

def after (calls : List Call) (d : Depot) : Depot := calls.foldl (fun d call => call.after d) d

/-- The packages on offer have names of their own, and their files have orderly paths. -/
structure Decent (remote : Table Reply) : Prop where
  names : ∀ x ∈ offers remote, OwnName x
  files : ∀ x ∈ offers remote, ∀ file ∈ listed remote x, Path.Orderly file

theorem Agreeing.action {d : Depot} (so : Agreeing d.holding) (decent : Decent d.world.remote) (action : Action)
    (name : String) : Agreeing ((action.run name).run.run d).2.holding := by
  have reached := action.reaches name d
  by_cases known : Known d name
  · have own : OwnName name := by
      rcases known with there | offered
      · exact so.names name there
      · exact decent.names name offered
    have orderly : ∀ file ∈ listed d.world.remote name, Path.Orderly file :=
      fun file member => decent.files name (mem_offers_of_listed member) file member
    have steps := reached.steps
    generalize ((action.run name).run.run d).2.holding = h at steps
    induction steps with
    | refl => exact so
    | tail _ one ih => exact ih.step own (one.2.onIndex own fun file member => (orderly file member).confined)
  · -- a package that neither index knows is left alone
    rw [reached.holding_eq fun _ _ one => known one.1]
    exact so

theorem Agreeing.command {d : Depot} (so : Agreeing d.holding) (decent : Decent d.world.remote) (command : Command) :
    Agreeing (command.run.run.run d).2.holding := by
  have unmoved {e : Depot} (reached : Reaches (fun _ _ => False) d e) : Agreeing e.holding := by
    rw [reached.holding_eq fun _ _ => id]
    exact so
  cases command with
  | about action name => exact so.action decent action name
  | checkUpdates => exact unmoved (leads_checkUpdates d).ends
  | list =>
    have listed : Tame (Command.run .list) d (Reaches (fun _ _ => False) d) :=
      (leads_installed d).andThen fun _ _ so => .pure so
    exact unmoved listed.ends

def shop (version : String) : Table Reply :=
  [("index.json", .page 200 ("\x7b\"p\": \x7b\"version\": \"" ++ version ++ "\", \"files\": [\"main.gy\"]\x7d\x7d")),
    ("p/main.gy", .page 200 "x=1")]

/-- A package is installed, cannot be removed, and is updated. -/
def shopping : List Call :=
  [⟨.about .install "p", shop "1", .absent⟩, ⟨.about .uninstall "p", [], .fails⟩, ⟨.about .update "p", shop "2", .absent⟩]

end LineScript.Pkg
