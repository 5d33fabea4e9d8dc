
import LineScript.Proofs.PackageIndex

/-!
# Packages do not disturb each other

Whatever is done with one package and however it ends, the entries of the others stay in memory, and so do their files. The
index file is written from memory as a whole, so an entry that was only in the file is lost (`stored_entry_lost`).
-/

namespace LineScript.Pkg

variable {name other : String}

def stored (d : Depot) : Json := (loadIndex.run.run d.world).1.toOption.getD (.obj [])

def storedAt : Option Item → Json
  | some (.file content _) => (indexOf (.ok content)).toOption.getD (.obj [])
  | _ => .obj []

theorem stored_eq (d : Depot) : stored d = storedAt (d.world.disk.item? indexPlace) := by
  have loaded : stored d = (indexOf (d.world.disk.read indexFile)).toOption.getD (.obj []) := by
    have reads := reads_loadIndex d.world
    unfold stored
    rw [reads]
    cases indexOf (d.world.disk.read indexFile) <;> rfl
  rw [loaded]
  unfold Disk.read Disk.item?
  cases found : d.world.disk.find? indexPlace with
  | some n =>
    rw [stat_indexFile found]
    cases n with
    | file content mode => rfl
    | folder entries => exact indexOf_error _
  | none =>
    cases there : d.world.disk.stat indexFile with
    | error f => exact indexOf_error f
    | ok n =>
      obtain ⟨place, leads, known⟩ := Disk.exists_of_stat there
      rw [target_indexFile] at leads
      cases leads
      rw [found] at known
      cases known

/-- What the changes for one package leave of another one, from the depot they start in. Only a well-formed index is read
from its file as it was written. -/
structure Undisturbed (other : String) (start h : Holding) : Prop where
  memory : h.index.get? other = start.index.get? other
  whole : start.index.WellFormed → h.index.WellFormed
  file : start.index.WellFormed →
    (storedAt (h.disk.item? indexPlace)).get? other = (storedAt (start.disk.item? indexPlace)).get? other ∨
      (storedAt (h.disk.item? indexPlace)).get? other = start.index.get? other

theorem Undisturbed.step (differ : other ≠ name) {start h h' : Holding} (so : Undisturbed other start h)
    (one : OnIndex name h h') : Undisturbed other start h' := by
  cases one with
  | apart memory file =>
    constructor
    · rw [memory]
      exact so.memory
    · rw [memory]
      exact so.whole
    · rw [file]
      exact so.file
  | saved edit written items =>
    -- the file now holds what the memory holds
    have memory := (edit.get? differ).trans so.memory
    refine ⟨memory, fun start => edit.wellFormed (so.whole start), fun start => .inr ?_⟩
    rw [items indexPlace, if_pos rfl, storedAt, indexOf_written (edit.wellFormed (so.whole start)) written]
    exact memory
  | unsaved edit disk =>
    refine ⟨(edit.get? differ).trans so.memory, fun start => edit.wellFormed (so.whole start), ?_⟩
    rw [disk]
    exact so.file

theorem Undisturbed.of_reaches (differ : other ≠ name) (own : OwnName name) {d e : Depot}
    (orderly : ∀ file ∈ listed d.world.remote name, Path.Orderly file) (so : Changed d name e) :
    Undisturbed other d.holding e.holding := by
  have steps := so.steps
  generalize e.holding = h at steps
  induction steps with
  | refl => exact ⟨rfl, id, fun _ => .inl rfl⟩
  | tail _ one ih => exact ih.step differ (one.2.onIndex own fun file member => (orderly file member).confined)

/-- A place below another package, or outside the folder of packages, is not one at which files change. -/
theorem not_footprint {remote : Table Reply} (differ : other ≠ name) (own : OwnName name)
    (notIndex : other ≠ "gpd_index.json") (orderly : ∀ file ∈ listed remote name, Path.Orderly file)
    {place : List String} (elsewhere : ["packages", other] <+: place ∨ ¬ ["packages"] <+: place) :
    ¬ Footprint remote name place := by
  intro inside
  rcases inside.confined with rfl | ⟨home, leads, below⟩ | ⟨file, member, climbs, -⟩
  · rcases elsewhere with below | outside
    · exact notIndex (by simpa [indexPlace] using below)
    · exact outside (by decide)
  · rw [Path.target_packageFolder own.toPlain] at leads
    cases leads
    obtain ⟨inner, rfl⟩ := below
    rcases elsewhere with below | outside
    · exact differ (by simpa using below)
    · exact outside ⟨name :: inner, rfl⟩
  · exact climbs (orderly file member).confined

/-- Installing, removing or updating a package leaves alone what is known of another one, its files, and the files outside the
folder of packages. -/
theorem action_keeps_others (action : Action) (d : Depot) {p q : String} (own : OwnName p) (differ : q ≠ p)
    (notIndex : q ≠ "gpd_index.json") (orderly : ∀ file ∈ listed d.world.remote p, Path.Orderly file) :
    let e := ((action.run p).run.run d).2
    e.index.get? q = d.index.get? q ∧
      (d.index.WellFormed → (stored e).get? q = (stored d).get? q ∨ (stored e).get? q = d.index.get? q) ∧
      ∀ place, ["packages", q] <+: place ∨ ¬ ["packages"] <+: place →
        e.world.disk.file? place = d.world.disk.file? place := by
  have so := action.reaches p d
  have kept : Undisturbed q d.holding _ := .of_reaches differ own orderly so
  refine ⟨kept.memory, ?_, fun place elsewhere => ?_⟩
  · rw [stored_eq, stored_eq]
    exact kept.file
  · exact file?_of_reaches so (not_footprint differ own notIndex orderly elsewhere)

/-- A depot that was loaded before another package was entered into the index file. -/
def outdated : Depot where
  world := {
    disk := [("packages", .folder [
      ("gpd_index.json", .file (Text.encode "\x7b\"q\": \x7b\"version\": \"1\"\x7d\x7d".toList) 0o644),
      ("q", .folder [("main.gy", .file (Text.encode "y=2".toList) 0o644)])])]
    remote := [("index.json", .page 200 "\x7b\"p\": \x7b\"version\": \"1\", \"files\": [\"main.gy\"]\x7d\x7d"),
      ("p/main.gy", .page 200 "x=1")] }

/-- The index file says something of a package that the memory does not know, and after another package is installed it
does not. -/
theorem stored_entry_lost :
    (∀ file ∈ listed outdated.world.remote "p", Path.Orderly file) ∧
      ((stored outdated).hasName "q").toOption = some true ∧
      ((stored ((install "p").run.run outdated).2).hasName "q").toOption = some false := by
  decide +kernel

theorem action_keeps_others_outdated :
    let e := ((Action.install.run "p").run.run outdated).2
    (e.index.hasName "p").toOption = some true ∧ e.index.get? "q" = outdated.index.get? "q" ∧
      ((stored e).get? "q" = (stored outdated).get? "q" ∨ (stored e).get? "q" = outdated.index.get? "q") ∧
      e.world.disk.file? ["packages", "q", "main.gy"] = outdated.world.disk.file? ["packages", "q", "main.gy"] := by
  have own : OwnName "p" := ⟨⟨by decide, by decide, by decide, by decide⟩, by decide⟩
  have orderly : ∀ file ∈ listed outdated.world.remote "p", Path.Orderly file := by decide +kernel
  have whole : outdated.index.WellFormed := .obj List.nodup_nil nofun
  have installed : (((Action.install.run "p").run.run outdated).2.index.hasName "p").toOption = some true := by
    decide +kernel
  obtain ⟨memory, file, elsewhere⟩ := action_keeps_others .install outdated own (by decide : "q" ≠ "p") (by decide) orderly
  exact ⟨installed, memory, file whole, elsewhere _ (.inl ⟨["main.gy"], rfl⟩)⟩

end LineScript.Pkg
