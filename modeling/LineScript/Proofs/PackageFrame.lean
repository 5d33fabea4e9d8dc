
import LineScript.Proofs.PackagePaths
import LineScript.Proofs.PackageSteps

/-!
# Where a package command writes

A command for a package writes the index, what is below the folder of the package, and the files that the network lists for
it (`file?_of_reaches`). These are below the folder as well, unless a path is absolute or climbs (`install_confined`).
-/

namespace LineScript.Pkg

variable {name : String} {place : List String} {remote : Table Reply}

def indexPlace : List String := ["packages", "gpd_index.json"]

theorem target_indexFile : Path.target indexFile = some indexPlace := by decide

/-- The places at which a command for a package can change files. -/
inductive Footprint (remote : Table Reply) (name : String) : List String → Prop
  | index : Footprint remote name indexPlace
  | below {home place : List String} (leads : Path.target (packageFolder name) = some home) (inside : home <+: place) :
      Footprint remote name place
  | listed {file : String} {place : List String} (member : file ∈ listed remote name)
      (leads : Path.target (Path.join (packageFolder name) file.toList) = some place) : Footprint remote name place

theorem Change.file?_eq {h h' : Holding} (change : Change remote name h h') (outside : ¬ Footprint remote name place) :
    h'.disk.file? place = h.disk.file? place := by
  have apart {d e : Disk} (gone : ∃ t, Path.target (packageFolder name) = some t ∧ Disk.SameOutside t d e) :
      e.file? place = d.file? place := by
    obtain ⟨t, leads, same⟩ := gone
    exact Disk.file?_congr (same place fun inside => outside (.below leads inside))
  cases change with
  | folder => exact (Disk.grown_ensureFolders _ _).file? place
  | file member written =>
    obtain ⟨t, mode, leads, rest⟩ := Disk.item?_write written
    refine Disk.file?_congr ((rest place).trans (if_neg ?_))
    rintro rfl
    exact outside (.listed member leads)
  | remove removed => exact apart (Disk.sameOutside_removeTree removed)
  | empty emptied => exact apart (Disk.sameOutside_emptyTree emptied)
  | discard index d =>
    rcases Disk.sameOutside_discard d (packageFolder name) with same | gone
    · exact congrArg (Disk.file? · place) same
    · exact apart gone
  | save _ _ saved =>
    obtain ⟨t, mode, leads, rest⟩ := Disk.item?_write saved
    refine Disk.file?_congr ((rest place).trans (if_neg ?_))
    rintro rfl
    rw [target_indexFile] at leads
    cases leads
    exact outside .index
  | keep => rfl

theorem file?_of_reaches {d e : Depot} (so : Changed d name e) (outside : ¬ Footprint d.world.remote name place) :
    e.world.disk.file? place = d.world.disk.file? place := by
  have steps := so.steps
  change e.holding.disk.file? place = d.holding.disk.file? place
  generalize e.holding = h at steps
  induction steps with
  | refl => rfl
  | tail _ step ih => exact (step.2.file?_eq outside).trans ih

/-- A place in the footprint is the index, or below the folder of the package, or that of a file whose path does not stay
there. -/
theorem Footprint.confined (inside : Footprint remote name place) :
    place = indexPlace ∨ (∃ home, Path.target (packageFolder name) = some home ∧ home <+: place) ∨
      ∃ file ∈ Pkg.listed remote name, ¬ Path.Confined file ∧
        Path.target (Path.join (packageFolder name) file.toList) = some place := by
  cases inside with
  | index => exact .inl rfl
  | below leads inside => exact .inr (.inl ⟨_, leads, inside⟩)
  | @listed file _ member leads =>
    by_cases confined : Path.Confined file
    · exact .inr (.inl (Path.exists_target_packageFolder leads confined))
    · exact .inr (.inr ⟨file, member, confined, leads⟩)

/-- Installing a package touches the index, files below the folder of the package, and files that are listed by an absolute
path or one that climbs, and no others, however it ends. -/
theorem install_confined (name : String) (d : Depot) {place : List String}
    (touched : ((install name).run.run d).2.world.disk.file? place ≠ d.world.disk.file? place) :
    place = indexPlace ∨
      (∃ home, Path.target (packageFolder name) = some home ∧ (Path.Plain name → home = ["packages", name]) ∧
        home <+: place) ∨
      ∃ file ∈ listed d.world.remote name, ¬ Path.Confined file ∧
        Path.target (Path.join (packageFolder name) file.toList) = some place := by
  have so : Changed d name ((install name).run.run d).2 := Action.install.reaches name d
  have inside : Footprint d.world.remote name place :=
    Classical.byContradiction fun outside => touched (file?_of_reaches so outside)
  rcases inside.confined with same | ⟨home, leads, below⟩ | listed
  · exact .inl same
  · refine .inr (.inl ⟨home, leads, fun plain => ?_, below⟩)
    rw [Path.target_packageFolder plain] at leads
    exact (Option.some.inj leads).symm
  · exact .inr (.inr listed)

/-- A depot with one package, and a network that offers another one with a file of the first. -/
def climbing : Depot where
  index := .obj [("q", .obj [("version", .str "1")])]
  world := {
    disk := [("packages", .folder [("q", .folder [("main.gy", .file (Text.encode "y=2".toList) 0o644)])])]
    remote := [("index.json", .page 200 "\x7b\"p\": \x7b\"version\": \"1\", \"files\": [\"main.gy\", \"../q/main.gy\"]\x7d\x7d"),
      ("p/main.gy", .page 200 "x=1"), ("q/main.gy", .page 200 "y=3")] }

/-- The file of another package is replaced: it is neither the index nor below the folder of the package. -/
theorem listed_file_climbs :
    let place := ["packages", "q", "main.gy"]
    climbing.world.disk.file? place = some (Text.encode "y=2".toList, 0o644) ∧
      ((install "p").run.run climbing).2.world.disk.file? place = some (Text.encode "y=3".toList, 0o644) ∧
      place ≠ indexPlace ∧ ¬ ["packages", "p"] <+: place := by
  decide +kernel

theorem install_confined_climbing :
    let place := ["packages", "q", "main.gy"]
    ((install "p").run.run climbing).2.world.disk.file? place ≠ climbing.world.disk.file? place ∧
      ∃ file ∈ listed climbing.world.remote "p", ¬ Path.Confined file ∧
        Path.target (Path.join (packageFolder "p") file.toList) = some place := by
  have touched : ((install "p").run.run climbing).2.world.disk.file? ["packages", "q", "main.gy"] ≠
      climbing.world.disk.file? ["packages", "q", "main.gy"] := by
    decide +kernel
  have plain : Path.Plain "p" := ⟨by decide, by decide, by decide, by decide⟩
  refine ⟨touched, ?_⟩
  rcases install_confined "p" climbing touched with same | ⟨home, -, known, inside⟩ | listed
  · exact absurd same (by decide)
  · rw [known plain] at inside
    exact absurd inside (by decide)
  · exact listed

end LineScript.Pkg
