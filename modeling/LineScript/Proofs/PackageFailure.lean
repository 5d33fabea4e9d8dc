
import LineScript.Proofs.PackageOthers

/-!
# What a failed action leaves

A failed action touches nothing but the folder of its package, and takes away the whole of it or nothing. An update takes the
installed version away before it installs the new one, so a failed update leaves a depot without the package
(`failed_update_loses_package`).
-/

namespace LineScript.Pkg

variable {name language : String} {h h' h'' : Holding} {d e : Depot} {index data : Json} {post : Unit → Depot → Prop}
  {stop : Stop → Depot → Prop}

abbrev home (name : String) : List String := ["packages", name]

theorem OwnName.not_home_indexPlace (own : OwnName name) : ¬ home name <+: indexPlace := by
  simp [indexPlace, own.notIndex]

theorem not_home_packages (name : String) : ¬ home name <+: ["packages"] := by
  simp

/-! ## Saving the index -/

/-- A holding whose index can be saved: a table as it is read from a file, with a place for the file. -/
structure Writable (h : Holding) : Prop where
  object : ∃ fields, h.index = .obj fields
  whole : h.index.WellFormed
  packages : h.disk.item? ["packages"] = some .folder
  lone : h.disk.item? indexPlace ≠ some .folder

theorem Writable.of_sameOutside (own : OwnName name) (so : Writable h) (index : h'.index = h.index)
    (same : Disk.SameOutside (home name) h.disk h'.disk) : Writable h' := by
  constructor
  · rw [index]
    exact so.object
  · rw [index]
    exact so.whole
  · exact (same _ (not_home_packages name)).trans so.packages
  · rw [same _ own.not_home_indexPlace]
    exact so.lone

theorem Writable.edit (so : Writable h) (edit : Edit name h.index index) : Writable ⟨index, h.disk⟩ := by
  obtain ⟨-, fields, -, object, -⟩ := edit.exists_fields
  exact ⟨⟨fields, object⟩, edit.wellFormed so.whole, so.packages, so.lone⟩

theorem Writable.exists_deleteField (so : Writable h) (named : h.index.hasName name = .ok true) :
    ∃ index, h.index.deleteField name = .ok index := by
  obtain ⟨fields, object⟩ := so.object
  rw [object] at named ⊢
  exact Json.exists_deleteField named

theorem Kept.item?_eq {e : Depot} (kept : Kept d index e) :
    ∃ text mode, index.toText = .ok text ∧ ∀ place, e.world.disk.item? place =
      if place = indexPlace then some (.file (Text.encode text) mode) else d.world.disk.item? place := by
  obtain ⟨text, written, saved⟩ := kept.file
  obtain ⟨t, mode, leads, items⟩ := Disk.item?_write saved
  rw [target_indexFile] at leads
  cases leads
  exact ⟨text, mode, written, items⟩

theorem Kept.writable (kept : Kept d index e) (so : Writable ⟨index, d.world.disk⟩) : Writable e.holding := by
  obtain ⟨text, mode, -, items⟩ := kept.item?_eq
  constructor
  · rw [Depot.holding, kept.memory]
    exact so.object
  · rw [Depot.holding, kept.memory]
    exact so.whole
  · rw [Depot.holding, items]
    exact so.packages
  · rw [Depot.holding, items]
    simp

/-- Saving an index that can be saved does not fail. -/
theorem leads_saveIndex_writable (so : Writable ⟨index, d.world.disk⟩) (go : ∀ e, Kept d index e → post () e) :
    Leads saveIndex { d with index } post stop := by
  obtain ⟨text, written, -⟩ := Json.exists_print so.whole 0
  obtain ⟨disk, saved⟩ := exists_write_indexFile so.packages so.lone (Text.encode text)
  refine (leads_saveIndex d index).mono (fun _ => go) fun e t stopped => ?_
  obtain ⟨f, -, -, unsaved⟩ := stopped.exists_fault
  exact absurd saved (unsaved text written disk)

/-! ## The folder of a package -/

theorem isRemovable_packageFolder (plain : Path.Plain name) : isRemovable (packageFolder name) := by
  have here : name.toList ≠ ['.'] := fun same => plain.notHere (String.toList_inj.mp same)
  have up : name.toList ≠ ['.', '.'] := fun same => plain.notUp (String.toList_inj.mp same)
  simp [isRemovable, Path.trimRight_packageFolder plain, Path.base_packageFolder plain, here, up]

theorem sameOutside_discard_packageFolder (plain : Path.Plain name) (d : Disk) :
    Disk.SameOutside (home name) d (d.discard (packageFolder name)) := by
  rcases Disk.sameOutside_discard d (packageFolder name) with same | ⟨t, leads, outside⟩
  · rw [same]
    exact fun _ _ => rfl
  · rw [Path.target_packageFolder plain] at leads
    cases leads
    exact outside

theorem isDir_ensure_packageFolder {d : Disk} (plain : Path.Plain name)
    (ended : (d.ensureFolders (packageFolder name)).2 = none) :
    (d.ensureFolders (packageFolder name)).1.isDir (packageFolder name) := by
  refine Disk.isDir_ensureFolders (Path.trimRight_packageFolder plain) ?_ ended
  have nonempty : name.toList.isEmpty = false := List.isEmpty_eq_false_iff.mpr plain.toList_ne_nil
  simp only [Disk.splitLast, Path.base_packageFolder plain, nonempty]
  exact fun same => plain.notHere (String.toList_inj.mp same)

/-- In the folder of packages the folder of a package is made as a whole or not at all. -/
theorem ensure_packageFolder_of_fault {d : Disk} {f : Fault} (plain : Path.Plain name)
    (packages : d.item? ["packages"] = some .folder) (failed : (d.ensureFolders (packageFolder name)).2 = some f) :
    (d.ensureFolders (packageFolder name)).1 = d := by
  have around : (Disk.splitLast (packageFolder name)).1 = folder := by
    have nonempty : name.toList.isEmpty = false := List.isEmpty_eq_false_iff.mpr plain.toList_ne_nil
    have path : packageFolder name = folder ++ '/' :: name.toList := by
      rw [Path.packageFolder_of_relative plain.relative]
      rfl
    simp only [Disk.splitLast, Path.base_packageFolder plain, nonempty, Bool.false_eq_true, if_false]
    rw [path, Path.parent_append plain.solid (by decide)]
    decide
  have there : d.isThere folder := Disk.isThere_of_isDir (isDir_folder packages)
  unfold Disk.ensureFolders at failed ⊢
  rcases Disk.makeFoldersFrom_succ true (packageFolder name).length d (packageFolder name) with last | ⟨-, missing, -⟩
  · rw [last] at failed ⊢
    rcases Disk.makeLast_cases true d (packageFolder name) with ⟨same, -⟩ | ⟨none, -⟩
    · exact same
    · rw [none] at failed
      cases failed
  · rw [around, there] at missing
    cases missing

/-- Work on the folder of a package: the index stays, and in the folder of packages nothing else changes. -/
structure Work (name : String) (h h' : Holding) : Prop where
  index : h'.index = h.index
  outside : h.disk.item? ["packages"] = some .folder → Disk.SameOutside (home name) h.disk h'.disk
  keeps : h.disk.Keeps h'.disk

theorem Work.refl (name : String) (h : Holding) : Work name h h := ⟨rfl, fun _ _ _ => rfl, .refl _⟩

theorem Work.trans (first : Work name h h') (second : Work name h' h'') : Work name h h'' := by
  constructor
  · exact second.index.trans first.index
  · intro packages place outside
    have same := first.outside packages
    have still : h'.disk.item? ["packages"] = some .folder := (same _ (not_home_packages name)).trans packages
    exact (second.outside still place outside).trans (same place outside)
  · exact first.keeps.trans second.keeps

theorem Work.of_reaches (so : Reaches (Work name) d e) : Work name d.holding e.holding := by
  have steps := so.steps
  generalize e.holding = h at steps
  induction steps with
  | refl => exact .refl _ _
  | tail _ one ih => exact ih.trans one

theorem fills_work {remote : Table Reply} (plain : Path.Plain name)
    (confined : ∀ file ∈ listed remote name, Path.Confined file) : Fills remote name (Work name) where
  folder own := ⟨rfl, (atHome_folder plain confined own).sameOutside, (Disk.grown_ensureFolders _ _).keeps⟩
  file member written := ⟨rfl, (atHome_file plain (confined _ member) written).sameOutside, Disk.keeps_write written⟩

/-- The folder of a package is there, and what was done was done in it. -/
structure Filled (name : String) (h h' : Holding) : Prop where
  index : h'.index = h.index
  outside : Disk.SameOutside (home name) h.disk h'.disk
  folder : h'.disk.isDir (packageFolder name) = true

/-- The index stays, and so does the disk, unless the folder of a package is gone and nothing else. -/
structure Lost (name : String) (h h' : Holding) : Prop where
  index : h'.index = h.index
  disk : h'.disk = h.disk ∨ Disk.SameOutside (home name) h.disk h'.disk ∧ Disk.Gone (home name) h'.disk

theorem Lost.rest (lost : Lost name h h') (place : List String) :
    h'.disk.item? place = h.disk.item? place ∨ home name <+: place ∧ h'.disk.item? place = none := by
  rcases lost.disk with same | ⟨outside, gone⟩
  · rw [same]
    exact .inl rfl
  · by_cases below : home name <+: place
    · exact .inr ⟨below, gone place below⟩
    · exact .inl (outside place below)

theorem Lost.sameOutside (lost : Lost name h h') : Disk.SameOutside (home name) h.disk h'.disk := by
  intro place outside
  rcases lost.rest place with same | ⟨below, -⟩
  · exact same
  · exact absurd below outside

theorem Lost.item?_indexPlace (own : OwnName name) (lost : Lost name h h') :
    h'.disk.item? indexPlace = h.disk.item? indexPlace := by
  rcases lost.rest indexPlace with same | ⟨below, -⟩
  · exact same
  · exact absurd below own.not_home_indexPlace

/-- Clearing the folder of a package from a disk that is as it was, or on which that folder has been filled. -/
theorem leads_clear (plain : Path.Plain name) (so : e.holding = h ∨ Filled name h e.holding) :
    Leads (act (clearFolder (packageFolder name))) e (fun _ t => Lost name h t.holding ∧ t.world.remote = e.world.remote ∧
        (e.world.disk.isThere (packageFolder name) = true → Disk.Gone (home name) t.world.disk))
      (ByFault fun t => Lost name h t.holding) := by
  have index : e.index = h.index := so.elim (fun same => same ▸ rfl) Filled.index
  have outside : Disk.SameOutside (home name) h.disk e.world.disk :=
    so.elim (fun same => same ▸ fun _ _ => rfl) Filled.outside
  refine Pkg.leads_act ((leads_clearFolder _ _).mono ?_ fun _ _ => .mono ?_)
  · rintro - v (⟨missing, rfl⟩ | ⟨disk, removed, rfl⟩)
    · refine ⟨?_, rfl, fun there => absurd there (by simp [missing])⟩
      rcases so with rfl | filled
      · exact ⟨rfl, .inl rfl⟩
      · exact absurd (Disk.isThere_of_isDir filled.folder) (by simp [Depot.holding, missing])
    · obtain ⟨rest, gone⟩ := Disk.gone_removeTree removed (Path.target_packageFolder plain) (by simp)
      exact ⟨⟨index, .inr ⟨fun place apart => (rest place apart).trans (outside place apart), gone⟩⟩, rfl, fun _ => gone⟩
  · rintro (⟨-, ⟨f, failed⟩, rfl⟩ | ⟨never, -⟩)
    · rcases so with rfl | filled
      · exact ⟨rfl, .inl rfl⟩
      · obtain ⟨e, removed⟩ := Disk.exists_removeTree filled.folder
        cases removed.symm.trans failed
    · rw [isRemovable_packageFolder plain] at never
      cases never

/-! ## Installing -/

/-- The index can be saved and has an entry of a package that can be changed. -/
structure Ready (name : String) (h : Holding) : Prop extends Writable h where
  entry : ∃ fields, h.index.need name = .ok (.obj fields)

/-- A package is not entered only if its version is missing, and then nothing has been done. -/
theorem leads_enterPackage_ready {main : String} {files : List String} (whole : data.WellFormed) (so : Writable d.holding) :
    Leads (enterPackage name language data main files) d (fun _ e => Ready name e.holding) (ByFault fun e => e = d) := by
  refine .bind (leads_check rfl fun version versionOf => .bind (.get (.bind (leads_check rfl fun index changed => ?_))))
  have edit := Edit.set (fun _ => wellFormed_entry (whole.need versionOf) _ _ _) changed
  have writable := so.edit edit
  obtain ⟨shown, known⟩ := Json.exists_display (whole.need versionOf)
  refine .bind (.modify (.bind (leads_saveIndex_writable writable fun e kept => .bind (leads_check_ok known ?_))))
  have entry := Json.need_of_setField changed
  rw [← kept.memory] at entry
  exact .bind (leads_say (leads_say ⟨kept.writable writable, _, entry⟩))

section

variable {name : String} {d : Depot} (own : OwnName name)
  (confined : ∀ file ∈ listed d.world.remote name, Path.Confined file) (so : Writable d.holding)

include own confined so

/-- Filling the folder fails before anything is done, or with the folder there and the index as it was. -/
theorem leads_installInto_filled (offer : offered? d.world.remote = some index) (found : index.need name = .ok data) :
    Leads (installInto name language (packageFolder name) data) d (fun _ e => Ready name e.holding)
      (ByFault fun e => e.holding = d.holding ∨ Filled name d.holding e.holding) := by
  have fills := fills_work own.toPlain confined
  have whole : data.WellFormed := (wellFormed_of_offered? offer).need found
  rw [installInto_eq]
  refine .bind (Pkg.leads_act (Act.leads_alterPartly (fun done => ?_) fun f failed => .inl ?_))
  case refine_2 =>
    have same : (d.world.disk.ensureFolders (packageFolder name)).1 = d.world.disk :=
      ensure_packageFolder_of_fault own.toPlain so.packages failed
    exact congrArg (Holding.mk d.index) same
  let begun : Depot := { d with world := { d.world with disk := (d.world.disk.ensureFolders (packageFolder name)).1 } }
  have first : Work name d.holding begun.holding := fills.folder (.inl rfl)
  have filled {e : Depot} (reached : Reaches (Work name) begun e) : Filled name d.holding e.holding := by
    have second : Work name begun.holding e.holding := .of_reaches reached
    have both := first.trans second
    exact ⟨both.index, both.outside so.packages, second.keeps.isDir (isDir_ensure_packageFolder own.toPlain done)⟩
  refine .bind ((leads_loadFiles (c := begun) fills offer found (.refl _ _)).mono (fun loaded e reached => ?_) fun _ _ => .mono ?_)
  · have there := filled reached
    have writable : Writable e.holding := so.of_sameOutside own there.index there.outside
    refine (leads_enterPackage_ready whole writable).mono (fun _ _ => id) fun _ _ => .mono ?_
    rintro rfl
    exact .inr there
  · exact fun reached => .inr (filled reached)

theorem leads_install_lost :
    Leads (install name) d (fun _ e => d.index.hasName name = .ok false → Ready name e.holding)
      (ByFault fun e => Lost name d.holding e.holding) := by
  refine leads_install_cases (fun e => e.holding = d.holding ∨ Filled name d.holding e.holding) (fun e same => ?_)
    (fun named _ _ unknown => ?_) (fun _ e index data same offer found => ?_) fun e stopped => ?_
  · rw [same.holding_eq fun _ _ => id]
    exact ⟨rfl, .inl rfl⟩
  · cases named.symm.trans unknown
  · have holding := same.holding_eq fun _ _ => id
    rw [← holding] at so ⊢
    rw [← same.remote] at confined offer ⊢
    exact (leads_installInto_filled own confined so offer found).imp fun _ _ ready _ => ready
  · exact (leads_clear own.toPlain stopped).imp fun _ _ cleared => cleared.1

omit confined in
theorem leads_uninstall_unchanged :
    Leads (uninstall name) d (fun _ _ => True) (ByFault fun e => e.holding = d.holding) := by
  refine leads_recover ?_ fun f e (same : e.holding = d.holding) => leads_fail same
  refine .bind (.get (.bind (leads_check rfl fun there named => ?_)))
  cases there with
  | false => exact leads_say trivial
  | true =>
    refine .bind (Pkg.leads_act ((leads_removeFolder _ _).mono (fun _ v removed => ?_) fun _ _ => .mono Untouched.holding))
    -- with the folder removed, the entry can be deleted and the index can be saved
    have outside : Disk.SameOutside (home name) d.world.disk v.disk := by
      rw [removed.disk]
      exact sameOutside_discard_packageFolder own.toPlain _
    have writable : Writable (Depot.holding { d with world := v }) := so.of_sameOutside own rfl outside
    obtain ⟨index, deleted⟩ := so.exists_deleteField named
    refine .bind (.get (.bind (leads_check_ok deleted ?_)))
    exact .bind (.modify (.bind (leads_saveIndex_writable (writable.edit (.delete deleted)) fun e _ => leads_say trivial)))

end

/-! ## Updating -/

section

variable {name : String} {d : Depot} {remote version : Json}

/-- The entry and the folder of a package are taken away, and nothing else is. -/
structure Dropped (name : String) (h h' : Holding) : Prop where
  index : h.index.deleteField name = .ok h'.index
  file : ∃ text mode, h'.index.toText = .ok text ∧ h'.disk.item? indexPlace = some (.file (Text.encode text) mode)
  rest : ∀ place, place ≠ indexPlace →
    h'.disk.item? place = h.disk.item? place ∨ home name <+: place ∧ h'.disk.item? place = none
  folder : h.disk.isThere (packageFolder name) = true → Disk.Gone (home name) h'.disk

theorem Dropped.of_kept {t : Depot} (own : OwnName name) (lost : Lost name d.holding e.holding)
    (gone : d.world.disk.isThere (packageFolder name) → Disk.Gone (home name) e.world.disk)
    (deleted : d.index.deleteField name = .ok index) (kept : Kept e index t) : Dropped name d.holding t.holding := by
  obtain ⟨text, mode, written, items⟩ := kept.item?_eq
  obtain rfl := kept.memory
  have apart {place : List String} (other : place ≠ indexPlace) : t.world.disk.item? place = e.world.disk.item? place := by
    rw [items, if_neg other]
  constructor
  · exact deleted
  · exact ⟨text, mode, written, (items indexPlace).trans (if_pos rfl)⟩
  · intro place other
    rw [Depot.holding, apart other]
    exact lost.rest place
  · intro there place below
    have other : place ≠ indexPlace := by
      rintro rfl
      exact own.not_home_indexPlace below
    rw [Depot.holding, apart other]
    exact gone there place below

/-- What is lost after a package has been taken away was taken away with it. -/
theorem Dropped.lost (own : OwnName name) (dropped : Dropped name h h') (lost : Lost name h' h'') : Dropped name h h'' := by
  obtain ⟨text, mode, written, file⟩ := dropped.file
  constructor
  · rw [lost.index]
    exact dropped.index
  · rw [lost.index, lost.item?_indexPlace own]
    exact ⟨text, mode, written, file⟩
  · intro place other
    rcases lost.rest place with same | gone
    · rw [same]
      exact dropped.rest place other
    · exact .inr gone
  · intro there place below
    rcases lost.rest place with same | ⟨-, gone⟩
    · rw [same]
      exact dropped.folder there place below
    · exact gone

theorem leads_withdraw (own : OwnName name) (so : Writable d.holding) (named : d.index.hasName name = .ok true) :
    Leads (withdraw name) d
      (fun _ e => Dropped name d.holding e.holding ∧ Writable e.holding ∧ e.world.remote = d.world.remote)
      (ByFault fun _ => True) := by
  refine .bind ((leads_clear own.toPlain (.inl rfl)).mono (fun _ e cleared => ?_) fun _ _ => .mono fun _ => trivial)
  obtain ⟨lost, remote, gone⟩ := cleared
  have same : e.index = d.index := lost.index
  have writable : Writable e.holding := so.of_sameOutside own lost.index lost.sameOutside
  obtain ⟨index, deleted⟩ : ∃ index, d.index.deleteField name = .ok index := so.exists_deleteField named
  have edit : Edit name e.index index := .delete (same.symm ▸ deleted)
  refine .bind (.get (.bind (leads_check_ok (same.symm ▸ named) (.bind (leads_check_ok (same.symm ▸ deleted) ?_)))))
  refine .bind (.modify (leads_saveIndex_writable (writable.edit edit) fun t kept => ?_))
  exact ⟨.of_kept own lost gone deleted kept, kept.writable (writable.edit edit), kept.remote.trans remote⟩

/-- A new version is entered without fail where a package has just been entered. -/
theorem leads_enterVersion_ready (ready : Ready name d.holding) (part : version.WellFormed)
    (found : remoteVersion remote name = .ok (some version)) :
    Leads (enterVersion name remote version) d (fun _ _ => True) stop := by
  obtain ⟨data, dataOf, versionOf⟩ := exists_of_remoteVersion found
  obtain ⟨fields, object⟩ : ∃ fields, d.index = .obj fields := ready.object
  obtain ⟨old, known⟩ : ∃ old, d.index.need name = .ok (.obj old) := ready.entry
  have entered : (do (← d.index.need name).setField "version" version : Except Fault Json) =
      .ok (.obj (Table.set old "version" version)) := by
    rw [known]
    rfl
  obtain ⟨index, changed⟩ : ∃ index, d.index.setField name (.obj (Table.set old "version" version)) = .ok index := by
    rw [object]
    exact ⟨_, rfl⟩
  have edit : Edit name d.index index := .set (fun whole => (whole.need known).setField part rfl) changed
  refine .bind (leads_check_ok (Json.need_of_get? dataOf) (.bind (leads_check_ok versionOf (.bind (.get ?_)))))
  refine .bind (leads_check_ok entered (.bind (leads_check_ok changed (.bind (.modify ?_)))))
  exact leads_saveIndex_writable (ready.toWritable.edit edit) fun _ _ => trivial

variable (own : OwnName name) (confined : ∀ file ∈ listed d.world.remote name, Path.Confined file)
  (so : Writable d.holding)

include own confined so

/-- Installing a new version fails only where the installation does. -/
theorem leads_reinstall (unknown : d.index.hasName name = .ok false) (offer : offered? d.world.remote = some remote)
    (found : remoteVersion remote name = .ok (some version)) :
    Leads (reinstall name remote version) d (fun _ _ => True) (ByFault fun e => Lost name d.holding e.holding) := by
  refine (leads_install_lost own confined so).andThen fun _ e ready => ?_
  have part := wellFormed_remoteVersion offer found
  exact (leads_enterVersion_ready (ready unknown) part found).andThen fun _ _ _ => leads_say trivial

/-- An update that is going to tell of a failure has taken its package away. -/
theorem leads_attempt :
    Leads (attempt name) d (fun told e => ∀ text, told = some text → Dropped name d.holding e.holding)
      (ByFault fun _ => True) := by
  refine .bind ((leads_newVersion name d).mono (fun found e h => ?_) fun _ _ => .mono fun _ => trivial)
  cases found with
  | none => exact .pure nofun
  | some found =>
    obtain ⟨named, offer, versionOf⟩ := h.2 _ _ rfl
    have same := h.1.holding_eq fun _ _ => id
    rw [← same] at so ⊢
    rw [← h.1.remote] at confined offer
    have index : e.index = d.index := congrArg Holding.index same
    refine (leads_withdraw own so (index.symm ▸ named)).andThen fun _ t h => ?_
    obtain ⟨dropped, writable, remote⟩ := h
    rw [← remote] at confined offer
    have unknown : t.index.hasName name = .ok false := Json.hasName_of_deleteField dropped.index
    have again := leads_reinstall own confined writable unknown offer versionOf
    refine leads_recover (again.andThen fun _ _ _ => .pure nofun)
      fun f u lost => ?_
    cases f with
    | package text => exact .pure fun _ _ => dropped.lost own lost
    | _ => exact leads_fail trivial

end

/-! ## Failure -/

/-- An action fails: installing or removing a package stops, or an update tells of a failure (`update_eq`). -/
def Fails (name : String) (d : Depot) : Action → Prop
  | .install => ((install name).run.run d).1 ≠ .ok ()
  | .uninstall => ((uninstall name).run.run d).1 ≠ .ok ()
  | .update => ∃ text, ((attempt name).run.run d).1 = .ok (some text)

theorem keep_of_ne_ok {x : Pkg Unit} {keep : Depot → Prop} (hx : Leads x d post (ByFault keep))
    (failed : (x.run.run d).1 ≠ .ok ()) : keep (x.run.run d).2 := by
  cases ended : (x.run.run d).1 with
  | ok _ => exact absurd ended failed
  | error reason =>
    obtain ⟨f, -, kept⟩ := (hx.2 reason ended).exists_fault
    exact kept

theorem run_update {text : String} (told : ((attempt name).run.run d).1 = .ok (some text)) :
    let e := ((attempt name).run.run d).2
    (update name).run.run d =
      (.ok (), { e with world := { e.world with output := e.world.output ++ ("Update failed: " ++ text ++ "\n") } }) := by
  rw [update_eq, ExceptT.run_bind, StateT.run_bind, ← Prod.mk.eta (p := (attempt name).run.run d), told]
  rfl

theorem Dropped.stored_eq (whole : d.index.WellFormed) (dropped : Dropped name d.holding e.holding) :
    stored e = e.index := by
  obtain ⟨text, mode, written, file⟩ := dropped.file
  have edit : Edit name d.index e.index := .delete dropped.index
  have place : e.world.disk.item? indexPlace = some (.file (Text.encode text) mode) := file
  rw [Pkg.stored_eq, place, storedAt, indexOf_written (edit.wellFormed whole) written]
  rfl

/-- A depot with a package of which the network has a new version that cannot be installed: one of its files has no name. -/
def superseded : Depot where
  index := .obj [("p", .obj [("version", .str "1")])]
  world := {
    disk := [("packages", .folder [
      ("gpd_index.json", .file (Text.encode "\x7b\"p\": \x7b\"version\": \"1\"\x7d\x7d".toList) 0o644),
      ("p", .folder [("main.gy", .file (Text.encode "x=1".toList) 0o644)])])]
    remote := [("index.json", .page 200 "\x7b\"p\": \x7b\"version\": \"2\", \"files\": [\"main.gy\", 5]\x7d\x7d"),
      ("p/main.gy", .page 200 "x=2"), ("p/5", .page 200 "")] }

theorem fails_superseded : Fails "p" superseded .update := by
  refine ⟨"Installation failed: join() argument must be str, bytes, or os.PathLike object, not 'int'", ?_⟩
  decide +kernel

end LineScript.Pkg
