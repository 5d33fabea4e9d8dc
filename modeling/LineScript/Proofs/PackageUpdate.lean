
import LineScript.Proofs.PackageRecord

/-!
# Updating again

An update that succeeds leaves the version of the network in the index, in memory and on the disk, whatever files could not be
had on the way. So a check finds the package up to date, and a second update asks for the index on the network and does
nothing else.
-/

namespace LineScript

open List

theorem Json.setField_setField {j k a : Json} {x : String} (first : j.setField x a = .ok k) (b : Json) :
    k.setField x b = j.setField x b := by
  cases j with
  | obj fields =>
    cases first
    exact congrArg (Except.ok ∘ obj) (Table.set_set fields x a b)
  | _ => cases first

namespace Pkg

variable {entry index : Json} {version name : String} {d : Depot}

/-! ## The last word of an update -/

/-- What an update comes to. -/
inductive Ending where
  /-- There is nothing to install, and why has been told. -/
  | unneeded
  | updated
  | failed (text : String)
  deriving DecidableEq

/-- An update up to its last word. -/
def ending (name : String) : Pkg Ending := do
  match ← newVersion name with
  | none => return .unneeded
  | some (remote, version) =>
    withdraw name
    recover (do
      install name
      enterVersion name remote version
      return .updated) fun
      | .package text => return .failed text
      | f => fail f

def conclude (name : String) : Ending → Pkg Unit
  | .unneeded => return ()
  | .updated => Act.say ("'" ++ name ++ "' updated successfully.")
  | .failed text => Act.say ("Update failed: " ++ text)

/-- The last word can be said after faults have been handled: saying it is no fault. -/
theorem tryReinstall_bind_report (name : String) (remote version : Json) :
    tryReinstall name remote version >>= report =
      recover (do
        install name
        enterVersion name remote version
        return .updated) (fun
        | .package text => return .failed text
        | f => fail f) >>= conclude name := by
  have both : reinstall name remote version =
      (install name >>= fun _ => enterVersion name remote version) >>= fun _ => conclude name .updated := by
    rw [bind_assoc]
    rfl
  unfold tryReinstall
  rw [both, ← bind_assoc (install name)]
  generalize (install name >>= fun _ => enterVersion name remote version) = x
  refine ExceptT.ext (StateT.ext fun d => ?_)
  unfold recover
  simp only [ExceptT.run_bind, ExceptT.run_tryCatch, StateT.run_bind]
  rcases StateT.run (ExceptT.run x) d with ⟨(f | _ | _ | _) | a, t⟩
  · cases f <;> rfl
  all_goals rfl

theorem update_eq_ending (name : String) : update name = ending name >>= conclude name := by
  rw [update_eq]
  unfold attempt ending
  rw [bind_assoc, bind_assoc]
  refine bind_congr fun found => ?_
  rcases found with _ | ⟨remote, version⟩
  · rfl
  · rw [bind_assoc, bind_assoc]
    exact bind_congr fun _ => tryReinstall_bind_report name remote version

theorem run_update_updated (updated : ((ending name).run.run d).1 = .ok .updated) :
    (update name).run.run d = (conclude name .updated).run.run ((ending name).run.run d).2 := by
  rw [update_eq_ending, ExceptT.run_bind, StateT.run_bind]
  rcases ran : (ending name).run.run d with ⟨r, e⟩
  rw [ran] at updated
  obtain rfl := updated
  rfl

/-! ## Versions -/

def versionOf? (entry : Json) : Option String :=
  match entry.get? "version" with
  | .ok (some (.str version)) => some version
  | _ => none

def versionIn? (index : Json) (name : String) : Option String :=
  match index.get? name with
  | .ok (some entry) => versionOf? entry
  | _ => none

def Versioned (index : Json) : Prop := ∃ fields, index = .obj fields ∧ ∀ f ∈ fields, (versionOf? f.2).isSome

theorem versionOf?_eq_some_iff : versionOf? entry = some version ↔ entry.get? "version" = .ok (some (.str version)) := by
  unfold versionOf?
  constructor
  · intro found
    split at found
    · rename_i known
      rw [known, Option.some.inj found]
    · cases found
  · intro known
    rw [known]

theorem versionOf?_of_setField {entry' : Json} (changed : entry.setField "version" (.str version) = .ok entry') :
    versionOf? entry' = some version := by
  apply versionOf?_eq_some_iff.mpr
  cases entry with
  | obj fields =>
    cases changed
    exact congrArg Except.ok (Table.find?_set_self fields "version" (.str version))
  | _ => cases changed

theorem versionIn?_of_need {fields : Table Json} (object : index = .obj fields) (found : index.need name = .ok entry) :
    versionIn? index name = versionOf? entry := by
  subst object
  have there : fields.lookup name = some entry := by
    simp only [Json.need] at found
    split at found
    · rename_i value there
      rw [there, Except.ok.inj found]
    · cases found
  simp only [versionIn?, Json.get?, there]

namespace Versioned

theorem setField {j k entry : Json} {name : String} (versioned : Versioned j) (part : (versionOf? entry).isSome)
    (changed : j.setField name entry = .ok k) : Versioned k := by
  obtain ⟨fields, rfl, each⟩ := versioned
  refine ⟨_, (Except.ok.inj changed).symm, fun f member => ?_⟩
  rcases Table.mem_set member with rfl | old
  · exact part
  · exact each f old

theorem deleteField {j k : Json} {name : String} (versioned : Versioned j) (changed : j.deleteField name = .ok k) :
    Versioned k := by
  obtain ⟨fields, rfl, each⟩ := versioned
  simp only [Json.deleteField] at changed
  split at changed
  · exact ⟨_, (Except.ok.inj changed).symm, fun f member => each f (mem_filter.mp member).1⟩
  · cases changed

theorem remoteVersion_eq {remote : Json} (versioned : Versioned remote) (name : String) :
    remoteVersion remote name = .ok ((versionIn? remote name).map .str) := by
  obtain ⟨fields, rfl, each⟩ := versioned
  cases found : fields.lookup name with
  | none => simp [remoteVersion, versionIn?, Json.get?, found, bind, Except.bind, pure, Except.pure]
  | some entry =>
    obtain ⟨version, known⟩ := Option.isSome_iff_exists.mp (each _ (Table.mem_of_find? found))
    have text := versionOf?_eq_some_iff.mp known
    have there : (Json.obj fields).get? name = .ok (some entry) := congrArg Except.ok found
    unfold remoteVersion versionIn?
    rw [there]
    change (entry.get? "version" >>= _) = Except.ok ((versionOf? entry).map Json.str)
    rw [text, known]
    rfl

end Versioned

theorem localVersion_eq (known : versionOf? entry = some version) : localVersion entry = .ok (.str version) := by
  unfold localVersion
  rw [versionOf?_eq_some_iff.mp known]
  rfl

/-! ## A successful update -/

section

variable {name : String} {d : Depot}

theorem leads_withdraw_deleted (name : String) (d : Depot) (named : d.index.hasName name = .ok true) :
    Leads (withdraw name) d (fun _ e => d.index.deleteField name = .ok e.index ∧ e.world.remote = d.world.remote)
      (ByFault fun _ => True) := by
  have cleared : Leads (act (clearFolder (packageFolder name))) d (fun _ e => SameIndex d e) (ByFault fun _ => True) := by
    refine Pkg.leads_act ((leads_clearFolder _ _).mono ?_ fun _ _ => .mono fun _ => trivial)
    rintro - v (⟨-, rfl⟩ | ⟨disk, -, rfl⟩)
    all_goals exact ⟨rfl, rfl⟩
  refine cleared.andThen fun _ c same => .bind (.get (.bind ?_))
  refine leads_check_ok (same.index ▸ named) (.bind (leads_check trivial fun index deleted => ?_))
  refine .bind (.modify (leads_keep fun e kept => ⟨?_, kept.remote.trans same.remote⟩))
  rw [kept.memory, ← same.index]
  exact deleted

theorem leads_enterVersion_kept (name : String) (remote version : Json) (d : Depot) :
    Leads (enterVersion name remote version) d
      (fun _ e => ∃ data entry entry' index version', remote.need name = .ok data ∧ data.get? "version" = .ok version' ∧
        d.index.need name = .ok entry ∧ entry.setField "version" (version'.getD version) = .ok entry' ∧
        d.index.setField name entry' = .ok index ∧ Kept d index e) (ByFault fun _ => True) := by
  refine .bind (leads_check trivial fun data dataOf => .bind (leads_check trivial fun version' versionOf => ?_))
  refine .bind (.get (.bind (leads_check trivial fun entry' found => .bind (leads_check trivial fun index changed => ?_))))
  obtain ⟨entry, entryOf, entered⟩ := Json.exists_of_bind_eq_ok found
  exact .bind (.modify (leads_keep fun e kept =>
    ⟨data, entry, entry', index, version', dataOf, versionOf, entryOf, entered, changed, kept⟩))

/-- A package has been updated to the version that the network offers. -/
structure Updated (name : String) (d e : Depot) (index : Json) (version : String) : Prop where
  offer : offered? d.world.remote = some index
  offered : versionIn? index name = some version
  remote : e.world.remote = d.world.remote
  versioned : Versioned e.index
  memory : versionIn? e.index name = some version
  disk : d.index.WellFormed → stored e = e.index

theorem leads_ending_updated (versioned : Versioned d.index)
    (versioned' : ∀ index, offered? d.world.remote = some index → Versioned index) :
    Leads (ending name) d (fun ended e => ended = .updated → ∃ index version, Updated name d e index version)
      (ByFault fun _ => True) := by
  refine .bind ((leads_newVersion name d).mono (fun found a h => ?_) fun _ _ => .mono fun _ => trivial)
  rcases found with _ | ⟨remote, offeredVersion⟩
  · exact .pure nofun
  obtain ⟨undone, told⟩ := h
  obtain ⟨named, offer, versionOf⟩ := told remote offeredVersion rfl
  have index : a.index = d.index := congrArg Holding.index (undone.holding_eq fun _ _ => id)
  rw [(versioned' remote offer).remoteVersion_eq] at versionOf
  obtain ⟨version, offered, rfl⟩ := Option.map_eq_some_iff.mp (Except.ok.inj versionOf)
  refine (leads_withdraw_deleted name a (index ▸ named)).andThen fun _ b h => ?_
  obtain ⟨deleted, sameRemote⟩ := h
  rw [index] at deleted
  refine leads_recover (.bind ?_) fun f e (_ : True) => ?_
  case refine_2 =>
    cases f with
    | package text => exact .pure nofun
    | _ => exact leads_fail trivial
  refine (leads_install_recorded (Json.hasName_of_deleteField deleted)).imp fun _ c recorded => .bind ?_
  refine (leads_enterVersion_kept _ _ _ c).imp fun _ e entered => .pure fun _ => ?_
  obtain ⟨data, entry, entry', last, version', dataOf, versionOf', entryOf, changed, set, kept⟩ := entered
  -- the version that is entered is the one that was offered, whatever was installed
  obtain rfl : version' = some (.str version) := by
    obtain ⟨fields, object, -⟩ := versioned' remote offer
    rw [versionIn?_of_need object dataOf] at offered
    exact Except.ok.inj (versionOf'.symm.trans (versionOf?_eq_some_iff.mp offered))
  have memory : versionOf? entry' = some version := versionOf?_of_setField changed
  have formed (whole : d.index.WellFormed) : last.WellFormed := by
    have before := recorded.wellFormed (whole.deleteField deleted)
    exact before.setField ((before.need entryOf).setField (.str version) changed) set
  obtain ⟨-, -, -, -, -, same, first, kept', -, -⟩ := recorded
  have versioned : Versioned last := by
    rw [kept'.memory, Json.setField_setField first] at set
    exact (versioned.deleteField deleted).setField (by rw [memory]; rfl) set
  obtain ⟨fields, object, -⟩ := id versioned
  refine ⟨remote, version, offer, offered, ?_, kept.memory ▸ versioned, ?_, fun whole => ?_⟩
  · rw [kept.remote, kept'.remote, same.remote, sameRemote, undone.remote]
  · rw [kept.memory, versionIn?_of_need object (Json.need_of_setField set), memory]
  · rw [kept.stored_eq (formed whole), kept.memory]

end

/-! ## Asking again -/

/-- A depot after the index on the network has been asked for and lines have been shown. -/
def toldOf (lines : List String) (d : Depot) : Depot :=
  { d with world := { d.world with
      store := d.world.store.emit (.http "index.json")
      output := lines.foldl (fun shown line => shown ++ (line ++ "\n")) d.world.output } }

theorem leads_tryFetchIndex {post : Option Json → Depot → Prop} {stop : Stop → Depot → Prop}
    (offer : offered? d.world.remote = some index) (go : post (some index) (toldOf [] d)) :
    Leads (act tryFetchIndex) d post stop := by
  have asked_eq : asked "index.json".toList d.world = (toldOf [] d).world := by
    unfold asked
    rw [key_index]
    rfl
  rw [offered?_eq] at offer
  refine Pkg.leads_act (.tryCatch (.bind (.tryCatch (.bind ((leads_page _ d.world).mono ?_ ?_)))))
  · rintro body - ⟨rfl, there⟩
    have read : readReply body = .ok index := by
      rw [there] at offer
      unfold readReply
      cases text : Json.ofText body.toList with
      | error f => simp [text, Except.toOption] at offer
      | ok j => simpa [text, Except.toOption] using offer
    rw [asked_eq]
    refine Act.leads_check (fun j same => ?_) fun f failed => by cases read.symm.trans failed
    cases read.symm.trans same
    exact .pure go
  · rintro - - ⟨-, none, -⟩
    rw [none] at offer
    cases offer

/-- What is told of a package, by its version and the one that the network has. -/
def statusLine (name current : String) : Option String → String
  | none => name ++ ": Not found in remote repository"
  | some version =>
    if version = current then name ++ ": " ++ current ++ " (Up to date)"
    else name ++ ": " ++ current ++ " -> " ++ version ++ " (Update available)"

theorem toldOf_concat (lines : List String) (line : String) (d : Depot) :
    toldOf (lines ++ [line]) d =
      { toldOf lines d with world := { (toldOf lines d).world with
          output := (toldOf lines d).world.output ++ (line ++ "\n") } } := by
  simp [toldOf]

section

variable {remote : Json} (versioned : Versioned remote)

include versioned

theorem leads_checkOne {current : String} (known : versionOf? entry = some current) (name : String)
    (lines : List String) (d : Depot) : Leads (act (checkOne remote name entry)) (toldOf lines d)
      (fun _ e => e = toldOf (lines ++ [statusLine name current (versionIn? remote name)]) d) fun _ _ => False := by
  refine Pkg.leads_act (.bind (Act.leads_check (fun v same => ?_) fun f failed => ?_))
  case refine_2 => cases (localVersion_eq known).symm.trans failed
  cases (localVersion_eq known).symm.trans same
  have offered := versioned.remoteVersion_eq name
  refine .bind (Act.leads_check (fun version same => ?_) fun f failed => by cases offered.symm.trans failed)
  cases offered.symm.trans same
  have said (line : String) : (toldOf lines d).world.output ++ (line ++ "\n") = (toldOf (lines ++ [line]) d).world.output := by
    rw [toldOf_concat]
  cases versionIn? remote name with
  | none => exact .bind (.modify (.pure (by rw [said]; rfl)))
  | some version =>
    refine .bind (.pure ?_)
    unfold statusLine
    dsimp only
    by_cases latest : version = current
    · rw [if_pos latest, if_pos (by simpa [Json.beq] using latest)]
      exact .bind (.modify (.pure (by rw [said]; rfl)))
    · rw [if_neg latest, if_neg (by simpa [Json.beq] using latest)]
      exact .bind (.pure (.bind (.modify (.pure (by rw [said]; rfl)))))

/-- A check tells of each package, in order. -/
theorem leads_mapM_checkOne {entries : List (String × Json)} (each : ∀ f ∈ entries, (versionOf? f.2).isSome)
    (before : List String) (d : Depot) : Leads (entries.mapM fun f => act (checkOne remote f.1 f.2)) (toldOf before d)
      (fun _ e => ∃ lines, e = toldOf (before ++ lines) d ∧ ∀ f ∈ entries, ∀ current, versionOf? f.2 = some current →
        statusLine f.1 current (versionIn? remote f.1) ∈ lines) fun _ _ => False := by
  induction entries generalizing before with
  | nil => exact .pure ⟨[], by rw [append_nil], fun _ none => absurd none not_mem_nil⟩
  | cons f entries ih =>
    rw [mapM_cons]
    obtain ⟨current, known⟩ := Option.isSome_iff_exists.mp (each f mem_cons_self)
    refine (leads_checkOne versioned known f.1 before d).andThen ?_
    rintro found - rfl
    refine (ih (fun g member => each g (mem_cons_of_mem f member)) _).andThen ?_
    rintro others - ⟨lines, rfl, all⟩
    refine .pure ⟨_ :: lines, by rw [append_assoc]; rfl, fun g member current' known' => ?_⟩
    rcases mem_cons.mp member with rfl | member
    · cases known.symm.trans known'
      exact mem_cons_self
    · exact mem_cons_of_mem _ (all g member current' known')

end

section

variable {name version : String} {index : Json} {e : Depot} (offer : offered? e.world.remote = some index)
  (versioned : Versioned index) (offered : versionIn? index name = some version) (known : Versioned e.index)
  (memory : versionIn? e.index name = some version)

include offer versioned offered known memory

omit offer versioned offered in
theorem exists_entry : ∃ fields entry, e.index = .obj fields ∧ (∀ f ∈ fields, (versionOf? f.2).isSome) ∧
    (name, entry) ∈ fields ∧ e.index.need name = .ok entry ∧ e.index.hasName name = .ok true ∧
    versionOf? entry = some version := by
  obtain ⟨fields, object, each⟩ := known
  rw [object] at memory ⊢
  cases found : fields.lookup name with
  | none => simp [versionIn?, Json.get?, found] at memory
  | some entry =>
    refine ⟨fields, entry, rfl, each, Table.mem_of_find? found, ?_, ?_, ?_⟩
    · simp [Json.need, found]
    · simp [Json.hasName, found]
    · simpa [versionIn?, Json.get?, found] using memory

/-- A check finds a package up to date that has the version of the network. -/
theorem exists_run_checkUpdates : ∃ lines, checkUpdates.run.run e = (.ok (), toldOf lines e) ∧
    name ++ ": " ++ version ++ " (Up to date)" ∈ lines := by
  obtain ⟨fields, entry, object, each, member, -, -, entryVersion⟩ := exists_entry known memory
  have line : statusLine name version (versionIn? index name) = name ++ ": " ++ version ++ " (Up to date)" := by
    rw [offered]
    exact if_pos rfl
  have ran : Leads checkUpdates e (fun _ t => ∃ lines, t = toldOf lines e ∧ statusLine name version (versionIn? index name) ∈ lines)
      fun _ _ => False := by
    have items : (toldOf [] e).index.fields "items" = .ok fields := congrArg (Json.fields · "items") object
    refine .bind (leads_tryFetchIndex offer (.bind (.get (.bind (leads_check_ok items (.bind ?_))))))
    refine (leads_mapM_checkOne versioned each [] e).imp ?_
    rintro found - ⟨lines, rfl, all⟩
    have here := all _ member _ entryVersion
    split
    · exact leads_say ⟨lines ++ ["All packages are up to date."], (toldOf_concat lines _ e).symm, mem_append_left _ here⟩
    · exact .pure ⟨lines, rfl, here⟩
  obtain ⟨_, _, ended, lines, rfl, here⟩ := ran.exists_run
  exact ⟨lines, ended, line ▸ here⟩

/-- An update of a package that has the version of the network tells so. -/
theorem run_update_latest : (update name).run.run e = (.ok (), toldOf ["'" ++ name ++ "' is already up to date."] e) := by
  obtain ⟨fields, entry, -, -, -, found, named, entryVersion⟩ := exists_entry known memory
  have ran : Leads (update name) e (fun _ t => t = toldOf ["'" ++ name ++ "' is already up to date."] e) fun _ _ => False := by
    refine .bind (.get (.bind (leads_check_ok named ?_)))
    refine .bind (leads_tryFetchIndex offer (.bind (.get (.bind (leads_check_ok found ?_)))))
    refine .bind (leads_check_ok (localVersion_eq entryVersion) (.bind (leads_check_ok (versioned.remoteVersion_eq name) ?_)))
    rw [offered]
    dsimp only [Option.map_some]
    rw [if_pos (by simp [Json.beq])]
    exact leads_say rfl
  obtain ⟨_, _, ended, rfl⟩ := ran.exists_run
  exact ended

end

/-- **An update that succeeds leaves nothing to update** (`update_eq_ending`). The version is that of the network, in memory and
for a new depot; a check tells so, and a second update changes nothing. -/
theorem update_settles {name : String} {d : Depot} (versioned : Versioned d.index)
    (versioned' : ∀ index, offered? d.world.remote = some index → Versioned index)
    (updated : ((ending name).run.run d).1 = .ok .updated) :
    let c := ((ending name).run.run d).2
    let e := ((update name).run.run d).2
    (update name).run.run d = (.ok (), { c with world := { c.world with
      output := c.world.output ++ ("'" ++ name ++ "' updated successfully." ++ "\n") } }) ∧
      ∃ index version, offered? d.world.remote = some index ∧ versionIn? index name = some version ∧
        versionIn? e.index name = some version ∧ (d.index.WellFormed → versionIn? (stored e) name = some version) ∧
        (∃ lines, checkUpdates.run.run e = (.ok (), toldOf lines e) ∧
          name ++ ": " ++ version ++ " (Up to date)" ∈ lines) ∧
        (update name).run.run e = (.ok (), toldOf ["'" ++ name ++ "' is already up to date."] e) := by
  obtain ⟨index, version, done⟩ := (leads_ending_updated versioned versioned').1 _ updated rfl
  have ran := run_update_updated updated
  have offer := done.remote ▸ done.offer
  have known := versioned' index done.offer
  dsimp only
  rw [ran]
  refine ⟨rfl, index, version, done.offer, done.offered, done.memory, fun whole => ?_, ?_, ?_⟩
  · rw [stored_eq, ← done.memory, ← done.disk whole, stored_eq]
    rfl
  · exact exists_run_checkUpdates offer known done.offered done.versioned done.memory
  · exact run_update_latest offer known done.offered done.versioned done.memory

/-- A depot in which an old version of a package is installed. -/
def behind : Depot where
  index := .obj [("p", .obj [("version", .str "1")])]
  world := offering.world

theorem update_settles_behind :
    let e := ((update "p").run.run behind).2
    versionIn? e.index "p" = some "2" ∧ versionIn? (stored e) "p" = some "2" ∧
      (update "p").run.run e = (.ok (), toldOf ["'p' is already up to date."] e) := by
  have whole : behind.index.WellFormed := by
    refine .obj (nodup_singleton _) fun f member => ?_
    rw [mem_singleton.mp member]
    refine .obj (nodup_singleton _) fun g member => ?_
    rw [mem_singleton.mp member]
    exact .str "1"
  have versioned : Versioned behind.index := by
    refine ⟨_, rfl, fun f member => ?_⟩
    rw [mem_singleton.mp member]
    rfl
  have offer : offered? behind.world.remote = some (.obj [("p", .obj [("version", .str "2"),
      ("files", .arr [.str "main.gy", .str "sub/b.gy", .str "gone.gy", .str "main.gy"])])]) := by rfl
  have versioned' (index : Json) (same : offered? behind.world.remote = some index) : Versioned index := by
    cases offer.symm.trans same
    refine ⟨_, rfl, fun f member => ?_⟩
    rw [mem_singleton.mp member]
    rfl
  have updated : ((ending "p").run.run behind).1 = .ok .updated := by
    have done : ((ending "p").run.run behind).1.toOption = some .updated := by decide +kernel
    cases ended : ((ending "p").run.run behind).1 with
    | ok ended' => simpa [ended, Except.toOption] using done
    | error reason => simp [ended, Except.toOption] at done
  obtain ⟨-, index, version, same, offered, memory, disk, -, again⟩ := update_settles versioned versioned' updated
  cases offer.symm.trans same
  obtain rfl : "2" = version := Option.some.inj offered
  exact ⟨memory, disk whole, again⟩

end Pkg

end LineScript
