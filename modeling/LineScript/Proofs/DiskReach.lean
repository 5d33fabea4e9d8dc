
import LineScript.Proofs.DiskPlaces

/-!
# Where paths lead after a change

A path goes on leading to a file or a folder while things are only added to the disk (`Keeps`), and nothing is left at a
place that is deleted or below it (`Gone`). Where two disks differ at one place only, and neither has a folder there, no
other path can tell them apart.
-/

namespace LineScript.Disk

open List

variable {d e entries : Disk} {p : List Char} {place t done names front xs : List String} {n : Node} {x : String}
  {content : Text.Bytes} {i : Item}

/-- What is there stays there: files stay files, and folders stay folders. -/
def Keeps (d e : Disk) : Prop :=
  ∀ place i, item? d place = some i → ∃ i', item? e place = some i' ∧ (i' = .folder ↔ i = .folder)

theorem Keeps.refl (d : Disk) : Keeps d d := fun _ i there => ⟨i, there, Iff.rfl⟩

theorem Keeps.trans {f : Disk} (first : Keeps d e) (second : Keeps e f) : Keeps d f := by
  intro place i there
  obtain ⟨j, next, same⟩ := first place i there
  obtain ⟨k, last, same'⟩ := second place j next
  exact ⟨k, last, same'.trans same⟩

theorem Grown.keeps (grown : Grown d e) : Keeps d e := by
  intro place i there
  rcases grown place with same | ⟨none, -⟩
  · exact ⟨i, same.trans there, Iff.rfl⟩
  · rw [there] at none
    cases none

theorem item?_ne_folder_of_write (written : d.write p content = .ok e) (leads : Path.target p = some t) :
    item? d t ≠ some .folder := by
  intro folder
  obtain ⟨inner, there⟩ := item?_eq_folder.mp folder
  unfold write update at written
  split at written
  · cases written
  · split at written
    · rename_i place _ _ led
      obtain ⟨leads', found⟩ := place_taken led
      cases leads'.symm.trans leads
      rw [there] at found
      cases found
    · cases written
    · rename_i front x led
      obtain ⟨leads', entries, folder', new⟩ := place_free led
      cases leads'.symm.trans leads
      obtain ⟨entries', same, found⟩ := exists_folder_of_find? there
      rw [folder'] at same
      cases Option.some.inj same
      rw [new] at found
      cases found
    all_goals cases written

theorem keeps_write (written : d.write p content = .ok e) : Keeps d e := by
  obtain ⟨t, mode, leads, rest⟩ := item?_write written
  intro place i there
  by_cases h : place = t
  · subst h
    refine ⟨.file content mode, by simp [rest], ?_⟩
    constructor
    · intro impossible
      cases impossible
    · rintro rfl
      exact absurd there (item?_ne_folder_of_write written leads)
  · exact ⟨i, by simp [rest, h, there], Iff.rfl⟩

/-! ## Following a path again -/

theorem Keeps.find?_folder (keeps : Keeps d e) (found : d.find? place = some (.folder entries)) :
    ∃ entries', e.find? place = some (.folder entries') := by
  obtain ⟨i, there, same⟩ := keeps place .folder (item?_eq_folder.mpr ⟨entries, found⟩)
  obtain rfl := same.mpr rfl
  exact item?_eq_folder.mp there

theorem isSome_lookup_iff (found : d.find? front = some (.folder entries)) (x : String) :
    (entries.lookup x).isSome ↔ item? d (front ++ [x]) ≠ none := by
  rw [item?_append found, below?_folder, item?_cons, Table.find?]
  cases entries.lookup x <;> simp

def Place.at? : Place → Option (List String)
  | .taken place _ => some place
  | .free front x => some (front ++ [x])
  | _ => none

/-- A path leads to the same place on a disk that has the folders and the names on the way, if something is there. -/
theorem walk_again (led : (walk d done names).at? = some place)
    (folders : ∀ {front entries}, d.find? front = some (.folder entries) → ∃ entries', e.find? front = some (.folder entries'))
    (onWay : ∀ front xs, item? d front ≠ none → (walk d front xs).at? = some place → item? e front ≠ none)
    (there : item? e place = some i) : ∃ n, walk e done names = .taken place n ∧ n.item = i := by
  fun_induction walk d done names with
  | case1 done n' found =>
    cases led
    obtain ⟨n, found', item⟩ := Option.map_eq_some_iff.mp there
    exact ⟨n, by simp [walk, found'], item⟩
  | case3 done xs entries found ih =>
    obtain ⟨entries', found'⟩ := folders found
    simpa [walk, found'] using ih led
  | case5 done xs entries found inside _ ih =>
    obtain ⟨entries', found'⟩ := folders found
    have nonempty : done ≠ [] := by simpa using inside
    simpa [walk, found', nonempty] using ih led
  | case7 done x xs entries found here up short known ih =>
    obtain ⟨entries', found'⟩ := folders found
    have known' := (isSome_lookup_iff found' x).mpr (onWay _ xs ((isSome_lookup_iff found x).mp known) led)
    simpa [walk, found', here, up, short, known'] using ih led
  | case8 done x xs entries found here up short _ last =>
    cases led
    obtain rfl := isEmpty_iff.mp last
    obtain ⟨entries', found'⟩ := folders found
    have known : (entries'.lookup x).isSome := (isSome_lookup_iff found' x).mpr (by simp [there])
    obtain ⟨n, found, rfl⟩ := Option.map_eq_some_iff.mp there
    exact ⟨n, by simp [walk, found', here, up, short, known, found], rfl⟩
  | _ => cases led

/-- A path leads to what stays at its place or is put there. -/
theorem Keeps.place_eq (keeps : Keeps d e) (led : (d.place p).at? = some place) (there : item? e place = some i) :
    ∃ n, e.place p = .taken place n ∧ n.item = i := by
  unfold Disk.place at led ⊢
  split at led
  · cases led
  · rename_i nonempty
    rw [if_neg nonempty]
    split at led
    · refine walk_again led keeps.find?_folder (fun front xs there _ => ?_) there
      obtain ⟨i, found⟩ := Option.ne_none_iff_exists'.mp there
      obtain ⟨i', found', -⟩ := keeps front i found
      simp [found']
    · cases led

theorem Keeps.place_taken (keeps : Keeps d e) (led : d.place p = .taken place n) :
    ∃ n', e.place p = .taken place n' ∧ (n'.item = .folder ↔ n.item = .folder) := by
  obtain ⟨i, there, same⟩ := keeps place n.item (by simp [item?, (Disk.place_taken led).2])
  obtain ⟨n', led', rfl⟩ := keeps.place_eq (by rw [led]; rfl) there
  exact ⟨n', led', same⟩

/-! ## A path in two parts -/

theorem walk_append_taken (led : walk d done xs = .taken place n) (ys : List String) :
    walk d done (xs ++ ys) = walk d place ys := by
  fun_induction walk d done xs with
  | case1 done n' found =>
    obtain ⟨rfl, -⟩ := Place.taken.inj led
    rfl
  | case3 done xs entries found ih =>
    rw [cons_append, walk, found]
    simpa using ih led
  | case5 done xs entries found inside _ ih =>
    have nonempty : done ≠ [] := by simpa using inside
    rw [cons_append, walk, found]
    simpa [nonempty] using ih led
  | case7 done x xs entries found here up short known ih =>
    rw [cons_append, walk, found]
    simpa [here, up, short, known] using ih led
  | _ => cases led

/-- A path that leads on from some names leads to a folder by them. -/
theorem exists_walk_folder {ys : List String} {y : String} (led : walk d done (xs ++ y :: ys) = .taken place n) :
    ∃ front entries, walk d done xs = .taken front (.folder entries) := by
  fun_induction walk d done xs with
  | case1 done n' found =>
    cases n' with
    | folder entries => exact ⟨done, entries, rfl⟩
    | file content mode => simp [walk, found] at led
  | case3 done xs entries found ih => exact ih (by simpa [walk, found] using led)
  | case5 done xs entries found inside _ ih =>
    have nonempty : done ≠ [] := by simpa using inside
    exact ih (by simpa [walk, found, nonempty] using led)
  | case7 done x xs entries found here up short known ih =>
    exact ih (by simpa [walk, found, here, up, short, known] using led)
  | case8 done x xs entries found here up short unknown | case9 done x xs entries found here up short unknown =>
    simp [walk, found, here, up, short, unknown] at led
  | _ => simp_all [walk]

/-- A dot at the end of a path leads to a folder and no further. -/
theorem walk_dot (led : walk d [] (xs ++ ["."]) = .taken place n) :
    ∃ entries, n = .folder entries ∧ walk d [] xs = .taken place n := by
  obtain ⟨front, entries, folder⟩ := exists_walk_folder led
  have found := (walk_taken folder).1
  rw [walk_append_taken folder, walk, walk, found] at led
  obtain ⟨rfl, rfl⟩ := Place.taken.inj led
  exact ⟨entries, rfl, folder⟩

theorem exists_walk_name (found : d.find? place = some (.folder entries)) (here : x ≠ ".") (up : x ≠ "..")
    (short : x.utf8ByteSize ≤ maxName) (known : (entries.lookup x).isSome) :
    ∃ n, walk d place [x] = .taken (place ++ [x]) n := by
  have there : item? d (place ++ [x]) ≠ none := (isSome_lookup_iff found x).mp known
  obtain ⟨i, item⟩ := Option.ne_none_iff_exists'.mp there
  obtain ⟨n, inside, -⟩ := Option.map_eq_some_iff.mp item
  refine ⟨n, ?_⟩
  rw [walk, found]
  dsimp only
  rw [if_neg here, if_neg up, if_neg (Nat.not_lt.mpr short), if_pos known, walk, inside]

/-! ## What is there -/

theorem stat_eq_ok_iff : d.stat p = .ok n ↔ p.contains '\x00' = false ∧ ∃ place, d.place p = .taken place n := by
  unfold stat
  cases p.contains '\x00' <;> cases d.place p <;> simp

theorem read_of_write (written : d.write p content = .ok e) : e.read p = .ok content := by
  obtain ⟨t, mode, leads, changed⟩ := item?_write written
  have led : p.contains '\x00' = false ∧ (d.place p).at? = some t := by
    unfold write update at written
    split at written
    · cases written
    · rename_i clean
      refine ⟨by simpa using clean, ?_⟩
      split at written
      · rename_i led
        rw [led, ← leads, (place_taken led).1]
        rfl
      · cases written
      · rename_i led
        rw [led, ← leads, (place_free led).1]
        rfl
      all_goals cases written
  obtain ⟨n, again, item⟩ := (keeps_write written).place_eq led.2 ((changed t).trans (if_pos rfl))
  cases n with
  | folder entries => cases item
  | file bytes mode =>
    cases item
    rw [read, stat_eq_ok_iff.mpr ⟨led.1, t, again⟩]
    rfl

theorem exists_of_mem_list (listed : d.list p = .ok names) (member : x ∈ names) :
    p.contains '\x00' = false ∧ ∃ place entries, d.place p = .taken place (.folder entries) ∧ (entries.lookup x).isSome := by
  unfold list at listed
  cases there : d.stat p with
  | error f =>
    rw [there] at listed
    cases listed
  | ok n =>
    rw [there] at listed
    cases n with
    | file content mode => cases listed
    | folder entries =>
      obtain ⟨clean, place, led⟩ := stat_eq_ok_iff.mp there
      cases listed
      obtain ⟨entry, inside, rfl⟩ := mem_map.mp (mem_mergeSort.mp member)
      exact ⟨clean, place, entries, led, Table.contains_of_mem inside⟩

theorem isThere_iff : d.isThere p ↔ p.contains '\x00' = false ∧ ∃ place n, d.place p = .taken place n := by
  unfold isThere node?
  cases p.contains '\x00' <;> cases d.place p <;> simp

theorem isDir_iff : d.isDir p ↔ p.contains '\x00' = false ∧ ∃ place entries, d.place p = .taken place (.folder entries) := by
  unfold isDir node?
  cases p.contains '\x00' with
  | true => simp
  | false => rcases d.place p with ⟨place, _ | entries⟩ | _ | _ | _ | _ <;> simp

theorem isThere_of_isDir (there : d.isDir p) : d.isThere p := by
  obtain ⟨clean, place, entries, led⟩ := isDir_iff.mp there
  exact isThere_iff.mpr ⟨clean, place, _, led⟩

theorem Keeps.isThere (keeps : Keeps d e) (there : d.isThere p) : e.isThere p := by
  obtain ⟨clean, place, n, led⟩ := isThere_iff.mp there
  obtain ⟨n', led', -⟩ := keeps.place_taken led
  exact isThere_iff.mpr ⟨clean, place, n', led'⟩

theorem Keeps.isDir (keeps : Keeps d e) (there : d.isDir p) : e.isDir p := by
  obtain ⟨clean, place, entries, led⟩ := isDir_iff.mp there
  obtain ⟨n', led', same⟩ := keeps.place_taken led
  cases n' with
  | file content mode => cases same.mpr rfl
  | folder entries' => exact isDir_iff.mpr ⟨clean, place, entries', led'⟩

section

variable (bare : Text.trimRight Path.isSlash p = p)

include bare

theorem isDir_makeFolder (made : d.makeFolder p = .ok e) : e.isDir p := by
  have keeps : Keeps d e := (grown_makeFolder made).keeps
  obtain ⟨t, leads, -, rest⟩ := item?_makeFolder made
  rw [bare, ite_self] at leads
  unfold makeFolder at made
  split at made
  · cases made
  · rename_i clean
    dsimp only at made
    rw [bare, ite_self] at made
    split at made
    · cases made
    · rename_i front x led
      obtain ⟨leads', -⟩ := Disk.place_free led
      cases leads.symm.trans leads'
      obtain ⟨n, led', folder⟩ := keeps.place_eq (by rw [led]; rfl) ((rest _).trans (if_pos rfl))
      cases n with
      | file content mode => cases folder
      | folder entries => exact isDir_iff.mpr ⟨by simpa using clean, _, entries, led'⟩
    all_goals cases made

theorem isDir_makeLast {keep : Bool} (ended : (makeLast keep d p).2 = none) :
    (makeLast keep d p).1.isDir p := by
  rcases makeLast_cases keep d p with ⟨same, there⟩ | ⟨-, made⟩
  · rw [same]
    exact there ended
  · exact isDir_makeFolder bare made

theorem isDir_ensureFolders (named : (splitLast p).2 ≠ ['.'])
    (ended : (d.ensureFolders p).2 = none) : (d.ensureFolders p).1.isDir p := by
  unfold ensureFolders at ended ⊢
  rcases makeFoldersFrom_succ true p.length d p with last | ⟨-, -, last | ⟨-, dot⟩⟩
  · rw [last] at ended ⊢
    exact isDir_makeLast bare ended
  · rw [last] at ended ⊢
    exact isDir_makeLast bare ended
  · exact absurd (dot ended) named

theorem isDir_ensureFolder (named : (splitLast p).2 ≠ ['.'])
    (made : d.ensureFolder p = .ok e) : e.isDir p := by
  have there := isDir_ensureFolders (d := d) bare named
  rw [ensureFolder_eq_ok_iff.mp made] at there
  exact there rfl

end

/-! ## What is gone -/

def Gone (t : List String) (d : Disk) : Prop := ∀ place, t <+: place → item? d place = none

/-- Nothing is below a place at which nothing stands. -/
theorem gone_of_item?_eq_none (none : item? d t = none) : Gone t d := by
  rintro - ⟨back, rfl⟩
  cases back with
  | nil => rwa [append_nil]
  | cons x back =>
    cases found : d.find? (t ++ x :: back) with
    | none => rw [item?, found, Option.map_none]
    | some n =>
      obtain ⟨entries, folder, -⟩ := exists_folder_on_way found
      rw [item?_eq_folder.mpr ⟨entries, folder⟩] at none
      cases none

theorem gone_delete (d : Disk) (nonempty : t ≠ []) : Gone t (delete d t) := by
  rintro - ⟨back, rfl⟩
  induction t generalizing d with
  | nil => exact absurd rfl nonempty
  | cons x t ih =>
    rw [cons_append]
    cases t with
    | nil => rw [delete, item?_cons, Table.find?_erase_self, Option.bind_none]
    | cons y t =>
      rw [delete]
      · split
        · rename_i entries first
          rw [item?_cons, Table.find?_set_self]
          exact ih entries (by simp)
        · rename_i other
          -- nothing is below a file
          rw [item?_cons]
          rcases first : Table.find? d x with _ | (_ | entries)
          · rfl
          · rfl
          · exact absurd first (other entries)
      · simp

theorem exists_removeTree (there : d.isDir p) : ∃ e, d.removeTree p = .ok e := by
  obtain ⟨-, place, entries, led⟩ := isDir_iff.mp there
  unfold removeTree
  rw [led]
  exact ⟨_, rfl⟩

/-- A folder that is removed is gone, and nothing else is. -/
theorem gone_removeTree (removed : d.removeTree p = .ok e) (leads : Path.target p = some t) (nonempty : t ≠ []) :
    SameOutside t d e ∧ Gone t e := by
  unfold removeTree at removed
  split at removed
  · rename_i place _ led
    cases removed
    cases (place_taken led).1.symm.trans leads
    exact ⟨fun other apart => item?_delete d apart, gone_delete d nonempty⟩
  all_goals cases removed

/-! ## Disks that differ at one place -/

theorem SameOutside.symm (same : SameOutside t d e) : SameOutside t e d :=
  fun place apart => (same place apart).symm

/-- Nothing is below a place at which no folder stands. -/
theorem eq_of_prefix_of_item? (lone : item? d t ≠ some .folder) (there : item? d place ≠ none) (below : t <+: place) :
    place = t := by
  obtain ⟨back, rfl⟩ := below
  cases back with
  | nil => exact append_nil t
  | cons x back =>
    obtain ⟨i, found⟩ := Option.ne_none_iff_exists'.mp there
    obtain ⟨n, found, -⟩ := Option.map_eq_some_iff.mp found
    obtain ⟨entries, folder, -⟩ := exists_folder_on_way found
    exact absurd (item?_eq_folder.mpr ⟨entries, folder⟩) lone

/-- From a place at which no folder stands no path leads on. -/
theorem eq_of_walk (lone : item? d t ≠ some .folder) (led : (walk d t names).at? = some place) : place = t := by
  cases names with
  | nil =>
    rw [walk] at led
    split at led
    · exact (Option.some.inj led).symm
    · cases led
  | cons x names =>
    rw [walk] at led
    split at led
    · rename_i entries found
      exact absurd (item?_eq_folder.mpr ⟨entries, found⟩) lone
    all_goals cases led

theorem SameOutside.walk_taken (same : SameOutside t d e) (lone : item? d t ≠ some .folder)
    (led : walk d done names = .taken place n) (apart : place ≠ t) :
    ∃ n', walk e done names = .taken place n' ∧ n'.item = n.item := by
  have outside {front : List String} (there : item? d front ≠ none) (other : front ≠ t) : item? e front = item? d front :=
    same front fun below => other (eq_of_prefix_of_item? lone there below)
  have there : item? d place = some n.item := by rw [item?, (Disk.walk_taken led).1, Option.map_some]
  refine walk_again (by rw [led]; rfl) (fun {front entries} found => ?_) (fun front xs there led => ?_)
    ((outside (by simp [there]) apart).trans there)
  · -- a folder is not at the place, and so it is on both disks
    have folder := item?_eq_folder.mpr ⟨entries, found⟩
    refine item?_eq_folder.mp ((outside (by simp [folder]) ?_).trans folder)
    rintro rfl
    exact lone folder
  · rw [outside there]
    · exact there
    · rintro rfl
      exact apart (eq_of_walk lone led)

end LineScript.Disk
