
import LineScript.Disk.Access

/-!
# What stands where on the disk

`item? d place` looks at one place of a disk: a file with all its bytes, a folder whatever it holds, or nothing. Each
operation on the disk is told by what it does to this view: a file is written at the place of its path only (`item?_write`),
making folders changes no file (`grown_ensureFolder`), and what is deleted is below one place (`SameOutside`).
-/

namespace LineScript

open List

/-- Where a path leads, from the folder of the program on; none for a path that leads elsewhere. -/
def Path.target (p : List Char) : Option (List String) := (Path.local? p).map (·.foldl Path.normalStep [])

inductive Item where
  | file (content : Text.Bytes) (mode : Nat)
  | folder
  deriving DecidableEq

def Node.item : Node → Item
  | .file content mode => .file content mode
  | .folder _ => .folder

namespace Disk

variable {d e entries : Disk} {p : List Char} {n : Node} {x : String} {front place done xs names t : List String}
  {f : Text.Bytes → Text.Bytes} {keep : Bool} {mode : Nat}

def item? (d : Disk) (place : List String) : Option Item := (d.find? place).map Node.item

def file? (d : Disk) (place : List String) : Option (Text.Bytes × Nat) :=
  match item? d place with
  | some (.file content mode) => some (content, mode)
  | _ => none

theorem file?_congr (same : item? e place = item? d place) : file? e place = file? d place := by
  unfold file?
  rw [same]

/-! ## Places below a node -/

def below? (n : Node) (place : List String) : Option Item :=
  match n, place with
  | n, [] => some n.item
  | .folder entries, place => item? entries place
  | .file _ _, _ => none

@[simp] theorem item?_nil (d : Disk) : item? d [] = some .folder := rfl

@[simp] theorem below?_nil (n : Node) : below? n [] = some n.item := by
  cases n <;> rfl

@[simp] theorem below?_folder (entries : Disk) (place : List String) : below? (.folder entries) place = item? entries place := by
  cases place <;> rfl

@[simp] theorem below?_file (content : Text.Bytes) (mode : Nat) (x : String) (place : List String) :
    below? (.file content mode) (x :: place) = none := rfl

theorem find?_singleton (d : Disk) (x : String) : d.find? [x] = Table.find? d x := by
  unfold find? Table.find?
  cases d.lookup x <;> rfl

theorem find?_cons_cons (d : Disk) (x y : String) (place : List String) :
    d.find? (x :: y :: place) =
      (Table.find? d x).bind fun n => match n with
        | .folder entries => find? entries (y :: place)
        | .file _ _ => none := by
  unfold Table.find?
  conv => lhs; unfold find?
  rcases d.lookup x with _ | (_ | entries) <;> rfl

theorem item?_cons (d : Disk) (x : String) (place : List String) :
    item? d (x :: place) = (Table.find? d x).bind (below? · place) := by
  unfold item?
  cases place with
  | nil =>
    rw [find?_singleton]
    cases Table.find? d x <;> simp
  | cons y place =>
    rw [find?_cons_cons]
    rcases Table.find? d x with _ | (_ | entries)
    · rfl
    · rfl
    · rfl

/-- A folder on the way to a place is the first step and leads on. -/
theorem exists_of_find?_cons (found : d.find? (x :: place) = some n) : place = [] ∧ Table.find? d x = some n ∨
      ∃ entries : Disk, Table.find? d x = some (.folder entries) ∧ entries.find? place = some n := by
  cases place with
  | nil =>
    rw [find?_singleton] at found
    exact .inl ⟨rfl, found⟩
  | cons y place =>
    rw [find?_cons_cons] at found
    rcases first : Table.find? d x with _ | (_ | entries)
    · simp [first] at found
    · simp [first] at found
    · simp only [first] at found
      exact .inr ⟨entries, rfl, found⟩

theorem item?_append (found : d.find? front = some n) (back : List String) : item? d (front ++ back) = below? n back := by
  induction front generalizing d with
  | nil =>
    cases found
    rw [below?_folder]
    rfl
  | cons x front ih =>
    rw [cons_append, item?_cons]
    rcases exists_of_find?_cons found with ⟨rfl, first⟩ | ⟨entries, first, rest⟩
    · simp [first]
    · simpa [first] using ih rest

theorem item?_eq_folder : item? d place = some .folder ↔ ∃ entries, d.find? place = some (.folder entries) := by
  unfold item?
  rcases d.find? place with _ | (_ | entries) <;> simp [Node.item]

/-- What is on the way to a place is a folder, and leads on. -/
theorem exists_folder_on_way {back : List String} (found : d.find? (front ++ x :: back) = some n) :
    ∃ entries : Disk, d.find? front = some (.folder entries) ∧ entries.find? (x :: back) = some n := by
  induction front generalizing d with
  | nil => exact ⟨d, rfl, found⟩
  | cons y front ih =>
    rcases exists_of_find?_cons found with ⟨short, -⟩ | ⟨entries, first, rest⟩
    · simp at short
    · obtain ⟨inner, atFront, last⟩ := ih rest
      refine ⟨inner, ?_, last⟩
      cases front with
      | nil =>
        cases Option.some.inj atFront
        rw [find?_singleton, first]
      | cons z front =>
        rw [find?_cons_cons, first]
        exact atFront

theorem exists_folder_of_find? (found : d.find? (front ++ [x]) = some n) :
    ∃ entries : Disk, d.find? front = some (.folder entries) ∧ Table.find? entries x = some n := by
  obtain ⟨entries, folder, there⟩ := exists_folder_on_way found
  exact ⟨entries, folder, find?_singleton entries x ▸ there⟩

/-! ## Putting and deleting -/

theorem put_cons_append (d : Disk) (n : Node) (y : String) (front : List String) (x : String) :
    put d n (y :: (front ++ [x])) =
      match Table.find? d y with
      | some (.folder entries) => Table.set d y (.folder (put entries n (front ++ [x])))
      | _ => d := by
  cases front <;> rfl

/-- In a folder that is there, putting a file or a folder changes what stands at its place and below. -/
theorem item?_put (found : d.find? front = some (.folder entries)) (n : Node) (x : String) (place : List String) :
    item? (put d n (front ++ [x])) place =
      if front ++ [x] <+: place then below? n (place.drop (front.length + 1)) else item? d place := by
  induction front generalizing d place with
  | nil =>
    cases place with
    | nil => simp
    | cons y place =>
      rw [nil_append, put, item?_cons, item?_cons]
      by_cases h : x = y
      · subst h
        simp
      · simp [Table.find?_set_of_ne d h, h]
  | cons z front ih =>
    rw [cons_append, put_cons_append]
    obtain ⟨inner, first, rest⟩ : ∃ inner : Disk, Table.find? d z = some (.folder inner) ∧
        inner.find? front = some (.folder entries) := by
      rcases exists_of_find?_cons found with ⟨rfl, first⟩ | inside
      · exact ⟨entries, first, rfl⟩
      · exact inside
    rw [first]
    cases place with
    | nil => simp
    | cons y place =>
      rw [item?_cons, item?_cons]
      by_cases h : z = y
      · subst h
        simp [ih rest place, first]
      · simp [Table.find?_set_of_ne d h, h]

/-- Deleting leaves alone what is not below the place. -/
theorem item?_delete (d : Disk) {other : List String} (apart : ¬ place <+: other) :
    item? (delete d place) other = item? d other := by
  induction place generalizing d other with
  | nil => exact absurd (List.nil_prefix) apart
  | cons x place ih =>
    cases other with
    | nil => simp
    | cons y other =>
      cases place with
      | nil =>
        have differ : x ≠ y := by
          rintro rfl
          exact apart (by simp)
        rw [delete, item?_cons, item?_cons, Table.find?_erase_of_ne d differ]
      | cons z place =>
        rw [delete]
        · split
          · rename_i entries first
            have found : Table.find? d x = some (.folder entries) := first
            rw [item?_cons, item?_cons]
            by_cases h : x = y
            · subst h
              rw [found]
              have elsewhere : ¬ z :: place <+: other := fun h => apart (by simpa using h)
              have inside := ih entries elsewhere
              simpa using inside
            · rw [Table.find?_set_of_ne d h]
          · rfl
        · simp

/-! ## Following a path -/

theorem walk_taken (led : walk d done names = .taken place n) :
    d.find? place = some n ∧ place = names.foldl Path.normalStep done := by
  fun_induction walk d done names with
  | case1 done n' found =>
    obtain ⟨rfl, rfl⟩ := Place.taken.inj led
    exact ⟨found, rfl⟩
  | case3 done xs _ _ ih | case5 done xs _ _ _ _ ih => simpa [Path.normalStep] using ih led
  | case7 done x xs _ _ here up _ _ ih => simpa [Path.normalStep, here, up] using ih led
  | _ => cases led

theorem walk_free (led : walk d done names = .free front x) :
    (∃ entries : Disk, d.find? front = some (.folder entries) ∧ Table.find? entries x = none) ∧
      front ++ [x] = names.foldl Path.normalStep done := by
  fun_induction walk d done names with
  | case3 done xs _ _ ih | case5 done xs _ _ _ _ ih => simpa [Path.normalStep] using ih led
  | case7 done x xs _ _ here up _ _ ih => simpa [Path.normalStep, here, up] using ih led
  | case8 done x xs entries found here up _ new last =>
    obtain ⟨rfl, rfl⟩ := Place.free.inj led
    obtain rfl := isEmpty_iff.mp last
    have free : Table.find? entries x = none := by
      exact Option.not_isSome_iff_eq_none.mp new
    exact ⟨⟨entries, found, free⟩, by simp [Path.normalStep, here, up]⟩
  | _ => cases led

theorem walk_append (plain : ∀ x ∈ xs, x ≠ "." ∧ x ≠ ".." ∧ x.utf8ByteSize ≤ maxName)
    (found : d.find? (done ++ xs) = some n) (ys : List String) : walk d done (xs ++ ys) = walk d (done ++ xs) ys := by
  induction xs generalizing done with
  | nil => rw [append_nil, nil_append]
  | cons x xs ih =>
    obtain ⟨entries, folder, inside⟩ := exists_folder_on_way found
    obtain ⟨here, up, short⟩ := plain x mem_cons_self
    have known : (entries.lookup x).isSome := by
      rcases exists_of_find?_cons inside with ⟨-, there⟩ | ⟨_, there, -⟩
      all_goals exact Option.isSome_iff_exists.mpr ⟨_, there⟩
    rw [append_cons] at found ⊢
    rw [cons_append, walk, folder]
    dsimp only
    rw [if_neg here, if_neg up, if_neg (Nat.not_lt.mpr short), if_pos known]
    exact ih (fun y hy => plain y (mem_cons_of_mem x hy)) found

theorem walk_eq_taken (plain : ∀ x ∈ xs, x ≠ "." ∧ x ≠ ".." ∧ x.utf8ByteSize ≤ maxName) (found : d.find? xs = some n) :
    walk d [] xs = .taken xs n := by
  have all : walk d [] (xs ++ []) = walk d ([] ++ xs) [] := walk_append plain found []
  rw [append_nil, nil_append] at all
  rw [all, walk, found]

theorem walk_eq_free (plain : ∀ y ∈ xs ++ [x], y ≠ "." ∧ y ≠ ".." ∧ y.utf8ByteSize ≤ maxName)
    (found : d.find? xs = some (.folder entries)) (free : Table.find? entries x = none) :
    walk d [] (xs ++ [x]) = .free xs x := by
  obtain ⟨here, up, short⟩ := plain x (by simp)
  have unknown : ¬ (entries.lookup x).isSome := Option.not_isSome_iff_eq_none.mpr free
  rw [walk_append (fun y hy => plain y (mem_append_left _ hy)) found, nil_append, walk, found]
  dsimp only
  rw [if_neg here, if_neg up, if_neg (Nat.not_lt.mpr short), if_neg unknown]
  rfl

theorem place_taken (led : d.place p = .taken place n) : Path.target p = some place ∧ d.find? place = some n := by
  unfold Disk.place at led
  split at led
  · cases led
  · unfold Path.target
    split at led
    · rename_i names known
      obtain ⟨found, rfl⟩ := walk_taken led
      simp [known, found]
    · cases led

theorem place_free (led : d.place p = .free front x) : Path.target p = some (front ++ [x]) ∧
      ∃ entries : Disk, d.find? front = some (.folder entries) ∧ Table.find? entries x = none := by
  unfold Disk.place at led
  split at led
  · cases led
  · unfold Path.target
    split at led
    · rename_i names known
      obtain ⟨found, same⟩ := walk_free led
      simp [known, same, found]
    · cases led

theorem exists_of_stat (there : d.stat p = .ok n) : ∃ place, Path.target p = some place ∧ d.find? place = some n := by
  unfold stat at there
  split at there
  · cases there
  · split at there
    · rename_i place _ led
      cases there
      exact ⟨place, place_taken led⟩
    all_goals cases there

theorem item?_of_isDir (h : d.isDir p) : ∃ t, Path.target p = some t ∧ item? d t = some .folder := by
  unfold isDir node? at h
  split at h
  · rename_i entries found
    split at found
    · cases found
    · split at found
      · rename_i place n led
        cases found
        obtain ⟨leads, there⟩ := place_taken led
        exact ⟨place, leads, item?_eq_folder.mpr ⟨entries, there⟩⟩
      · cases found
  · cases h

/-! ## Operations by path -/

/-- A file or an empty folder put where nothing or a file was changes that place only. -/
theorem item?_put_bare (found : d.find? front = some (.folder entries))
    (lone : ∀ inner, Table.find? entries x ≠ some (.folder inner)) (bare : ∀ y back, below? n (y :: back) = none)
    (place : List String) :
    item? (put d n (front ++ [x])) place = if place = front ++ [x] then some n.item else item? d place := by
  rw [item?_put found]
  by_cases under : front ++ [x] <+: place
  · obtain ⟨back, rfl⟩ := under
    cases back with
    | nil => simp
    | cons y back =>
      -- nothing stood below a file or a free name before either
      have before : item? d (front ++ ([x] ++ y :: back)) = none := by
        rw [item?_append found, below?_folder, singleton_append, item?_cons]
        rcases h : Table.find? entries x with _ | (_ | inner)
        · rfl
        · rfl
        · exact absurd h (lone inner)
      simpa [bare] using before.symm
  · have differ : place ≠ front ++ [x] := by
      rintro rfl
      exact under (prefix_refl _)
    simp [under, differ]

/-- A file that a path leads to is changed there, and nothing else changes. -/
theorem item?_put_taken {old : Text.Bytes} (led : d.place p = .taken t (.file old mode)) (content : Text.Bytes)
    (bits : Nat) : Path.target p = some t ∧ ∀ place,
      item? (put d (.file content bits) t) place = if place = t then some (.file content bits) else item? d place := by
  obtain ⟨leads, found⟩ := place_taken led
  rcases eq_nil_or_concat t with rfl | ⟨front, x, rfl⟩
  · cases found
  · rw [concat_eq_append] at found leads ⊢
    obtain ⟨entries, folder, there⟩ := exists_folder_of_find? found
    refine ⟨leads, item?_put_bare folder (fun inner h => ?_) fun _ _ => rfl⟩
    rw [there] at h
    cases h

/-- A file is written where its path leads, and nothing else changes. -/
theorem item?_update (updated : d.update p f = .ok e) : ∃ t old mode, Path.target p = some t ∧
      ∀ place, item? e place = if place = t then some (.file (f old) mode) else item? d place := by
  unfold update at updated
  split at updated
  · cases updated
  · split at updated
    · rename_i led
      cases updated
      exact ⟨_, _, _, item?_put_taken led _ _⟩
    · cases updated
    · rename_i front x led
      cases updated
      obtain ⟨leads, entries, folder, new⟩ := place_free led
      exact ⟨_, [], newMode, leads, item?_put_bare folder (by simp [new]) fun _ _ => rfl⟩
    all_goals cases updated

theorem item?_write {content : Text.Bytes} (written : d.write p content = .ok e) : ∃ t mode, Path.target p = some t ∧
      ∀ place, item? e place = if place = t then some (.file content mode) else item? d place := by
  obtain ⟨t, -, mode, changed⟩ := item?_update written
  exact ⟨t, mode, changed⟩

def SameBut (p : List Char) (d e : Disk) : Prop := ∀ place, Path.target p ≠ some place → item? e place = item? d place

theorem SameBut.refl (p : List Char) (d : Disk) : SameBut p d d := fun _ _ => rfl

theorem SameBut.trans {c : Disk} (first : SameBut p c d) (second : SameBut p d e) : SameBut p c e :=
  fun place other => (second place other).trans (first place other)

theorem sameBut_of_item? {i : Item}
    (changed : Path.target p = some t ∧ ∀ place, item? e place = if place = t then some i else item? d place) :
    SameBut p d e := by
  intro place other
  rw [changed.1] at other
  rw [changed.2, if_neg fun same => other (congrArg some same.symm)]

theorem sameBut_update (updated : d.update p f = .ok e) : SameBut p d e := by
  obtain ⟨t, old, mode, changed⟩ := item?_update updated
  exact sameBut_of_item? changed

theorem sameBut_chmod (changed : d.chmod p mode = .ok e) : SameBut p d e := by
  unfold chmod at changed
  split at changed
  · cases changed
  · split at changed
    · rename_i led
      cases changed
      exact sameBut_of_item? (item?_put_taken led _ mode)
    · rw [Except.ok.inj changed]
      exact .refl p e
    all_goals cases changed

/-- The second disk has all that the first one has, and besides it only folders. -/
def Grown (d e : Disk) : Prop :=
  ∀ place, item? e place = item? d place ∨ item? d place = none ∧ item? e place = some .folder

theorem Grown.refl (d : Disk) : Grown d d := fun _ => .inl rfl

theorem Grown.trans {f : Disk} (first : Grown d e) (second : Grown e f) : Grown d f := by
  intro place
  rcases first place with same | ⟨new, folder⟩
  · rw [← same]
    exact second place
  · rcases second place with same | ⟨free, -⟩
    · exact .inr ⟨new, same.trans folder⟩
    · rw [folder] at free
      cases free

theorem Grown.file? (grown : Grown d e) (place : List String) : e.file? place = d.file? place := by
  rcases grown place with same | ⟨new, folder⟩
  · exact file?_congr same
  · simp [Disk.file?, new, folder]

theorem item?_makeFolder (made : d.makeFolder p = .ok e) :
    ∃ t, Path.target (if (Text.trimRight Path.isSlash p).isEmpty then p else Text.trimRight Path.isSlash p) = some t ∧
      item? d t = none ∧ ∀ place, item? e place = if place = t then some .folder else item? d place := by
  unfold makeFolder at made
  split at made
  · cases made
  · dsimp only at made
    split at made
    · cases made
    · rename_i front x led
      cases made
      obtain ⟨leads, entries, folder, new⟩ := place_free led
      have nothing : item? d (front ++ [x]) = none := by
        rw [item?_append folder, below?_folder, item?_cons, new]
        rfl
      exact ⟨_, leads, nothing, item?_put_bare folder (by simp [new]) fun _ _ => rfl⟩
    all_goals cases made

theorem grown_makeFolder (made : d.makeFolder p = .ok e) : Grown d e := by
  obtain ⟨t, -, new, rest⟩ := item?_makeFolder made
  intro place
  by_cases h : place = t
  · subst h
    exact .inr ⟨new, by simp [rest]⟩
  · exact .inl (by simp [rest, h])

/-- A folder is made, or the disk stays as it is; without a fault the folder is there then. -/
theorem makeLast_cases (keep : Bool) (d : Disk) (p : List Char) :
    (makeLast keep d p).1 = d ∧ ((makeLast keep d p).2 = none → d.isDir p) ∨
      (makeLast keep d p).2 = none ∧ d.makeFolder p = .ok (makeLast keep d p).1 := by
  unfold makeLast
  cases made : d.makeFolder p with
  | ok e => exact .inr ⟨rfl, rfl⟩
  | error f =>
    refine .inl ⟨rfl, fun none => ?_⟩
    by_cases there : (keep && d.isDir p)
    · exact (Bool.and_eq_true_iff.mp there).2
    · simp [there] at none

theorem makeFolder_of_makeLast {f : Fault} (failed : (makeLast keep d p).2 = some f) : d.makeFolder p = .error f := by
  unfold makeLast at failed
  cases made : d.makeFolder p with
  | ok e =>
    rw [made] at failed
    cases failed
  | error g =>
    rw [made] at failed
    dsimp only at failed
    split at failed
    · cases failed
    · rw [Option.some.inj failed]

/-- Folders are made around a folder if they are not there, and then the folder itself, unless a fault or a dot name ends it
before. -/
theorem makeFoldersFrom_succ (keep : Bool) (fuel : Nat) (d : Disk) (p : List Char) :
    makeFoldersFrom keep (fuel + 1) d p = makeLast keep d p ∨
      (splitLast p).1 ≠ [] ∧ d.isThere (splitLast p).1 = false ∧
        let e := (makeFoldersFrom keep fuel d (splitLast p).1).1
        makeFoldersFrom keep (fuel + 1) d p = makeLast keep e p ∨
          (makeFoldersFrom keep (fuel + 1) d p).1 = e ∧
            ((makeFoldersFrom keep (fuel + 1) d p).2 = none → (splitLast p).2 = ['.']) := by
  rw [makeFoldersFrom]
  dsimp only
  by_cases nested : (!(splitLast p).1.isEmpty && !(splitLast p).2.isEmpty && !isThere d (splitLast p).1)
  · rw [if_pos nested]
    refine .inr ⟨fun empty => by simp [empty] at nested, by simpa using (Bool.and_eq_true_iff.mp nested).2, ?_⟩
    rcases makeFoldersFrom keep fuel d (splitLast p).1 with ⟨e, fault⟩
    by_cases stopped : fault.any (!·.isKind .fileExists)
    · rw [if_pos stopped]
      refine .inr ⟨rfl, fun none => ?_⟩
      obtain rfl : fault = .none := none
      cases stopped
    · rw [if_neg stopped]
      by_cases dot : (splitLast p).2 = ['.']
      · rw [if_pos dot]
        exact .inr ⟨rfl, fun _ => dot⟩
      · rw [if_neg dot]
        exact .inl rfl
  · rw [if_neg nested]
    exact .inl rfl

theorem grown_makeLast (keep : Bool) (d : Disk) (p : List Char) : Grown d (makeLast keep d p).1 := by
  rcases makeLast_cases keep d p with ⟨same, -⟩ | ⟨-, made⟩
  · rw [same]
    exact .refl d
  · exact grown_makeFolder made

/-- Whether or not it fails, making folders adds nothing but folders. -/
theorem grown_makeFoldersFrom (keep : Bool) (fuel : Nat) (d : Disk) (p : List Char) :
    Grown d (makeFoldersFrom keep fuel d p).1 := by
  induction fuel generalizing d p with
  | zero => exact .refl d
  | succ fuel ih =>
    rcases makeFoldersFrom_succ keep fuel d p with last | ⟨-, -, last | ⟨same, -⟩⟩
    · rw [last]
      exact grown_makeLast keep d p
    · rw [last]
      exact (ih d _).trans (grown_makeLast keep _ p)
    · rw [same]
      exact ih d _

/-- Making folders fails as making one of them does. -/
theorem exists_makeFolder_of_fault {fuel : Nat} {f : Fault} (failed : (makeFoldersFrom keep fuel d p).2 = some f) :
    ∃ e q, makeFolder e q = .error f := by
  induction fuel generalizing d p with
  | zero => cases failed
  | succ fuel ih =>
    rw [makeFoldersFrom] at failed
    dsimp only at failed
    split at failed
    · split at failed
      · exact ih failed
      · split at failed
        · cases failed
        · exact ⟨_, p, makeFolder_of_makeLast failed⟩
    · exact ⟨d, p, makeFolder_of_makeLast failed⟩

theorem grown_ensureFolders (d : Disk) (p : List Char) : Grown d (d.ensureFolders p).1 := grown_makeFoldersFrom _ _ d p

theorem ensureFolder_eq_ok_iff : d.ensureFolder p = .ok e ↔ d.ensureFolders p = (e, none) := by
  unfold ensureFolder
  rcases d.ensureFolders p with ⟨c, _ | f⟩ <;> simp

theorem grown_ensureFolder (made : d.ensureFolder p = .ok e) : Grown d e := by
  have grown := grown_ensureFolders d p
  rw [ensureFolder_eq_ok_iff.mp made] at grown
  exact grown

/-- Two disks differ at most at a place and below it. -/
def SameOutside (t : List String) (d e : Disk) : Prop := ∀ place, ¬ t <+: place → item? e place = item? d place

theorem sameOutside_removeTree (removed : d.removeTree p = .ok e) : ∃ t, Path.target p = some t ∧ SameOutside t d e := by
  unfold removeTree at removed
  split at removed
  · rename_i place _ led
    cases removed
    exact ⟨place, (place_taken led).1, fun other apart => item?_delete d apart⟩
  all_goals cases removed

theorem sameOutside_discard (d : Disk) (p : List Char) :
    d.discard p = d ∨ ∃ t, Path.target p = some t ∧ SameOutside t d (d.discard p) := by
  unfold discard
  split
  · rename_i place _ led
    exact .inr ⟨place, (place_taken led).1, fun other apart => item?_delete d apart⟩
  · exact .inl rfl

theorem sameOutside_emptyTree (emptied : d.emptyTree p = .ok e) : ∃ t, Path.target p = some t ∧ SameOutside t d e := by
  unfold emptyTree at emptied
  split at emptied
  · rename_i led
    exact ⟨[], (place_taken led).1, fun other apart => absurd List.nil_prefix apart⟩
  · rename_i place _ _ led
    cases emptied
    obtain ⟨leads, found⟩ := place_taken led
    refine ⟨place, leads, fun other apart => ?_⟩
    rcases eq_nil_or_concat place with rfl | ⟨front, x, rfl⟩
    · exact absurd List.nil_prefix apart
    · rw [concat_eq_append] at found apart ⊢
      obtain ⟨entries, folder, -⟩ := exists_folder_of_find? found
      simp [item?_put folder, apart]
  all_goals cases emptied

end Disk

end LineScript
