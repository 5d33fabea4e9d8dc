
import LineScript.Package.Depot
import LineScript.Proofs.DiskReach
import LineScript.Proofs.LineText
import Mathlib.Data.List.Induction

/-!
# Paths of packages

A plain name leads to a folder of its own, and a path that does not climb stays below the folder it starts from. Folders are
made on the way to a path and nowhere else (`item?_makeFoldersFrom`), so below the folder of its package or above it
(`inside_or_above`).
-/

namespace LineScript

open List

theorem Text.splitGo_append_sep (c : Char) (a cur b : List Char) :
    splitGo [c] none cur 0 (a ++ c :: b) = splitGo [c] none cur 0 a ++ splitOn [c] b := by
  induction a generalizing cur with
  | nil => simp [splitGo, splitOn]
  | cons d a ih =>
    by_cases h : c = d
    · subst h
      simp [splitGo, ih]
    · simp [splitGo, h, ih]

theorem Text.splitOn_append_sep (c : Char) (a b : List Char) : splitOn [c] (a ++ c :: b) = splitOn [c] a ++ splitOn [c] b :=
  splitGo_append_sep c a [] b

theorem Text.not_mem_of_mem_splitGo {c : Char} {s cur w : List Char} (clean : c ∉ cur) (h : w ∈ splitGo [c] none cur 0 s) :
    c ∉ w := by
  induction s generalizing cur with
  | nil =>
    obtain rfl : w = cur.reverse := by simpa [splitGo] using h
    simpa using clean
  | cons d s ih =>
    by_cases hd : c = d
    · subst hd
      rcases (by simpa [splitGo] using h : w = cur.reverse ∨ w ∈ splitGo [c] none [] 0 s) with rfl | h
      · simpa using clean
      · exact ih not_mem_nil h
    · have rest : w ∈ splitGo [c] none (d :: cur) 0 s := by simpa [splitGo, hd] using h
      exact ih (by simp [clean, hd]) rest

namespace Path

variable {name file : String} {r q a p b c : List Char} {xs : List String} {d : Disk} {depth : Nat}

/-! ## Names on the way -/

def names (p : List Char) : List String := ((Text.splitOn ['/'] p).filter (!·.isEmpty)).map String.ofList

theorem names_append (a b : List Char) : names (a ++ '/' :: b) = names a ++ names b := by
  simp [names, Text.splitOn_append_sep]

theorem names_slash (b : List Char) : names ('/' :: b) = names b := names_append [] b

theorem names_of_solid (nonempty : p ≠ []) (solid : '/' ∉ p) : names p = [String.ofList p] := by
  simp [names, Text.splitOn, Text.splitGo_eq_singleton solid, nonempty]

theorem steps_eq (p : List Char) : steps p = if p.getLast?.any isSlash then names p ++ ["."] else names p := rfl

theorem foldl_steps (p : List Char) (done : List String) :
    (steps p).foldl normalStep done = (names p).foldl normalStep done := by
  rw [steps_eq]
  split
  · rw [foldl_append]
    rfl
  · rfl

theorem local?_here (r : List Char) : local? (here ++ '/' :: r) = some (steps ('/' :: r)) := by
  simp [local?, Text.startsWith]

theorem target_here (r : List Char) : target (here ++ '/' :: r) = some ((names r).foldl normalStep []) := by
  rw [target, local?_here, Option.map_some, foldl_steps, names_slash]

/-! ## Plain names -/

/-- A name that a folder can have: not empty, without a slash, and no dot name. -/
structure Plain (name : String) : Prop where
  nonempty : name ≠ ""
  solid : '/' ∉ name.toList
  notHere : name ≠ "."
  notUp : name ≠ ".."

theorem Plain.toList_ne_nil (plain : Plain name) : name.toList ≠ [] := by
  intro h
  exact plain.nonempty (by rw [← String.ofList_toList (s := name), h])

theorem Plain.normalStep (plain : Plain name) (done : List String) : normalStep done name = done ++ [name] := by
  simp [Path.normalStep, plain.notHere, plain.notUp]

theorem isSlash_of_mem (solid : '/' ∉ p) {c : Char} (member : c ∈ p) : isSlash c = false :=
  decide_eq_false fun same => solid (same ▸ member)

theorem Plain.relative (plain : Plain name) : name.toList.head?.any isSlash = false := by
  cases h : name.toList with
  | nil => rfl
  | cons c cs => exact isSlash_of_mem (h ▸ plain.solid) mem_cons_self

theorem Plain.exists_last (plain : Plain name) : ∃ c, name.toList.getLast? = some c ∧ isSlash c = false := by
  cases last : name.toList.getLast? with
  | none => exact absurd (getLast?_eq_none_iff.mp last) plain.toList_ne_nil
  | some c => exact ⟨c, rfl, isSlash_of_mem plain.solid (mem_of_getLast? last)⟩

/-! ## Paths that do not climb -/

/-- Whether names never lead above the place `depth` folders up. -/
def stays : Nat → List String → Bool
  | _, [] => true
  | depth, x :: xs =>
    if x = "." then stays depth xs
    else if x = ".." then 0 < depth && stays (depth - 1) xs
    else stays (depth + 1) xs

theorem exists_foldl_of_stays (base : List String) (h : stays depth xs) (inner : List String)
    (deep : inner.length = depth) : ∃ inner', xs.foldl normalStep (base ++ inner) = base ++ inner' := by
  fun_induction stays depth xs generalizing inner with
  | case1 depth => exact ⟨inner, rfl⟩
  | case2 depth xs ih => simpa [normalStep] using ih h inner deep
  | case3 depth xs _ ih =>
    -- there is a name to take back before the base is reached
    obtain ⟨positive, rest⟩ : 0 < depth ∧ stays (depth - 1) xs := by simpa using h
    obtain ⟨front, x, rfl⟩ : ∃ front x, inner = front ++ [x] := by
      rcases eq_nil_or_concat inner with rfl | ⟨front, x, rfl⟩
      · simp at deep
        omega
      · exact ⟨front, x, by simp⟩
    have shorter : front.length = depth - 1 := by
      simp at deep
      omega
    have step : normalStep (base ++ (front ++ [x])) ".." = base ++ front := by
      simp [normalStep]
    rw [foldl_cons, step]
    exact ih rest front shorter
  | case4 depth x xs here up ih =>
    have step : normalStep (base ++ inner) x = base ++ (inner ++ [x]) := by simp [normalStep, here, up]
    rw [foldl_cons, step]
    exact ih h (inner ++ [x]) (by simp [deep])

structure Confined (file : String) : Prop where
  relative : file.toList.head?.any isSlash = false
  stays : Path.stays 0 (names file.toList) = true

def Orderly (file : String) : Prop := ∀ c ∈ Text.splitOn ['/'] file.toList, c ≠ [] ∧ c ≠ ['.'] ∧ c ≠ ['.', '.']

instance (file : String) : Decidable (Orderly file) :=
  inferInstanceAs (Decidable (∀ c ∈ Text.splitOn ['/'] file.toList, c ≠ [] ∧ c ≠ ['.'] ∧ c ≠ ['.', '.']))

theorem Orderly.plain (orderly : Orderly file) : ∀ x ∈ (Text.splitOn ['/'] file.toList).map String.ofList, Plain x := by
  intro x hx
  obtain ⟨c, hc, rfl⟩ := mem_map.mp hx
  obtain ⟨nonempty, notHere, notUp⟩ := orderly c hc
  have solid : '/' ∉ c := Text.not_mem_of_mem_splitGo (by simp) hc
  refine ⟨fun h => nonempty ?_, by simpa using solid, fun h => notHere ?_, fun h => notUp ?_⟩
  all_goals simpa using congrArg String.toList h

theorem Orderly.names_eq (orderly : Orderly file) :
    names file.toList = (Text.splitOn ['/'] file.toList).map String.ofList := by
  unfold names
  rw [filter_eq_self.mpr]
  intro c hc
  simpa using (orderly c hc).1

theorem stays_of_plain (plain : ∀ x ∈ xs, Plain x) (depth : Nat) : stays depth xs := by
  induction xs generalizing depth with
  | nil => rfl
  | cons x xs ih =>
    have first := plain x mem_cons_self
    rw [stays, if_neg first.notHere, if_neg first.notUp]
    exact ih (fun y hy => plain y (mem_cons_of_mem x hy)) _

theorem Orderly.confined (orderly : Orderly file) : Confined file where
  relative := by
    cases h : file.toList with
    | nil => rfl
    | cons c cs =>
      refine decide_eq_false ?_
      rintro rfl
      have first : ([] : List Char) ∈ Text.splitOn ['/'] file.toList := by
        rw [h]
        simp [Text.splitOn, Text.splitGo]
      exact (orderly [] first).1 rfl
  stays := by
    rw [orderly.names_eq]
    exact stays_of_plain orderly.plain 0

/-! ## Folders and files of a package -/

theorem join_of_relative (solid : a.getLast?.any isSlash = false) (nonempty : a ≠ [])
    (relative : b.head?.any isSlash = false) : join a b = a ++ '/' :: b := by
  simp [join, relative, solid, nonempty]

theorem exists_join (r : List Char) {file : List Char} (relative : file.head?.any isSlash = false) :
    ∃ r', join (here ++ '/' :: r) file = here ++ '/' :: r' ∧ names r' = names r ++ names file ∧ file <:+ r' := by
  cases solid : (here ++ '/' :: r).getLast?.any isSlash with
  | false =>
    refine ⟨r ++ '/' :: file, ?_, names_append r file, ?_⟩
    · rw [join_of_relative solid (by simp) relative, append_assoc, cons_append]
    · exact (suffix_cons _ _).trans (suffix_append _ _)
  | true =>
    -- no second slash is put, and none is needed to part the names
    refine ⟨r ++ file, ?_, ?_, suffix_append _ _⟩
    · rw [join, relative, solid]
      exact append_assoc here ('/' :: r) file
    · rcases eq_nil_or_concat r with rfl | ⟨front, c, rfl⟩
      · rfl
      · have slash : c = '/' := by simpa [getLast?_append, getLast?_cons, isSlash] using solid
        subst slash
        rw [concat_eq_append, append_assoc, singleton_append, names_append, names_append,
          show names [] = [] from rfl, append_nil]

theorem target_join (r : List Char) {file : List Char} (relative : file.head?.any isSlash = false) :
    target (join (here ++ '/' :: r) file) = some ((names file).foldl normalStep ((names r).foldl normalStep [])) := by
  obtain ⟨r', joined, all, -⟩ := exists_join r relative
  rw [joined, target_here, all, foldl_append]

theorem local?_of_absolute (absolute : p.head?.any isSlash) : local? p = none := by
  cases p with
  | nil => cases absolute
  | cons c p =>
    obtain rfl : c = '/' := by simpa [isSlash] using absolute
    simp [local?, here, isSlash, Text.startsWith]

theorem head?_join_of_absolute (absolute : a.head?.any isSlash) : (join a b).head?.any isSlash := by
  unfold join
  split
  · rename_i first
    exact first
  · cases a with
    | nil => cases absolute
    | cons c a => split <;> exact absolute

theorem packageFolder_of_relative (relative : name.toList.head?.any isSlash = false) :
    Pkg.packageFolder name = here ++ '/' :: ("packages".toList ++ '/' :: name.toList) :=
  join_of_relative (by decide) (by decide) relative

/-- A file of a package is below the folder of the package, unless its path is absolute or climbs. -/
theorem exists_target_packageFolder {t : List String}
    (leads : target (join (Pkg.packageFolder name) file.toList) = some t) (confined : Confined file) :
    ∃ home, target (Pkg.packageFolder name) = some home ∧ home <+: t := by
  cases relative : name.toList.head?.any isSlash with
  | true =>
    have absolute : (Pkg.packageFolder name).head?.any isSlash := by
      unfold Pkg.packageFolder join
      rw [relative]
      exact relative
    rw [target, local?_of_absolute (head?_join_of_absolute absolute)] at leads
    cases leads
  | false =>
    rw [packageFolder_of_relative relative, target_join _ confined.relative] at leads
    cases leads
    rw [packageFolder_of_relative relative, target_here]
    refine ⟨_, rfl, ?_⟩
    obtain ⟨inner, same⟩ := exists_foldl_of_stays _ confined.stays [] rfl
    rw [append_nil] at same
    rw [same]
    exact prefix_append _ _

theorem names_packageFolder (plain : Plain name) : names ("packages".toList ++ '/' :: name.toList) = ["packages", name] := by
  rw [names_append, names_of_solid (by decide) (by decide), names_of_solid plain.toList_ne_nil plain.solid]
  simp

theorem target_packageFolder (plain : Plain name) : target (Pkg.packageFolder name) = some ["packages", name] := by
  have first : normalStep [] "packages" = ["packages"] := by decide
  rw [packageFolder_of_relative plain.relative, target_here, names_packageFolder plain]
  simp [first, plain.normalStep]

/-! ## Names in a folder -/

structure Nameable (name : String) : Prop extends Plain name where
  short : name.utf8ByteSize ≤ Disk.maxName
  clean : '\x00' ∉ name.toList

theorem mem_join {c : Char} (h : c ∈ join a b) : c ∈ a ∨ c = '/' ∨ c ∈ b := by
  unfold join at h
  split at h
  · exact .inr (.inr h)
  · split at h
    · exact (mem_append.mp h).imp_right .inr
    · simpa using h

/-- What a folder lists is there, by a name that a file can have. -/
theorem isThere_join_of_mem_list {x : String} {listing : List String} (nameable : Nameable x)
    (listed : d.list (here ++ '/' :: r) = .ok listing) (member : x ∈ listing) :
    d.isThere (join (here ++ '/' :: r) x.toList) := by
  obtain ⟨clean, place, entries, led, known⟩ := Disk.exists_of_mem_list listed member
  have folder : Disk.walk d [] (names r) = .taken place (.folder entries) := by
    unfold Disk.place at led
    rw [if_neg (by simp), local?_here, steps_eq] at led
    split at led
    · rename_i names same
      cases same
      split at led
      · obtain ⟨-, -, folder⟩ := Disk.walk_dot led
        exact folder
      · exact led
    · cases led
  obtain ⟨n, there⟩ := Disk.exists_walk_name (Disk.walk_taken folder).1 nameable.notHere nameable.notUp nameable.short known
  obtain ⟨r', joined, all, last⟩ := exists_join r nameable.relative
  have alone : names x.toList = [x] := by
    rw [names_of_solid nameable.toList_ne_nil nameable.solid, String.ofList_toList]
  have solid : ('/' :: r').getLast?.any isSlash = false := by
    obtain ⟨front, rfl⟩ := last
    obtain ⟨c, final, differ⟩ := nameable.exists_last
    simp [getLast?_cons, final, differ]
  refine Disk.isThere_iff.mpr ⟨?_, place ++ [x], n, ?_⟩
  · rw [← Bool.not_eq_true, contains_iff_mem]
    intro null
    rcases mem_join null with inside | slash | inside
    · rw [← contains_iff_mem, clean] at inside
      cases inside
    · cases slash
    · exact nameable.clean inside
  · unfold Disk.place
    rw [joined, if_neg (by simp), local?_here, steps_eq, solid, names_slash, all, alone]
    simp only [Bool.false_eq_true, if_false]
    rw [Disk.walk_append_taken folder, there]

/-! ## Folders on the way -/

/-- A path on the way to another one below the folder of the program. -/
inductive OnWay (r : List Char) : List Char → Prop
  | start : OnWay r here
  | below {front : List Char} (part : names front <+: names r) : OnWay r (here ++ '/' :: front)

theorem OnWay.target (way : OnWay r q) : ∃ xs, xs <+: names r ∧ Path.target q = some (xs.foldl normalStep []) := by
  cases way with
  | start => exact ⟨[], List.nil_prefix, by decide⟩
  | below part => exact ⟨_, part, target_here _⟩

theorem trimRight_slash (a : List Char) : Text.trimRight isSlash (a ++ ['/']) = Text.trimRight isSlash a := by
  simp [Text.trimRight, isSlash]

theorem OnWay.trimRight (way : OnWay r q) : OnWay r (Text.trimRight isSlash q) := by
  cases way with
  | start => exact .start
  | @below front part =>
    induction front using List.reverseRecOn with
    | nil => exact .start
    | append_singleton front c ih =>
      by_cases slash : c = '/'
      · subst slash
        rw [← cons_append, ← append_assoc, trimRight_slash]
        refine ih ?_
        rw [names_append] at part
        exact (prefix_append _ _).trans part
      · rw [Text.trimRight_eq_self]
        · exact .below part
        · intro d last
          obtain rfl : c = d := by simpa [getLast?_append, getLast?_cons] using last
          simp [isSlash, slash]

theorem base_append (solid : '/' ∉ c) : base (a ++ '/' :: c) = c := by
  unfold base
  have all : ∀ d ∈ c.reverse, (!isSlash d) := by
    intro d hd
    rw [isSlash_of_mem solid (mem_reverse.mp hd)]
    rfl
  rw [reverse_append, reverse_cons, append_assoc, takeWhile_append_of_pos all]
  simp [isSlash]

theorem parent_append (solid : '/' ∉ c) (mixed : (a ++ ['/']).all isSlash = false) :
    parent (a ++ '/' :: c) = Text.trimRight isSlash a := by
  have taken : (a ++ '/' :: c).take ((a ++ '/' :: c).length - c.length) = a ++ ['/'] := by
    rw [append_cons, length_append, Nat.add_sub_cancel, take_left]
  unfold parent
  rw [base_append solid, taken, if_neg (by simp [mixed]), trimRight_slash]

theorem base_packageFolder (plain : Plain name) : base (Pkg.packageFolder name) = name.toList := by
  have path : Pkg.packageFolder name = (here ++ '/' :: "packages".toList) ++ '/' :: name.toList := by
    rw [packageFolder_of_relative plain.relative]
    simp
  rw [path, base_append plain.solid]

theorem trimRight_packageFolder (plain : Plain name) :
    Text.trimRight isSlash (Pkg.packageFolder name) = Pkg.packageFolder name := by
  obtain ⟨c, last, solid⟩ := plain.exists_last
  obtain ⟨front, split⟩ := getLast?_eq_some_iff.mp last
  rw [packageFolder_of_relative plain.relative, split]
  simp [Text.trimRight, solid]

theorem onWay_parent {front : List Char} (part : names front <+: names r) : OnWay r (parent (here ++ '/' :: front)) := by
  have mixed (a : List Char) : (here ++ a ++ ['/']).all isSlash = false := by simp [here, isSlash]
  by_cases slash : '/' ∈ front
  · obtain ⟨a, c, rfl, solid⟩ := Text.exists_last slash
    have split : here ++ '/' :: (a ++ '/' :: c) = (here ++ '/' :: a) ++ '/' :: c := by simp
    rw [split, parent_append solid (mixed _)]
    rw [names_append] at part
    exact (OnWay.below ((prefix_append _ _).trans part)).trimRight
  · rw [parent_append slash (by simpa using mixed [])]
    exact .start

theorem OnWay.parent (way : OnWay r q) : Path.parent q = [] ∨ OnWay r (Path.parent q) := by
  cases way with
  | start => exact .inl rfl
  | below part => exact .inr (onWay_parent part)

theorem OnWay.splitLast (way : OnWay r q) (nonempty : (Disk.splitLast q).1 ≠ []) : OnWay r (Disk.splitLast q).1 := by
  have above : Path.parent q = [] → Path.parent (Path.parent q) = [] := by
    intro none
    rw [none]
    rfl
  unfold Disk.splitLast at nonempty ⊢
  by_cases slash : (base q).isEmpty
  · simp only [slash, if_true] at nonempty ⊢
    have first : OnWay r (Path.parent q) := way.parent.resolve_left (mt above nonempty)
    have second := first.parent
    exact second.resolve_left nonempty
  · rw [if_neg slash] at nonempty ⊢
    exact way.parent.resolve_left nonempty

/-- A folder on the way to a path is made there and nowhere else. -/
theorem item?_makeLast (way : OnWay r q) (keep : Bool) (place : List String) :
    (d.makeLast keep q).1.item? place = d.item? place ∨ ∃ xs, xs <+: names r ∧ place = xs.foldl normalStep [] := by
  rcases Disk.makeLast_cases keep d q with ⟨same, -⟩ | ⟨-, made⟩
  · rw [same]
    exact .inl rfl
  · obtain ⟨t, leads, -, rest⟩ := Disk.item?_makeFolder made
    obtain ⟨xs, part, leads'⟩ : ∃ xs, xs <+: names r ∧ some t = some (xs.foldl normalStep []) := by
      rw [← leads]
      split
      · exact way.target
      · exact way.trimRight.target
    cases leads'
    by_cases h : place = xs.foldl normalStep []
    · exact .inr ⟨xs, part, h⟩
    · exact .inl (by rw [rest, if_neg h])

/-- Folders are made on the way to a path and nowhere else. -/
theorem item?_makeFoldersFrom (way : OnWay r q) (keep : Bool) (fuel : Nat) (d : Disk) (place : List String) :
    (d.makeFoldersFrom keep fuel q).1.item? place = d.item? place ∨ ∃ xs, xs <+: names r ∧ place = xs.foldl normalStep [] := by
  induction fuel generalizing d q with
  | zero => exact .inl rfl
  | succ fuel ih =>
    rcases Disk.makeFoldersFrom_succ keep fuel d q with last | ⟨nonempty, -, last⟩
    · rw [last]
      exact item?_makeLast way keep place
    · have around := ih (way.splitLast nonempty) d
      rcases last with last | ⟨same, -⟩
      · rw [last]
        rcases item?_makeLast way keep place with same | there
        · rw [same]
          exact around
        · exact .inr there
      · rw [same]
        exact around

/-! ## Folders of a package -/

theorem stays_of_part {ys : List String} (part : xs <+: ys) (h : stays depth ys) : stays depth xs := by
  obtain ⟨back, rfl⟩ := part
  fun_induction stays depth xs with
  | case1 => rfl
  | case2 depth xs ih => exact ih (by simpa [stays] using h)
  | case3 depth xs _ ih =>
    obtain ⟨positive, rest⟩ : 0 < depth ∧ stays (depth - 1) (xs ++ back) := by simpa [stays] using h
    simp [positive, ih rest]
  | case4 depth x xs here up ih => exact ih (by simpa [stays, here, up] using h)

/-- On the way to a file of a package that stays below its folder, everything else is above the folder. -/
theorem inside_or_above (plain : Plain name) {inner : List String} (inside : stays 0 inner)
    (part : xs <+: ["packages", name] ++ inner) :
    xs.foldl normalStep [] <+: ["packages"] ∨ ["packages", name] <+: xs.foldl normalStep [] := by
  have first : normalStep [] "packages" = ["packages"] := by decide
  have second : normalStep ["packages"] name = ["packages", name] := plain.normalStep _
  match xs, part with
  | [], _ => exact .inl List.nil_prefix
  | [x], part =>
    obtain rfl : x = "packages" := by simpa using part
    simp [first]
  | x :: y :: xs, part =>
    obtain ⟨rfl, rfl, rest⟩ : x = "packages" ∧ y = name ∧ xs <+: inner := by simpa using part
    right
    rw [foldl_cons, foldl_cons, first, second]
    obtain ⟨inner', same⟩ := exists_foldl_of_stays ["packages", y] (stays_of_part rest inside) [] rfl
    rw [append_nil] at same
    rw [same]
    exact prefix_append _ _

/-- The folder of a package, and those that a file of it is put into. -/
theorem onWay_packageFolder (plain : Plain name) {files : List String} (confined : ∀ file ∈ files, Confined file)
    (own : p = Pkg.packageFolder name ∨ ∃ file ∈ files, p = parent (join (Pkg.packageFolder name) file.toList)) :
    ∃ r inner, OnWay r p ∧ names r = ["packages", name] ++ inner ∧ stays 0 inner := by
  have home := packageFolder_of_relative plain.relative
  rcases own with rfl | ⟨file, member, rfl⟩
  · refine ⟨_, [], ?_, names_packageFolder plain, rfl⟩
    rw [home]
    exact .below (prefix_refl _)
  · have solid : (Pkg.packageFolder name).getLast?.any isSlash = false := by
      obtain ⟨c, last, differ⟩ := plain.exists_last
      simp [home, getLast?_cons, last, differ]
    have relative := (confined file member).relative
    have joined : join (Pkg.packageFolder name) file.toList =
        here ++ '/' :: (("packages".toList ++ '/' :: name.toList) ++ '/' :: file.toList) := by
      rw [join_of_relative solid (by rw [home]; simp [here]) relative, home]
      simp
    have all : names (("packages".toList ++ '/' :: name.toList) ++ '/' :: file.toList) =
        ["packages", name] ++ names file.toList := by
      rw [names_append, names_packageFolder plain]
    refine ⟨_, names file.toList, ?_, all, (confined file member).stays⟩
    rw [joined]
    exact onWay_parent (prefix_refl _)

end Path

end LineScript
