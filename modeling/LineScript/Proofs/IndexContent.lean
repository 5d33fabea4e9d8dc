
import LineScript.Proofs.Definitions
import LineScript.Proofs.Imports
import LineScript.Proofs.PackageAgreement

/-!
# What the index holds is not seen

A program that asks for no package does not see what the index of packages holds, in any two sessions whose worlds differ in
the index file only, if both can be made. A file that is no form of an index is passed over; one that is no text, or has a
whole number with too many digits in it, is a fault.
-/

namespace LineScript

open List

/-! ## Paths of scripts -/

namespace Path

theorem exists_names_last {p : List Char} {c : Char} (last : p.getLast? = some c) (solid : c ≠ '/') :
    ∃ front x, names p = front ++ [x] ∧ x.toList.getLast? = some c := by
  by_cases slash : '/' ∈ p
  · obtain ⟨b, a, split, free⟩ := eq_append_cons_of_mem (mem_reverse.mpr slash)
    have whole : p = a.reverse ++ '/' :: b.reverse := by
      rw [← reverse_reverse p, split]
      simp
    have ended : b.reverse.getLast? = some c := by
      rw [whole, getLast?_append, getLast?_cons] at last
      cases tail : b.reverse.getLast? with
      | none =>
        rw [tail] at last
        exact absurd (Option.some.inj last).symm solid
      | some d =>
        rw [tail] at last
        exact last
    have nonempty : b.reverse ≠ [] := by
      intro none
      rw [none] at ended
      cases ended
    refine ⟨names a.reverse, String.ofList b.reverse, ?_, by rw [String.toList_ofList]; exact ended⟩
    rw [whole, names_append, names_of_solid nonempty fun mem => free (mem_reverse.mp mem)]
  · have nonempty : p ≠ [] := by
      rintro rfl
      cases last
    exact ⟨[], String.ofList p, names_of_solid nonempty slash, by rw [String.toList_ofList]; exact last⟩

/-- A path that ends like no folder name leads to a name with the same end. -/
theorem exists_target_last {p : List Char} {c : Char} (last : p.getLast? = some c) (named : c ∉ ['/', '.', 'D'])
    {place : List String} (leads : target p = some place) : ∃ front x, place = front ++ [x] ∧ x.toList.getLast? = some c := by
  simp only [mem_cons, not_mem_nil, or_false, not_or] at named
  obtain ⟨solid, dotless, other⟩ := named
  have ends {q : List Char} (last : q.getLast? = some c) (leads : (names q).foldl normalStep [] = place) :
      ∃ front x, place = front ++ [x] ∧ x.toList.getLast? = some c := by
    obtain ⟨front, x, split, ended⟩ := exists_names_last last solid
    have plain : x ≠ "." ∧ x ≠ ".." := by
      constructor
      all_goals
        rintro rfl
        exact dotless (Option.some.inj ended).symm
    rw [split, foldl_append, foldl_cons, normalStep, if_neg plain.1, if_neg plain.2] at leads
    exact ⟨_, x, leads.symm, ended⟩
  obtain ⟨steps, found, rfl⟩ := Option.map_eq_some_iff.mp leads
  unfold local? at found
  split at found
  · rename_i same
    rw [same] at last
    exact absurd (Option.some.inj last).symm other
  · split at found
    · rename_i inside
      obtain ⟨r, rfl⟩ := List.isPrefixOf_iff_prefix.mp inside
      cases found
      have rest : ('/' :: r).getLast? = some c := by
        rw [append_assoc, getLast?_append, singleton_append, getLast?_cons] at last
        rw [getLast?_cons]
        exact last
      exact ends rest (foldl_steps _ []).symm
    · split at found
      · cases found
      · cases found
        exact ends last (foldl_steps p []).symm

end Path

/-- Nothing can be named by a script and be the index. -/
theorem ne_indexPlace_of_isScriptName {p : List Char} (script : Run.isScriptName p) {place : List String}
    (leads : Path.target p = some place) : place ≠ Pkg.indexPlace := by
  have last : p.getLast? = some 'y' := by
    have ends {q : List Char} (final : q.getLast? = some 'y') (ends : Text.endsWith p q) : p.getLast? = some 'y' := by
      obtain ⟨r, rfl⟩ := isSuffixOf_iff_suffix.mp ends
      rw [getLast?_append, final]
      rfl
    rcases (Bool.or_eq_true _ _).mp script with short | long
    · exact ends (by decide) short
    · exact ends (by decide) long
  obtain ⟨front, x, rfl, ended⟩ := Path.exists_target_last last (by decide) leads
  intro same
  have split : front ++ [x] = ["packages"] ++ ["gpd_index.json"] := same
  obtain ⟨rfl, -⟩ := List.cons.inj (append_inj' split rfl).2
  exact absurd ended (by decide)

namespace Disk

variable {d e : Disk} {p : List Char} {content : Text.Bytes} {mode : Nat} {place : List String}

theorem isFile_iff : d.isFile p ↔
    p.contains '\x00' = false ∧ ∃ place content mode, d.place p = .taken place (.file content mode) := by
  unfold isFile node?
  cases p.contains '\x00' with
  | true => simp
  | false =>
    cases d.place p with
    | taken place n => cases n <;> simp
    | _ => simp

theorem read_of_isFile (leads : Path.target p = some place) (held : d.file? place = some (content, mode))
    (there : d.isFile p) : d.read p = .ok content := by
  obtain ⟨clean, t, found, bits, led⟩ := isFile_iff.mp there
  obtain ⟨leads', stands⟩ := place_taken led
  obtain rfl := Option.some.inj (leads'.symm.trans leads)
  have same : d.file? t = some (found, bits) := by
    unfold file? item?
    rw [stands]
    rfl
  obtain ⟨rfl, rfl⟩ := Prod.mk.inj (Option.some.inj (held.symm.trans same))
  unfold read stat
  rw [clean, led]
  rfl

theorem read_of_place (clean : p.contains '\x00' = false) (led : d.place p = .taken place (.file content mode)) :
    d.read p = .ok content := by
  unfold read stat
  rw [clean, led]
  rfl

section

variable {d e : Disk} (same : SameOutside Pkg.indexPlace d e) (lone : item? d Pkg.indexPlace ≠ some .folder)
  {p : List Char} (script : Run.isScriptName p = true)

include same lone script

/-- A script is found on both of two disks that differ in the index only. -/
theorem place_script (led : d.place p = .taken place (.file content mode)) :
    e.place p = .taken place (.file content mode) := by
  have apart := ne_indexPlace_of_isScriptName script (place_taken led).1
  unfold Disk.place at led ⊢
  split at led
  · cases led
  · split at led
    · obtain ⟨n, led', item⟩ := same.walk_taken lone led apart
      cases n with
      | folder entries => cases item
      | file content' mode' =>
        obtain ⟨rfl, rfl⟩ := Item.file.inj item
        rwa [if_neg ‹_›]
    · cases led

end

theorem isFile_script (same : SameOutside Pkg.indexPlace d e) (left : item? d Pkg.indexPlace ≠ some .folder)
    (right : item? e Pkg.indexPlace ≠ some .folder) (script : Run.isScriptName p) : e.isFile p = d.isFile p := by
  rw [Bool.eq_iff_iff, isFile_iff, isFile_iff]
  refine and_congr_right fun _ => ⟨?_, ?_⟩
  · rintro ⟨place, content, mode, led⟩
    exact ⟨place, content, mode, place_script same.symm right script led⟩
  · rintro ⟨place, content, mode, led⟩
    exact ⟨place, content, mode, place_script same left script led⟩

theorem read_script (same : SameOutside Pkg.indexPlace d e) (lone : item? d Pkg.indexPlace ≠ some .folder)
    (script : Run.isScriptName p) (there : d.isFile p) : e.read p = d.read p := by
  obtain ⟨clean, place, content, mode, led⟩ := isFile_iff.mp there
  rw [read_of_place clean led, read_of_place clean (place_script same lone script led)]

end Disk

/-! ## Making a session -/

namespace Pkg

variable {index : Json} {i : Option Item} {content : Text.Bytes}

/-- The folder of packages can be made or is there, and the index is a file or is not there. -/
structure Orderly (d : Disk) : Prop where
  packages : d.item? ["packages"] = none ∨ d.item? ["packages"] = some .folder
  lone : d.item? indexPlace ≠ some .folder

/-- The index can be loaded from what stands at its place: from nothing, or from a file that is a text, if reading the text
does not end at a whole number with too many digits. -/
def Loadable : Option Item → Prop
  | none => True
  | some .folder => False
  | some (.file content _) =>
    ∃ text, Text.decode content = .ok text ∧ ∀ count, Json.read (Text.universalNewlines text) ≠ .error (.digits count)

/-- The folder of packages is there after it has been made, and nothing else is changed. -/
theorem exists_ensureFolder {d : Disk} (packages : d.item? ["packages"] = none ∨ d.item? ["packages"] = some .folder) :
    ∃ e, d.ensureFolder folder = .ok e ∧
      ∀ place, e.item? place = if place = ["packages"] then some .folder else d.item? place := by
  rcases packages with free | there
  · have led : d.place folder = .free [] "packages" := by
      have none : Table.find? d "packages" = none := by
        rw [Disk.item?_cons] at free
        cases found : Table.find? d "packages" with
        | none => rfl
        | some n =>
          rw [found] at free
          simp at free
      have walked : Disk.walk d [] ([] ++ ["packages"]) = .free [] "packages" := Disk.walk_eq_free (by decide) rfl none
      exact walked
    obtain ⟨e, made⟩ : ∃ e, d.makeFolder folder = .ok e := by
      unfold Disk.makeFolder
      dsimp only
      rw [bare_folder, led]
      exact ⟨_, rfl⟩
    obtain ⟨t, leads, -, rest⟩ := Disk.item?_makeFolder made
    obtain rfl : t = ["packages"] := Option.some.inj (leads.symm.trans (by decide))
    refine ⟨e, ?_, rest⟩
    rw [ensureFolder_eq, made]
    rfl
  · refine ⟨d, ensureFolder_eq_self there, fun place => ?_⟩
    split
    · rename_i same
      rw [same, there]
    · rfl

theorem decodeUtf8_of_decode {text : List Char} (decoded : Text.decode content = .ok text) :
    Value.decodeUtf8 content = .ok text := by
  unfold Value.decodeUtf8
  rw [decoded]

theorem exists_decode_of_indexOf (loaded : indexOf (.ok content) = .ok index) : ∃ text, Text.decode content = .ok text := by
  cases decoded : Text.decode content with
  | ok text => exact ⟨text, rfl⟩
  | error e =>
    have failed : indexOf (.ok content) =
        .error (Value.decodeFault "utf-8" content e.position e.count e.problem.label) := by
      have text : textOf (.ok content) =
          .error (Value.decodeFault "utf-8" content e.position e.count e.problem.label) := by
        change (Value.decodeUtf8 content >>= fun cs => .ok (Text.universalNewlines cs)) = _
        unfold Value.decodeUtf8
        rw [decoded]
        rfl
      unfold indexOf
      rw [text]
      rfl
    rw [failed] at loaded
    cases loaded

/-- What the index can be loaded from. -/
theorem exists_indexOf_iff (lone : i ≠ some .folder) : (∃ index, indexOf (bytesAt i) = .ok index) ↔ Loadable i := by
  rcases i with _ | (⟨content, mode⟩ | _)
  · exact ⟨fun _ => trivial, fun _ => ⟨.obj [], rfl⟩⟩
  · constructor
    · rintro ⟨index, loaded⟩
      obtain ⟨text, decoded⟩ := exists_decode_of_indexOf loaded
      refine ⟨text, decoded, fun count read => ?_⟩
      have failed : indexOf (.ok content) = .error (.digitLimitReading count) := by
        rw [indexOf_decoded (decodeUtf8_of_decode decoded), Json.ofText, read]
        rfl
      cases failed.symm.trans loaded
    · rintro ⟨text, decoded, short⟩
      refine exists_indexOf (decodeUtf8_of_decode decoded) fun f failed => ?_
      unfold Json.ofText at failed
      split at failed
      · cases failed
      · rename_i e read
        cases failed
        cases e with
        | unexpected p pos => rfl
        | digits count => exact absurd read (short count)
  · exact absurd rfl lone

theorem lookOf_of_indexOf (loaded : indexOf (bytesAt i) = .ok index) : lookOf (bytesAt i) = .ok () := by
  rcases i with _ | (⟨content, mode⟩ | _)
  · rfl
  · have file : bytesAt (some (.file content mode)) = .ok content := rfl
    rw [file] at loaded ⊢
    unfold lookOf
    dsimp only
    split
    · obtain ⟨text, decoded⟩ := exists_decode_of_indexOf loaded
      rw [decodeUtf8_of_decode decoded]
      rfl
    · rw [loaded]
      rfl
  · cases loaded

/-- The index can be looked at, where it is looked for. -/
structure InPlace (d : Disk) : Prop where
  packages : d.item? ["packages"] = some .folder
  lone : d.item? indexPlace ≠ some .folder
  looks : lookOf (d.read indexFile) = .ok ()

theorem InPlace.run_touch {w : World} (ready : InPlace w.disk) : touch.run.run w = (.ok (), w) := by
  rw [Pkg.run_touch (ensureFolder_eq_self ready.packages), ready.looks]
  rfl

end Pkg

namespace Run

variable {w : World} {s : Session}

def launched (w : World) : Except Stop Session :=
  (start.run.run w).1.map fun s => { s with depot := { s.depot with world := (start.run.run w).2 } }

theorem exists_run_start (orderly : Pkg.Orderly w.disk) :
    ∃ e : Disk, (∀ place, e.item? place = if place = ["packages"] then some .folder else w.disk.item? place) ∧
      start.run.run w =
        (((Pkg.indexOf (Pkg.bytesAt (w.disk.item? Pkg.indexPlace))).mapError Stop.fault).map fun index =>
          { depot := { index } }, { w with disk := e }) := by
  obtain ⟨e, made, items⟩ := Pkg.exists_ensureFolder orderly.packages
  have read : e.read Pkg.indexFile = Pkg.bytesAt (w.disk.item? Pkg.indexPlace) := by
    rw [Pkg.read_indexFile (by rw [items, if_pos rfl]), items, if_neg (by decide)]
  refine ⟨e, items, ?_⟩
  unfold start
  rw [ExceptT.run_bind, StateT.run_bind, Pkg.run_init made, read]
  cases Pkg.indexOf (Pkg.bytesAt (w.disk.item? Pkg.indexPlace)) <;> rfl

/-- A session can be made exactly if the index can be loaded. -/
theorem exists_launched_iff (orderly : Pkg.Orderly w.disk) :
    (∃ s, launched w = .ok s) ↔ Pkg.Loadable (w.disk.item? Pkg.indexPlace) := by
  obtain ⟨e, -, ran⟩ := exists_run_start orderly
  rw [← Pkg.exists_indexOf_iff orderly.lone]
  unfold launched
  rw [ran]
  cases loaded : Pkg.indexOf (Pkg.bytesAt (w.disk.item? Pkg.indexPlace)) with
  | ok index => exact ⟨fun _ => ⟨index, rfl⟩, fun _ => ⟨_, rfl⟩⟩
  | error f => exact ⟨fun ⟨_, made⟩ => (by cases made), fun ⟨_, made⟩ => (by cases made)⟩

/-- A session that is made is empty, and ready to look at the index. -/
theorem exists_of_launched (orderly : Pkg.Orderly w.disk) (made : launched w = .ok s) :
    ∃ (e : Disk) (index : Json),
      (∀ place, e.item? place = if place = ["packages"] then some .folder else w.disk.item? place) ∧ Pkg.InPlace e ∧
      s = { depot := { index, world := { w with disk := e } } } := by
  obtain ⟨e, items, ran⟩ := exists_run_start orderly
  unfold launched at made
  rw [ran] at made
  cases loaded : Pkg.indexOf (Pkg.bytesAt (w.disk.item? Pkg.indexPlace)) with
  | error f =>
    rw [loaded] at made
    cases made
  | ok index =>
    rw [loaded] at made
    have packages : e.item? ["packages"] = some .folder := by rw [items, if_pos rfl]
    have kept : e.item? Pkg.indexPlace = w.disk.item? Pkg.indexPlace := by rw [items, if_neg (by decide)]
    refine ⟨e, index, items, ⟨packages, by rw [kept]; exact orderly.lone, ?_⟩, (Except.ok.inj made).symm⟩
    rw [Pkg.read_indexFile packages, kept]
    exact Pkg.lookOf_of_indexOf loaded

/-! ## Sessions beside each other -/

def beside (index : Json) (disk : Disk) (s : Session) : Session :=
  { s with depot := { s.depot with index, world := { s.depot.world with disk } } }

/-- Sessions that differ in the index only, and are ready to look at it. -/
inductive Beside : Session → Session → Prop
  | mk (s : Session) (index : Json) (disk : Disk) (same : Disk.SameOutside Pkg.indexPlace s.depot.world.disk disk)
      (left : Pkg.InPlace s.depot.world.disk) (right : Pkg.InPlace disk) : Beside s (beside index disk s)

theorem setsVars_beside : SetsVars Beside := by
  rintro s _ ⟨index, disk, same, left, right⟩ v
  exact .mk _ index disk same left right

theorem tracks_act_beside {α : Type} {x : Act α}
    (blind : ∀ w disk, x.run.run { w with disk } = ((x.run.run w).1, { (x.run.run w).2 with disk }))
    (keeps : ∀ w, (x.run.run w).2.disk = w.disk) : Tracks False Beside (act x) (act x) := by
  rintro s _ ⟨index, disk, same, left, right⟩
  have kept := keeps s.depot.world
  refine Or.inr ?_
  rw [outcome_act, outcome_act]
  have ran := blind s.depot.world disk
  unfold beside
  rw [ran]
  refine ⟨rfl, .mk _ index disk ?_ ?_ right⟩
  · rw [kept]
    exact same
  · rw [kept]
    exact left

theorem reads_readLines (p : List Char) (w : World) :
    Act.Reads (Act.readLines p) w (do
      let bytes ← w.disk.read p
      (Act.linesOf bytes).2.elim (.ok (Act.linesOf bytes).1) .error) := by
  have bytes : Act.Reads (Act.readBytes p) w (w.disk.read p) := .check _
  refine bytes.bind fun bs => ?_
  rcases Act.linesOf bs with ⟨lines, _ | f⟩ <;> rfl

theorem sees_beside : Sees Beside where
  vars h := by cases h; rfl
  store h := by cases h; rfl
  setStore h _ := by cases h; constructor <;> assumption
  touch := by
    rintro s _ ⟨index, disk, same, left, right⟩
    refine Or.inr ?_
    have idle := right.run_touch (w := { s.depot.world with disk })
    rw [outcome_act, outcome_act, left.run_touch]
    unfold beside
    rw [idle]
    exact ⟨rfl, .mk _ index disk same left right⟩
  note text := by
    refine .session fun s t h => ?_
    have debug : t.debug = s.debug := by cases h; rfl
    rw [debug]
    split
    · exact tracks_act_beside (fun _ _ => rfl) (fun _ => rfl) s t h
    · exact Tracks.pure _ s t h
  say text := tracks_act_beside (fun _ _ => rfl) fun _ => rfl
  ask prompt := by
    refine tracks_act_beside (fun w disk => ?_) fun w => ?_
    all_goals
      rcases w with ⟨_, _, _, _ | ⟨_ | _, _⟩, _⟩
      all_goals rfl
  denied h := by cases h; rfl
  isFile := by
    rintro s _ ⟨index, disk, same, left, right⟩ p script
    exact Disk.isFile_script same left.lone right.lone script
  readLines := by
    rintro s _ ⟨index, disk, same, left, right⟩ p script there
    have reads := reads_readLines p s.depot.world
    have reads' := reads_readLines p { s.depot.world with disk }
    refine Or.inr ?_
    rw [outcome_act, outcome_act, reads]
    unfold beside
    rw [reads', Disk.read_script same left.lone script there]
    exact ⟨rfl, .mk _ index disk same left right⟩

theorem shares_beside : Shares Beside Eq where
  toComputes := sees_beside.toComputes
  assigns := sees_beside.assigns_of_setsVars setsVars_beside
  aliases h := by cases h; rfl
  setAlias h _ _ _ := by cases h; constructor <;> assumption
  setShown h _ := by cases h; constructor <;> assumption
  loops h := by cases h; rfl
  collects h _ _ _ _ := by cases h; constructor <;> assumption
  setLoops h _ _ := by cases h; constructor <;> assumption
  same _ := rfl
  number h := by cases h; rfl
  setNumber := by rintro s _ ⟨index, disk, same, left, right⟩ n _ rfl; exact .mk _ index disk same left right

theorem counts_beside : Counts Beside where
  jumps h := by cases h; rfl
  setJumps h _ := by cases h; constructor <;> assumption

theorem defines_beside : Defines Beside where
  ifs h := by cases h; rfl
  elses h := by cases h; rfl
  setIfs h _ := by cases h; constructor <;> assumption
  setElses h _ := by cases h; constructor <;> assumption
  defining h := by cases h; rfl
  enter h _ _ _ _ := by cases h; constructor <;> assumption
  keepLine h _ := by cases h; constructor <;> assumption
  finish h _ := by cases h; constructor <;> assumption

/-- A line that asks for no package does the same beside another index. -/
theorem tracks_selfContained (depth : Nat) : TracksLines True Beside Eq (selfContained.runner depth) (runner depth) := by
  refine Tracks.watchedLines rfl shares_beside defines_beside sees_beside
    (fun hrun s t h command code indent importing permitted => ?_) depth
  have hprogram := Tracks.programWith shares_beside hrun counts_beside
  refine Tracks.execute shares_beside defines_beside hrun sees_beside h command code indent importing ?_
    (fun _ => hprogram) (fun _ => ?_)
  · rintro rfl
    cases permitted
  · refine Tracks.call shares_beside hrun sees_beside setsVars_beside h _ _ ?_
    cases h
    exact ⟨rfl, fun _ => rfl⟩

/-- Sessions that are made in worlds which differ in the index only stand beside each other. -/
theorem beside_of_launched {d e : Disk} (left : Pkg.Orderly d) (right : Pkg.Orderly e)
    (same : ∀ place, place ≠ ["packages"] → ¬ Pkg.indexPlace <+: place → e.item? place = d.item? place) {t : Session}
    (madeLeft : launched { w with disk := d } = .ok s) (madeRight : launched { w with disk := e } = .ok t) :
    Beside s t := by
  obtain ⟨d', -, itemsLeft, readyLeft, rfl⟩ := exists_of_launched (w := { w with disk := d }) left madeLeft
  obtain ⟨e', index, itemsRight, readyRight, rfl⟩ := exists_of_launched (w := { w with disk := e }) right madeRight
  refine .mk _ index e' (fun place apart => ?_) readyLeft readyRight
  rw [itemsLeft, itemsRight]
  split
  · rfl
  · rename_i other
    exact same place other apart

/-- **What the index of packages holds is not seen.** A session can be made whether or not the text is of any use as an index, but
for a whole number with too many digits. And two worlds that differ in the index only run every program that asks for no
package alike. -/
theorem index_content_unseen (w : World) :
    (∀ d, Pkg.Orderly d →
      ((∃ s, launched { w with disk := d } = .ok s) ↔ Pkg.Loadable (d.item? Pkg.indexPlace))) ∧
      ∀ d e, Pkg.Orderly d → Pkg.Orderly e →
        (∀ place, place ≠ ["packages"] → ¬ Pkg.indexPlace <+: place → e.item? place = d.item? place) →
        ∀ s t, launched { w with disk := d } = .ok s → launched { w with disk := e } = .ok t →
        ∀ depth lines, ((programWith (selfContained.runner depth) lines).outcome s).1 ≠ .error givenUp →
          ∃ r u index disk, (programWith (runner depth) lines).outcome s = (r, u) ∧
            (programWith (runner depth) lines).outcome t = (r, beside index disk u) ∧
            Disk.SameOutside Pkg.indexPlace u.depot.world.disk disk := by
  refine ⟨fun d orderly => exists_launched_iff (w := { w with disk := d }) orderly, ?_⟩
  intro d e left right same s t madeLeft madeRight depth lines alone
  have related := beside_of_launched left right same madeLeft madeRight
  have itself := Tracks.programWith shares_true (tracks_watched (w := selfContained) rfl s depth)
    (counts_since loose_true.toStable loose_true.jumps) lines s s ⟨rfl, trivial⟩
  have other := Tracks.programWith shares_beside (tracks_selfContained depth) counts_beside lines s t related
  rcases itself with ⟨-, given⟩ | ⟨ended, stays, -⟩
  · exact absurd given alone
  rcases other with ⟨-, given⟩ | ⟨ended', beside⟩
  · exact absurd given alone
  rw [Prod.ext ended.symm stays] at ended' beside
  generalize (programWith (runner depth) lines).outcome s = first at ended' beside ⊢
  generalize (programWith (runner depth) lines).outcome t = second at ended' beside ⊢
  obtain ⟨r, u⟩ := first
  obtain ⟨q, v⟩ := second
  obtain rfl : q = r := ended'
  have last : Beside u v := beside
  obtain ⟨index, disk, outside, -, -⟩ := last
  exact ⟨q, u, index, disk, rfl, rfl, outside⟩

def withIndex (content : Text.Bytes) : Disk := [("packages", .folder [("gpd_index.json", .file content Disk.newMode)])]

theorem orderly_withIndex (content : Text.Bytes) : Pkg.Orderly (withIndex content) where
  packages := Or.inr rfl
  lone := nofun

theorem item?_withIndex (content : Text.Bytes) (place : List String) (other : place ≠ ["packages"])
    (apart : ¬ Pkg.indexPlace <+: place) : (withIndex content).item? place = Disk.item? [] place := by
  cases place with
  | nil => rfl
  | cons x rest =>
    by_cases packages : x = "packages"
    · subst packages
      cases rest with
      | nil => exact absurd rfl other
      | cons y rest =>
        have name : y ≠ "gpd_index.json" := by
          rintro rfl
          exact apart ⟨rest, rfl⟩
        simp [withIndex, Disk.item?_cons, Table.find?, List.lookup, beq_eq_false_iff_ne.mpr name]
    · simp [withIndex, Disk.item?_cons, Table.find?, List.lookup, beq_eq_false_iff_ne.mpr packages]

def onDisk (disk : Disk) : Session := { depot := { world := { disk } } }

/-- A program that asks for no package, with an error in it. -/
def plainLines : List (List Char) := ["x=\"a\"", "print x", "y=x+z"].map String.toList

/-- With no index, and with one that is a text but no form of an index. -/
theorem index_content_unseen_badForm :
    launched {} = .ok (onDisk [("packages", .folder [])]) ∧
      launched { disk := withIndex [0x7b] } = .ok (onDisk (withIndex [0x7b])) ∧
      ((programWith (selfContained.runner maxLevels) plainLines).outcome (onDisk [("packages", .folder [])])).1 ≠
        .error givenUp ∧
      ∃ r u index disk, (program plainLines).outcome (onDisk [("packages", .folder [])]) = (r, u) ∧
        (program plainLines).outcome (onDisk (withIndex [0x7b])) = (r, beside index disk u) := by
  have left : launched {} = .ok (onDisk [("packages", .folder [])]) := rfl
  have right : launched { disk := withIndex [0x7b] } = .ok (onDisk (withIndex [0x7b])) := rfl
  have alone : ((programWith (selfContained.runner maxLevels) plainLines).outcome (onDisk [("packages", .folder [])])).1 ≠
      .error givenUp := by
    decide +kernel
  obtain ⟨r, u, index, disk, ran, ran', -⟩ := (index_content_unseen {}).2 [] (withIndex [0x7b]) ⟨Or.inl rfl, nofun⟩
    (orderly_withIndex _) (item?_withIndex _) _ _ left right maxLevels plainLines alone
  exact ⟨left, right, alone, r, u, index, disk, ran, ran'⟩

/-- A session cannot be made where the index is no text. -/
theorem undecodable_index_stops :
    launched { disk := withIndex [0xff] } =
        .error (.fault (.primitive .decode "'utf-8' codec can't decode byte 0xff in position 0: invalid start byte")) ∧
      ∃ s, launched {} = .ok s :=
  ⟨by decide +kernel, _, rfl⟩

end Run

end LineScript
