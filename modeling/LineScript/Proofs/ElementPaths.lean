
import LineScript.Proofs.ArrayAccess
import LineScript.Proofs.PackageAgreement
import LineScript.Proofs.VariableNames

/-!
# Elements that are written and read

Reading an element follows all its indices, and writing one looks at the first index only. So what is written at a place of a
list is read there (`assigned_element_is_read`), and a value for a place in an inner list takes the place of the inner list.
-/

namespace LineScript

open Text Number LineScript.Expr
open List hiding find?

/-- What stands in a list; nothing else has elements. -/
def Store.elements (s : Store) : Value → List Value
  | .list ref => s.items ref
  | _ => []

/-- The value that places in lists lead to. -/
def Store.at? (s : Store) (v : Value) (path : List Numeral) : Option Value :=
  path.foldlM (fun v n => (s.elements v)[n.value]?) v

theorem Store.at?_cons (s : Store) (v : Value) (n : Numeral) (path : List Numeral) :
    s.at? v (n :: path) = ((s.elements v)[n.value]?).bind (s.at? · path) := foldlM_cons

/-- A list is in no list that is reached from it, itself included. -/
def Store.Unshared (s : Store) (ref : Nat) : Prop := ∀ path, path ≠ [] → s.at? (.list ref) path ≠ some (.list ref)

/-- A list that is not come by can be changed. -/
theorem Store.at?_setItems {s : Store} {ref : Nat} {v : Value} (apart : ∀ path, s.at? v path ≠ some (.list ref))
    (items : List Value) (path : List Numeral) : (s.setItems ref items).at? v path = s.at? v path := by
  induction path generalizing v with
  | nil => rfl
  | cons n path ih =>
    have same : (s.setItems ref items).elements v = s.elements v := by
      cases v with
      | list other => exact items_setItems_of_ne s (fun same => apart [] (by rw [same]; rfl)) items
      | _ => rfl
    rw [at?_cons, at?_cons, same]
    cases found : (s.elements v)[n.value]? with
    | none => rfl
    | some w => exact ih fun path reached => apart (n :: path) (by rw [at?_cons, found]; exact reached)

/-- Places in a list with a new element. -/
theorem Store.at?_set {s : Store} {ref : Nat} {n m : Numeral} (inside : n.value < (s.items ref).length) (v : Value)
    (unshared : s.Unshared ref) (path : List Numeral) :
    (s.setItems ref ((s.items ref).set n.value v)).at? (.list ref) (m :: path) =
      if n.value = m.value then (s.setItems ref ((s.items ref).set n.value v)).at? v path
      else s.at? (.list ref) (m :: path) := by
  have there : ref < s.lists.size := Nat.lt_of_not_le fun outside => by
    simp [Store.items, Array.getElem?_eq_none outside] at inside
  have items : (s.setItems ref ((s.items ref).set n.value v)).elements (.list ref) = (s.items ref).set n.value v :=
    items_setItems_self there _
  rw [at?_cons, items]
  split
  · rename_i same
    rw [← same, getElem?_set_self inside]
    rfl
  · rename_i other
    rw [getElem?_set_ne other, at?_cons]
    cases found : (s.elements (.list ref))[m.value]? with
    | none => rw [show (s.items ref)[m.value]? = none from found]; rfl
    | some w =>
      rw [show (s.items ref)[m.value]? = some w from found]
      refine at?_setItems (fun path reached => unshared (m :: path) (cons_ne_nil _ _) ?_) _ path
      rw [at?_cons, found]
      exact reached

namespace Run

variable {s t u : Session} {v w : Value} {name : List Char} {n : Numeral} {path : List Numeral} {ref : Nat}

/-- Indices that are written as numerals. -/
def indicesText (path : List Numeral) : List Char := bracketed (path.map fun n => decimalText n.value)

theorem indicesText_cons (n : Numeral) (path : List Numeral) :
    indicesText (n :: path) = '[' :: (decimalText n.value ++ ']' :: indicesText path) := by simp [indicesText, bracketed]

theorem length_le_indicesText (path : List Numeral) : path.length ≤ (indicesText path).length := by
  induction path with
  | nil => exact Nat.zero_le _
  | cons n path ih =>
    rw [indicesText_cons]
    simp
    omega

theorem bracket_not_mem_decimalText (n : Nat) : ']' ∉ decimalText n := fun mem =>
  absurd (isDigit_of_mem_decimalText mem) (by decide)

/-- An element is where its index says, and only lists have any. -/
theorem elementAt_numeral : (elementAt w (.int n.value)).outcome s = (.ok v, t) ↔
    t = s ∧ (s.depot.world.store.elements w)[n.value]? = some v := by
  rw [elementAt_eq_ok_iff]
  refine and_congr_right fun _ => ⟨?_, fun found => ?_⟩
  · rintro ⟨ref, k, rfl, count, found⟩
    cases count
    exact found
  · cases w with
    | list ref => exact ⟨ref, n.value, rfl, rfl, found⟩
    | _ => cases found

/-- Indices that are numerals lead where the places do. -/
theorem followIndices_numerals {fuel : Nat} (enough : path.length ≤ fuel) :
    (followIndices fuel w (indicesText path)).outcome s = (.ok v, t) ↔ t = s ∧ s.depot.world.store.at? w path = some v := by
  induction path generalizing fuel w with
  | nil =>
    rw [followIndices_rest (by simp [indicesText, bracketed])]
    constructor
    · rintro ⟨⟩
      exact ⟨rfl, rfl⟩
    · rintro ⟨rfl, ⟨⟩⟩
      rfl
  | cons n path ih =>
    cases fuel with
    | zero => cases enough
    | succ fuel =>
      rw [indicesText_cons, followIndices_index (bracket_not_mem_decimalText _), bind_eq_ok_iff]
      simp only [wrappingForeign_eq_ok_iff, bind_ok (outcome_value (evaluate_decimalText s.vars n)),
        elementAt_numeral]
      constructor
      · rintro ⟨next, _, ⟨rfl, element⟩, further⟩
        obtain ⟨rfl, found⟩ := (ih (Nat.le_of_succ_le_succ enough)).mp further
        refine ⟨rfl, ?_⟩
        rw [Store.at?_cons, element]
        exact found
      · rintro ⟨rfl, found⟩
        rw [Store.at?_cons] at found
        obtain ⟨next, element, found⟩ := Option.bind_eq_some_iff.mp found
        exact ⟨next, t, ⟨rfl, element⟩, (ih (Nat.le_of_succ_le_succ enough)).mpr ⟨rfl, found⟩⟩

/-- The element of a variable is the one that its places lead to. -/
theorem accessArray_indicesText (free : '[' ∉ name) :
    (accessArray (name ++ indicesText (n :: path))).outcome s = (.ok v, t) ↔
      ∃ w, s.vars.find? (String.ofList (strip name)) = some w ∧ (act Pkg.touch).outcome s = (.ok (), t) ∧
        t.depot.world.store.at? w (n :: path) = some v := by
  have enough := Nat.le_succ_of_le (length_le_indicesText (n :: path))
  unfold accessArray
  rw [indicesText_cons] at enough ⊢
  rw [splitBracket?_append free, bind_eq_ok_iff]
  simp only [variableNamed_eq_ok_iff]
  rw [← indicesText_cons] at enough ⊢
  constructor
  · rintro ⟨w, _, ⟨rfl, found⟩, looked⟩
    obtain ⟨_, u, touched, followed⟩ := bind_eq_ok_iff.mp looked
    obtain ⟨rfl, element⟩ := (followIndices_numerals enough).mp followed
    exact ⟨w, found, touched, element⟩
  · rintro ⟨w, found, touched, element⟩
    have followed := (followIndices_numerals enough).mpr ⟨rfl, element⟩
    exact ⟨w, s, ⟨rfl, found⟩, bind_eq_ok_iff.mpr ⟨(), t, touched, followed⟩⟩

theorem exists_accessArray_iff (free : '[' ∉ name) (touched : (act Pkg.touch).outcome s = (.ok (), u)) :
    (∃ t, (accessArray (name ++ indicesText (n :: path))).outcome s = (.ok v, t)) ↔
      ∃ w, s.vars.find? (String.ofList (strip name)) = some w ∧ u.depot.world.store.at? w (n :: path) = some v := by
  simp only [accessArray_indicesText free, touched]
  constructor
  · rintro ⟨_, w, found, ⟨⟩, element⟩
    exact ⟨w, found, element⟩
  · rintro ⟨w, found, element⟩
    exact ⟨u, w, found, rfl, element⟩

/-- The index of an assignment ends at the first bracket that closes. -/
theorem indexText_eq (free : '[' ∉ name) (free' : ']' ∉ name) (n : Nat) (rest : List Char) :
    (find? [']'] (name ++ '[' :: (decimalText n ++ ']' :: rest))).map (fun stop =>
        ((name ++ '[' :: (decimalText n ++ ']' :: rest)).take stop).drop
          (((name ++ '[' :: (decimalText n ++ ']' :: rest)).takeWhile (· ≠ '[')).length + 1)) = some (decimalText n) := by
  have closing := findFrom_append (a := name ++ '[' :: decimalText n) (c := ']')
    (by simp [free', bracket_not_mem_decimalText]) rest 0
  have passed : ∀ c ∈ name, decide (c ≠ '[') = true := fun c member => decide_eq_true fun same => free (same ▸ member)
  rw [append_assoc, cons_append] at closing
  rw [find?, closing, takeWhile_append_of_pos passed]
  simp [take_length_add_append, drop_length_add_append]

theorem leads_display_int {v : Int} (short : v.natAbs < Nat.pow 10 maxDigits) {post : String → Session → Prop}
    {stop : Stop → Session → Prop} (go : ∀ text, post text s) : Leads (display (.int v)) s post stop := by
  obtain ⟨text, shown⟩ := exists_display short s.depot.world.store
  refine leads_display (fun text _ => go text) fun f failed => ?_
  cases shown.symm.trans failed

/-- Assigning to an element replaces it and shows a note at most. -/
theorem leads_assignElement_numeral (free : '[' ∉ name) (free' : ']' ∉ name) {v : Int} (short : v.natAbs < Nat.pow 10 maxDigits)
    (found : s.vars.find? (String.ofList (strip name)) = some (.list ref)) (touched : (act Pkg.touch).outcome s = (.ok (), u))
    (inside : n.value < (u.depot.world.store.items ref).length) (path : List Numeral) :
    Leads (assignElement (name ++ indicesText (n :: path)) (.int v)) s
      (fun _ t => Shows (replaced ref n.value (.int v) u) t) fun _ _ => False := by
  have evaluated : (evaluate (decimalText n.value)).outcome s = (.ok (.int n.value), u) :=
    (bind_ok touched).trans (outcome_value (evaluate_decimalText u.vars n))
  obtain ⟨stop, closing, index⟩ := Option.map_eq_some_iff.mp (indexText_eq free free' n.value (indicesText path))
  unfold assignElement
  rw [indicesText_cons, splitBracket?_append free]
  refine .bind (leads_variableNamed (fun w list => ?_) fun none => ?_)
  · cases found.symm.trans list
    dsimp only
    rw [closing]
    dsimp only
    rw [index, wrappingForeign_eq]
    refine leads_reworded (.bind (.of_ok evaluated (.bind (leads_indexValue (fun k count => ?_) ?_)))) _
    · cases count
      refine .bind (leads_world (.bind ((leads_elementPlace _ _ _).mono ?_ ?_)))
      · rintro i _ ⟨rfl, same, -⟩
        cases Int.ofNat.inj same
        refine .bind (leads_act (.modify (.bind (leads_display_int (natAbs_numeral n) fun _ => .bind ?_))))
        exact leads_display_int short fun _ => leads_note (.refl _) ⟨_, rfl⟩
      · rintro _ _ ⟨rfl, outside⟩
        omega
    · rintro ⟨⟩
  · cases found.symm.trans none

/-- A look at the index of packages changes the disk at most, and a second one nothing. -/
theorem exists_disk_of_touched (touched : (act Pkg.touch).outcome s = (.ok (), u)) :
    ∃ disk, u = { s with depot := { s.depot with world := { s.depot.world with disk } } } ∧ Pkg.look disk = (.ok (), disk) := by
  rw [outcome_act, Pkg.run_touch_eq] at touched
  have again := Pkg.look_twice s.depot.world.disk
  rcases looked : Pkg.look s.depot.world.disk with ⟨f | _, disk⟩
  · rw [looked] at touched
    cases touched
  · rw [looked] at touched again
    cases touched
    exact ⟨disk, rfl, again⟩

theorem outcome_touch_again (looked : Pkg.look s.depot.world.disk = (.ok (), s.depot.world.disk)) :
    (act Pkg.touch).outcome s = (.ok (), s) := by
  rw [outcome_act, Pkg.run_touch_eq, looked]
  rfl

/-- **What is assigned to an element is read there, and other elements are as before.** The list is not reached from itself,
and the indices are numerals, of which the first one counts. -/
theorem assigned_element_is_read (free : '[' ∉ name ∧ ']' ∉ name)
    (found : s.vars.find? (String.ofList (strip name)) = some (.list ref)) (unshared : s.depot.world.store.Unshared ref)
    (accessed : (accessArray (name ++ indicesText (n :: path))).outcome s = (.ok w, u)) {v : Int}
    (short : v.natAbs < Nat.pow 10 maxDigits) :
    ∃ t, (assignElement (name ++ indicesText (n :: path)) (.int v)).outcome s = (.ok (), t) ∧
      (∃ t', (accessArray (name ++ indicesText [n])).outcome t = (.ok (.int v), t')) ∧
      ∀ m path, m.value ≠ n.value → ∀ x,
        (∃ t', (accessArray (name ++ indicesText (m :: path))).outcome t = (.ok x, t')) ↔
          ∃ s', (accessArray (name ++ indicesText (m :: path))).outcome s = (.ok x, s') := by
  obtain ⟨_, found', touched, element⟩ := (accessArray_indicesText free.1).mp accessed
  cases found.symm.trans found'
  obtain ⟨disk, rfl, looked⟩ := exists_disk_of_touched touched
  have inside : n.value < (s.depot.world.store.items ref).length := by
    rw [Store.at?_cons] at element
    obtain ⟨_, here, -⟩ := Option.bind_eq_some_iff.mp element
    exact (List.getElem?_eq_some_iff.mp here).1
  obtain ⟨_, t, assigned, shows⟩ :=
    (leads_assignElement_numeral free.1 free.2 short found touched inside path).exists_run
  have kept : t.vars = s.vars ∧ t.depot.world.disk = disk ∧ t.depot.world.store =
      s.depot.world.store.setItems ref ((s.depot.world.store.items ref).set n.value (.int v)) := by
    obtain ⟨output, rfl⟩ := shows
    exact ⟨rfl, rfl, rfl⟩
  obtain ⟨vars, rfl, store⟩ := kept
  have again := outcome_touch_again looked
  refine ⟨t, assigned, ?_, fun m path other x => ?_⟩
  · refine (exists_accessArray_iff free.1 again).mpr ⟨.list ref, vars ▸ found, ?_⟩
    rw [store, Store.at?_set inside _ unshared, if_pos rfl]
    rfl
  · rw [exists_accessArray_iff free.1 again, exists_accessArray_iff free.1 touched, vars]
    refine exists_congr fun w => and_congr_right fun found' => ?_
    cases found.symm.trans found'
    rw [store, Store.at?_set inside _ unshared, if_neg other.symm]

theorem unshared_listing : listing.depot.world.store.Unshared 0 := by
  rintro (_ | ⟨⟨k, short⟩, path⟩) filled
  · exact absurd rfl filled
  · rw [Store.at?_cons]
    rcases k with _ | _ | k <;> cases path <;> rintro ⟨⟩

/-- Assigning to the second of two elements. -/
theorem assigned_element_is_read_listing :
    ∃ n : Numeral, n.value = 1 ∧
      ∃ t, (assignElement ("x".toList ++ indicesText [n]) (.int 9)).outcome listing = (.ok (), t) ∧
        ∃ t', (accessArray ("x".toList ++ indicesText [n])).outcome t = (.ok (.int 9), t') := by
  have there : ((accessArray ("x".toList ++ indicesText [smallNumeral 1 (by decide)])).outcome listing).1.isOk = true := by
    decide +kernel
  rcases accessed : (accessArray ("x".toList ++ indicesText [smallNumeral 1 (by decide)])).outcome listing with ⟨e | w, u⟩
  · rw [accessed] at there
    cases there
  · obtain ⟨t, assigned, read, -⟩ := assigned_element_is_read (by decide) rfl unshared_listing accessed
      (natAbs_numeral (smallNumeral 9 (by decide)))
    exact ⟨_, rfl, t, assigned, read⟩

/-- A session with a list in a list. -/
def nestedListing : Session := { vars := [("x", .list 0)], depot.world.store.lists := #[[.list 1], [.int 1, .int 2]] }

/-- A value for an element of the inner list takes the place of this list. -/
theorem inner_list_is_replaced :
    ((accessArray "x[0][1]".toList).outcome nestedListing).1.toOption.bind Value.count? = some 2 ∧
      ((assignElement "x[0][1]".toList (.int 5)).outcome nestedListing).1.isOk = true ∧
      ((accessArray "x[0][1]".toList).outcome ((assignElement "x[0][1]".toList (.int 5)).outcome nestedListing).2).1.isOk =
        false :=
  ⟨by decide +kernel, by decide +kernel, by decide +kernel⟩

end Run

end LineScript
