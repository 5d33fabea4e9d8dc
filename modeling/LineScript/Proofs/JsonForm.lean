
import LineScript.Json.Reader
import LineScript.Proofs.TokenSource
import LineScript.Proofs.TokenText

/-!
# The form of JSON values

A value is well-formed if no object in it has two fields of one name and no whole number in it is longer than can be
read. Whatever is read from a text is well-formed (`wellFormed_ofText`), and so is what the fields of such a value are
changed to one by one.
-/

namespace LineScript

open List

namespace Json

/-- No object has two fields of one name, and no whole number is too long to be read. -/
inductive WellFormed : Json → Prop
  | null : WellFormed .null
  | bool (b : Bool) : WellFormed (.bool b)
  | int {n : Int} (short : n.natAbs < Nat.pow 10 Number.maxDigits) : WellFormed (.int n)
  | float (x : Float) : WellFormed (.float x)
  | str (s : String) : WellFormed (.str s)
  | arr {items : List Json} (each : ∀ j ∈ items, WellFormed j) : WellFormed (.arr items)
  | obj {fields : Table Json} (distinct : fields.names.Nodup) (each : ∀ f ∈ fields, WellFormed f.2) :
      WellFormed (.obj fields)

namespace WellFormed

variable {x : String} {v j k : Json}

theorem field {fields : Table Json} (whole : WellFormed (.obj fields)) (found : fields.find? x = some v) : WellFormed v := by
  cases whole with
  | obj _ each => exact each _ (Table.mem_of_find? found)

theorem need (whole : WellFormed j) (found : j.need x = .ok v) : WellFormed v := by
  unfold Json.need at found
  split at found
  · split at found
    · rename_i value there
      cases found
      exact whole.field there
    · cases found
  all_goals cases found

theorem get? (whole : WellFormed j) (found : j.get? x = .ok (some v)) : WellFormed v := by
  unfold Json.get? at found
  split at found
  · exact whole.field (Except.ok.inj found)
  · cases found

theorem setField (whole : WellFormed j) (part : WellFormed v) (changed : j.setField x v = .ok k) : WellFormed k := by
  cases whole with
  | obj distinct each =>
    cases changed
    refine .obj (Table.nodup_names_set distinct x v) fun f member => ?_
    rcases Table.mem_set member with rfl | old
    · exact part
    · exact each f old
  | _ => cases changed

theorem deleteField (whole : WellFormed j) (changed : j.deleteField x = .ok k) : WellFormed k := by
  cases whole with
  | obj distinct each =>
    unfold Json.deleteField at changed
    dsimp only at changed
    split at changed
    · cases changed
      exact .obj (Table.nodup_names_erase distinct x) fun f member => each f (mem_filter.mp member).1
    · cases changed
  | _ => cases changed

end WellFormed

end Json

/-! ## Numerals that are read -/

namespace Number

theorem ofDigits_lt {base : Nat} {ds : List Char} (digits : ∀ d ∈ ds, isDigitOf base d) :
    ofDigits base ds < base ^ ds.length := by
  rcases eq_nil_or_concat ds with rfl | ⟨front, d, rfl⟩
  · simp [ofDigits]
  · rw [concat_eq_append] at digits ⊢
    have start : ofDigits base front < base ^ front.length :=
      ofDigits_lt fun c hc => digits c (mem_append_left _ hc)
    have last : (digitValue d).getD 0 < base := by
      have known := digits d (by simp)
      unfold isDigitOf at known
      cases h : digitValue d with
      | none => simp [h] at known
      | some v => simpa [h] using known
    rw [Expr.ofDigits_concat, length_append, length_singleton, Nat.pow_succ]
    calc ofDigits base front * base + (digitValue d).getD 0
        < ofDigits base front * base + base := Nat.add_lt_add_left last _
      _ = (ofDigits base front + 1) * base := by rw [Nat.succ_mul]
      _ ≤ base ^ front.length * base := Nat.mul_le_mul_right base start
termination_by ds.length

theorem digitTail_eq_some {p : Char → Bool} {s ds rest : List Char} (read : digitTail p s = some (ds, rest)) :
    (∀ d ∈ ds, p d) ∧ rest = s.dropWhile fun c => p c || c = '_' := by
  fun_induction digitTail p s generalizing ds rest with
  | case1 =>
    cases Option.some.inj read
    simp
  | case2 c cs known ih | case5 c cs _ _ known ih =>
    obtain ⟨⟨more, left⟩, inner, same⟩ := Option.map_eq_some_iff.mp read
    cases same
    simpa [known] using ih inner
  | case6 c cs _ other strange =>
    cases Option.some.inj read
    simp [other, strange]
  | _ => cases read

theorem readMagnitude_ten (s : List Char) : readMagnitude 10 s = (10, false, s) := by
  unfold readMagnitude
  split
  · split
    · rename_i c _ b known
      have other : b = 16 ∨ b = 8 ∨ b = 2 := by
        unfold markedBase at known
        split at known
        · exact .inl (Option.some.inj known).symm
        · split at known
          · exact .inr (.inl (Option.some.inj known).symm)
          · split at known
            · exact .inr (.inr (Option.some.inj known).symm)
            · cases known
      rcases other with rfl | rfl | rfl <;> rfl
    · rfl
  · rfl

/-- A whole number that is read has few enough digits, and only blanks follow them. -/
theorem readInt_eq_value {s : List Char} {n : Int} (read : readInt 10 s = .value n) :
    ∃ negative d ds es rest, splitSign ((plainDigits s).dropWhile isNumeralBlank) = (negative, d :: ds) ∧
      isDigitOf 10 d ∧ digitTail (isDigitOf 10) (d :: ds) = some (es, rest) ∧ rest.dropWhile isNumeralBlank = [] ∧
      es.length ≤ maxDigits ∧ n = if negative then -(ofDigits 10 es : Int) else ofDigits 10 es := by
  unfold readInt at read
  simp only [] at read
  rw [readMagnitude_ten] at read
  split at read
  · cases read
  · rename_i d ds shape
    split at read
    · cases read
    · rename_i digit
      split at read
      · cases read
      · rename_i es rest cut
        split at read
        · cases read
        · rename_i blank
          split at read
          · cases read
          · rename_i short
            split at read
            · cases read
            · rw [shape] at cut
              exact ⟨_, d, ds, es, rest, Prod.ext rfl shape, by simpa using digit, cut, by simpa using blank, by simpa using short,
                (IntReading.value.inj read).symm⟩

theorem natAbs_of_readInt {s : List Char} {n : Int} (read : readInt 10 s = .value n) : n.natAbs < Nat.pow 10 maxDigits := by
  obtain ⟨negative, _, _, es, _, -, -, cut, -, short, rfl⟩ := readInt_eq_value read
  have bound (limit : Nat) (h : es.length ≤ limit) : ofDigits 10 es < Nat.pow 10 limit :=
    Nat.lt_of_lt_of_le (ofDigits_lt (digitTail_eq_some cut).1) (Nat.pow_le_pow_right (by decide) h)
  split
  · rw [Int.natAbs_neg]
    exact bound _ short
  · exact bound _ short

end Number

namespace Json

variable {j k v : Json} {x : String}

/-! ## What is read -/

theorem exists_of_bind_eq_ok {ε α β : Type} {x : Except ε α} {k : α → Except ε β} {b : β} (h : (x >>= k) = .ok b) :
    ∃ a, x = .ok a ∧ k a = .ok b := by
  cases x with
  | error e => cases h
  | ok a => exact ⟨a, rfl, h⟩

theorem wellFormed_readNumber {k k' : Cursor} (read : readNumber k = .ok (j, k')) : WellFormed j := by
  unfold readNumber at read
  split at read
  · cases read
  · obtain ⟨rfl, -⟩ := Prod.mk.inj (Except.ok.inj read)
    exact .float _
  · split at read
    · rename_i known
      obtain ⟨rfl, -⟩ := Prod.mk.inj (Except.ok.inj read)
      exact .int (Number.natAbs_of_readInt known)
    · cases read
    · cases read

theorem wellFormed_words : ∀ w ∈ words, WellFormed w.2 := by
  intro w member
  simp only [words, mem_cons, not_mem_nil, or_false] at member
  rcases member with rfl | rfl | rfl | rfl | rfl | rfl
  · exact .null
  · exact .bool _
  · exact .bool _
  all_goals exact .float _

/-- One round of the reader, if what it calls itself for reads well-formed values. -/
structure ReadsWellFormed (fuel : Nat) : Prop where
  value : ∀ {k k' : Cursor} {j : Json}, readValue fuel k = .ok (j, k') → WellFormed j
  items : ∀ {acc : List Json} {k k' : Cursor} {j : Json}, (∀ i ∈ acc, WellFormed i) →
    readItems fuel acc k = .ok (j, k') → WellFormed j
  fields : ∀ {acc : Table Json} {k k' : Cursor} {j : Json}, WellFormed (.obj acc) →
    readFields fuel acc k = .ok (j, k') → WellFormed j

theorem readsWellFormed (fuel : Nat) : ReadsWellFormed fuel := by
  induction fuel with
  | zero =>
    refine ⟨fun read => ?_, fun _ read => ?_, fun _ read => ?_⟩
    all_goals cases read
  | succ fuel ih =>
    refine ⟨fun {k k' j} read => ?_, fun {acc k k' j} each read => ?_, fun {acc k k' j} whole read => ?_⟩
    -- a value by its first character, then one more item, then one more field
    · unfold readValue at read
      split at read
      · obtain ⟨⟨s, rest⟩, -, last⟩ := exists_of_bind_eq_ok read
        obtain ⟨rfl, -⟩ := Prod.mk.inj (Except.ok.inj last)
        exact .str _
      · dsimp only at read
        split at read
        · obtain ⟨rfl, -⟩ := Prod.mk.inj (Except.ok.inj read)
          exact .arr (by simp)
        · exact ih.items (by simp) read
      · dsimp only at read
        split at read
        · obtain ⟨rfl, -⟩ := Prod.mk.inj (Except.ok.inj read)
          exact .obj (by simp [Table.names]) (by simp)
        · exact ih.fields (.obj (by simp [Table.names]) (by simp)) read
      · split at read
        · rename_i w value found
          obtain ⟨rfl, -⟩ := Prod.mk.inj (Except.ok.inj read)
          exact wellFormed_words _ (mem_of_find?_eq_some found)
        · exact wellFormed_readNumber read
    · obtain ⟨⟨first, rest⟩, item, last⟩ := exists_of_bind_eq_ok read
      have one := ih.value item
      have more : ∀ i ∈ first :: acc, WellFormed i := by
        intro i member
        rcases mem_cons.mp member with rfl | old
        · exact one
        · exact each i old
      dsimp only at last
      split at last
      · obtain ⟨rfl, -⟩ := Prod.mk.inj (Except.ok.inj last)
        exact .arr fun i member => more i (mem_reverse.mp member)
      · exact ih.items more last
      · cases last
    · obtain ⟨⟨name, rest⟩, -, last⟩ := exists_of_bind_eq_ok read
      obtain ⟨⟨v, rest⟩, item, last⟩ := exists_of_bind_eq_ok last
      have more : WellFormed (.obj (Table.set acc name v)) := whole.setField (ih.value item) rfl
      dsimp only at last
      split at last
      · obtain ⟨rfl, -⟩ := Prod.mk.inj (Except.ok.inj last)
        exact more
      · exact ih.fields more last
      · cases last

theorem wellFormed_ofText {s : List Char} (read : ofText s = .ok j) : WellFormed j := by
  unfold ofText at read
  split at read
  · rename_i value known
    cases read
    unfold Json.read at known
    split at known
    · cases known
    · obtain ⟨⟨first, rest⟩, one, last⟩ := exists_of_bind_eq_ok known
      dsimp only at last
      split at last
      · cases last
        exact (readsWellFormed _).value one
      · cases last
  · cases read

/-! ## Fields that are set and deleted -/

theorem need_of_setField (changed : j.setField x v = .ok k) : k.need x = .ok v := by
  cases j with
  | obj fields =>
    cases changed
    have found : List.lookup x (Table.set fields x v) = some v := Table.find?_set_self fields x v
    simp [need, found]
  | _ => cases changed

theorem need_of_get? (found : j.get? x = .ok (some v)) : j.need x = .ok v := by
  cases j with
  | obj fields =>
    have known : fields.lookup x = some v := Except.ok.inj found
    simp [need, known]
  | _ => cases found

theorem exists_deleteField {fields : Table Json} (named : hasName (.obj fields) x = .ok true) :
    ∃ k, deleteField (.obj fields) x = .ok k := by
  have found : (fields.lookup x).isSome := Except.ok.inj named
  exact ⟨_, if_pos found⟩

theorem hasName_of_deleteField (changed : j.deleteField x = .ok k) : k.hasName x = .ok false := by
  cases j with
  | obj fields =>
    have none : List.lookup x (Table.erase fields x) = none := Table.find?_erase_self fields x
    unfold deleteField at changed
    dsimp only at changed
    split at changed
    · cases changed
      simp [hasName, none]
    · cases changed
  | _ => cases changed

end Json

end LineScript
