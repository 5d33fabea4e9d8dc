
import LineScript.Proofs.JsonTokens

/-!
# Values of JSON

The text that is written for a well-formed value is read as the value, wherever it stands (`readsBack`). The induction is on
the rounds that the reader has left: two for each character of the text are enough.
-/

namespace LineScript.Json

open Number List

variable {j k : Json} {text s w rest : List Char} {level n close : Nat} {d c : Char} {name : String}
  {pieces : List (List Char)}

/-! ## Values -/

theorem skip_space {ws : List Char} (space : ∀ c ∈ ws, isSpace c) (other : isSpace c = false) (pos : Nat)
    (rest : List Char) : Cursor.skip ⟨pos, ws ++ c :: rest⟩ = ⟨pos + ws.length, c :: rest⟩ := by
  unfold Cursor.skip Cursor.drop
  dsimp only
  rw [takeWhile_append_of_pos space, takeWhile_cons_of_neg (by rw [other]; exact Bool.false_ne_true),
    append_nil, drop_left]

theorem skip_newLine (level : Nat) (other : isSpace c = false) (pos : Nat) (rest : List Char) :
    Cursor.skip ⟨pos, newLine level ++ c :: rest⟩ = ⟨pos + (newLine level).length, c :: rest⟩ := by
  refine skip_space (fun d h => ?_) other pos rest
  rcases mem_cons.mp h with rfl | h
  · rfl
  · rw [(mem_replicate.mp h).2]
    rfl

theorem readValue_word (known : (w, j) ∈ words) (n : Nat) (rest : List Char) : Reads (readValue (n + 1)) (w ++ rest) j rest := by
  intro pos
  simp only [words, mem_cons, not_mem_nil, or_false] at known
  rcases known with h | h | h | h | h | h
  all_goals
    cases h
    exact ⟨_, rfl⟩

theorem not_isPrefixOf_of_mem_words (negative : Bool) (digit : d.isDigit) (more : List Char) :
    ∀ w ∈ words, w.1.isPrefixOf (signText negative ++ d :: more) = false := by
  have apart : 'n' ≠ d ∧ 't' ≠ d ∧ 'f' ≠ d ∧ 'N' ≠ d ∧ 'I' ≠ d ∧ '-' ≠ d :=
    digit_forall (P := fun d => 'n' ≠ d ∧ 't' ≠ d ∧ 'f' ≠ d ∧ 'N' ≠ d ∧ 'I' ≠ d ∧ '-' ≠ d) (by decide) digit
  intro w known
  simp only [words, mem_cons, not_mem_nil, or_false] at known
  cases negative
  all_goals rcases known with rfl | rfl | rfl | rfl | rfl | rfl <;> simp [signText, List.isPrefixOf, apart]

theorem readValue_number (negative : Bool) (digit : d.isDigit) (more : List Char) (n pos : Nat) :
    readValue (n + 1) ⟨pos, signText negative ++ d :: more⟩ = readNumber ⟨pos, signText negative ++ d :: more⟩ := by
  have none : (words.find? fun w => w.1.isPrefixOf (signText negative ++ d :: more)) = none :=
    find?_eq_none.mpr fun w known => by simp [not_isPrefixOf_of_mem_words negative digit more w known]
  have apart : d ≠ '"' ∧ d ≠ '[' ∧ d ≠ '\x7b' :=
    digit_forall (P := fun d => d ≠ '"' ∧ d ≠ '[' ∧ d ≠ '\x7b') (by decide) digit
  cases negative with
  | true =>
    unfold readValue
    simp only [signText, if_true, cons_append, nil_append] at none ⊢
    rw [none]
    rfl
  | false =>
    unfold readValue
    simp only [signText, Bool.false_eq_true, if_false, nil_append] at none ⊢
    rw [none]
    simp [apart]

/-- A text that a value can be read from the start of: it is not blank there, and no array ends there. -/
def Starts (s : List Char) : Prop := ∃ c rest, s = c :: rest ∧ isSpace c = false ∧ c ≠ ']'

theorem Starts.append (starts : Starts s) (rest : List Char) : Starts (s ++ rest) := by
  obtain ⟨c, more, rfl, apart⟩ := starts
  exact ⟨c, more ++ rest, rfl, apart⟩

theorem Starts.length_pos (starts : Starts s) : 0 < s.length := by
  obtain ⟨c, more, rfl, -⟩ := starts
  exact Nat.succ_pos _

theorem starts_signed (negative : Bool) (digit : d.isDigit) (more : List Char) :
    Starts (signText negative ++ d :: more) := by
  cases negative with
  | true => exact ⟨_, _, rfl, rfl, by decide⟩
  | false =>
    have apart : isSpace d = false ∧ d ≠ ']' :=
      digit_forall (P := fun d => isSpace d = false ∧ d ≠ ']') (by decide) digit
    exact ⟨_, _, rfl, apart⟩

theorem print_int {n : Int} (printed : print level (.int n) = .ok text) :
    text = signText (n < 0) ++ decimalText n.natAbs ∧ n.natAbs < Nat.pow 10 maxDigits := by
  unfold print Value.intString intText? at printed
  split at printed
  · rename_i t known
    split at known
    · cases known
      refine ⟨?_, ‹_›⟩
      rw [← Except.ok.inj printed, String.toList_ofList]
    · cases known
  · cases printed

theorem floatWord_cases (x : Float) : (floatWord x, Json.float x) ∈ words ∨
      x.isNaN = false ∧ x.isInf = false ∧ floatWord x = floatText x ∧
        ∃ d more, d.isDigit ∧ floatText x = signText (signBit x) ++ d :: more := by
  unfold floatWord
  cases number : x.isNaN with
  | true =>
    rw [eq_nan_of_isNaN number]
    simp [words]
  | false =>
    cases bounded : x.isInf with
    | true =>
      have same := eq_infinity_of_isInf bounded
      by_cases negative : x < 0.0
      · rw [if_pos negative] at same ⊢
        rw [same]
        simp [words]
      · rw [if_neg negative] at same ⊢
        rw [same]
        simp [words]
    | false =>
      right
      obtain ⟨w, proper, -, text, -⟩ := exists_written_finite number bounded
      obtain ⟨d, more, shape, digit⟩ := proper.exists_text
      exact ⟨rfl, rfl, rfl, d, more, digit, by rw [text, shape]⟩

theorem starts_word (known : (w, j) ∈ words) : Starts w := by
  simp only [words, mem_cons, not_mem_nil, or_false] at known
  rcases known with h | h | h | h | h | h
  all_goals
    cases h
    exact ⟨_, _, rfl, rfl, by decide⟩

theorem starts_print (printed : print level j = .ok text) : Starts text := by
  cases j with
  | null => exact Except.ok.inj printed ▸ ⟨_, _, rfl, rfl, by decide⟩
  | bool b =>
    cases printed
    cases b <;> exact ⟨_, _, rfl, rfl, by decide⟩
  | int n =>
    obtain ⟨d, more, shape, digit⟩ := Expr.exists_decimalText n.natAbs
    rw [(print_int printed).1, shape]
    exact starts_signed _ digit more
  | float x =>
    cases printed
    rcases floatWord_cases x with known | ⟨-, -, same, d, more, digit, shape⟩
    · exact starts_word known
    · rw [same, shape]
      exact starts_signed _ digit more
  | str s => exact Except.ok.inj printed ▸ ⟨_, _, rfl, rfl, by decide⟩
  | arr items =>
    cases items with
    | nil => exact Except.ok.inj printed ▸ ⟨_, _, rfl, rfl, by decide⟩
    | cons j js =>
      obtain ⟨pieces, -, same⟩ := exists_of_bind_eq_ok printed
      exact Except.ok.inj same ▸ ⟨_, _, rfl, rfl, by decide⟩
  | obj fields =>
    cases fields with
    | nil => exact Except.ok.inj printed ▸ ⟨_, _, rfl, rfl, by decide⟩
    | cons f fs =>
      obtain ⟨pieces, -, same⟩ := exists_of_bind_eq_ok printed
      exact Except.ok.inj same ▸ ⟨_, _, rfl, rfl, by decide⟩

/-! ## Items and fields -/

def following (pieces : List (List Char)) : List Char := pieces.flatMap (',' :: ·)

theorem joinWith_cons (piece : List Char) (pieces : List (List Char)) :
    Text.joinWith [','] (piece :: pieces) = piece ++ following pieces := by
  induction pieces generalizing piece with
  | nil => exact (append_nil piece).symm
  | cons next pieces ih =>
    rw [Text.joinWith, ih next, following, following, flatMap_cons]
    · simp
    · simp

theorem printItems_cons {js : List Json} (printed : printItems level (j :: js) = .ok pieces) :
    ∃ text more, print level j = .ok text ∧ printItems level js = .ok more ∧ pieces = (newLine level ++ text) :: more := by
  obtain ⟨text, first, last⟩ := exists_of_bind_eq_ok printed
  obtain ⟨more, others, same⟩ := exists_of_bind_eq_ok last
  exact ⟨text, more, first, others, (Except.ok.inj same).symm⟩

theorem printFields_cons {fs : List (String × Json)} (printed : printFields level ((name, j) :: fs) = .ok pieces) :
    ∃ text more, print level j = .ok text ∧ printFields level fs = .ok more ∧
      pieces = (newLine level ++ stringText name ++ [':', ' '] ++ text) :: more := by
  obtain ⟨text, first, last⟩ := exists_of_bind_eq_ok printed
  obtain ⟨more, others, same⟩ := exists_of_bind_eq_ok last
  exact ⟨text, more, first, others, (Except.ok.inj same).symm⟩

theorem follows_following (pieces : List (List Char)) (close : Nat) (rest : List Char) :
    Follows (following pieces ++ (newLine close ++ rest)) := by
  intro c first
  cases pieces with
  | nil => exact .inr (Option.some.inj first).symm
  | cons piece pieces => exact .inl (Option.some.inj first).symm

theorem readItems_last (acc : List Json) (read : Reads (readValue n) s j (newLine close ++ ']' :: rest)) :
    Reads (readItems (n + 1) acc) s (.arr (acc.reverse ++ [j])) rest := by
  intro pos
  obtain ⟨pos', value⟩ := read pos
  have skipped := skip_newLine close (show isSpace ']' = false from rfl) pos' rest
  unfold readItems
  rw [value]
  simp only [bind, Except.bind]
  rw [skipped]
  simp only [reverse_cons]
  exact ⟨_, rfl⟩

theorem skip_comma (starts : Starts text) (level pos : Nat) :
    Cursor.skip ⟨pos, ',' :: (newLine level ++ text)⟩ = ⟨pos, ',' :: (newLine level ++ text)⟩ ∧
      ∃ k, Cursor.skip (Cursor.drop ⟨pos, ',' :: (newLine level ++ text)⟩ 1) = ⟨k, text⟩ := by
  obtain ⟨c, more, rfl, other, -⟩ := starts
  exact ⟨rfl, _, skip_newLine level other (pos + 1) more⟩

theorem readItems_more (acc : List Json) (read : Reads (readValue n) s j (',' :: (newLine level ++ text)))
    (starts : Starts text) (others : Reads (readItems n (j :: acc)) text k rest) : Reads (readItems (n + 1) acc) s k rest := by
  intro pos
  obtain ⟨pos', value⟩ := read pos
  obtain ⟨here, _, there⟩ := skip_comma starts level pos'
  unfold readItems
  rw [value]
  simp only [bind, Except.bind, here, there]
  exact others _

def fieldText (name : String) (text : List Char) : List Char := stringText name ++ ':' :: ' ' :: text

theorem readName_fieldText (name : String) (starts : Starts text) : Reads readName (fieldText name text) name text := by
  intro pos
  obtain ⟨c, rest, rfl, other, -⟩ := starts
  obtain ⟨pos', read⟩ := readString_stringText name pos (':' :: ' ' :: c :: rest)
  have blank : ∀ d ∈ [' '], isSpace d := fun d h => by rw [mem_singleton.mp h]; rfl
  have here : Cursor.skip ⟨pos', ':' :: ' ' :: c :: rest⟩ = ⟨pos', ':' :: ' ' :: c :: rest⟩ := rfl
  refine ⟨pos' + 1 + 1, ?_⟩
  unfold readName fieldText
  unfold stringText at read ⊢
  simp only [cons_append] at read ⊢
  rw [read]
  exact congrArg (fun k => Except.ok (name, k)) (skip_space blank other (pos' + 1) rest)

theorem readFields_last (acc : List (String × Json)) (starts : Starts text)
    (read : Reads (readValue n) text j (newLine close ++ '\x7d' :: rest)) :
    Reads (readFields (n + 1) acc) (fieldText name text) (.obj (Table.set acc name j)) rest := by
  intro pos
  obtain ⟨pos₁, name'⟩ := readName_fieldText name starts pos
  obtain ⟨pos₂, value⟩ := read pos₁
  unfold readFields
  rw [name']
  simp only [bind, Except.bind, value]
  rw [skip_newLine close rfl]
  exact ⟨_, rfl⟩

theorem readFields_more {next : List Char} (acc : List (String × Json)) (starts : Starts text) (goes : Starts next)
    (read : Reads (readValue n) text j (',' :: (newLine level ++ next)))
    (others : Reads (readFields n (Table.set acc name j)) next k rest) :
    Reads (readFields (n + 1) acc) (fieldText name text) k rest := by
  intro pos
  obtain ⟨pos₁, name'⟩ := readName_fieldText name starts pos
  obtain ⟨pos₂, value⟩ := read pos₁
  obtain ⟨here, _, there⟩ := skip_comma goes level pos₂
  unfold readFields
  rw [name']
  simp only [bind, Except.bind, value, here, there]
  exact others _

/-- What a round of the reader does with texts that are written. -/
structure ReadsBack (n : Nat) : Prop where
  value : ∀ {level : Nat} {j : Json} {text rest : List Char}, WellFormed j → print level j = .ok text →
    Follows rest → 2 * text.length ≤ n → Reads (readValue n) (text ++ rest) j rest
  items : ∀ {level close : Nat} {j : Json} {js : List Json} {text rest : List Char} {pieces : List (List Char)}
    (acc : List Json), (∀ i ∈ j :: js, WellFormed i) → print level j = .ok text →
    printItems level js = .ok pieces → 2 * (text.length + (following pieces).length) + 2 ≤ n →
    Reads (readItems n acc) (text ++ (following pieces ++ (newLine close ++ ']' :: rest))) (.arr (acc.reverse ++ j :: js)) rest
  fields : ∀ {level close : Nat} {name : String} {j : Json} {fs : Table Json} {text rest : List Char}
    {pieces : List (List Char)} (acc : Table Json), (acc ++ (name, j) :: fs).names.Nodup →
    (∀ f ∈ (name, j) :: fs, WellFormed f.2) → print level j = .ok text → printFields level fs = .ok pieces →
    2 * ((fieldText name text).length + (following pieces).length) + 2 ≤ n →
    Reads (readFields n acc) (fieldText name (text ++ (following pieces ++ (newLine close ++ '\x7d' :: rest))))
      (.obj (acc ++ (name, j) :: fs)) rest

theorem starts_fieldText (name : String) (text : List Char) : Starts (fieldText name text) := ⟨_, _, rfl, rfl, by decide⟩

theorem readValue_string (n : Nat) (s : String) (rest : List Char) :
    Reads (readValue (n + 1)) (stringText s ++ rest) (.str s) rest := by
  intro pos
  obtain ⟨pos', read⟩ := readString_stringText s pos rest
  refine ⟨pos', ?_⟩
  unfold readValue
  unfold stringText at read ⊢
  simp only [cons_append] at read ⊢
  rw [read]
  rfl

theorem readValue_items (level : Nat) (starts : Starts text) (read : Reads (readItems n []) text j rest) :
    Reads (readValue (n + 1)) ('[' :: (newLine level ++ text)) j rest := by
  intro pos
  obtain ⟨c, more, rfl, other, inside⟩ := starts
  have skipped : (Cursor.drop ⟨pos, '[' :: (newLine level ++ c :: more)⟩ 1).skip =
      ⟨pos + 1 + (newLine level).length, c :: more⟩ := skip_newLine level other (pos + 1) more
  unfold readValue
  simp only [skipped]
  simpa [inside] using read _

theorem readValue_fields (level : Nat) (read : Reads (readFields n []) (fieldText name text) j rest) :
    Reads (readValue (n + 1)) ('\x7b' :: (newLine level ++ fieldText name text)) j rest := by
  intro pos
  have skipped : (Cursor.drop ⟨pos, '\x7b' :: (newLine level ++ fieldText name text)⟩ 1).skip =
      ⟨pos + 1 + (newLine level).length, fieldText name text⟩ := skip_newLine level rfl (pos + 1) _
  unfold readValue
  simp only [skipped]
  exact read _

namespace ReadsBack

variable {rest text : List Char} {level close : Nat} {j : Json} {pieces : List (List Char)}

variable {n : Nat}

theorem succ_items (ih : ReadsBack n) {js : List Json} (acc : List Json)
    (whole : ∀ i ∈ j :: js, WellFormed i) (first : print level j = .ok text) (others : printItems level js = .ok pieces)
    (enough : 2 * (text.length + (following pieces).length) + 2 ≤ n + 1) :
    Reads (readItems (n + 1) acc) (text ++ (following pieces ++ (newLine close ++ ']' :: rest)))
      (.arr (acc.reverse ++ j :: js)) rest := by
  have read := ih.value (whole j mem_cons_self) first (follows_following pieces close (']' :: rest)) (by omega)
  cases js with
  | nil =>
    cases others
    exact readItems_last acc read
  | cons k ks =>
    obtain ⟨text', more, next, left, rfl⟩ := printItems_cons others
    have shape : following ((newLine level ++ text') :: more) ++ (newLine close ++ ']' :: rest) =
        ',' :: (newLine level ++ (text' ++ (following more ++ (newLine close ++ ']' :: rest)))) := by
      simp [following]
    have length : (following ((newLine level ++ text') :: more)).length =
        1 + (newLine level).length + text'.length + (following more).length := by
      simp [following]
      omega
    rw [shape] at read ⊢
    refine readItems_more acc read ((starts_print next).append _) ?_
    simpa using ih.items (j :: acc) (fun i hi => whole i (mem_cons_of_mem j hi)) next left (by omega)

theorem succ_fields (ih : ReadsBack n) {name : String} {fs : Table Json} (acc : Table Json)
    (distinct : (acc ++ (name, j) :: fs).names.Nodup) (whole : ∀ f ∈ (name, j) :: fs, WellFormed f.2)
    (first : print level j = .ok text) (others : printFields level fs = .ok pieces)
    (enough : 2 * ((fieldText name text).length + (following pieces).length) + 2 ≤ n + 1) :
    Reads (readFields (n + 1) acc) (fieldText name (text ++ (following pieces ++ (newLine close ++ '\x7d' :: rest))))
      (.obj (acc ++ (name, j) :: fs)) rest := by
  have shorter : text.length < (fieldText name text).length := by
    simp [fieldText]
    omega
  have read := ih.value (whole (name, j) mem_cons_self) first
    (follows_following pieces close ('\x7d' :: rest)) (by omega)
  have starts := (starts_print first).append (following pieces ++ (newLine close ++ '\x7d' :: rest))
  -- no field before has the name, so that the new one comes last
  have last : Table.set acc name j = acc ++ [(name, j)] := by
    refine Table.set_of_find?_eq_none (Option.eq_none_iff_forall_ne_some.mpr fun old found => ?_) j
    have there : name ∈ acc.names := mem_map_of_mem (Table.mem_of_find? found)
    have apart := nodup_append.mp (show (acc.names ++ name :: fs.names).Nodup by
      simpa [Table.names] using distinct)
    exact apart.2.2 name there name mem_cons_self rfl
  cases fs with
  | nil =>
    cases others
    rw [← last]
    exact readFields_last acc starts read
  | cons f fs =>
    obtain ⟨name', k⟩ := f
    obtain ⟨text', more, next, left, rfl⟩ := printFields_cons others
    have shape : following ((newLine level ++ stringText name' ++ [':', ' '] ++ text') :: more) ++
        (newLine close ++ '\x7d' :: rest) =
          ',' :: (newLine level ++ fieldText name' (text' ++ (following more ++ (newLine close ++ '\x7d' :: rest)))) := by
      simp [following, fieldText]
    have length : (following ((newLine level ++ stringText name' ++ [':', ' '] ++ text') :: more)).length =
        1 + (newLine level).length + (fieldText name' text').length + (following more).length := by
      simp [following, fieldText]
      omega
    rw [shape] at read starts ⊢
    refine readFields_more acc starts (starts_fieldText name' _) read ?_
    rw [last]
    simpa using ih.fields (acc ++ [(name, j)]) (by simpa using distinct)
      (fun f hf => whole f (mem_cons_of_mem _ hf)) next left (by omega)

theorem succ_value (ih : ReadsBack n) (whole : WellFormed j) (printed : print level j = .ok text)
    (follows : Follows rest) (enough : 2 * text.length ≤ n + 1) : Reads (readValue (n + 1)) (text ++ rest) j rest := by
  cases whole with
  | null =>
    cases printed
    exact readValue_word (by simp [words]) n rest
  | bool b =>
    cases printed
    exact readValue_word (by cases b <;> simp [words]) n rest
  | int short =>
    rename_i m
    obtain ⟨d, more, shape, digit⟩ := Expr.exists_decimalText m.natAbs
    have read := readNumber_int short follows
    rw [(print_int printed).1]
    rw [shape, append_assoc] at read ⊢
    intro pos
    rw [cons_append, readValue_number _ digit]
    exact read pos
  | float x =>
    cases printed
    rcases floatWord_cases x with known | ⟨number, bounded, same, d, more, digit, shape⟩
    · exact readValue_word known n rest
    · have read := readNumber_float number bounded follows
      rw [same]
      rw [shape, append_assoc] at read ⊢
      intro pos
      rw [cons_append, readValue_number _ digit]
      exact read pos
  | str s =>
    cases printed
    exact readValue_string n s rest
  | @arr items each =>
    cases items with
    | nil =>
      cases printed
      exact fun pos => ⟨_, rfl⟩
    | cons j js =>
      obtain ⟨pieces, items, same⟩ := exists_of_bind_eq_ok printed
      obtain ⟨text', more, first, others, rfl⟩ := printItems_cons items
      have shape : text ++ rest = '[' :: (newLine (level + 1) ++
          (text' ++ (following more ++ (newLine level ++ ']' :: rest)))) := by
        rw [← Except.ok.inj same, joinWith_cons]
        simp
      have length := congrArg List.length shape
      simp only [length_append, length_cons] at length
      rw [shape]
      exact readValue_items _ ((starts_print first).append _) (ih.items [] each first others (by omega))
  | @obj fields distinct each =>
    cases fields with
    | nil =>
      cases printed
      exact fun pos => ⟨_, rfl⟩
    | cons f fs =>
      obtain ⟨name, j⟩ := f
      obtain ⟨pieces, fields, same⟩ := exists_of_bind_eq_ok printed
      obtain ⟨text', more, first, others, rfl⟩ := printFields_cons fields
      have shape : text ++ rest = '\x7b' :: (newLine (level + 1) ++
          fieldText name (text' ++ (following more ++ (newLine level ++ '\x7d' :: rest)))) := by
        rw [← Except.ok.inj same, joinWith_cons]
        simp [fieldText]
      have length := congrArg List.length shape
      have length' : (fieldText name (text' ++ (following more ++ (newLine level ++ '\x7d' :: rest)))).length =
          (fieldText name text').length + (following more).length + (newLine level).length + 1 + rest.length := by
        simp [fieldText]
        omega
      simp only [length_append, length_cons, length'] at length
      rw [shape]
      exact readValue_fields _ (ih.fields [] distinct each first others (by omega))

end ReadsBack

theorem readsBack (n : Nat) : ReadsBack n := by
  induction n with
  | zero =>
    refine ⟨fun _ printed _ enough => ?_, fun acc _ _ _ enough => ?_, fun acc _ _ _ _ enough => ?_⟩
    · have := (starts_print printed).length_pos
      omega
    · omega
    · omega
  | succ n ih => exact ⟨ih.succ_value, ih.succ_items, ih.succ_fields⟩

end LineScript.Json
