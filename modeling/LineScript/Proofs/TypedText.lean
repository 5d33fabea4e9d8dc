
import LineScript.Proofs.NumeralReading
import LineScript.Proofs.Placeholders
import LineScript.Proofs.WindowCommands

/-!
# Text that the user types

Text is typed at a prompt or into a field, and is a number if it looks like one. The two ways to tell differ for a text that
is digits throughout: at a prompt it is a whole number, and in a field it is one with a fraction.
-/

namespace LineScript

open Text Number List

variable {s : List Char} {v w : Value}

/-! ## Digits -/

theorem isBlank_of_isDigit {c : Char} (digit : Text.isDigit c) : isBlank c = false := by
  unfold Text.isDigit at digit
  unfold isBlank
  split at digit
  · rw [if_pos ‹_›]
    exact digit_forall (P := fun c => (c.toNat = 32 || (9 ≤ c.toNat && c.toNat ≤ 13) || (28 ≤ c.toNat && c.toNat ≤ 31)) = false)
      (by decide) digit
  · rw [if_neg ‹_›]
    refine Bool.eq_false_iff.mpr fun blank => ?_
    have holds := RangeSet.contains_iff.mp blank
    rw [Bool.or_eq_true, RangeSet.contains_iff, RangeSet.contains_iff] at digit
    rcases digit with decimal | superscript
    · exact ((disjoint_digits.2.2.1 _).1 decimal).2 holds
    · exact ((disjoint_digits.2.2.2 _).1 superscript).2 holds

/-- Decimal digits of any script become the usual ones, and other digits a character that no numeral has. -/
theorem exists_plainDigits_of_digits (digits : ∀ c ∈ s, Text.isDigit c) :
    ∃ g : Char → Char, plainDigits s = s.map g ∧ ∀ c ∈ s, if isDecimal c then (g c).isDigit = true else g c = '?' := by
  unfold plainDigits
  split
  · rename_i small
    refine ⟨id, (map_id s).symm, fun c member => ?_⟩
    have low : c.toNat < 128 := by simpa using all_eq_true.mp small c member
    have digit := digits c member
    unfold Text.isDigit at digit
    unfold isDecimal
    rw [if_pos low] at digit ⊢
    rw [if_pos digit]
    exact digit
  · refine ⟨_, rfl, fun c member => ?_⟩
    have digit := digits c member
    rw [isBlank_of_isDigit digit]
    unfold isDecimal
    unfold Text.isDigit at digit
    by_cases low : c.toNat < 128
    · rw [if_pos low] at digit ⊢
      rw [if_pos low, if_pos digit]
      exact digit
    · rw [if_neg low, if_neg low]
      have decimal : decimals.contains c = (decimalValue? c).isSome := by
        unfold decimalValue?
        rw [if_neg low, Option.isSome_map, isSome_find?]
        rfl
      rw [decimal]
      cases value : decimalValue? c with
      | none => rfl
      | some d =>
        have usual : ∀ d < 10, (Char.ofNat (48 + d)).isDigit := by decide
        exact usual d (digit_of_decimalValue? (by omega) value).1

theorem isSome_readFloat (plain : ∀ c ∈ plainDigits s, c.isDigit ∨ c = '?') (filled : plainDigits s ≠ []) :
    (readFloat s).isSome = (plainDigits s).all Char.isDigit := by
  unfold readFloat
  generalize plainDigits s = p at plain filled
  have solid : ∀ c ∈ p, isNumeralBlank c = false ∧ c ∉ ['_', '+', '-', '.'] ∧ c.toLower ∉ ['i', 'n'] := by
    intro c member
    rcases plain c member with digit | rfl
    · exact digit_forall (P := fun c => isNumeralBlank c = false ∧ c ∉ ['_', '+', '-', '.'] ∧ c.toLower ∉ ['i', 'n'])
        (by decide) digit
    · decide
  have trimmed : trim isNumeralBlank p = p :=
    trim_eq_self (fun c first => (solid c (mem_of_head? first)).1) fun c last => (solid c (mem_of_getLast? last)).1
  have bare : p.contains '_' = false := by
    refine Bool.eq_false_iff.mpr fun there => ?_
    exact (solid '_' (by simpa using there)).2.1 (by decide)
  have unsigned : splitSign p = (false, p) := by
    refine (splitSign_cases p).resolve_left ?_
    rintro ⟨c, first, rfl | rfl⟩
    all_goals exact (solid _ (mem_of_head? first)).2.1 (by decide)
  have other : ∀ text : List Char, text.head?.any (· ∈ ['i', 'n']) → p.map Char.toLower ≠ text := by
    rintro _ letter rfl
    cases p with
    | nil => cases letter
    | cons d p => exact (solid d mem_cons_self).2.2 (of_decide_eq_true letter)
  simp only [trimmed, bare, unsigned, Bool.false_eq_true, if_false]
  rw [decide_eq_false (other "inf".toList (by decide)), decide_eq_false (other "infinity".toList (by decide)), if_neg (by decide),
    if_neg (other "nan".toList (by decide))]
  cases all : p.all Char.isDigit with
  | true =>
    have taken : p.takeWhile Char.isDigit = p := takeWhile_eq_self_iff.mpr (all_eq_true.mp all)
    simp [readDecimal, taken, filled, readPlaces, readExponent]
  | false =>
    obtain ⟨c, member, strange⟩ := all_eq_false.mp all
    obtain rfl := (plain c member).resolve_left strange
    split
    · rename_i read
      exact absurd ((runs_of_readDecimal read).1.inNumeral member) (by decide)
    · rfl

namespace Typed

theorem orText_toFloat (s : List Char) :
    orText s (Value.toFloat (.ofText s)) = .ok (((readFloat s).map Value.float).getD (.ofText s)) := by
  unfold Value.ofText Value.toFloat Value.readFloatValue
  dsimp only
  rw [String.toList_ofList]
  cases readFloat s <;> rfl

theorem orText_toInt (s : List Char) : orText s (Value.toInt (.ofText s)) = .ok (.ofText s) ∨
      ∃ n, readInt 10 s = .value n ∧ orText s (Value.toInt (.ofText s)) = .ok (.int n) := by
  unfold Value.ofText Value.toInt Value.readIntValue
  dsimp only
  rw [String.toList_ofList]
  cases readInt 10 s with
  | value n => exact .inr ⟨n, rfl, rfl⟩
  | _ => exact .inl rfl

theorem isPointed_of_not_mem (whole : '.' ∉ s) : isPointed s = Value.allChars Text.isDigit s := by
  have kept : replaceGo ['.'] [] (some 1) 0 s = s := by
    induction s with
    | nil => rfl
    | cons c s ih =>
      have other : ¬ (['.'].isPrefixOf (c :: s) = true) := by
        intro same
        simp at same
        exact whole (same ▸ mem_cons_self)
      rw [replaceGo, if_neg other, ih fun member => whole (mem_cons_of_mem c member)]
      all_goals simp
  unfold isPointed replaceMax
  rw [if_neg (by decide), kept]

theorem isDashed_of_digits (digits : Value.allChars Text.isDigit s) : isDashed s := by
  have undashed : dashes s = s := by
    refine trimLeft_eq_self fun c first => ?_
    have digit := all_eq_true.mp (Bool.and_eq_true_iff.mp digits).2 c (mem_of_head? first)
    refine decide_eq_false fun same => ?_
    rw [same] at digit
    exact absurd digit (by decide)
  unfold isDashed
  rw [undashed, digits]

theorem values_of_digits (filled : s ≠ []) (digits : ∀ c ∈ s, Text.isDigit c) :
    ∃ v w, lineValue s = .ok v ∧ widgetValue s = .ok w ∧ (v = w ↔ ¬ ∀ c ∈ s, isDecimal c) := by
  have whole : '.' ∉ s := fun point => absurd (digits '.' point) (by decide)
  have all : Value.allChars Text.isDigit s := by simpa [Value.allChars, filled] using digits
  have line : lineValue s = orText s (Value.toInt (.ofText s)) := by
    simp [lineValue, whole, isDashed_of_digits all]
  have widget : widgetValue s = orText s (Value.toFloat (.ofText s)) := by
    simp [widgetValue, isPointed_of_not_mem whole, all]
  obtain ⟨g, plain, replaced⟩ := exists_plainDigits_of_digits digits
  have float : (readFloat s).isSome = (plainDigits s).all Char.isDigit := by
    refine isSome_readFloat (fun d member => ?_) (by simpa [plain] using filled)
    rw [plain] at member
    obtain ⟨c, here, rfl⟩ := mem_map.mp member
    have becomes := replaced c here
    split at becomes
    · exact .inl becomes
    · exact .inr becomes
  rw [line, widget, orText_toFloat]
  by_cases decimal : ∀ c ∈ s, isDecimal c
  · have number : (readFloat s).isSome := by
      rw [float, plain, all_map, all_eq_true]
      intro c member
      have becomes := replaced c member
      rwa [if_pos (decimal c member)] at becomes
    obtain ⟨x, read⟩ := Option.isSome_iff_exists.mp number
    rw [read]
    rcases orText_toInt s with text | ⟨n, -, whole⟩
    · exact ⟨_, _, text, rfl, fun same => (by cases same), fun other => absurd decimal other⟩
    · exact ⟨_, _, whole, rfl, fun same => (by cases same), fun other => absurd decimal other⟩
  · obtain ⟨c, member, other⟩ : ∃ c ∈ s, isDecimal c ≠ true := by simpa using decimal
    have becomes := replaced c member
    rw [if_neg other] at becomes
    have strange : '?' ∈ plainDigits s := by
      rw [plain, ← becomes]
      exact mem_map_of_mem member
    have none : readFloat s = none := by
      rw [← Option.not_isSome_iff_eq_none, float, Bool.not_eq_true, all_eq_false]
      exact ⟨'?', strange, by decide⟩
    rw [none]
    rcases orText_toInt s with text | ⟨n, read, -⟩
    · exact ⟨_, _, text, rfl, fun _ => decimal, fun _ => rfl⟩
    · have solid : ∀ c ∈ s, isBlank c = false := fun c member => isBlank_of_isDigit (digits c member)
      have bare : strip s = s :=
        trim_eq_self (fun c first => solid c (mem_of_head? first)) fun c last => solid c (mem_of_getLast? last)
      rcases readInt_cases bare read with ⟨d, first, sign⟩ | ⟨d, ds, _, same, digit, rest, -⟩
      · have digit := digits d (mem_of_head? first)
        rcases sign with rfl | rfl <;> exact absurd digit (by decide)
      · rw [same] at strange
        rcases mem_cons.mp strange with rfl | later
        · exact absurd digit (by decide)
        · exact absurd (rest '?' later) (by decide)

/-- Text that is typed always has a value, and one that can be shown. -/
theorem exists_shown (s : List Char) (decimal whole : Bool) :
    ∃ v, orText s (if decimal then Value.toFloat (.ofText s) else if whole then Value.toInt (.ofText s) else .ok (.ofText s)) = .ok v ∧
      ∀ store, ∃ text, v.display store = .ok text := by
  cases decimal with
  | true =>
    rw [if_pos rfl, orText_toFloat]
    refine ⟨_, rfl, fun store => ?_⟩
    cases readFloat s <;> exact ⟨_, rfl⟩
  | false =>
    rw [if_neg Bool.false_ne_true]
    cases whole with
    | true =>
      rw [if_pos rfl]
      rcases orText_toInt s with text | ⟨n, read, number⟩
      · exact ⟨_, text, fun _ => ⟨_, rfl⟩⟩
      · refine ⟨_, number, fun store => ?_⟩
        show ∃ text, Value.intString n = .ok text
        unfold Value.intString intText?
        rw [if_pos (natAbs_of_readInt read)]
        exact ⟨_, rfl⟩
    | false => exact ⟨_, rfl, fun _ => ⟨_, rfl⟩⟩

theorem isDigit_of_isDecimal {c : Char} (decimal : isDecimal c) : Text.isDigit c := by
  unfold isDecimal at decimal
  unfold Text.isDigit
  split at decimal
  · rw [if_pos ‹_›, decimal]
  · rw [if_neg ‹_›, decimal, Bool.true_or]

/-- Text that is typed has the same value at a prompt and in a field unless it is decimal digits throughout. -/
theorem values_agree_iff (line : lineValue s = .ok v) (widget : widgetValue s = .ok w) :
    v = w ↔ ¬ (s ≠ [] ∧ ∀ c ∈ s, isDecimal c) := by
  by_cases digits : s ≠ [] ∧ ∀ c ∈ s, Text.isDigit c
  · obtain ⟨v', w', line', widget', same⟩ := values_of_digits digits.1 digits.2
    rw [line] at line'
    rw [widget] at widget'
    rw [Except.ok.inj line', Except.ok.inj widget', same]
    simp [digits.1]
  · have first : (s.contains '.' && isPointed s) = isPointed s := by
      by_cases point : '.' ∈ s
      · rw [contains_iff_mem.mpr point, Bool.true_and]
      · have undigital : Value.allChars Text.isDigit s = false := by
          simpa [Value.allChars] using digits
        rw [isPointed_of_not_mem point, undigital, Bool.and_false]
    unfold lineValue at line
    rw [first] at line
    have same : v = w := Except.ok.inj (line.symm.trans widget)
    refine ⟨fun _ decimal => digits ⟨decimal.1, fun c member => isDigit_of_isDecimal (decimal.2 c member)⟩, fun _ => same⟩

end Typed

namespace Run

open Line Window

variable {s u : Session} {code name : List Char} {v : Value} {stop : Stop → Session → Prop}

theorem leads_keep {r : Except Fault Value} (value : r = .ok v) (shown : ∀ store, ∃ text, v.display store = .ok text)
    (name : String) (words : String → String) :
    Leads (do
      let v ← check r
      setVariable name v
      note (words (← display v))) s (fun _ t => t.vars = s.vars.set name v) stop := by
  subst value
  obtain ⟨text, written⟩ := shown s.depot.world.store
  have displayed : (display v).outcome { s with vars := s.vars.set name v } = (.ok text, { s with vars := s.vars.set name v }) := by
    rw [outcome_display]
    exact congrArg (fun r => (r.mapError Stop.fault, _)) written
  exact .bind (.pure (.bind (.modify (.bind (.of_ok displayed (leads_note rfl rfl))))))

theorem leads_inputAssign {prompt : List Char} {line : String} {rest : List Typed} (split : splitInput? code = some (name, prompt))
    (valid : isValidName name) (typed : s.depot.world.input = .line line :: rest) :
    ∃ v, Typed.lineValue line.toList = .ok v ∧
      Leads (inputAssign code false) s (fun _ t => t.vars = s.vars.set (String.ofList name) v) fun _ _ => False := by
  obtain ⟨v, value, shown⟩ := Typed.exists_shown line.toList _ _
  refine ⟨v, value, ?_⟩
  unfold inputAssign
  rw [split]
  dsimp only
  rw [valid]
  refine .tryCatch (.bind ((leads_ask _).mono ?_ ?_))
  all_goals rw [typed]
  · rintro _ _ ⟨rest, same, rfl⟩
    cases same
    exact leads_keep value shown _ _
  · rintro _ _ (⟨impossible, -⟩ | ⟨_, impossible, -⟩)
    all_goals cases impossible

theorem leads_readTextCommand {word id : List Char} {i : Nat} {p : Option String} {line : String} (split : arguments code = [word, id, name])
    (valid : isValidName name) (named : s.screen.widgets.find? (String.ofList id) = some i)
    (field : Field i p s.screen.widgets ⟨line, false⟩ s.screen) : ∃ v, Typed.widgetValue line.toList = .ok v ∧
      Leads (readTextCommand code false) s (fun _ t => t.vars = s.vars.set (String.ofList name) v) fun _ _ => False := by
  obtain ⟨v, value, shown⟩ := Typed.exists_shown line.toList _ _
  refine ⟨v, value, ?_⟩
  have quiet : Field i p s.screen.widgets ⟨line, false⟩ { s.screen with log := [] } :=
    ⟨field.entry, field.live, field.placeholder, field.content, field.grey, rfl⟩
  unfold readTextCommand
  rw [split]
  dsimp only
  rw [valid]
  refine .tryCatch (.bind (leads_gui (.of_ok (quiet.run_getValue named) fun depot => ?_)))
  exact leads_keep value shown _ _

/-- **Text typed at a prompt and text read from a field are converted alike, unless they are decimal digits throughout.** -/
theorem typed_text_agrees_iff {prompt code' word id name' : List Char} {line : String} {rest : List Typed} {i : Nat}
    (split : splitInput? code = some (name, prompt)) (valid : isValidName name = true)
    (typed : s.depot.world.input = .line line :: rest)
    (split' : arguments code' = [word, id, name']) (valid' : isValidName name' = true)
    (named : u.screen.widgets.find? (String.ofList id) = some i)
    (field : Field i none u.screen.widgets ⟨line, false⟩ u.screen) :
    ∃ v w s' u', (inputAssign code false).outcome s = (.ok (), s') ∧ s'.vars = s.vars.set (String.ofList name) v ∧
      (readTextCommand code' false).outcome u = (.ok (), u') ∧ u'.vars = u.vars.set (String.ofList name') w ∧
      (v = w ↔ ¬ (line ≠ "" ∧ ∀ c ∈ line.toList, isDecimal c = true)) := by
  obtain ⟨v, line, asks⟩ := leads_inputAssign split valid typed
  obtain ⟨w, widget, reads⟩ := leads_readTextCommand split' valid' named field
  obtain ⟨_, s', asked, stored⟩ := asks.exists_run
  obtain ⟨_, u', read, stored'⟩ := reads.exists_run
  refine ⟨v, w, s', u', asked, stored, read, stored', ?_⟩
  rw [Typed.values_agree_iff line widget]
  simp

def typing (line : String) : Session := { depot.world.input := [.line line] }

def showing (line : String) : Session :=
  { screen := ((Gui.createEntry {} "" >>= fun _ => Gui.type 1 line).run.run windowed).2 }

theorem field_showing (line : String) : Field 1 none (showing line).screen.widgets ⟨line, false⟩ (showing line).screen :=
  ⟨rfl, ⟨rfl, rfl⟩, rfl, rfl, rfl, rfl⟩

theorem splitInput?_age : splitInput? "age=input\"Age? \"".toList = some ("age".toList, "Age? ".toList) := by
  decide +kernel

theorem arguments_age : arguments "readText entry_0 age".toList = ["readText".toList, "entry_0".toList, "age".toList] := by
  decide +kernel

/-- A digit is a whole number at a prompt, and a number with a fraction in a field. -/
theorem typed_digit_differs :
    ∃ x, ((inputAssign "age=input\"Age? \"".toList false).outcome (typing "5")).2.vars.find? "age" = some (.int 5) ∧
      ((readTextCommand "readText entry_0 age".toList false).outcome (showing "5")).2.vars.find? "age" = some (.float x) := by
  obtain ⟨x, read⟩ := Option.isSome_iff_exists.mp (show (readFloat "5".toList).isSome = true by decide +kernel)
  have whole : Typed.lineValue "5".toList = .ok (.int 5) := rfl
  have fraction : Typed.widgetValue "5".toList = .ok (.float x) := by
    have widget : Typed.widgetValue "5".toList = Typed.orText "5".toList (Value.toFloat (.ofText "5".toList)) := rfl
    rw [widget, Typed.orText_toFloat, read]
    rfl
  obtain ⟨_, value, asks⟩ := leads_inputAssign splitInput?_age (by decide) (s := typing "5") rfl
  obtain ⟨_, value', reads⟩ := leads_readTextCommand arguments_age (by decide) (by decide) (field_showing "5")
  obtain ⟨_, s, asked, stored⟩ := asks.exists_run
  obtain ⟨_, u, read, stored'⟩ := reads.exists_run
  unfold outcome
  rw [asked, read]
  refine ⟨x, ?_, ?_⟩
  · rw [stored, Except.ok.inj (whole.symm.trans value)]
    rfl
  · rw [stored', Except.ok.inj (fraction.symm.trans value')]
    rfl

/-- A number below zero is typed at a prompt and into a field. -/
theorem typed_text_agrees_iff_below_zero :
    (splitInput? "age=input\"Age? \"".toList = some ("age".toList, "Age? ".toList) ∧ isValidName "age".toList = true ∧
        arguments "readText entry_0 age".toList = ["readText".toList, "entry_0".toList, "age".toList] ∧
        Field 1 none (showing "-5").screen.widgets ⟨"-5", false⟩ (showing "-5").screen) ∧
      ∃ v s u, (inputAssign "age=input\"Age? \"".toList false).outcome (typing "-5") = (.ok (), s) ∧
        (readTextCommand "readText entry_0 age".toList false).outcome (showing "-5") = (.ok (), u) ∧
        s.vars.find? "age" = some v ∧ u.vars.find? "age" = some v := by
  have valid : isValidName "age".toList = true := by decide
  have named : (showing "-5").screen.widgets.find? (String.ofList "entry_0".toList) = some 1 := by decide
  obtain ⟨v, w, s, u, asked, stored, read, stored', agree⟩ :=
    typed_text_agrees_iff splitInput?_age valid (s := typing "-5") rfl arguments_age valid named (field_showing "-5")
  obtain rfl : v = w := agree.mpr fun decimal => absurd (decimal.2 '-' (by decide)) (by decide)
  refine ⟨⟨splitInput?_age, valid, arguments_age, field_showing "-5"⟩, v, s, u, asked, read, ?_, ?_⟩
  · rw [stored]
    rfl
  · rw [stored']
    rfl

end Run

end LineScript
