
import LineScript.Proofs.JsonText
import LineScript.Proofs.Utf8Text

/-!
# JSON through a file

Every well-formed value has a text, and the text is of plain characters (`exists_print`), so that nothing happens to it on
the way through a file (`Plain.decode`). It is read as the value (`ofText_toText`).
-/

namespace LineScript.Json

open Number List

variable {j : Json} {s : List Char} {items : List Json} {fields : List (String × Json)} {pieces : List (List Char)}

/-! ## Plain texts -/

def Plain (s : List Char) : Prop := ∀ c ∈ s, c = '\n' ∨ 0x20 ≤ c.toNat ∧ c.toNat < 0x7f

theorem Plain.append {t : List Char} (hs : Plain s) (ht : Plain t) : Plain (s ++ t) :=
  fun c hc => (mem_append.mp hc).elim (hs c) (ht c)

theorem Plain.cons {c : Char} (hc : 0x20 ≤ c.toNat ∧ c.toNat < 0x7f) (hs : Plain s) : Plain (c :: s) :=
  fun d hd => (mem_cons.mp hd).elim (fun same => .inr (same ▸ hc)) (hs d)

theorem plain_of_all (h : s.all (fun c => 0x20 ≤ c.toNat && c.toNat < 0x7f)) : Plain s := by
  intro c hc
  right
  simpa using all_eq_true.mp h c hc

theorem plain_newLine (level : Nat) : Plain (newLine level) := by
  intro c hc
  rcases mem_cons.mp hc with rfl | hc
  · exact .inl rfl
  · rw [(mem_replicate.mp hc).2]
    exact .inr (by decide)

theorem plain_following (each : ∀ p ∈ pieces, Plain p) : Plain (following pieces) := by
  intro c hc
  obtain ⟨p, hp, hc⟩ := mem_flatMap.mp hc
  exact Plain.cons (by decide) (each p hp) c hc

theorem plain_joinWith (each : ∀ p ∈ pieces, Plain p) : Plain (Text.joinWith [','] pieces) := by
  cases pieces with
  | nil => exact fun c hc => by cases hc
  | cons p ps =>
    rw [joinWith_cons]
    exact (each p mem_cons_self).append (plain_following fun q hq => each q (mem_cons_of_mem p hq))

theorem plain_unitText (n : Nat) : Plain (unitText n) := by
  have digit (k : Nat) : 0x20 ≤ (Text.hexDigit (k % 16)).toNat ∧ (Text.hexDigit (k % 16)).toNat < 0x7f := by
    have all : ∀ k < 16, 0x20 ≤ (Text.hexDigit k).toNat ∧ (Text.hexDigit k).toNat < 0x7f := by decide
    exact all _ (Nat.mod_lt k (by decide))
  have none : Plain [] := fun c hc => by cases hc
  exact .cons (by decide) (.cons (by decide) (.cons (digit _) (.cons (digit _) (.cons (digit _) (.cons (digit _) none)))))

theorem plain_escapeChar (c : Char) : Plain (escapeChar c) := by
  unfold escapeChar
  split
  case h_8 =>
    dsimp only
    split
    · rename_i visible
      rw [Bool.and_eq_true, decide_eq_true_iff, decide_eq_true_iff] at visible
      exact .cons visible fun c hc => by cases hc
    · split
      · exact plain_unitText _
      · exact (plain_unitText _).append (plain_unitText _)
  all_goals exact plain_of_all (by decide)

theorem plain_stringText (s : String) : Plain (stringText s) := by
  refine .cons (by decide) (.append (fun c hc => ?_) (plain_of_all (by decide)))
  obtain ⟨d, -, hc⟩ := mem_flatMap.mp hc
  exact plain_escapeChar d c hc

theorem plain_signed {w : Written} (proper : w.Proper) (negative : Bool) : Plain (signText negative ++ w.text) := by
  have mark : Plain w.text := by
    intro c hc
    rcases proper.mem_text hc with digit | mark
    · exact .inr (digit_forall (P := fun c => 0x20 ≤ c.toNat ∧ c.toNat < 0x7f) (by decide) digit)
    · simp only [mem_cons, not_mem_nil, or_false] at mark
      right
      rcases mark with rfl | rfl | rfl | rfl <;> decide
  cases negative with
  | true => exact .cons (by decide) mark
  | false => exact mark

theorem plain_floatWord (x : Float) : Plain (floatWord x) := by
  unfold floatWord
  cases number : x.isNaN with
  | true =>
    rw [if_pos rfl]
    exact plain_of_all (by decide)
  | false =>
    cases bounded : x.isInf with
    | true =>
      rw [if_neg Bool.false_ne_true, if_pos rfl]
      split <;> exact plain_of_all (by decide)
    | false =>
      obtain ⟨w, proper, -, text, -⟩ := exists_written_finite number bounded
      rw [text]
      exact plain_signed proper _

theorem exists_printItems (each : ∀ j ∈ items, ∀ level, ∃ text, print level j = .ok text ∧ Plain text) (level : Nat) :
    ∃ pieces, printItems level items = .ok pieces ∧ ∀ p ∈ pieces, Plain p := by
  induction items with
  | nil => exact ⟨[], rfl, fun p hp => by cases hp⟩
  | cons j js ih =>
    obtain ⟨text, first, plain⟩ := each j mem_cons_self level
    obtain ⟨more, others, plains⟩ := ih fun i hi => each i (mem_cons_of_mem j hi)
    refine ⟨(newLine level ++ text) :: more, ?_, ?_⟩
    · unfold printItems
      rw [first, others]
      rfl
    · intro p hp
      rcases mem_cons.mp hp with rfl | hp
      · exact (plain_newLine level).append plain
      · exact plains p hp

theorem exists_printFields (each : ∀ f ∈ fields, ∀ level, ∃ text, print level f.2 = .ok text ∧ Plain text) (level : Nat) :
    ∃ pieces, printFields level fields = .ok pieces ∧ ∀ p ∈ pieces, Plain p := by
  induction fields with
  | nil => exact ⟨[], rfl, fun p hp => by cases hp⟩
  | cons f fs ih =>
    obtain ⟨name, j⟩ := f
    obtain ⟨text, first, plain⟩ := each (name, j) mem_cons_self level
    obtain ⟨more, others, plains⟩ := ih fun i hi => each i (mem_cons_of_mem (name, j) hi)
    refine ⟨(newLine level ++ stringText name ++ [':', ' '] ++ text) :: more, ?_, ?_⟩
    · unfold printFields
      rw [first, others]
      rfl
    · intro p hp
      rcases mem_cons.mp hp with rfl | hp
      · exact (((plain_newLine level).append (plain_stringText name)).append (plain_of_all (by decide))).append plain
      · exact plains p hp

theorem exists_print (whole : WellFormed j) (level : Nat) : ∃ text, print level j = .ok text ∧ Plain text := by
  induction whole generalizing level with
  | null => exact ⟨_, rfl, plain_of_all (by decide)⟩
  | bool b => exact ⟨_, rfl, by cases b <;> exact plain_of_all (by decide)⟩
  | @int n short =>
    refine ⟨signText (n < 0) ++ decimalText n.natAbs, ?_, text_wholeNumber n.natAbs ▸ plain_signed (proper_wholeNumber _) _⟩
    unfold print Value.intString intText?
    rw [if_pos short]
    exact congrArg Except.ok String.toList_ofList
  | float x => exact ⟨_, rfl, plain_floatWord x⟩
  | str s => exact ⟨_, rfl, plain_stringText s⟩
  | @arr items each ih =>
    obtain ⟨pieces, printed, plain⟩ := exists_printItems ih (level + 1)
    cases items with
    | nil => exact ⟨_, rfl, plain_of_all (by decide)⟩
    | cons j js =>
      refine ⟨'[' :: Text.joinWith [','] pieces ++ newLine level ++ [']'], ?_, ?_⟩
      · unfold print
        rw [printed]
        rfl
      · exact ((Plain.cons (by decide) (plain_joinWith plain)).append (plain_newLine level)).append
          (plain_of_all (by decide))
  | @obj fields distinct each ih =>
    obtain ⟨pieces, printed, plain⟩ := exists_printFields ih (level + 1)
    cases fields with
    | nil => exact ⟨_, rfl, plain_of_all (by decide)⟩
    | cons f fs =>
      refine ⟨'\x7b' :: Text.joinWith [','] pieces ++ newLine level ++ ['\x7d'], ?_, ?_⟩
      · unfold print
        rw [printed]
        rfl
      · exact ((Plain.cons (by decide) (plain_joinWith plain)).append (plain_newLine level)).append
          (plain_of_all (by decide))

/-! ## Showing -/

theorem exists_renderAll (each : ∀ j ∈ items, ∃ text, render j = .ok text) : ∃ pieces, renderAll items = .ok pieces := by
  induction items with
  | nil => exact ⟨[], rfl⟩
  | cons j js ih =>
    obtain ⟨text, first⟩ := each j mem_cons_self
    obtain ⟨more, others⟩ := ih fun i hi => each i (mem_cons_of_mem j hi)
    refine ⟨text :: more, ?_⟩
    unfold renderAll
    rw [first, others]
    rfl

theorem exists_renderFields (each : ∀ f ∈ fields, ∃ text, render f.2 = .ok text) :
    ∃ pieces, renderFields fields = .ok pieces := by
  induction fields with
  | nil => exact ⟨[], rfl⟩
  | cons f fs ih =>
    obtain ⟨name, j⟩ := f
    obtain ⟨text, first⟩ := each (name, j) mem_cons_self
    obtain ⟨more, others⟩ := ih fun i hi => each i (mem_cons_of_mem (name, j) hi)
    refine ⟨(Fault.quote name ++ ": " ++ text) :: more, ?_⟩
    unfold renderFields
    rw [first, others]
    rfl

theorem exists_render (whole : WellFormed j) : ∃ text, render j = .ok text := by
  induction whole with
  | int short =>
    unfold render Value.intString intText?
    rw [if_pos short]
    exact ⟨_, rfl⟩
  | null | bool | float | str => exact ⟨_, rfl⟩
  | arr each ih =>
    obtain ⟨pieces, shown⟩ := exists_renderAll ih
    unfold render
    rw [shown]
    exact ⟨_, rfl⟩
  | obj distinct each ih =>
    obtain ⟨pieces, shown⟩ := exists_renderFields ih
    unfold render
    rw [shown]
    exact ⟨_, rfl⟩

theorem exists_display (whole : WellFormed j) : ∃ text, display j = .ok text := by
  have shown := exists_render whole
  cases j with
  | str s => exact ⟨s, rfl⟩
  | _ => exact shown

/-! ## Reading back -/

/-- The text of a value is read as the value. -/
theorem ofText_toText (whole : WellFormed j) {text : List Char} (printed : toText j = .ok text) : ofText text = .ok j := by
  obtain ⟨c, more, shape, other, -⟩ := starts_print printed
  obtain ⟨_, same, plain⟩ := exists_print whole 0
  cases printed.symm.trans same
  have first : text.head? ≠ some '\ufeff' := by
    intro mark
    rcases plain _ (mem_of_head? mark) with h | h
    · cases h
    · exact absurd h (by decide)
  have blank : ∀ d ∈ ([] : List Char), isSpace d := fun d hd => by cases hd
  have here : Cursor.skip ⟨0, text⟩ = ⟨0, text⟩ := by
    rw [shape]
    exact skip_space blank other 0 more
  obtain ⟨pos, back⟩ := (readsBack (2 * text.length + 2)).value whole printed (show Follows [] from fun c h => by cases h)
    (by omega) 0
  rw [append_nil] at back
  unfold ofText read
  rw [if_neg first, here, back]
  rfl

end LineScript.Json

/-! ## Through a file -/

namespace LineScript.Json

/-- What is written to a file is read from it. -/
theorem Plain.decode {text : List Char} (plain : Plain text) :
    Value.decodeUtf8 (Text.encode text) = .ok text ∧ Text.universalNewlines text = text := by
  refine ⟨Value.decodeUtf8_encode text, Text.universalNewlines_eq_self fun mark => ?_⟩
  rcases plain _ mark with h | h
  · cases h
  · exact absurd h (by decide)

end LineScript.Json
