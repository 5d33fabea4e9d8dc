
import LineScript.Proofs.ElementPaths
import LineScript.Proofs.Printing
import LineScript.Proofs.QuotedText

/-!
# Array literals

An array of numerals and texts in quotes of either kind has their values, in order and with spaces as one likes
(`arrayLiteral_gives_elements`). A comma or a bracket in a text, a blank text and an empty one are no exceptions.
If the index of packages cannot be looked at, there is no array.
-/

namespace LineScript

open Text Line Number LineScript.Expr List

/-- An element of an array as it is written: a numeral, or a text in quotes. -/
inductive Element where
  | number (n : Numeral)
  | text (l : Literal) (plain : ∀ c ∈ ['"', '\x27', '\\', '\n', '\r', '\x00', '_'], c ∉ l.text)

namespace Element

def written : Element → List Char
  | .number n => decimalText n.value
  | .text l _ => l.mark :: (l.text ++ [l.mark])

def value : Element → Value
  | .number n => .int n.value
  | .text l _ => .str (String.ofList l.text)

theorem evaluate_written (env : Env) (e : Element) : Expr.evaluate env e.written = pure e.value := by
  cases e with
  | number n => exact Run.evaluate_decimalText env n
  | text l plain =>
    exact evaluate_quoted env (isMark_iff.mp l.isMark) l.free (plain _ (by decide)) (plain _ (by decide))
      (plain _ (by decide)) (plain _ (by decide)) (plain _ (by decide))

theorem closed_written (e : Element) : Closed e.written := by
  cases e with
  | number n =>
    refine .plain fun c hc => ?_
    exact digit_forall (P := fun c => c ≠ ',' ∧ isMark c = false) (by decide) (isDigit_of_mem_decimalText hc)
  | text l _ => exact closed_literal l

/-- An element neither starts nor ends with white space. -/
theorem strip_written (e : Element) : strip e.written = e.written := by
  cases e with
  | number n =>
    have solid : ∀ c ∈ decimalText n.value, isBlank c = false := fun c hc =>
      digit_forall (P := fun c => isBlank c = false) (by decide) (isDigit_of_mem_decimalText hc)
    exact trim_of_solid solid
  | text l _ =>
    have solid : isBlank l.mark = false := by rcases isMark_iff.mp l.isMark with same | same <;> rw [same] <;> decide
    refine trim_eq_self (fun c hc => ?_) fun c hc => ?_
    · cases hc
      exact solid
    · rw [written, ← cons_append, getLast?_concat] at hc
      cases hc
      exact solid

theorem written_ne_nil (e : Element) : e.written ≠ [] := by
  cases e with
  | number n =>
    obtain ⟨d, ds, shape, -⟩ := exists_decimalText n.value
    rw [written, shape]
    exact cons_ne_nil _ _
  | text l _ => exact cons_ne_nil _ _

end Element

/-- An element between two commas or brackets, with spaces before and after it. -/
def placedText (e : Nat × Element × Nat) : List Char := spaces e.1 ++ (e.2.1.written ++ spaces e.2.2)

/-- An array as it is written. An empty one can have spaces in it as well. -/
def arrayText (elements : List (Nat × Element × Nat)) (gap : Nat) : List Char :=
  '[' :: (joinWith [','] (elements.map placedText) ++ spaces gap ++ [']'])

theorem strip_placedText (e : Nat × Element × Nat) : strip (placedText e) = e.2.1.written := by
  rw [placedText, strip_append_left fun _ => isBlank_of_mem_spaces, strip, trim_append_of_all fun _ => isBlank_of_mem_spaces]
  exact e.2.1.strip_written

variable (elements : List (Nat × Element × Nat)) (gap : Nat)

theorem inner_arrayText :
    inner (arrayText elements gap) = joinWith [','] (elements.map placedText) ++ spaces gap := dropLast_concat

/-- The pieces of an array between commas are its elements. -/
theorem pieces_arrayText (filled : elements ≠ []) :
    (splitOutsideQuotes (strip (inner (arrayText elements gap))) ',').map strip = elements.map fun e => e.2.1.written := by
  have closed : ∀ w ∈ elements.map placedText, Closed w := forall_mem_map.mpr fun e _ =>
    (closed_spaces _).append (e.2.1.closed_written.append (closed_spaces _))
  rw [inner_arrayText, map_strip_splitOutsideQuotes_strip, splitOutsideQuotes, map_strip_splitFrom_blank (fun _ => isBlank_of_mem_spaces) rfl,
    ← splitOutsideQuotes, splitOutsideQuotes_joinWith (by simpa using filled) closed, map_map]
  exact map_congr_left fun e _ => strip_placedText e

namespace Run

variable {s : Session}

/-- **An array literal gives its elements.** A literal of numerals and quoted texts makes a new list with exactly their values,
in order, and leaves every other list as it is. Where the index of packages cannot be looked at, one with elements ends with
that error and makes no list. -/
theorem arrayLiteral_gives_elements : ∃ r t, (arrayLiteral (arrayText elements gap)).outcome s = (r, t) ∧
      (elements = [] ∨ (Pkg.look s.depot.world.disk).1.isOk = true → r = .ok (.list s.depot.world.store.lists.size) ∧
        t.depot.world.store.lists = s.depot.world.store.lists.push (elements.map fun e => e.2.1.value)) ∧
      (elements ≠ [] → ∀ f, (Pkg.look s.depot.world.disk).1 = .error f →
        r = .error (.fault f) ∧ t.depot.world.store = s.depot.world.store) := by
  have opened : (startsWith (arrayText elements gap) ['['] && endsWith (arrayText elements gap) [']']) = true := by
    exact Bool.and_eq_true_iff.mpr ⟨rfl, isSuffixOf_iff_suffix.mpr ⟨'[' :: _, rfl⟩⟩
  unfold arrayLiteral
  rw [opened]
  dsimp only
  by_cases filled : elements = []
  · have blank : strip (inner (arrayText [] gap)) = [] := by
      rw [inner_arrayText]
      exact trim_append_of_all (fun _ => isBlank_of_mem_spaces) []
    rw [filled, blank]
    exact ⟨_, _, outcome_evaluation (Eval.newList []) s, fun _ => ⟨rfl, rfl⟩, fun some => absurd rfl some⟩
  · have pieces := pieces_arrayText elements gap filled
    have unblank : (strip (inner (arrayText elements gap))).isEmpty = false := by
      refine isEmpty_eq_false_iff.mpr fun blank => ?_
      rw [blank] at pieces
      obtain ⟨e, others, rfl⟩ := exists_cons_of_ne_nil filled
      exact e.2.1.written_ne_nil (List.cons.inj pieces).1.symm
    have nonempty : (elements.map fun e => e.2.1.written).filter (!·.isEmpty) = elements.map fun e => e.2.1.written := by
      refine filter_eq_self.mpr fun w hw => ?_
      obtain ⟨e, -, rfl⟩ := mem_map.mp hw
      simpa using e.2.1.written_ne_nil
    have values : ∀ u, ((elements.map fun e => e.2.1.written).mapM arrayElement).outcome u =
        (.ok (elements.map fun e => e.2.1.value), u) := by
      intro u
      rw [mapM_map]
      exact @outcome_mapM _ _ _ _ (fun _ => false) (fun _ => u) elements (fun e _ _ => outcome_recover_ok (outcome_value (e.2.1.evaluate_written u.vars)) _) false
    have touched := outcome_act Pkg.touch s
    rw [Pkg.run_touch_eq] at touched
    rw [unblank, pieces, nonempty]
    -- The index is looked at once, before any element is evaluated.
    rcases looked : Pkg.look s.depot.world.disk with ⟨f | _, disk⟩ <;> rw [looked] at touched
    · refine ⟨_, _, bind_error touched, fun fine => ?_, fun _ g same => ?_⟩
      · rcases fine with none | fine
        · exact absurd none filled
        · cases fine
      · cases same
        exact ⟨rfl, rfl⟩
    · refine ⟨_, _, (bind_ok touched).trans ((bind_ok (values _)).trans (outcome_evaluation (Eval.newList _) _)), ?_, ?_⟩
      · exact fun _ => ⟨rfl, rfl⟩
      · exact fun _ _ => nofun

/-- A number and two texts, one of them with a comma and a bracket in it and one empty. -/
def mixedElements : List (Nat × Element × Nat) :=
  [(0, .number (smallNumeral 19 (by decide)), 1), (2, .text ⟨'"', "a, b]".toList, rfl, by decide⟩ (all_iff_forall_prop.mp (by decide)), 0),
    (0, .text ⟨'\x27', [], rfl, by decide⟩ (all_iff_forall_prop.mp (by decide)), 3)]

theorem arrayLiteral_gives_elements_mixed :
    arrayText mixedElements 0 = "[19 ,  \"a, b]\",\x27\x27   ]".toList ∧
      ∃ t, (arrayLiteral (arrayText mixedElements 0)).outcome {} = (.ok (.list 0), t) ∧
        t.depot.world.store.lists = #[[.int 19, .str "a, b]", .str ""]] := by
  obtain ⟨r, t, ended, fine, -⟩ := arrayLiteral_gives_elements (s := {}) mixedElements 0
  obtain ⟨rfl, made⟩ := fine (.inr (by decide +kernel))
  exact ⟨by decide +kernel, t, ended, made⟩

/-- An array of one numeral is refused where the index is no text. -/
theorem undecodable_index_spoils_array :
    arrayText [(0, .number (smallNumeral 1 (by decide)), 0)] 0 = "[1]".toList ∧
      ((arrayLiteral "[1]".toList).outcome (indexed [0xff])).1.isOk = false :=
  ⟨by decide +kernel, by decide +kernel⟩

end Run

end LineScript
