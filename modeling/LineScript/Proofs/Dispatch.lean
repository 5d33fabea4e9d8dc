
import LineScript.Script.Command

/-!
# The kind of a line as a first choice

The kinds of lines stand in a fixed order, each with a test, and the first kind counts whose test fits. So the kind of
a line has passed its test, and a line is of a kind if the test of the kind fits and none before it does.
-/

namespace LineScript.Command

open List

variable {command : Command} {k : Nat}

/-- The kinds in the order in which they are tried. -/
def order : List Command :=
  [.eval, .input, .inputAssign, .shorthand, .alternative, .exit, .package, .define, .loop, .condition, .collect, .skip,
   .goto, .runFile, .call, .printInput, .assign, .print, .fiveAndFive, .nineAndTen, .version, .element, .expression]

/-- Whether a line can be of a kind. -/
def fits (inLoop skipped : Bool) (code : List Char) : Command → Bool
  | .eval => starts code "eval "
  | .input => isInput code
  | .inputAssign => isInputAssign code
  | .shorthand => starts code "alias "
  | .alternative => starts code "else"
  | .exit => starts code "exit_"
  | .package => starts code "gpd "
  | .define => starts code "def"
  | .loop => starts code "while"
  | .condition => starts code "if"
  | .collect => inLoop
  | .skip => skipped
  | .goto => starts code "goto"
  | .runFile => starts code "guython"
  | .call => isCall code
  | .printInput => starts code "printinput" || starts code "print input"
  | .assign => holds code "=" && !starts code "print" && code ≠ "5+5=4".toList
  | .print => starts code "print"
  | .fiveAndFive => code = "5+5=4".toList
  | .nineAndTen => code = "9+10".toList
  | .version => code = "ver".toList
  | .element => holds code "[" && holds code "]" && !holds code "="
  | .expression => true

section

variable {inLoop skipped : Bool} {code : List Char}

theorem find?_cons_ite (p : Command → Bool) (c : Command) (rest : List Command) :
    (c :: rest).find? p = if p c then some c else rest.find? p := by
  rw [List.find?_cons]
  cases p c <;> rfl

theorem find?_order : order.find? (fits inLoop skipped code) = some (of inLoop skipped code) := by
  unfold of order
  simp only [find?_cons_ite, fits, apply_ite some, decide_eq_true_eq, if_true]

theorem fits_of : fits inLoop skipped code (of inLoop skipped code) := find?_some find?_order

theorem fits_of_eq (h : of inLoop skipped code = command) :
    fits inLoop skipped code command := h ▸ fits_of

theorem of_eq_of_fits {before after : List Command} (place : order = before ++ command :: after)
    (earlier : ∀ other ∈ before, fits inLoop skipped code other = false) (fit : fits inLoop skipped code command) :
    of inLoop skipped code = command := by
  have found : order.find? (fits inLoop skipped code) = some command := by
    refine find?_eq_some_iff_append.mpr ⟨fit, before, after, place, fun other hother => ?_⟩
    rw [earlier other hother]
    rfl
  exact Option.some.inj (find?_order.symm.trans found)

theorem of_mem_take (first : command ∈ order.take k) (fit : fits inLoop skipped code command) :
    of inLoop skipped code ∈ order.take k := by
  cases found : (order.take k).find? (fits inLoop skipped code) with
  | none => exact absurd fit (find?_eq_none.mp found command first)
  | some other =>
    have whole := @find?_order inLoop skipped code
    rw [← take_append_drop k order, find?_append, found] at whole
    rw [← Option.some.inj whole]
    exact mem_of_find?_eq_some found

theorem not_fits_of_take (first : command ∈ order.take k) (later : of inLoop skipped code ∉ order.take k) :
    fits inLoop skipped code command = false :=
  Bool.eq_false_iff.mpr fun fit => later (of_mem_take first fit)

end

end LineScript.Command
