
import LineScript.Proofs.Passing
import LineScript.Proofs.TreeNames
import LineScript.Proofs.WholeEval

/-!
# Names as expressions

As an expression, the name of a variable need not mean the variable: an underscore that is not in front is respelled into the
brackets of a call, and some names are keywords. Both kinds give an expression that does not depend on the variable; every
other name gives its value.
-/

namespace LineScript

open Text Line List

/-! ## Names -/

structure PlainName (v : List Char) : Prop where
  valid : isValidName v = true
  oneLine : '\n' ∉ v

namespace PlainName

variable {v : List Char} (name : PlainName v)

include name

theorem exists_cons : ∃ c cs, v = c :: cs ∧ Line.isNameStart c ∧ ∀ d ∈ cs, Line.isNameChar d := by
  have form := Run.isWordForm_of_isValidName name.valid
  cases v with
  | nil => cases form
  | cons c cs =>
    unfold isWordForm at form
    rw [Bool.and_eq_true, Bool.or_eq_true, Bool.and_eq_true, decide_eq_true_eq] at form
    obtain ⟨start, rest⟩ := form
    refine ⟨c, cs, rfl, start, ?_⟩
    rcases rest with rest | ⟨ended, -⟩
    · exact all_eq_true.mp rest
    · exact absurd (mem_cons_of_mem c (mem_of_getLast? ended)) name.oneLine

theorem isNameChar_of_mem {c : Char} (h : c ∈ v) : Line.isNameChar c := by
  obtain ⟨d, ds, rfl, start, rest⟩ := name.exists_cons
  rcases mem_cons.mp h with rfl | h
  · unfold Line.isNameStart at start
    unfold Line.isNameChar Char.isAlphanum
    rw [Bool.or_assoc, Bool.or_left_comm, start, Bool.or_true]
  · exact rest c h

theorem not_mem {c : Char} (strange : Line.isNameChar c = false) : c ∉ v :=
  fun h => Bool.false_ne_true (strange.symm.trans (name.isNameChar_of_mem h))

theorem strip_eq : strip v = v := by
  have solid : ∀ c ∈ v, isBlank c = false := fun c hc => Run.isBlank_of_isNameChar (name.isNameChar_of_mem hc)
  exact trim_of_solid solid

end PlainName

namespace Expr

variable {v : List Char} {a : Value}

/-! ## Underscores in a name -/

theorem respellFrom_word {s : List Char} (h : ∀ c ∈ s, isWord c) (word : List Char) :
    respellFrom word s = respellWord (word.reverse ++ s) := by
  induction s generalizing word with
  | nil => rw [respellFrom, append_nil]
  | cons c s ih =>
    rw [respellFrom, if_pos (h c mem_cons_self), ih fun d hd => h d (mem_cons_of_mem c hd), reverse_cons,
      append_assoc]
    rfl

theorem respellWord_of_tail {w : List Char} (h : '_' ∉ w.tail) : respellWord w = w := by
  cases w with
  | nil => rfl
  | cons c cs =>
    by_cases hc : c = '_'
    · subst hc
      have tail : ('_' :: cs).reverse.takeWhile (· ≠ '_') = cs.reverse := by
        rw [reverse_cons, takeWhile_reverse_append (w := cs) h]
        simp
      have head : ('_' :: cs).length - cs.length - 1 = 0 := by
        rw [length_cons]
        omega
      unfold respellWord
      dsimp only
      rw [tail, length_reverse, head]
      simp
    · refine respellWord_eq_self fun mem => ?_
      rcases mem_cons.mp mem with same | mem
      · exact hc same.symm
      · exact h mem

/-- The last underscore that is not in front becomes a pair of brackets. -/
theorem respellWord_append {a b : List Char} (some : a ≠ []) (last : '_' ∉ b) :
    respellWord (a ++ '_' :: b) = a ++ '(' :: ')' :: b := by
  have tail : (a ++ '_' :: b).reverse.takeWhile (· ≠ '_') = b.reverse := by
    rw [reverse_append, reverse_cons, append_assoc, takeWhile_reverse_append last]
    simp
  have head : (a ++ '_' :: b).length - b.length - 1 = a.length := by
    rw [length_append, length_cons]
    omega
  have shorter : b.length ≠ (a ++ '_' :: b).length := by
    rw [length_append, length_cons]
    omega
  have filled : a.isEmpty = false := by simpa using some
  unfold respellWord
  dsimp only
  rw [tail, length_reverse, head, take_left, decide_eq_false shorter, filled, Bool.or_false,
    if_neg Bool.false_ne_true, reverse_reverse]
  simp

theorem exists_last_underscore (h : '_' ∈ v.tail) : ∃ a b, v = a ++ '_' :: b ∧ a ≠ [] ∧ '_' ∉ b := by
  cases v with
  | nil => cases h
  | cons c cs =>
    obtain ⟨a, b, rfl, last⟩ := Text.exists_last h
    exact ⟨c :: a, b, rfl, cons_ne_nil c a, last⟩

/-! ## A name as an expression -/

section

variable {v : List Char} (name : PlainName v)

include name

theorem respell_name : respell v = respellWord v := by
  refine respellFrom_word (fun c hc => ?_) []
  exact Run.nameChar_forall (P := fun c => isWord c = true) (by decide) (name.isNameChar_of_mem hc)

theorem lex_name : lex v = some [.word (String.ofList v)] := by
  have absent : ∀ d, Line.isNameChar d = false → d ∉ v := fun d strange => name.not_mem strange
  have inside : ∀ d ∈ v, inWord d := fun d hd =>
    Run.nameChar_forall (P := fun d => inWord d = true) (by decide) (name.isNameChar_of_mem hd)
  have chars : ∀ d ∈ v, Text.isNameChar d := fun d hd =>
    Run.nameChar_forall (P := fun d => Text.isNameChar d = true) (by decide) (name.isNameChar_of_mem hd)
  obtain ⟨c, cs, rfl, first, -⟩ := name.exists_cons
  have facts : Text.isNameStart c ∧ startsToken c ∧ c.isDigit = false ∧ c ≠ '.' ∧ c ≠ '"' ∧ c ≠ '\x27' :=
    Run.nameChar_forall
      (P := fun c => Line.isNameStart c = true →
        Text.isNameStart c ∧ startsToken c ∧ c.isDigit = false ∧ c ≠ '.' ∧ c ≠ '"' ∧ c ≠ '\x27')
      (by decide) (name.isNameChar_of_mem mem_cons_self) first
  obtain ⟨start, token, digit, point, double, single⟩ := facts
  have word : (c :: cs).takeWhile inWord = c :: cs := by
    have appended : ((c :: cs) ++ []).takeWhile inWord = (c :: cs) ++ [].takeWhile inWord :=
      takeWhile_append_of_pos inside
    rwa [takeWhile_nil, append_nil] at appended
  have valid : validName (c :: cs) := by
    rw [validName, start, all_eq_true.mpr fun d hd => chars d (mem_cons_of_mem c hd)]
    rfl
  have taken : lexWord (c :: cs) = some (.word (String.ofList (c :: cs)), []) := by
    unfold lexWord
    dsimp only
    rw [word, drop_length, valid]
    rfl
  have cut : lexToken (c :: cs) = some (.word (String.ofList (c :: cs)), []) := by
    rw [lexToken, digit]
    simp [point, double, single, inside c mem_cons_self, taken]
  unfold lex
  rw [if_neg, lineFeeds_eq_self (absent '\r' (by decide)), lineStart_of_start token, Option.bind_some,
    lexGo_token _ token cut (Nat.zero_le _)]
  · rfl
  · rw [contains_iff_mem]
    exact absent '\x00' (by decide)

end

theorem expressions_lone {t : Token} {a : Parse.Parsed} {n : Nat} (read : Parse.atom (n + 1) [t] = some (a, []))
    (unsigned : ∀ s, t ≠ .sym s) (free : ∀ k, isKeyword k → t ≠ .word k) :
    Parse.expressions (n + 15) [t] = some (a.expr, []) := by
  have done : ∀ level, Stops level [] := fun level => .done
  have other : ∀ {k : String} {ts}, isKeyword k → ([t] : List Token) ≠ .word k :: ts :=
    fun keyword same => free _ keyword (List.cons.inj same).1
  have awaited : Parse.awaited (n + 3) [t] = some (a, []) := by
    rw [Parse.awaited, primary_of read (done 0)]
    exact fun ts => other (by decide)
  have factor : Parse.factor (n + 4) [t] = some (a, []) := by
    rw [Parse.factor, awaited]
    · rfl
    all_goals exact fun ts same => unsigned _ (List.cons.inj same).1
  have binary : ∀ k ≤ 6, Parse.binary (n + k + 5) (6 - k) [t] = some (a, []) := by
    intro k
    induction k with
    | zero =>
      intro _
      rw [Parse.binary]
      exact factor
    | succ k ih =>
      intro small
      have fuel : n + (k + 1) + 5 = n + k + 5 + 1 := by omega
      have next : 6 - (k + 1) + 1 = 6 - k := by omega
      rw [fuel, Parse.binary, if_pos (by unfold Parse.signLevel; omega), next, ih (by omega)]
      exact (done _).binaryRest (n + k + 4) _
  have inversion : Parse.inversion (n + 12) [t] = some (a, []) := by
    rw [Parse.inversion, binary 6 (Nat.le_refl _)]
    · show (Parse.compareRest (n + 11) []).map _ = _
      rw [Parse.compareRest]
      rfl
    · exact fun ts => other (by decide)
  have disjunction := disjunction_of (conjunction_of inversion (done 0)) (done 0)
  have expression : Parse.expression (n + 15) [t] = some (a, []) := by
    rw [Parse.expression, disjunction]
    · rfl
    · exact fun ts => other (by decide)
  rw [Parse.expressions, expression]
  rfl

theorem expressions_word {w : String} (free : isKeyword w = false) (n : Nat) :
    Parse.expressions (n + 15) [.word w] = some (.name w, []) :=
  expressions_lone (atom_word free []) (nofun)
    fun _ keyword same => ne_of_isKeyword free keyword (Token.word.inj same)

/-- Once a name is respelled into a call, or if it is a keyword, no expression made of it depends on the variable. -/
theorem evaluate_set_congr (name : PlainName v) (unread : '_' ∈ v.tail ∨ isKeyword (String.ofList v)) (env : Env)
    (a b : Value) : evaluate (env.set (String.ofList v) a) v = evaluate (env.set (String.ofList v) b) v := by
  refine evaluate_congr fun ts cut x word free => ?_
  have other : String.ofList v ≠ x := by
    rintro rfl
    rcases unread with underscore | keyword
    · obtain ⟨front, rest, rfl, some, last⟩ := exists_last_underscore underscore
      have respelled : respell (front ++ '_' :: rest) = front ++ '(' :: ')' :: rest := by
        rw [respell_name name, respellWord_append some last]
      have stands := word_infix_of_lex cut word
      rw [respelled, lineFeeds_eq_self, String.toList_ofList] at stands
      · rcases (Text.infix_append_iff (name.not_mem (by decide)) _ _).mp stands with inside | inside
        · have short := inside.length_le
          rw [length_append, length_cons] at short
          omega
        · have short := inside.length_le
          have filled := length_pos_iff.mpr some
          rw [length_append, length_cons, length_cons] at short
          omega
      · have absent := name.not_mem (by decide : Line.isNameChar '\r' = false)
        simp only [mem_append, mem_cons, not_or] at absent ⊢
        exact ⟨absent.1, by decide, by decide, absent.2.2⟩
    · exact Bool.false_ne_true (free.symm.trans keyword)
  rw [Table.find?_set_of_ne _ other, Table.find?_set_of_ne _ other]

section

variable {v : List Char} (name : PlainName v) (plain : '_' ∉ v.tail) (free : isKeyword (String.ofList v) = false) {env : Env}

include name plain free

theorem evaluate_name_eq : evaluate env v =
    tryCatch (eval env (.name (String.ofList v))) fun e => throw (.runtime (.evaluating e.message)) := by
  have fuel : parseFuel v = 40 * v.length + 145 + 15 := by rfl
  have read : parse v = some (.name (String.ofList v)) := by
    rw [parse, lex_name name, Option.bind_some, fuel, expressions_word free]
    rfl
  rw [evaluate, respell_name name, respellWord_of_tail plain, readAndEval, read]

theorem evaluate_name (found : env.find? (String.ofList v) = some a) : evaluate env v = pure a := by
  have looked : eval env (.name (String.ofList v)) = pure a := by
    simp only [eval, lookup, found]
    rfl
  rw [evaluate_name_eq name plain free, looked]
  rfl

theorem evaluate_unknown (unset : env.find? (String.ofList v) = none) (other : builtins.lookup (String.ofList v) = none) :
    evaluate env v = throw (.runtime (.evaluating (Fault.runtime (.undefined (String.ofList v))).message)) := by
  have looked : eval env (.name (String.ofList v)) = throw (.runtime (.undefined (String.ofList v))) := by
    simp only [eval, lookup, unset, other]
    rfl
  rw [evaluate_name_eq name plain free, looked]
  rfl

end

/-- A variable can be read by its name exactly if the name has no underscore but in front and is no keyword. -/
theorem evaluate_name_iff (name : PlainName v) (env : Env) :
    (∀ n : Numeral, evaluate (env.set (String.ofList v) (.int n.value)) v = pure (.int n.value)) ↔
      '_' ∉ v.tail ∧ String.ofList v ∉ keywords := by
  constructor
  · intro reads
    have same : ∀ unread : '_' ∈ v.tail ∨ isKeyword (String.ofList v), False := by
      intro unread
      have zero := reads (smallNumeral 0 (by decide))
      have one := reads (smallNumeral 1 (by decide))
      rw [evaluate_set_congr name unread env _ (.int 1)] at zero
      have results := congrArg (fun x : Eval Value => (x.run.run {}).1) (zero.symm.trans one)
      cases results
    refine ⟨fun mem => same (Or.inl mem), fun mem => same (Or.inr ?_)⟩
    exact contains_iff_mem.mpr mem
  · rintro ⟨plain, free⟩ n
    have free : isKeyword (String.ofList v) = false := Bool.eq_false_iff.mpr fun h => free (contains_iff_mem.mp h)
    exact evaluate_name name plain free (Table.find?_set_self _ _ _)

/-- A name of letters and digits that is no keyword is read as it stands, also if it is a name that no script could assign. -/
theorem evaluate_identifier (x : Identifier) {env : Env} (found : env.find? x.name = some a) :
    evaluate env x.name.toList = pure a := by
  have shallow : WholeChain.Shallow ⟨.named x, []⟩ := ⟨Nat.zero_le _, fun _ none => absurd none not_mem_nil⟩
  have text : WholeChain.text [] ⟨.named x, []⟩ = x.name.toList := append_nil _
  have looked : eval env (.name x.name) = pure a := by
    simp only [eval, lookup, found]
    rfl
  have evaluated := evaluate_text shallow [] env
  rw [text] at evaluated
  rw [evaluated]
  show tryCatch (eval env (.name x.name)) _ = _
  rw [looked]
  rfl

end Expr

end LineScript
