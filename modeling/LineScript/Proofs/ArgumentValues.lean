
import LineScript.Proofs.ModuleFiles
import LineScript.Proofs.NumeralReading
import LineScript.Proofs.QuotedText
import LineScript.Proofs.Valueless

/-!
# Arguments and expressions

An argument is looked for as a quoted text, a numeral, a variable and an array before it is evaluated. A numeral has the
value of the expression, and an array is never reached; the other two go by the look of the text, and can differ from the
expression.
-/

namespace LineScript.Expr

open Text Number List

variable {c : Char} {s a cs t : List Char} {ts : List Token} {w : Value} {v : Literal}

/-! ## The first token -/

theorem lexGo_eq_some {n depth : Nat} (start : startsToken c) (cut : lexGo n depth (c :: cs) = some ts) :
    ∃ m t rest us, lexToken (c :: cs) = some (t, rest) ∧ lexGo m (t.depthAfter depth) rest = some us ∧ ts = t :: us := by
  cases n with
  | zero => cases cut
  | succ n =>
    rw [lexGo_of_start n depth start] at cut
    obtain ⟨⟨t, rest⟩, token, later⟩ := Option.bind_eq_some_iff.mp cut
    split at later
    · cases later
    · obtain ⟨us, left, rfl⟩ := Option.map_eq_some_iff.mp later
      exact ⟨n, t, rest, us, token, left, rfl⟩

theorem lex_eq_some (start : startsToken c) (first : lineFeeds s = c :: cs) (cut : lex s = some ts) :
    ∃ m t rest us, lexToken (c :: cs) = some (t, rest) ∧ lexGo m (t.depthAfter 0) rest = some us ∧ ts = t :: us := by
  unfold lex at cut
  split at cut
  · cases cut
  · rw [first, lineStart_of_start start] at cut
    exact lexGo_eq_some start cut

theorem lineFeeds_cons (other : c ≠ '\r') (s : List Char) : lineFeeds (c :: s) = c :: lineFeeds s :=
  lineFeeds_append (a := [c]) (fun mem => other (mem_singleton.mp mem).symm) s

/-- Symbols that these characters start cannot stand in front of an operand with a value. -/
theorem startsOperand_of_lexSym (first : c ∈ ['+', '-', '[']) {r rest : List Char} {s : Sym}
    (cut : lexSym (c :: r) = some (s, rest)) : Parse.startsOperand s = false := by
  unfold lexSym at cut
  split at cut
  all_goals
    rename_i shape
    cases cut
    all_goals first
      | rfl
      | rw [(List.cons.inj shape).1] at first
        exact absurd first (by decide)

theorem doomed_of_first (first : c ∈ ['+', '-', '[']) (cut : lex (c :: cs) = some ts) : Parse.Doomed ts := by
  have facts : ∀ c ∈ ['+', '-', '['], startsToken c ∧ c ≠ '\r' ∧ c.isDigit = false ∧ c ≠ '.' ∧ c ≠ '"' ∧ c ≠ '\x27' ∧
      inWord c = false := all_iff_forall_prop.mp (by decide)
  obtain ⟨start, other, digit, point, double, single, word⟩ := facts c first
  obtain ⟨m, t, rest, us, token, -, rfl⟩ := lex_eq_some start (lineFeeds_cons other cs) cut
  rw [lexToken, digit, word] at token
  simp only [point, double, single] at token
  obtain ⟨⟨s, left⟩, sym, same⟩ := Option.map_eq_some_iff.mp token
  obtain rfl : Token.sym s = t := (Prod.mk.inj same).1
  exact Parse.doomed_sym (startsOperand_of_lexSym first sym) us

/-! ## Respelling -/

/-- A text stays as it is, or it stays up to an underscore, which becomes an opening parenthesis. -/
theorem respellFrom_cases (word s : List Char) : respellFrom word s = word.reverse ++ s ∨
      ∃ a b b', word.reverse ++ s = a ++ '_' :: b ∧ a ≠ [] ∧ respellFrom word s = a ++ '(' :: b' := by
  induction s generalizing word with
  | nil =>
    rw [append_nil]
    rcases respellWord_cases word.reverse with ⟨-, kept⟩ | ⟨a, b, shape, some, replaced⟩
    · exact Or.inl kept
    · exact Or.inr ⟨a, b, _, shape, some, replaced⟩
  | cons c s ih =>
    rw [respellFrom]
    split
    · have longer := ih (c :: word)
      rwa [reverse_cons, append_assoc] at longer
    · rcases respellWord_cases word.reverse with ⟨-, kept⟩ | ⟨a, b, shape, some, replaced⟩
      · rw [kept]
        rcases ih [] with same | ⟨a, b, b', shape, -, replaced⟩
        · rw [same]
          exact Or.inl rfl
        · refine Or.inr ⟨word.reverse ++ c :: a, b, b', ?_, by simp, ?_⟩
          · rw [reverse_nil, nil_append] at shape
            rw [shape, append_assoc, cons_append]
          · rw [replaced, append_assoc, cons_append]
      · refine Or.inr ⟨a, b ++ c :: s, ')' :: b ++ c :: respellFrom [] s, ?_, some, ?_⟩
        · rw [shape, append_assoc, cons_append]
        · rw [replaced, append_assoc, cons_append]

theorem respell_cases (s : List Char) :
    respell s = s ∨ ∃ a b b', s = a ++ '_' :: b ∧ a ≠ [] ∧ respell s = a ++ '(' :: b' := respellFrom_cases [] s

def beforeCall (c : Char) : Bool := c ≠ '(' && c.toNat < 128

theorem takeWhile_respell (s : List Char) : (respell s).takeWhile beforeCall <+: s := by
  rcases respell_cases s with same | ⟨a, b, b', rfl, -, replaced⟩
  · rw [same]
    exact takeWhile_prefix _
  · have stops : ¬ beforeCall '(' = true := by decide
    rw [replaced, takeWhile_append]
    split
    · rw [takeWhile_cons_of_neg stops, append_nil]
      exact prefix_append a _
    · exact (List.takeWhile_prefix _).trans (prefix_append a _)

theorem halts_dropWhile (s : List Char) : Halts (lineFeeds (s.dropWhile beforeCall)) := by
  have strange := head?_dropWhile_not beforeCall s
  cases rest : s.dropWhile beforeCall with
  | nil => exact fun c none => by cases none
  | cons c r =>
    rw [rest] at strange
    have stops : c = '(' ∨ 128 ≤ c.toNat := by
      simp only [beforeCall, Bool.and_eq_false_iff, decide_eq_false_iff_not] at strange
      exact strange.imp Decidable.not_not.mp Nat.not_lt.mp
    have other : c ≠ '\r' := by
      rintro rfl
      exact absurd stops (by decide)
    rw [lineFeeds_cons other]
    intro d first
    cases first
    exact stops

/-! ## Numerals -/

/-- If a numeral goes on with nothing that follows it, it is the only token, or no expression with a value starts so. -/
theorem tokens_of_numeral (straight : '\r' ∉ c :: a) (h : Runs (lineFeeds t) .whole (c :: a ++ lineFeeds t))
    (start : c.isDigit ∨ c = '.') (halts : Halts (lineFeeds t)) (cut : lex (c :: a ++ t) = some ts) :
    Parse.Doomed ts ∨ lineFeeds t = [] ∧ ∃ v, lexToken (c :: a) = some (.number v, []) ∧ ts = [.number v] := by
  have begins : startsToken c := by
    rcases start with digit | rfl
    · exact digit_forall (P := fun c => startsToken c = true) (by decide) digit
    · decide
  have fed : lineFeeds (c :: a ++ t) = c :: (a ++ lineFeeds t) := lineFeeds_append straight t
  obtain ⟨m, token, rest, us, taken, later, rfl⟩ := lex_eq_some begins fed cut
  rcases lexToken_of_halts halts h start _ taken with dot | ⟨v, number, same, ended⟩
  · obtain rfl : token = .sym .dot := dot
    exact Or.inl (Parse.doomed_sym rfl us)
  · obtain rfl : token = .number v := number
    obtain rfl : rest = lineFeeds t := same
    cases follows : lineFeeds t with
    | nil =>
      rw [follows] at taken later
      rw [append_nil] at taken
      have none : us = [] := by
        cases m <;> exact (Option.some.inj later).symm
      exact Or.inr ⟨rfl, v, taken, by rw [none]⟩
    | cons d r =>
      -- a parenthesis right after the number calls it
      obtain rfl : d = '(' := ended d (by rw [follows]; rfl)
      rw [follows] at later
      obtain ⟨_, paren, _, vs, opens, -, rfl⟩ := lexGo_eq_some (by decide) later
      obtain rfl : Token.sym .lparen = paren := (Prod.mk.inj (Option.some.inj opens)).1
      exact Or.inl (Parse.doomed_call v vs)

theorem expressions_number (v : Literal) (n : Nat) : Parse.expressions (n + 15) [.number v] = some (.literal v, []) := by
  have atom : Parse.atom (n + 1) [.number v] = some (.of (.literal v), []) := by rw [Parse.atom]
  exact expressions_lone atom (fun _ same => by cases same) fun _ _ same => by cases same

theorem evaluate_number (env : Env) (cut : lex (respell s) = some [.number v]) : evaluate env s = pure v.value := by
  have fuel : parseFuel (respell s) = 40 * (respell s).length + 145 + 15 := by rfl
  have read : parse (respell s) = some (.literal v) := by
    rw [parse, cut, Option.bind_some, fuel, expressions_number]
    rfl
  rw [evaluate, readAndEval, read]
  rfl

/-- A digit of another script in front makes no token: no name starts with it. -/
theorem lexToken_of_large (large : 128 ≤ c.toNat) (unnamed : isNameStart c = false) (cs : List Char) :
    lexToken (c :: cs) = none := by
  have other : ∀ d : Char, d.toNat < 128 → c ≠ d := fun d small => ne_of_large large small
  have digit : c.isDigit = false := by
    refine Bool.eq_false_iff.mpr fun digit => ?_
    have small := toNat_lt_of_isAlphanum (isAlphanum_of_isDigit digit)
    omega
  have word : inWord c := by simp [inWord, large]
  have taken : (c :: cs).takeWhile inWord = c :: cs.takeWhile inWord := takeWhile_cons_of_pos word
  have lower : c.toLower = c := by
    unfold Char.toLower
    split
    · rename_i upper
      have small : c.toNat ≤ 'Z'.toNat := upper.2
      have bound : 'Z'.toNat < 128 := by decide
      omega
    · rfl
  have unmarked : stringMarks (c :: cs.takeWhile inWord) = none := by
    have marked : ∀ text : String, text.toList.head?.all (·.toNat < 128) →
        String.ofList ((c :: cs.takeWhile inWord).map Char.toLower) ≠ text := by
      rintro text small rfl
      rw [map_cons, lower] at small
      have bound : c.toNat < 128 := by simpa using small
      omega
    unfold stringMarks
    split
    all_goals first
      | rfl
      | rename_i same
        exact absurd same (marked _ (by decide))
  rw [lexToken, digit]
  simp only [other '.' (by decide), other '"' (by decide), other '\x27' (by decide), decide_false, Bool.false_and,
    Bool.or_self, Bool.false_eq_true, if_false, word, if_true]
  unfold lexWord
  simp only [taken, validName, unnamed, unmarked, Bool.false_and, ite_self, Bool.false_eq_true, if_false]

/-- A text with a point is taken for a number if it can be converted to one. -/
theorem numeral?_pointed (pointed : '.' ∈ s) : Run.numeral? s = .ok ((readFloat s).map .float) := by
  unfold Run.numeral?
  rw [if_pos (contains_iff_mem.mpr pointed)]
  unfold Value.toFloat Value.ofText Value.readFloatValue
  dsimp only
  rw [String.toList_ofList]
  cases readFloat s <;> rfl

/-- A numeral has a sign, or its form, and in the latter case a number token that it makes up is its value unless it is
respelled. -/
theorem numeral?_cases (bare : strip s = s) (numeral : Run.numeral? s = .ok (some w)) :
    Signed s ∨ ∃ c r, plainDigits s = c :: r ∧ (c.isDigit = true ∨ c = '.') ∧ Runs [] .whole (c :: r) ∧
      (respell (c :: r) = c :: r → ∀ v, lexToken (c :: r) = some (.number v, []) → v.value = w) := by
  by_cases pointed : '.' ∈ s
  · rw [numeral?_pointed pointed] at numeral
    obtain ⟨x, read, rfl⟩ := Option.map_eq_some_iff.mp (Except.ok.inj numeral)
    refine (readFloat_cases bare pointed read).imp_right ?_
    rintro ⟨c, r, shape, start, form, value⟩
    refine ⟨c, r, shape, start, form, fun same v token => ?_⟩
    rcases value with ⟨d, digit, found⟩ | value
    · exact absurd found ((respell_eq_self_iff _).mp same d (digit_forall (P := fun d => isWord d = true) (by decide) digit))
    · obtain rfl : Literal.float x = v := by simpa [value] using token
      rfl
  · rw [Run.numeral?_name pointed] at numeral
    obtain ⟨n, number, rfl⟩ := Option.map_eq_some_iff.mp (Except.ok.inj numeral)
    have read : readInt 10 s = .value n := by
      unfold Run.PlainArg.number? at number
      dsimp only at number
      split at number
      · rename_i found
        rw [found, Option.some.inj number]
      · cases number
    refine (readInt_cases bare read).imp_right ?_
    rintro ⟨d, ds, es, shape, digit, digits, cut, rfl⟩
    have form : Runs [] .whole (d :: ds) := by
      have all : ∀ c ∈ d :: ds, inDigits c := forall_mem_cons.mpr ⟨by simp [inDigits, digit], digits⟩
      have run := Runs.append all (q := .whole) (by simp) (.stop (t := []))
      rwa [append_nil] at run
    refine ⟨d, ds, shape, Or.inl digit, form, fun _ v token => ?_⟩
    have nothing : Halts [] := fun c none => by cases none
    rw [lexToken, if_pos (by simp [digit]), lexNumber_of_runs nothing digit form, cut] at token
    obtain ⟨r, checked, same⟩ := Option.map_eq_some_iff.mp token
    obtain rfl := checkWhole_eq_some (r := (.int (ofDigits 10 es), [])) checked
    obtain rfl : Literal.int (ofDigits 10 es) = v := by simpa using same
    rfl

theorem exists_respell_cons (c : Char) (s : List Char) : ∃ r, respell (c :: s) = c :: r := by
  rcases respell_cases (c :: s) with same | ⟨a, b, b', shape, some, replaced⟩
  · exact ⟨s, same⟩
  · obtain ⟨d, a, rfl⟩ := exists_cons_of_ne_nil some
    obtain ⟨rfl, -⟩ := List.cons.inj shape
    exact ⟨a ++ '(' :: b', replaced⟩

/-- The front of a text in the form of a numeral has this form too, as far as it is written with the first 128 characters. -/
theorem runs_of_front (form : Runs [] .whole (plainDigits s)) (front : a <+: s) (small : ∀ c ∈ a, c.toNat < 128) :
    (∀ t, Runs t .whole (a ++ t)) ∧ ∀ c ∈ a, inNumeral c := by
  obtain ⟨g, plain, replaces⟩ := exists_plainDigits s
  rw [plain] at form
  have solid : ∀ c ∈ a, inNumeral (g c) := fun c hc => form.inNumeral (mem_map_of_mem (front.subset hc))
  have same : ∀ c ∈ a, g c = c := fun c hc => (replaces c (front.subset hc)).eq_of_small (small c hc) fun blank =>
    absurd (solid c hc) (by rw [blank]; decide)
  have kept : a.map g = a := (map_congr_left same).trans (map_id a)
  exact ⟨fun t => kept ▸ form.front (front.map g) t, fun c hc => same c hc ▸ solid c hc⟩

theorem eq_nil_of_lineFeeds (none : lineFeeds s = []) : s = [] := by
  unfold lineFeeds at none
  split at none
  · rfl
  · cases none
  · cases none

/-- What a numeral starts with stands there, or is a digit of another script, which starts no name. -/
theorem exists_first {p : List Char} (shape : plainDigits s = c :: p) (start : c.isDigit ∨ c = '.') :
    ∃ d r, s = d :: r ∧ (d = c ∨ 128 ≤ d.toNat ∧ isNameStart d = false) := by
  obtain ⟨g, plain, replaces⟩ := exists_plainDigits s
  obtain ⟨d, r, rfl, rfl, -⟩ := map_eq_cons_iff.mp (plain.symm.trans shape)
  have replaced := replaces d mem_cons_self
  refine ⟨d, r, rfl, ?_⟩
  rcases start with digit | point
  · by_cases small : d.toNat < 128
    · refine Or.inl (replaced.eq_of_small small ?_).symm
      intro blank
      rw [blank] at digit
      exact absurd digit (by decide)
    · exact Or.inr ⟨Nat.not_lt.mp small, replaced.isNameStart_of_digit (Nat.not_lt.mp small) digit⟩
  · exact Or.inl (replaced.eq_of_mark (by rw [point]; decide))

theorem lex_of_large (large : 128 ≤ c.toNat) (unnamed : isNameStart c = false) (s : List Char) :
    lex (respell (c :: s)) = none := by
  have other : ∀ d : Char, d.toNat < 128 → c ≠ d := fun d small => ne_of_large large small
  have start : startsToken c := by
    simp [startsToken, other ' ' (by decide), other '\t' (by decide), other '\x0c' (by decide), other '#' (by decide),
      other '\\' (by decide), other '\n' (by decide)]
  obtain ⟨r, respelled⟩ := exists_respell_cons c s
  rw [respelled]
  refine Option.eq_none_iff_forall_ne_some.mpr fun ts cut => ?_
  obtain ⟨_, _, _, _, token, -⟩ := lex_eq_some start (lineFeeds_cons (other '\r' (by decide)) r) cut
  rw [lexToken_of_large large unnamed] at token
  cases token

/-- A numeral is cut as it stands into one number, or no expression with a value starts as it does. -/
theorem lex_of_numeral (form : Runs [] .whole (plainDigits (c :: s))) (start : c.isDigit ∨ c = '.')
    (cut : lex (respell (c :: s)) = some ts) : Parse.Doomed ts ∨ respell (c :: s) = c :: s ∧ (∀ d ∈ c :: s, d.toNat < 128) ∧
      ∃ v, lexToken (c :: s) = some (.number v, []) ∧ ts = [.number v] := by
  have whole := takeWhile_append_dropWhile (p := beforeCall) (l := respell (c :: s))
  have front := takeWhile_respell (c :: s)
  have halts := halts_dropWhile (respell (c :: s))
  have before : ∀ d ∈ (respell (c :: s)).takeWhile beforeCall, d ≠ '(' ∧ d.toNat < 128 := by
    intro d hd
    simpa [beforeCall] using all_eq_true.mp all_takeWhile d hd
  obtain ⟨a, first⟩ : ∃ a, (respell (c :: s)).takeWhile beforeCall = c :: a := by
    obtain ⟨r, respelled⟩ := exists_respell_cons c s
    have here : beforeCall c := by
      rcases start with digit | rfl
      · exact digit_forall (P := fun c => beforeCall c = true) (by decide) digit
      · decide
    rw [respelled, takeWhile_cons_of_pos here]
    exact ⟨_, rfl⟩
  obtain ⟨runs, plain⟩ := runs_of_front form front fun d hd => (before d hd).2
  rw [← whole] at cut
  rw [first] at cut runs plain whole before
  have straight : '\r' ∉ c :: a := fun mem => absurd (plain _ mem) (by decide)
  rcases tokens_of_numeral straight (runs _) start halts cut with doomed | ⟨none, v, token, rfl⟩
  · exact Or.inl doomed
  · right
    rw [eq_nil_of_lineFeeds none, append_nil] at whole
    rw [whole] at token before
    -- a text that was changed has a parenthesis in it
    have same : respell (c :: s) = c :: s := by
      refine (respell_cases (c :: s)).resolve_right ?_
      rintro ⟨a, b, b', -, -, replaced⟩
      exact (before '(' (by rw [replaced]; simp)).1 rfl
    rw [same] at token before
    exact ⟨same, fun d hd => (before d hd).2, v, token, rfl⟩

/-- **A numeral that has a value as an expression has the value that it is converted to.** -/
theorem evaluate_numeral (bare : strip s = s) {v : Value} (numeral : Run.numeral? s = .ok (some w)) {env : Env}
    {store : Store} (value : ((evaluate env s).run.run store).1 = .ok v) : v = w := by
  have alive : ¬ ∀ ts, lex (respell s) = some ts → Parse.Doomed ts := fun doomed => fails_evaluate doomed env store v value
  rcases numeral?_cases bare numeral with ⟨c, first, sign⟩ | ⟨c, p, shape, start, form, means⟩
  · refine absurd (fun ts cut => ?_) alive
    obtain ⟨r, rfl⟩ := head?_eq_some_iff.mp first
    obtain ⟨r', respelled⟩ := exists_respell_cons c r
    rw [respelled] at cut
    refine doomed_of_first ?_ cut
    rcases sign with rfl | rfl <;> decide
  · obtain ⟨d, r, rfl, rfl | ⟨large, unnamed⟩⟩ := exists_first shape start
    · obtain ⟨ts, cut⟩ := Classical.not_forall.mp alive
      obtain ⟨cut, living⟩ := Classical.not_imp.mp cut
      obtain ⟨same, small, lit, token, rfl⟩ := (lex_of_numeral (shape ▸ form) start cut).resolve_left living
      rw [evaluate_number env cut] at value
      obtain ⟨-, rfl⟩ := List.cons.inj ((plainDigits_eq_self small).symm.trans shape)
      exact (Except.ok.inj value).symm.trans (means same lit token)
    · refine absurd (fun ts cut => ?_) alive
      rw [lex_of_large large unnamed] at cut
      cases cut

theorem fails_of_bracket (env : Env) (s : List Char) : Fails (evaluate env ('[' :: s)) := by
  refine fails_evaluate (fun ts cut => ?_) env
  exact doomed_of_first (by decide) cut

end LineScript.Expr

namespace LineScript.Run

open Text Line LineScript.Expr List

variable {s t : Session} {e : List Char} {v : Value}

/-! ## Ways to a value -/

theorem exists_numeral? (e : List Char) : ∃ w, numeral? e = .ok w := by
  by_cases pointed : '.' ∈ e
  · exact ⟨_, numeral?_pointed pointed⟩
  · exact ⟨_, numeral?_name pointed⟩

theorem value_of_evaluate (evaluated : (evaluate e).outcome s = (.ok v, t)) :
    ((Expr.evaluate s.vars e).run.run s.ground.store).1 = .ok v := by
  rw [outcome_evaluate, outcome_appraise] at evaluated
  have value := (Prod.mk.inj evaluated).1
  unfold appraised at value
  rcases looked : Pkg.look s.ground.disk with ⟨f | index, disk⟩
  · rw [looked] at value
    cases value
  · rw [looked] at value
    cases result : ((Expr.evaluate s.vars e).run.run s.ground.store).1 with
    | error f =>
      rw [result] at value
      cases value
    | ok w =>
      rw [result] at value
      exact congrArg _ (Except.ok.inj value)

theorem outcome_arrayArgument_of_value (evaluated : (evaluate e).outcome s = (.ok v, t)) :
    (arrayArgument? e).outcome s = (.ok none, s) := by
  have bracket : startsWith e ['['] = false := by
    refine Bool.eq_false_iff.mpr fun starts => ?_
    obtain ⟨r, rfl⟩ := isPrefixOf_iff_prefix.mp starts
    exact fails_of_bracket s.vars r _ v (value_of_evaluate evaluated)
  unfold arrayArgument?
  rw [bracket]
  rfl

/-- The ways that the value of an argument is found, if it has a value as an expression. -/
theorem outcome_argument_cases (bare : strip e = e) (evaluated : (evaluate e).outcome s = (.ok v, t)) :
    (isQuoted e = true ∧ (argument e).outcome s = (.ok (.ofText (inner e)), s)) ∨
    (isQuoted e = false ∧ ∃ w, numeral? e = .ok (some w) ∧ (argument e).outcome s = (.ok w, s)) ∨
    (isQuoted e = false ∧ numeral? e = .ok none ∧
      ∃ x, s.vars.find? (String.ofList e) = some x ∧ (argument e).outcome s = (.ok x, s)) ∨
    (isQuoted e = false ∧ numeral? e = .ok none ∧ s.vars.find? (String.ofList e) = none ∧
      (argument e).outcome s = (.ok v, t)) := by
  unfold argument
  rw [bare]
  dsimp only
  cases isQuoted e with
  | true => exact Or.inl ⟨rfl, rfl⟩
  | false =>
    right
    rw [if_neg Bool.false_ne_true]
    obtain ⟨w, numeral⟩ := exists_numeral? e
    rw [numeral, bind_ok (x := check (.ok w)) rfl]
    cases w with
    | some w => exact Or.inl ⟨rfl, w, rfl, rfl⟩
    | none =>
      right
      rw [bind_ok (outcome_session s)]
      cases found : s.vars.find? (String.ofList e) with
      | some x => exact Or.inl ⟨rfl, rfl, x, rfl, rfl⟩
      | none =>
        refine Or.inr ⟨rfl, rfl, rfl, ?_⟩
        rw [bind_ok (outcome_arrayArgument_of_value evaluated)]
        exact outcome_wrapping (r := .ok v) evaluated _

/-- The text has another value by its looks than as an expression: it starts and ends with a quote mark and is not the
text between them, or it is no numeral, and a variable of this name holds something else. -/
def Misread (s : Session) (e : List Char) (v : Value) : Prop :=
  isQuoted e = true ∧ v ≠ .ofText (inner e) ∨
    isQuoted e = false ∧ numeral? e = .ok none ∧ ∃ x, s.vars.find? (String.ofList e) = some x ∧ x ≠ v

theorem misread_iff_of_quoted (quoted : isQuoted e) : Misread s e v ↔ v ≠ .ofText (inner e) := by
  simp [Misread, quoted]

theorem misread_iff_of_unquoted (unquoted : isQuoted e = false) :
    Misread s e v ↔ numeral? e = .ok none ∧ ∃ x, s.vars.find? (String.ofList e) = some x ∧ x ≠ v := by
  simp [Misread, unquoted]

/-- An argument has a value wherever it has one as an expression, and the same one if it is not misread. -/
theorem exists_outcome_argument (bare : strip e = e) (evaluated : (evaluate e).outcome s = (.ok v, t)) :
    ∃ w u, (argument e).outcome s = (.ok w, u) ∧ (w = v ↔ ¬ Misread s e v) := by
  rcases outcome_argument_cases bare evaluated with
    ⟨quoted, ends⟩ | ⟨unquoted, w, numeral, ends⟩ | ⟨unquoted, numeral, x, found, ends⟩ | ⟨unquoted, numeral, unknown, ends⟩
  · refine ⟨_, s, ends, ?_⟩
    rw [misread_iff_of_quoted quoted, not_not, eq_comm]
  · have same : v = w := evaluate_numeral bare numeral (value_of_evaluate evaluated)
    refine ⟨w, s, ends, iff_of_true same.symm ?_⟩
    rw [misread_iff_of_unquoted unquoted, numeral]
    rintro ⟨missing, -⟩
    cases missing
  · refine ⟨x, s, ends, ?_⟩
    rw [misread_iff_of_unquoted unquoted, found]
    simp [numeral]
  · refine ⟨v, t, ends, iff_of_true rfl ?_⟩
    rw [misread_iff_of_unquoted unquoted, unknown]
    rintro ⟨-, x, found, -⟩
    cases found

theorem not_misread_of_name (name : PlainName e) (plain : '_' ∉ e.tail) (free : isKeyword (String.ofList e) = false)
    (evaluated : (evaluate e).outcome s = (.ok v, t)) : ¬ Misread s e v := by
  have unquoted : isQuoted e = false := isQuoted_name fun c hc =>
    nameChar_forall (P := fun c => isMark c = false) (by decide) (name.isNameChar_of_mem hc)
  rw [misread_iff_of_unquoted unquoted]
  rintro ⟨-, x, found, other⟩
  have value := value_of_evaluate evaluated
  rw [evaluate_name name plain free found] at value
  exact other (Except.ok.inj value)

/-- A text in double quotes is misread exactly if something in it is respelled. -/
theorem misread_inQuotes_iff {text : List Char} (quotable : Quotable text)
    (evaluated : (evaluate (inQuotes text)).outcome s = (.ok v, t)) : Misread s (inQuotes text) v ↔ respell text ≠ text := by
  have quoted : isQuoted (inQuotes text) := by
    unfold isQuoted inQuotes
    rw [head?_cons, ← cons_append, getLast?_concat]
    decide
  have between : Line.inner (inQuotes text) = text := by
    unfold Line.inner inQuotes
    rw [drop_one, tail_cons, dropLast_concat]
  have value := value_of_evaluate evaluated
  rw [evaluate_inQuotes s.vars quotable] at value
  split at value
  · cases value
  · obtain rfl : .ofText (respell text) = v := Except.ok.inj value
    rw [misread_iff_of_quoted quoted, between]
    exact not_congr ⟨fun same => String.ofList_injective (Value.str.inj same), congrArg Value.ofText⟩

/-- **An argument has the value of the expression unless it is misread.** No numeral is, and no name that is no keyword and has
no underscore but in front. A text in double quotes is its own value in both exactly if nothing in it is respelled. -/
theorem argument_agrees_iff (bare : strip e = e) (evaluated : (evaluate e).outcome s = (.ok v, t)) :
    ∃ w u, (argument e).outcome s = (.ok w, u) ∧ (w = v ↔ ¬ Misread s e v) ∧
      (PlainName e → '_' ∉ e.tail → isKeyword (String.ofList e) = false → w = v) ∧
      ∀ text, Quotable text → e = inQuotes text → (w = v ↔ ∀ c, isWord c = true → ¬ [c, '_'] <:+: text) := by
  obtain ⟨w, u, ends, same⟩ := exists_outcome_argument bare evaluated
  refine ⟨w, u, ends, same, fun name plain free => same.mpr (not_misread_of_name name plain free evaluated), ?_⟩
  rintro text quotable rfl
  rw [same, misread_inQuotes_iff quotable evaluated, not_not]
  exact respell_eq_self_iff text

/-- A numeral without a whole part, also where a variable has it as its name. -/
theorem argument_agrees_iff_numeral :
    ∃ s : Session, (s.vars.find? ".5e+1").isSome = true ∧
      ∃ v t u, (evaluate ".5e+1".toList).outcome s = (.ok v, t) ∧ (argument ".5e+1".toList).outcome s = (.ok v, u) := by
  let s : Session := { vars := [(".5e+1", .str "hi")] }
  have succeeds : ((evaluate ".5e+1".toList).outcome s).1.isOk = true := by decide +kernel
  rcases evaluated : (evaluate ".5e+1".toList).outcome s with ⟨e | v, t⟩
  · rw [evaluated] at succeeds
    cases succeeds
  · obtain ⟨w, u, ends, same, -⟩ := argument_agrees_iff (by decide) evaluated
    obtain rfl : w = v := by
      rw [same, misread_iff_of_unquoted (by decide)]
      rintro ⟨missing, -⟩
      have numeral : (numeral? ".5e+1".toList).toOption.join.isSome = true := by decide +kernel
      rw [missing] at numeral
      cases numeral
    exact ⟨s, rfl, w, t, u, evaluated, ends⟩

/-- Two texts with a sign between them start and end with a quote mark, and a constant can be the name of a variable. -/
theorem argument_differs :
    (∃ s : Session, ((evaluate "\"a\" + \"b\"".toList >>= display).outcome s).1.toOption = some "ab" ∧
      ((argument "\"a\" + \"b\"".toList >>= display).outcome s).1.toOption = some "a\" + \"b") ∧
    ∃ s : Session, ((evaluate "True".toList >>= display).outcome s).1.toOption = some "True" ∧
      ((argument "True".toList >>= display).outcome s).1.toOption = some "hi" :=
  ⟨⟨{}, by decide +kernel, by decide +kernel⟩, { vars := [("True", .str "hi")] }, by decide +kernel, by decide +kernel⟩

end LineScript.Run
