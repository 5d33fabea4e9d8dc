
import LineScript.Proofs.WholeNumbers
import Mathlib.Data.Bool.AllAny

/-!
# Cutting a text into tokens

The texts of numerals, names and symbols, with any number of blanks in between, are cut into the tokens they came from.
Nothing needs to stand between two tokens if the second does not go on with the first: a symbol ends a numeral or a name, and
a numeral, a name or a parenthesis ends a symbol.
-/

namespace LineScript.Expr

open Text Number List

variable {rest : List Char} {c : Char} {t : Token} {depth n : Nat} {ts : List Token} {s : Sym}

/-! ## Characters -/

theorem toNat_lt_of_isAlphanum (h : c.isAlphanum) : c.toNat < 128 := by
  delta Char.isAlphanum Char.isAlpha Char.isUpper Char.isLower Char.isDigit at h
  simp only [Bool.or_eq_true, Bool.and_eq_true, decide_eq_true_eq] at h
  rcases h with (upper | lower) | digit
  · exact Nat.lt_of_le_of_lt upper.2 (by decide)
  · exact Nat.lt_of_le_of_lt lower.2 (by decide)
  · exact Nat.lt_of_le_of_lt digit.2 (by decide)

/-- A property of letters and digits is checked one by one, among the first 128 characters. -/
theorem alphanum_forall {P : Char → Prop} (h : ∀ n < 128, (Char.ofNat n).isAlphanum → P (Char.ofNat n))
    (hc : c.isAlphanum) : P c := by
  have holds := h c.toNat (toNat_lt_of_isAlphanum hc)
  rw [Char.ofNat_toNat] at holds
  exact holds hc

theorem isAlphanum_of_isDigit (h : c.isDigit) : c.isAlphanum :=
  (Bool.or_eq_true _ _).mpr (Or.inr h)

/-- Characters that stand after a numeral or a name: a blank, and those that symbols other than an opening parenthesis
start with. -/
def wordEnds : List Char := [' ', ')', '+', '-', '*', '/', '%', '<', '>', '=', '!']

def endsSym (c : Char) : Bool := c ≠ '=' && c ≠ '*' && c ≠ '<' && c ≠ '>'

def EndsWord (rest : List Char) : Prop := ∀ c, rest.head? = some c → c ∈ wordEnds

def EndsSym (rest : List Char) : Prop := ∀ c, rest.head? = some c → endsSym c = true

/-! ## Numerals -/

theorem digitTail_append {ds : List Char} (digits : ∀ c ∈ ds, c.isDigit)
    (ends : ∀ c, rest.head? = some c → c ≠ '_' ∧ c.isDigit = false) : digitTail Char.isDigit (ds ++ rest) = some (ds, rest) := by
  induction ds with
  | nil =>
    cases rest with
    | nil => rfl
    | cons c rest =>
      obtain ⟨other, digit⟩ := ends c rfl
      rw [nil_append, digitTail]
      · rw [if_neg other, digit]
        rfl
      · exact fun _ _ same => absurd same other
  | cons d ds ih =>
    have digit := digits d mem_cons_self
    have other : d ≠ '_' := by
      rintro rfl
      cases digit
    rw [cons_append, digitTail]
    · rw [if_neg other, digit, ih fun c hc => digits c (mem_cons_of_mem d hc)]
      rfl
    · exact fun _ _ same => absurd same other

theorem digitTail_digits {ds : List Char} (digits : ∀ c ∈ ds, c.isDigit) : digitTail Char.isDigit ds = some (ds, []) := by
  have nothing : ∀ c, List.head? [] = some c → c ≠ '_' ∧ c.isDigit = false := fun c none => by cases none
  have all := digitTail_append digits nothing
  rwa [append_nil] at all

theorem endsNumber_of_ends (ends : EndsWord rest) : endsNumber rest := by
  cases rest with
  | nil => rfl
  | cons c rest =>
    have apart : ∀ c ∈ wordEnds, (!(c.isAlphanum || c = '_' || 128 ≤ c.toNat)) := all_iff_forall_prop.mp (by decide)
    exact (Bool.or_eq_true _ _).mpr (Or.inr (apart c (ends c rfl)))

theorem lexFraction_whole (whole : List Char) (ends : EndsWord rest) :
    lexFraction whole rest = some (.int (ofDigits 10 whole), rest) := by
  cases rest with
  | nil => rfl
  | cons c rest =>
    have apart : ∀ c ∈ wordEnds, c ≠ '.' ∧ c ≠ 'e' ∧ c ≠ 'E' ∧ c ≠ 'j' ∧ c ≠ 'J' :=
      all_iff_forall_prop.mp (by decide)
    obtain ⟨point, e, E, j, J⟩ := apart c (ends c rfl)
    have stop := endsNumber_of_ends ends
    unfold lexFraction lexExponent lexNumberEnd
    cases rest with
    | nil => simp [point, j, J, stop]
    | cons d rest => simp [point, e, E, j, J, stop]

theorem ofDigits_concat (base : Nat) (ds : List Char) (d : Char) :
    ofDigits base (ds ++ [d]) = ofDigits base ds * base + (digitValue d).getD 0 := by
  unfold ofDigits
  rw [foldl_append]
  rfl

theorem digitValue_digitChar {d : Nat} (h : d < 10) : digitValue d.digitChar = some d := by
  have all : ∀ d < 10, digitValue d.digitChar = some d := by decide
  exact all d h

theorem ofDigits_decimalText (n : Nat) : ofDigits 10 (decimalText n) = n := by
  unfold decimalText
  induction n using Nat.strongRecOn with
  | ind n ih =>
    rw [Nat.toDigits_eq_if (by decide)]
    split
    · rename_i small
      show 0 * 10 + (digitValue n.digitChar).getD 0 = n
      rw [digitValue_digitChar small, Option.getD_some]
      omega
    · rw [ofDigits_concat, ih (n / 10) (by omega), digitValue_digitChar (Nat.mod_lt n (by decide)), Option.getD_some]
      omega

/-- Only zero is written with a zero in front. -/
theorem head?_decimalText (h : n ≠ 0) : (decimalText n).head? ≠ some '0' := by
  unfold decimalText
  induction n using Nat.strongRecOn with
  | ind n ih =>
    rw [Nat.toDigits_eq_if (by decide)]
    split
    · rename_i small
      have all : ∀ d < 10, d ≠ 0 → d.digitChar ≠ '0' := by decide
      exact fun same => all n small h (Option.some.inj same)
    · have front := ih (n / 10) (by omega) (by omega)
      obtain ⟨c, cs, shape⟩ : ∃ c cs, Nat.toDigits 10 (n / 10) = c :: cs :=
        exists_cons_of_ne_nil Nat.toDigits_ne_nil
      rw [shape] at front ⊢
      exact front

theorem isDigit_of_mem_decimalText (h : c ∈ decimalText n) : c.isDigit :=
  Nat.isDigit_of_mem_toDigits (by decide) (by decide) h

theorem exists_decimalText (n : Nat) : ∃ d ds, decimalText n = d :: ds ∧ d.isDigit := by
  obtain ⟨d, ds, shape⟩ : ∃ d ds, decimalText n = d :: ds := exists_cons_of_ne_nil Nat.toDigits_ne_nil
  exact ⟨d, ds, shape, isDigit_of_mem_decimalText (by rw [shape]; exact mem_cons_self)⟩

theorem markedBase_digit (h : c.isDigit) : markedBase c = none :=
  alphanum_forall (P := fun c => c.isDigit = true → markedBase c = none) (by decide) (isAlphanum_of_isDigit h) h

theorem checkWhole_decimalText (n : Numeral) (rest : List Char) :
    checkWhole (decimalText n.value) (.int n.value, rest) = some (.int n.value, rest) := by
  have length : (decimalText n.value).length ≤ maxDigits :=
    (Nat.length_toDigits_le_iff (by decide) (by decide)).mpr n.short
  unfold checkWhole
  dsimp only
  rw [if_neg (Nat.not_lt.mpr length)]
  by_cases zero : n.value = 0
  · simp [zero]
  · simp [head?_decimalText zero]

/-- No mark of another base stands second: a numeral goes on with a digit, or it has ended. -/
theorem markedBase_second (ends : EndsWord rest) {d : Char} {r : List Char}
    (shape : decimalText n ++ rest = d :: c :: r) : markedBase c = none := by
  obtain ⟨e, es, text, -⟩ := exists_decimalText n
  rw [text] at shape
  have second : es ++ rest = c :: r := (List.cons.inj shape).2
  cases es with
  | nil =>
    have all : ∀ c ∈ wordEnds, markedBase c = none := all_iff_forall_prop.mp (by decide)
    exact all c (ends c (congrArg List.head? second))
  | cons e' es =>
    obtain rfl : e' = c := (List.cons.inj second).1
    have mem : e' ∈ decimalText n := by
      rw [text]
      exact mem_cons_of_mem _ mem_cons_self
    exact markedBase_digit (isDigit_of_mem_decimalText mem)

theorem lexNumber_decimalText (n : Numeral) (ends : EndsWord rest) :
    lexNumber (decimalText n.value ++ rest) = some (.int n.value, rest) := by
  have plain : ((digitTail Char.isDigit (decimalText n.value ++ rest)).bind fun p =>
      (lexFraction p.1 p.2).bind (checkWhole p.1)) = some (.int n.value, rest) := by
    have apart : ∀ c ∈ wordEnds, c ≠ '_' ∧ c.isDigit = false := all_iff_forall_prop.mp (by decide)
    rw [digitTail_append (fun c hc => isDigit_of_mem_decimalText hc) fun c first => apart c (ends c first), Option.bind_some]
    rw [lexFraction_whole _ ends, ofDigits_decimalText, Option.bind_some, checkWhole_decimalText]
  unfold lexNumber
  split
  · rename_i same
    obtain ⟨d, ds, text, digit⟩ := exists_decimalText n.value
    rw [text] at same
    rw [(List.cons.inj same).1] at digit
    cases digit
  · rename_i c r same
    rw [markedBase_second ends same]
    exact plain
  · exact plain

/-! ## Names and symbols -/

theorem Identifier.validName (x : Identifier) : validName x.name.toList := by
  obtain ⟨c, cs, shape, letter⟩ := x.exists_letter
  have solid := x.solid
  rw [shape] at solid ⊢
  have start : isNameStart c :=
    alphanum_forall (P := fun c => c.isAlpha = true → isNameStart c) (by decide) (solid c mem_cons_self)
      letter
  have rest : cs.all isNameChar := by
    rw [all_eq_true]
    intro d hd
    exact alphanum_forall (P := fun d => isNameChar d = true) (by decide) (solid d (mem_cons_of_mem c hd))
  rw [Expr.validName, start, rest]
  rfl

theorem lexWord_name (x : Identifier) (ends : EndsWord rest) :
    lexWord (x.name.toList ++ rest) = some (.word x.name, rest) := by
  have apart : ∀ c ∈ wordEnds, inWord c = false ∧ c ≠ '"' ∧ c ≠ '\x27' := all_iff_forall_prop.mp (by decide)
  have word : (x.name.toList ++ rest).takeWhile inWord = x.name.toList := by
    have inside : ∀ c ∈ x.name.toList, inWord c := fun c hc =>
      alphanum_forall (P := fun c => inWord c = true) (by decide) (x.solid c hc)
    rw [takeWhile_append_of_pos inside]
    cases rest with
    | nil => simp
    | cons c rest => simp [(apart c (ends c rfl)).1]
  have unquoted : (rest.head?.any fun c => c = '"' || c = '\x27') = false := by
    cases rest with
    | nil => rfl
    | cons c rest => simp [(apart c (ends c rfl)).2]
  unfold lexWord
  dsimp only
  rw [word, drop_left, unquoted, if_neg Bool.false_ne_true, x.validName, if_pos rfl, String.ofList_toList]

theorem lexSym_text (text : s.text ≠ []) (ends : EndsSym rest) : lexSym (s.text ++ rest) = some (s, rest) := by
  cases rest with
  | nil =>
    cases s with
    | lparen | rparen | plus | minus | star | floorDiv | percent | lt | ltE | gt | gtE | eqEq | notEq => rfl
    | _ => exact absurd rfl text
  | cons c rest =>
    have other := ends c rfl
    simp only [endsSym, Bool.and_eq_true, decide_eq_true_eq] at other
    obtain ⟨⟨⟨equals, star⟩, less⟩, more⟩ := other
    cases s with
    | lparen | rparen | ltE | gtE | eqEq | notEq => rfl
    | plus | minus | star | floorDiv | percent | lt | gt => simp [Sym.text, lexSym, equals, star, less, more]
    | _ => exact absurd rfl text

/-! ## Tokens -/

inductive WholeToken : Token → Prop where
  | numeral (n : Numeral) : WholeToken (.number (.int n.value))
  | name (x : Identifier) : WholeToken (.word x.name)
  | sym {s : Sym} (text : s.text ≠ []) : WholeToken (.sym s)

/-- Whether a token does not go on with a character. None goes on with a closing parenthesis. -/
def Token.endsBefore (c : Char) : Token → Bool
  | .sym .rparen => true
  | .sym _ => endsSym c
  | _ => c ∈ wordEnds

def Cuts (t : Token) (rest : List Char) : Prop := ∀ c, rest.head? = some c → t.endsBefore c = true

/-- Characters that a token starts with, as opposed to blanks, line ends, comments and continued lines. -/
def startsToken (c : Char) : Bool := c ≠ ' ' && c ≠ '\t' && c ≠ '\x0c' && c ≠ '#' && c ≠ '\\' && c ≠ '\n'

theorem WholeToken.exists_text (h : WholeToken t) : ∃ c cs, t.text = c :: cs ∧ startsToken c := by
  have alphanum : ∀ {c : Char}, c.isAlphanum → startsToken c :=
    alphanum_forall (P := fun c => startsToken c = true) (by decide)
  cases h with
  | numeral n =>
    obtain ⟨c, cs, shape, digit⟩ := exists_decimalText n.value
    exact ⟨c, cs, shape, alphanum (isAlphanum_of_isDigit digit)⟩
  | name x =>
    obtain ⟨c, cs, shape, -⟩ := x.exists_letter
    exact ⟨c, cs, shape, alphanum (x.solid c (by rw [shape]; exact mem_cons_self))⟩
  | @sym s text =>
    cases s with
    | lparen | rparen | plus | minus | star | floorDiv | percent | lt | ltE | gt | gtE | eqEq | notEq =>
      exact ⟨_, _, rfl, by decide⟩
    | _ => exact absurd rfl text

theorem lexToken_text (h : WholeToken t) (cuts : Cuts t rest) : lexToken (t.text ++ rest) = some (t, rest) := by
  cases h with
  | numeral n =>
    obtain ⟨c, cs, shape, digit⟩ := exists_decimalText n.value
    have read := lexNumber_decimalText n fun c hc => of_decide_eq_true (cuts c hc)
    show lexToken (decimalText n.value ++ rest) = _
    rw [shape, cons_append] at read ⊢
    rw [lexToken, digit, Bool.true_or, if_pos rfl, read]
    rfl
  | name x =>
    obtain ⟨c, cs, shape, letter⟩ := x.exists_letter
    have facts : c.isDigit = false ∧ c ≠ '.' ∧ c ≠ '"' ∧ c ≠ '\x27' ∧ inWord c :=
      alphanum_forall
        (P := fun c => c.isAlpha = true → c.isDigit = false ∧ c ≠ '.' ∧ c ≠ '"' ∧ c ≠ '\x27' ∧ inWord c)
        (by decide) (x.solid c (by rw [shape]; exact mem_cons_self)) letter
    obtain ⟨digit, point, double, single, word⟩ := facts
    have read := lexWord_name x fun c hc => of_decide_eq_true (cuts c hc)
    show lexToken (x.name.toList ++ rest) = _
    rw [shape, cons_append] at read ⊢
    rw [lexToken, digit]
    simp [point, double, single, word, read]
  | @sym s text =>
    have read : lexSym (s.text ++ rest) = some (s, rest) := by
      by_cases close : s = .rparen
      · rw [close]
        rfl
      · refine lexSym_text text ?_
        cases s with
        | rparen => exact absurd rfl close
        | _ => exact cuts
    have handed := congrArg (Option.map fun p => (Token.sym p.1, p.2)) read
    cases s with
    | lparen | rparen | plus | minus | star | floorDiv | percent | lt | ltE | gt | gtE | eqEq | notEq => exact handed
    | _ => exact absurd rfl text

/-! ## Texts -/

def Token.depthAfter (depth : Nat) : Token → Nat
  | .sym s => if s.opens then depth + 1 else if s.closes then depth - 1 else depth
  | _ => depth

/-- Tokens whose texts can stand side by side, so many brackets deep. -/
inductive Cuttable : Nat → List Token → Prop where
  | nil (depth : Nat) : Cuttable depth []
  | cons {depth : Nat} {t : Token} {ts : List Token} (whole : WholeToken t) (cuts : ∀ u, ts.head? = some u → Cuts t u.text)
      (shallow : t.depthAfter depth ≤ maxNesting) (rest : Cuttable (t.depthAfter depth) ts) : Cuttable depth (t :: ts)

theorem Cuttable.whole (h : Cuttable depth ts) : ∀ t ∈ ts, WholeToken t := by
  induction h with
  | nil depth => exact fun t ht => nomatch ht
  | cons whole _ _ _ ih =>
    intro t ht
    rcases mem_cons.mp ht with rfl | ht
    · exact whole
    · exact ih t ht

theorem lexGo_blanks (n k depth : Nat) (s : List Char) :
    lexGo (n + k) depth (List.replicate k ' ' ++ s) = lexGo n depth s := by
  induction k with
  | zero => rfl
  | succ k ih => exact ih

theorem lexGo_of_start (n depth : Nat) (start : startsToken c) (cs : List Char) :
    lexGo (n + 1) depth (c :: cs) = (lexToken (c :: cs)).bind fun p =>
      if p.1.depthAfter depth > maxNesting then none else (lexGo n (p.1.depthAfter depth) p.2).map (p.1 :: ·) := by
  simp only [startsToken, Bool.and_eq_true, decide_eq_true_eq] at start
  obtain ⟨⟨⟨⟨⟨blank, tab⟩, feed⟩, comment⟩, back⟩, newline⟩ := start
  rw [lexGo.eq_def]
  simp only [blank, tab, feed, comment, back, newline]
  rfl

theorem lexGo_token (n : Nat) {cs : List Char} (start : startsToken c)
    (cut : lexToken (c :: cs) = some (t, rest)) (shallow : t.depthAfter depth ≤ maxNesting) :
    lexGo (n + 1) depth (c :: cs) = (lexGo n (t.depthAfter depth) rest).map (t :: ·) := by
  rw [lexGo_of_start n depth start, cut]
  exact if_neg (Nat.not_lt.mpr shallow)

theorem Token.endsBefore_blank (t : Token) : t.endsBefore ' ' := by
  cases t with
  | sym s => cases s <;> rfl
  | _ => rfl

/-- The text after a token starts with a blank, with the next token, or not at all. -/
theorem cuts_spread (whole : ∀ u ∈ ts, WholeToken u) (cuts : ∀ u, ts.head? = some u → Cuts t u.text) (k : Nat)
    (gaps : List Nat) : Cuts t (List.replicate k ' ' ++ spread gaps (ts.map Token.text)) := by
  intro c hc
  cases k with
  | succ k =>
    obtain rfl : ' ' = c := Option.some.inj hc
    exact t.endsBefore_blank
  | zero =>
    cases ts with
    | nil => cases hc
    | cons u ts =>
      obtain ⟨d, cs, text, -⟩ := (whole u mem_cons_self).exists_text
      refine cuts u rfl c ?_
      rw [map_cons, text] at hc
      rw [text]
      exact hc

/-- The texts of tokens, with blanks between them, are cut into these tokens. -/
theorem lexGo_spread (h : Cuttable depth ts) (gaps : List Nat) (enough : (spread gaps (ts.map Token.text)).length ≤ n) :
    lexGo n depth (spread gaps (ts.map Token.text)) = some ts := by
  induction h generalizing gaps n with
  | nil depth => cases n <;> rfl
  | @cons depth t ts whole cuts shallow rest ih =>
    obtain ⟨c, cs, text, start⟩ := whole.exists_text
    have cut := lexToken_text whole (cuts_spread rest.whole cuts (gaps.headD 0) gaps.tail)
    rw [map_cons, spread] at enough ⊢
    rw [text] at cut enough ⊢
    simp only [length_cons, length_append, length_replicate] at enough
    -- one step for the token and one for each blank after it
    obtain ⟨m, rfl⟩ : ∃ m, n = m + gaps.headD 0 + 1 := ⟨n - gaps.headD 0 - 1, by omega⟩
    rw [cons_append] at cut ⊢
    rw [lexGo_token _ start cut shallow, lexGo_blanks, ih gaps.tail (by omega), Option.map_some]

/-- Characters that mean what they are: none ends a text or a line, and none is an underscore. -/
def ordinary (c : Char) : Bool := c ≠ '\x00' && c ≠ '\r' && c ≠ '_'

theorem WholeToken.ordinary (h : WholeToken t) : ∀ c ∈ t.text, ordinary c := by
  have alphanum : ∀ {c : Char}, c.isAlphanum → Expr.ordinary c :=
    alphanum_forall (P := fun c => Expr.ordinary c = true) (by decide)
  cases h with
  | numeral n => exact fun c hc => alphanum (isAlphanum_of_isDigit (isDigit_of_mem_decimalText hc))
  | name x => exact fun c hc => alphanum (x.solid c hc)
  | @sym s text => exact all_iff_forall_prop.mp (by cases s <;> decide)

theorem ordinary_spread {pieces : List (List Char)} (h : ∀ p ∈ pieces, ∀ c ∈ p, ordinary c) (gaps : List Nat) :
    ∀ c ∈ spread gaps pieces, ordinary c := by
  induction pieces generalizing gaps with
  | nil => exact fun c hc => nomatch hc
  | cons p pieces ih =>
    intro c hc
    rw [spread, mem_append, mem_append] at hc
    rcases hc with hc | hc | hc
    · exact h p mem_cons_self c hc
    · rw [eq_of_mem_replicate hc]
      rfl
    · exact ih (fun p hp => h p (mem_cons_of_mem _ hp)) gaps.tail c hc

theorem lineFeeds_append {a : List Char} (h : '\r' ∉ a) (t : List Char) : lineFeeds (a ++ t) = a ++ lineFeeds t := by
  induction a with
  | nil => rfl
  | cons c a ih =>
    have other : c ≠ '\r' := fun same => h (same ▸ mem_cons_self)
    rw [cons_append, lineFeeds, if_neg other, ih fun ha => h (mem_cons_of_mem _ ha), cons_append]
    exact fun _ same => absurd same other

theorem lineFeeds_eq_self {s : List Char} (h : '\r' ∉ s) : lineFeeds s = s := by
  have appended := lineFeeds_append h []
  rwa [append_nil, lineFeeds, append_nil] at appended

theorem lineStart_of_start (start : startsToken c) (cs : List Char) : lineStart false (c :: cs) = some (c :: cs) := by
  simp only [startsToken, Bool.and_eq_true, decide_eq_true_eq] at start
  obtain ⟨⟨⟨⟨⟨blank, tab⟩, feed⟩, comment⟩, back⟩, newline⟩ := start
  rw [lineStart]
  · simp [blank, tab, feed, comment, newline]
  · exact fun _ same => absurd same back

theorem lex_spread (h : Cuttable 0 (t :: ts)) (gaps : List Nat) :
    lex (spread gaps ((t :: ts).map Token.text)) = some (t :: ts) := by
  have plain : ∀ c ∈ spread gaps ((t :: ts).map Token.text), ordinary c :=
    ordinary_spread (forall_mem_map.mpr fun u hu => (h.whole u hu).ordinary) gaps
  have absent : ∀ d, ordinary d = false → d ∉ spread gaps ((t :: ts).map Token.text) := by
    intro d odd hd
    exact Bool.noConfusion (odd.symm.trans (plain d hd))
  have cut := lexGo_spread h gaps (Nat.le_succ _)
  obtain ⟨c, cs, text, start⟩ := (h.whole t mem_cons_self).exists_text
  have first : lineStart false (spread gaps ((t :: ts).map Token.text)) = some (spread gaps ((t :: ts).map Token.text)) := by
    rw [map_cons, text]
    exact lineStart_of_start start _
  unfold lex
  rw [if_neg, lineFeeds_eq_self (absent '\r' rfl), first, Option.bind_some, cut]
  rw [contains_iff_mem]
  exact absent '\x00' rfl

/-! ## Expressions -/

/-- An operand may stand right after a symbol. -/
theorem Whole.exists_first (e : Whole) (level : Nat) : ∃ t ts, e.tokens level = t :: ts ∧ ∀ s, Cuts (.sym s) t.text := by
  have apart : ∀ (s : Sym) {c : Char}, endsSym c → (Token.sym s).endsBefore c := by
    intro s c other
    cases s with
    | rparen => rfl
    | _ => exact other
  have alphanum : ∀ {c : Char}, c.isAlphanum → endsSym c :=
    alphanum_forall (P := fun c => endsSym c = true) (by decide)
  induction e generalizing level with
  | numeral n =>
    refine ⟨_, [], rfl, fun s c hc => apart s (alphanum (isAlphanum_of_isDigit ?_))⟩
    exact isDigit_of_mem_decimalText (mem_of_mem_head? hc)
  | named x => exact ⟨_, [], rfl, fun s c hc => apart s (alphanum (x.solid c (mem_of_mem_head? hc)))⟩
  | op o l r ihl ihr =>
    rw [Whole.tokens]
    split
    · refine ⟨.sym .lparen, _, rfl, fun s c hc => apart s ?_⟩
      rw [← Option.some.inj hc]
      decide
    · obtain ⟨t, ts, shape, first⟩ := ihl o.level
      exact ⟨t, _, by rw [shape]; rfl, first⟩

theorem Cuttable.sym (text : s.text ≠ []) (e : Whole) (level : Nat) (shallow : (Token.sym s).depthAfter depth ≤ maxNesting)
    (rest : Cuttable ((Token.sym s).depthAfter depth) (e.tokens level ++ ts)) :
    Cuttable depth (.sym s :: (e.tokens level ++ ts)) := by
  obtain ⟨t, _, shape, first⟩ := e.exists_first level
  refine .cons (.sym text) (fun u hu => ?_) shallow rest
  rw [shape] at hu
  rw [← Option.some.inj hu]
  exact first s

theorem WholeOp.text_ne_nil (o : WholeOp) : o.sym.text ≠ [] := by cases o <;> exact cons_ne_nil _ _

theorem WholeTest.text_ne_nil (t : WholeTest) : t.sym.text ≠ [] := by cases t <;> exact cons_ne_nil _ _

theorem WholeOp.endsWord (o : WholeOp) : EndsWord o.sym.text := by
  intro c hc
  cases o <;> (rw [← Option.some.inj hc]; decide)

theorem WholeTest.endsWord (t : WholeTest) : EndsWord t.sym.text := by
  intro c hc
  cases t <;> (rw [← Option.some.inj hc]; decide)

/-- The tokens of an operand can stand before what may follow it, at any depth at which its parentheses fit. -/
theorem Whole.cuttable (e : Whole) (level : Nat) {rest : List Token} (deep : depth + e.nesting level ≤ maxNesting)
    (follows : ∀ u, rest.head? = some u → EndsWord u.text) (h : Cuttable depth rest) :
    Cuttable depth (e.tokens level ++ rest) := by
  induction e generalizing level depth rest with
  | numeral n => exact .cons (.numeral n) (fun u hu c hc => decide_eq_true (follows u hu c hc)) deep h
  | named x => exact .cons (.name x) (fun u hu c hc => decide_eq_true (follows u hu c hc)) deep h
  | op o l r ihl ihr =>
    -- without parentheses, at a depth at which both operands fit
    have inside : ∀ {depth : Nat} {rest : List Token},
        depth + max (l.nesting o.level) (r.nesting (o.level + 1)) ≤ maxNesting →
        (∀ u, rest.head? = some u → EndsWord u.text) → Cuttable depth rest →
        Cuttable depth (l.tokens o.level ++ (.sym o.sym :: r.tokens (o.level + 1)) ++ rest) := by
      intro depth rest deep follows h
      have right : Cuttable depth (r.tokens (o.level + 1) ++ rest) := ihr (o.level + 1) (by omega) follows h
      have same : (Token.sym o.sym).depthAfter depth = depth := by cases o <;> rfl
      rw [append_assoc]
      refine ihl o.level (by omega) (fun u hu => ?_) ?_
      · rw [← Option.some.inj hu]
        exact o.endsWord
      · exact .sym o.text_ne_nil r _ (by rw [same]; omega) (by rw [same]; exact right)
    rw [Whole.nesting] at deep
    rw [Whole.tokens]
    split
    · rename_i loose
      rw [if_pos loose] at deep
      have closed : Cuttable (depth + 1) (.sym .rparen :: rest) :=
        .cons (.sym (cons_ne_nil _ _)) (fun u hu c hc => rfl) (show depth ≤ maxNesting by omega) h
      have paren : ∀ u, (.sym .rparen :: rest : List Token).head? = some u → EndsWord u.text := by
        rintro _ ⟨⟩ _ ⟨⟩
        decide
      have enclosed := inside (by omega) paren closed
      rw [append_assoc] at enclosed
      rw [cons_append, cons_append, append_assoc, append_assoc]
      exact .sym (s := .lparen) (cons_ne_nil _ _) l _ (show depth + 1 ≤ maxNesting by omega) enclosed
    · rename_i tight
      rw [if_neg tight] at deep
      exact inside deep follows h

theorem cuttable_restTokens {rest : List (WholeTest × Whole)} (deep : ∀ p ∈ rest, p.2.nesting 0 ≤ maxNesting) :
    Cuttable 0 (WholeChain.restTokens rest) ∧ ∀ u, (WholeChain.restTokens rest).head? = some u → EndsWord u.text := by
  induction rest with
  | nil => exact ⟨.nil 0, fun u hu => nomatch hu⟩
  | cons p rest ih =>
    obtain ⟨t, e⟩ := p
    obtain ⟨others, follows⟩ := ih fun p hp => deep p (mem_cons_of_mem _ hp)
    have same : (Token.sym t.sym).depthAfter 0 = 0 := by cases t <;> rfl
    have operand : Cuttable 0 (e.tokens 0 ++ WholeChain.restTokens rest) :=
      e.cuttable 0 (by rw [Nat.zero_add]; exact deep (t, e) mem_cons_self) follows others
    constructor
    · exact .sym t.text_ne_nil e 0 (by rw [same]; exact Nat.zero_le _) (by rw [same]; exact operand)
    · intro v hv
      rw [← Option.some.inj hv]
      exact t.endsWord

theorem WholeChain.cuttable {c : WholeChain} (shallow : c.Shallow) : Cuttable 0 c.tokens := by
  obtain ⟨others, follows⟩ := cuttable_restTokens shallow.2
  exact c.first.cuttable 0 (by rw [Nat.zero_add]; exact shallow.1) follows others

theorem lex_text {c : WholeChain} (shallow : c.Shallow) (gaps : List Nat) : lex (c.text gaps) = some c.tokens := by
  obtain ⟨t, ts, shape, -⟩ := c.first.exists_first 0
  have whole := WholeChain.cuttable shallow
  have tokens : c.tokens = t :: (ts ++ WholeChain.restTokens c.rest) := by
    rw [WholeChain.tokens, shape]
    rfl
  rw [WholeChain.text]
  rw [tokens] at whole ⊢
  exact lex_spread whole gaps

end LineScript.Expr
