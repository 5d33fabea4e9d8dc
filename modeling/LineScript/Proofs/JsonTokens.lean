
import LineScript.Json.Printer
import LineScript.Proofs.FloatText

/-!
# Numbers and strings of JSON

The text that is written for a number or a string is read as that number (`readNumber_int`, `readNumber_float`) or that
string (`readString_stringText`), whatever stands after it in a text that is written.
-/

namespace LineScript.Json

open Number List

variable {rest tail s : List Char} {w : Written} {n : Nat} {c : Char}

/-- From the front of a text, wherever it stands, a value is read, and a rest is left. -/
def Reads {α : Type} (read : Cursor → Read (α × Cursor)) (s : List Char) (a : α) (rest : List Char) : Prop :=
  ∀ pos, ∃ pos', read ⟨pos, s⟩ = .ok (a, ⟨pos', rest⟩)

/-- What may stand after a value in a text that is written: a comma, a new line, or nothing. -/
def Follows (rest : List Char) : Prop := ∀ c, rest.head? = some c → c = ',' ∨ c = '\n'

/-! ## Numbers -/

theorem Follows.noDigit (follows : Follows rest) : NoDigit rest := by
  intro c first
  rcases follows c first with rfl | rfl <;> rfl

theorem minusPart_append {d : Char} (negative : Bool) (shape : s = d :: rest) (digit : d.isDigit) :
    minusPart (signText negative ++ s) = signText negative := by
  cases negative with
  | true => rfl
  | false =>
    have other : d ≠ '-' := digit_forall (P := fun d => d ≠ '-') (by decide) digit
    rw [shape]
    change minusPart (d :: rest) = []
    rw [minusPart]
    simpa using other

theorem wholePart_append (proper : w.Proper) (ends : NoDigit tail) : wholePart (w.whole ++ tail) = w.whole := by
  have front := (takeWhile_isDigit proper.whole ends).1
  obtain ⟨d, ds, shape⟩ := exists_cons_of_ne_nil proper.solid
  by_cases zero : d = '0'
  · have only : w.whole = ['0'] := proper.lead (by rw [shape, zero]; rfl)
    rw [only]
    rfl
  · rw [shape] at front ⊢
    rw [cons_append] at front ⊢
    rw [wholePart, front]
    simpa using zero

theorem fractionPart_append (proper : w.Proper) (ends : NoDigit tail) (other : tail.head? ≠ some '.') :
    fractionPart (w.fraction ++ tail) = w.fraction := by
  have front := (takeWhile_isDigit proper.places ends).1
  unfold Written.fraction
  by_cases none : w.places = []
  · rw [if_pos none, nil_append]
    cases tail with
    | nil => rfl
    | cons c tail =>
      rw [fractionPart]
      intro rest same
      cases same
      exact other rfl
  · rw [if_neg none, cons_append, fractionPart, front]
    simp [none]

theorem exponentPart_append (w : Written) (follows : Follows rest) : exponentPart (w.mark ++ rest) = w.mark := by
  unfold Written.mark
  cases w.exponent with
  | none =>
    cases rest with
    | nil => rfl
    | cons c rest => rcases follows c rfl with rfl | rfl <;> rfl
  | some e =>
    obtain ⟨ds, shape, solid, digit, -⟩ := exponentText_eq e
    have front := (takeWhile_isDigit digit follows.noDigit).1
    rw [Option.elim_some, shape]
    split <;> simp [exponentPart, signPart, front, solid]

/-- A written number is taken whole from the front of a text. -/
theorem numeral?_text (proper : w.Proper) (negative : Bool) (follows : Follows rest) :
    numeral? (signText negative ++ w.text ++ rest) =
      some (signText negative ++ w.text, !(w.fraction ++ w.mark).isEmpty) := by
  -- what follows a part cannot be taken for more of it
  have markEnds : NoDigit (w.mark ++ rest) ∧ (w.mark ++ rest).head? ≠ some '.' := by
    unfold Written.mark
    cases w.exponent with
    | none =>
      refine ⟨follows.noDigit, fun point => ?_⟩
      rcases follows '.' point with h | h <;> cases h
    | some e =>
      refine ⟨fun c first => ?_, fun point => ?_⟩
      · cases first
        rfl
      · cases point
  have ends : NoDigit (w.fraction ++ (w.mark ++ rest)) := by
    unfold Written.fraction
    split
    · exact markEnds.1
    · intro c first
      cases first
      rfl
  have whole := wholePart_append proper ends
  have fraction := fractionPart_append proper markEnds.1 markEnds.2
  have exponent := exponentPart_append w follows
  have some : w.whole.isEmpty = false := by simpa using proper.solid
  have body : w.text ++ rest = w.whole ++ (w.fraction ++ (w.mark ++ rest)) := by
    unfold Written.text
    simp only [append_assoc]
  obtain ⟨d, more, shape, digit⟩ := proper.exists_text
  have sign : minusPart (signText negative ++ (w.text ++ rest)) = signText negative :=
    minusPart_append negative (show w.text ++ rest = d :: (more ++ rest) by rw [shape]; rfl) digit
  rw [append_assoc]
  unfold numeral?
  dsimp only
  rw [sign, drop_left, body, whole, drop_left, fraction, drop_left, exponent, some,
    if_neg Bool.false_ne_true]
  unfold Written.text
  simp only [append_assoc]

def wholeNumber (n : Nat) : Written := ⟨decimalText n, [], none⟩

theorem text_wholeNumber (n : Nat) : (wholeNumber n).text = decimalText n := append_nil _

theorem proper_wholeNumber (n : Nat) : (wholeNumber n).Proper := by
  constructor
  · exact fun c hc => Expr.isDigit_of_mem_decimalText hc
  · exact fun c hc => by cases hc
  · exact Nat.toDigits_ne_nil
  · intro zero
    rcases Nat.eq_zero_or_pos n with rfl | pos
    · rfl
    · exact absurd zero (Expr.head?_decimalText pos.ne')

theorem isDigitOf_ten (c : Char) : isDigitOf 10 c = c.isDigit := by
  unfold isDigitOf digitValue
  by_cases digit : c.isDigit
  · have small : c.toNat - 48 < 10 := digit_forall (P := fun c => c.toNat - 48 < 10) (by decide) digit
    rw [digit]
    simpa using small
  · rw [if_neg digit, Bool.eq_false_iff.mpr digit]
    split
    · rename_i lower
      rw [Bool.and_eq_true, decide_eq_true_iff] at lower
      have large : 97 ≤ c.toNat := lower.1
      simp
      omega
    · split
      · rename_i upper
        rw [Bool.and_eq_true, decide_eq_true_iff] at upper
        have large : 65 ≤ c.toNat := upper.1
        simp
        omega
      · rfl

theorem readInt_intText {n : Int} (short : n.natAbs < Nat.pow 10 maxDigits) :
    readInt 10 (signText (n < 0) ++ decimalText n.natAbs) = .value n := by
  have proper := proper_wholeNumber n.natAbs
  have plain := proper.plain (n < 0)
  obtain ⟨d, more, shape, digit⟩ := proper.exists_text
  rw [text_wholeNumber] at plain shape
  have same := plainDigits_eq_self fun c hc => (plain c hc).1
  have solid : (signText (n < 0) ++ decimalText n.natAbs).dropWhile isNumeralBlank =
      signText (n < 0) ++ decimalText n.natAbs :=
    Text.trimLeft_eq_self fun c first => (plain c (mem_of_head? first)).2.1
  have sign := splitSign_signText (n < 0) shape digit
  have value := Expr.ofDigits_decimalText n.natAbs
  have ten : isDigitOf 10 = Char.isDigit := funext isDigitOf_ten
  have tail := Expr.digitTail_digits fun c hc => Expr.isDigit_of_mem_decimalText (n := n.natAbs) hc
  have length (limit : Nat) (some : 0 < limit) (h : n.natAbs < Nat.pow 10 limit) :
      (decimalText n.natAbs).length ≤ limit :=
    (Nat.length_toDigits_le_iff (by decide) some).mpr h
  have allowed := length maxDigits (by decide) short
  unfold readInt
  simp only [same, solid, sign, readMagnitude_ten]
  rw [shape] at tail value allowed ⊢
  simp only [ten, digit, tail]
  rw [if_neg (by decide), if_neg (by decide), if_neg (by simpa using allowed), if_neg (by simp)]
  congr 1
  split
  all_goals
    rename_i negative
    rw [decide_eq_true_iff] at negative
    omega

theorem readNumber_int {n : Int} (short : n.natAbs < Nat.pow 10 maxDigits) (follows : Follows rest) :
    Reads readNumber (signText (n < 0) ++ decimalText n.natAbs ++ rest) (.int n) rest := by
  intro pos
  have taken := numeral?_text (proper_wholeNumber n.natAbs) (n < 0) follows
  rw [text_wholeNumber] at taken
  have none : (!((wholeNumber n.natAbs).fraction ++ (wholeNumber n.natAbs).mark).isEmpty) = false := rfl
  unfold readNumber
  simp only [taken, none, readInt_intText short, Cursor.drop, drop_left]
  exact ⟨_, rfl⟩

theorem readNumber_float {x : Float} (number : x.isNaN = false) (bounded : x.isInf = false) (follows : Follows rest) :
    Reads readNumber (floatText x ++ rest) (.float x) rest := by
  intro pos
  obtain ⟨w, proper, marked, text, -⟩ := exists_written_finite number bounded
  have taken := numeral?_text proper (signBit x) follows
  rw [← text] at taken
  have mark : (!(w.fraction ++ w.mark).isEmpty) := by simpa [Written.Marked] using marked
  unfold readNumber
  simp only [taken, mark, readFloat_floatText number bounded, Cursor.drop, drop_left]
  exact ⟨_, rfl⟩

/-! ## Strings -/

theorem hexDigit_spec {k : Nat} (small : k < 16) : isHex (Text.hexDigit k) ∧
      (if (Text.hexDigit k).isDigit then (Text.hexDigit k).toNat - 48 else (Text.hexDigit k).toNat - 87) = k := by
  have all : ∀ k < 16, isHex (Text.hexDigit k) ∧
      (if (Text.hexDigit k).isDigit then (Text.hexDigit k).toNat - 48 else (Text.hexDigit k).toNat - 87) = k := by
    decide
  exact all k small

theorem unit?_hexDigits (small : n < 0x10000) (rest : List Char) : unit? (Text.hexDigits 4 n ++ rest) = some n := by
  have d3 := hexDigit_spec (show n / 16 / 16 / 16 % 16 < 16 by omega)
  have d2 := hexDigit_spec (show n / 16 / 16 % 16 < 16 by omega)
  have d1 := hexDigit_spec (show n / 16 % 16 < 16 by omega)
  have d0 := hexDigit_spec (show n % 16 < 16 by omega)
  have value : ((n / 16 / 16 / 16 % 16 * 16 + n / 16 / 16 % 16) * 16 + n / 16 % 16) * 16 + n % 16 = n := by omega
  have digits : Text.hexDigits 4 n = [Text.hexDigit (n / 16 / 16 / 16 % 16), Text.hexDigit (n / 16 / 16 % 16),
      Text.hexDigit (n / 16 % 16), Text.hexDigit (n % 16)] := rfl
  unfold unit?
  rw [digits]
  simpa [d3.1, d2.1, d1.1, d0.1, Text.hexValue, d3.2, d2.2, d1.2, d0.2] using value

theorem length_hexDigits (w n : Nat) : (Text.hexDigits w n).length = w := by
  induction w generalizing n with
  | zero => rfl
  | succ w ih => rw [Text.hexDigits, length_append, ih, length_singleton]

theorem drop_hexDigits (n : Nat) (rest : List Char) (pos : Nat) :
    Cursor.drop ⟨pos, Text.hexDigits 4 n ++ rest⟩ 4 = ⟨pos + 4, rest⟩ := by
  unfold Cursor.drop
  dsimp only
  rw [drop_left' (length_hexDigits 4 n)]

theorem readUnit_plain (small : n < 0x10000) (single : isHigh n = false) (more : rest ≠ []) (pos : Nat) :
    readUnit ⟨pos, Text.hexDigits 4 n ++ rest⟩ = .ok (Char.ofNat n, ⟨pos + 4, rest⟩) := by
  have goes : rest.isEmpty = false := by simpa using more
  unfold readUnit
  simp only [unit?_hexDigits small, drop_hexDigits, goes, single, Bool.false_eq_true, if_false]

theorem readUnit_pair {m : Nat} (small : n < 0x10000) (small' : m < 0x10000) (high : isHigh n)
    (low : isLow m) (more : rest ≠ []) (pos : Nat) : readUnit ⟨pos, Text.hexDigits 4 n ++ (unitText m ++ rest)⟩ =
      .ok (Char.ofNat (0x10000 + (n - 0xd800) * 1024 + (m - 0xdc00)), ⟨pos + 10, rest⟩) := by
  have long : ¬ (Text.hexDigits 4 m ++ rest).length ≤ 4 := by
    have := length_pos_of_ne_nil more
    rw [length_append, length_hexDigits]
    omega
  have six : Cursor.drop ⟨pos + 4, '\\' :: 'u' :: (Text.hexDigits 4 m ++ rest)⟩ 6 = ⟨pos + 10, rest⟩ := by
    have four : (Text.hexDigits 4 m ++ rest).drop 4 = rest := drop_left' (length_hexDigits 4 m)
    exact congrArg (Cursor.mk (pos + 10)) four
  unfold readUnit
  simp only [unit?_hexDigits small, drop_hexDigits, unitText, cons_append, isEmpty_cons, Bool.false_eq_true,
    if_false, high, if_true, long, unit?_hexDigits small', low, six]

theorem readString_unit (start n : Nat) (acc : List Char) (pos : Nat) {pos' : Nat}
    (read : readUnit ⟨pos + 2, s⟩ = .ok (c, ⟨pos', rest⟩)) :
    readString start (n + 1) acc ⟨pos, '\\' :: 'u' :: s⟩ = readString start n (c :: acc) ⟨pos', rest⟩ := by
  have step : readString start (n + 1) acc ⟨pos, '\\' :: 'u' :: s⟩ =
      (readUnit ⟨pos + 2, s⟩ >>= fun p => readString start n (p.1 :: acc) p.2) := rfl
  rw [step, read]
  rfl

theorem readString_plain (start n : Nat) (acc : List Char) (pos : Nat) (rest : List Char) (quote : c ≠ '"')
    (slash : c ≠ '\\') (visible : 0x20 ≤ c.toNat) :
    readString start (n + 1) acc ⟨pos, c :: rest⟩ = readString start n (c :: acc) ⟨pos + 1, rest⟩ := by
  have seen : ¬ c.toNat ≤ 0x1f := by omega
  conv_lhs => unfold readString
  simp [slash, seen, Cursor.drop]

/-- A character of a string is read from what is written for it. -/
theorem readString_escapeChar (start n : Nat) (acc : List Char) (pos : Nat) (c : Char) (more : rest ≠ []) :
    ∃ pos', readString start (n + 1) acc ⟨pos, escapeChar c ++ rest⟩ = readString start n (c :: acc) ⟨pos', rest⟩ := by
  have valid := c.valid
  have scalar : c.toNat < 0xd800 ∨ 0xdfff < c.toNat ∧ c.toNat < 0x110000 := valid
  unfold escapeChar
  split
  case h_8 quote slash _ _ _ _ _ =>
    -- as it is, by one number, or by two
    dsimp only
    split
    · rename_i visible
      rw [Bool.and_eq_true, decide_eq_true_iff] at visible
      exact ⟨_, readString_plain start n acc pos rest quote slash visible.1⟩
    · split
      · rename_i small
        have single : isHigh c.toNat = false := by
          unfold isHigh
          simp only [Bool.and_eq_false_iff, decide_eq_false_iff_not]
          omega
        have read := readUnit_plain small single more (pos + 2)
        rw [Char.ofNat_toNat] at read
        exact ⟨_, readString_unit start n acc pos read⟩
      · obtain ⟨k, same⟩ : ∃ k, c.toNat = 0x10000 + k := ⟨c.toNat - 0x10000, by omega⟩
        have high : isHigh (0xd800 + k / 1024) := by
          unfold isHigh
          simp only [Bool.and_eq_true, decide_eq_true_eq]
          omega
        have low : isLow (0xdc00 + k % 1024) := by
          unfold isLow
          simp only [Bool.and_eq_true, decide_eq_true_eq]
          omega
        have read := readUnit_pair (by omega) (by omega) high low more (pos + 2)
        have whole : 0x10000 + (0xd800 + k / 1024 - 0xd800) * 1024 + (0xdc00 + k % 1024 - 0xdc00) = c.toNat := by omega
        rw [whole, Char.ofNat_toNat] at read
        rw [same, Nat.add_sub_cancel_left]
        exact ⟨_, readString_unit start n acc pos read⟩
  all_goals exact ⟨_, rfl⟩

theorem readString_flatMap (start n : Nat) (acc s rest : List Char) (enough : s.length < n) :
    Reads (readString start n acc) (s.flatMap escapeChar ++ '"' :: rest) (String.ofList (acc.reverse ++ s)) rest := by
  intro pos
  induction s generalizing n acc pos with
  | nil =>
    obtain ⟨n, rfl⟩ : ∃ m, n = m + 1 := ⟨n - 1, by simp at enough; omega⟩
    exact ⟨_, by rw [append_nil]; rfl⟩
  | cons c s ih =>
    obtain ⟨n, rfl⟩ : ∃ m, n = m + 1 := ⟨n - 1, by simp at enough; omega⟩
    rw [flatMap_cons, append_assoc]
    obtain ⟨pos', step⟩ := readString_escapeChar start n acc pos c
      (show s.flatMap escapeChar ++ '"' :: rest ≠ [] by simp)
    obtain ⟨pos'', read⟩ := ih n (c :: acc) (by simpa using enough) pos'
    refine ⟨pos'', ?_⟩
    rw [step, read, reverse_cons, append_assoc]
    rfl

theorem length_le_flatMap (s : List Char) : s.length ≤ (s.flatMap escapeChar).length := by
  have some (c : Char) : 1 ≤ (escapeChar c).length := by
    unfold escapeChar
    split
    case h_8 =>
      dsimp only
      split
      · exact le_refl _
      · split <;> simp [unitText]
    all_goals simp
  induction s with
  | nil => exact le_refl _
  | cons c s ih =>
    rw [flatMap_cons, length_append, length_cons]
    have := some c
    omega

/-- A written string is read as the string. -/
theorem readString_stringText (s : String) (pos : Nat) (rest : List Char) :
    ∃ pos', readString pos ((stringText s ++ rest).length + 1) [] (Cursor.drop ⟨pos, stringText s ++ rest⟩ 1) =
      .ok (s, ⟨pos', rest⟩) := by
  have shape : stringText s ++ rest = '"' :: (s.toList.flatMap escapeChar ++ '"' :: rest) := by
    unfold stringText
    simp
  have enough : s.toList.length < (stringText s ++ rest).length + 1 := by
    have := length_le_flatMap s.toList
    rw [shape, length_cons, length_append]
    omega
  obtain ⟨pos', read⟩ := readString_flatMap pos _ [] s.toList rest enough (pos + 1)
  refine ⟨pos', ?_⟩
  rw [reverse_nil, nil_append, String.ofList_toList] at read
  rw [shape] at read ⊢
  exact read

end LineScript.Json
