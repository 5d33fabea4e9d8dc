
import LineScript.Proofs.JsonForm
import LineScript.Proofs.LineText
import LineScript.Proofs.ShortestDecimal

/-!
# Numbers written and read

The text of a number is a whole part, places and an exponent (`Written`). Read again, it gives the number:
`readFloat_floatText`.
-/

namespace LineScript.Number

open List

variable {d : Decimal} {x : Float} {rest s ds : List Char} {w : Written} {c : Char}

structure Written where
  whole : List Char
  places : List Char
  exponent : Option Int

namespace Written

def fraction (w : Written) : List Char := if w.places = [] then [] else '.' :: w.places

def mark (w : Written) : List Char := w.exponent.elim [] exponentText

def text (w : Written) : List Char := w.whole ++ (w.fraction ++ w.mark)

def digits (w : Written) : Nat := ofDigits 10 (w.whole ++ w.places)

def shift (w : Written) : Int := -(w.places.length : Int) + w.exponent.getD 0

structure Proper (w : Written) : Prop where
  whole : ∀ c ∈ w.whole, c.isDigit = true
  places : ∀ c ∈ w.places, c.isDigit = true
  solid : w.whole ≠ []
  lead : w.whole.head? = some '0' → w.whole = ['0']

/-- A number with a point or an exponent is not taken for a whole one. -/
def Marked (w : Written) : Prop := w.fraction ++ w.mark ≠ []

end Written

def NoDigit (s : List Char) : Prop := ∀ c, s.head? = some c → c.isDigit = false

theorem takeWhile_isDigit (digit : ∀ c ∈ ds, c.isDigit) (ends : NoDigit rest) :
    (ds ++ rest).takeWhile Char.isDigit = ds ∧ (ds ++ rest).dropWhile Char.isDigit = rest := by
  rw [takeWhile_append_of_pos digit, dropWhile_append_of_pos digit]
  cases rest with
  | nil => simp
  | cons c rest => simp [ends c rfl]

theorem exponentText_eq (e : Int) :
    ∃ ds, exponentText e = 'e' :: (if e < 0 then '-' else '+') :: ds ∧ ds ≠ [] ∧ (∀ c ∈ ds, c.isDigit) ∧
      ofDigits 10 ds = e.natAbs := by
  have solid : decimalText e.natAbs ≠ [] := Nat.toDigits_ne_nil
  have digit : ∀ c ∈ decimalText e.natAbs, c.isDigit := fun c => Expr.isDigit_of_mem_decimalText
  have value := Expr.ofDigits_decimalText e.natAbs
  unfold exponentText
  dsimp only
  by_cases short : (decimalText e.natAbs).length < 2
  · rw [if_pos short]
    refine ⟨_, rfl, cons_ne_nil _ _, ?_, value⟩
    intro c hc
    rcases mem_cons.mp hc with rfl | hc
    · rfl
    · exact digit c hc
  · rw [if_neg short]
    exact ⟨_, rfl, solid, digit, value⟩

theorem readExponent_exponentText (e : Int) : readExponent (exponentText e) = (e, []) := by
  obtain ⟨ds, shape, solid, digit, value⟩ := exponentText_eq e
  have all : ds.takeWhile Char.isDigit = ds := by
    simpa using (takeWhile_isDigit digit (show NoDigit [] from fun c h => by cases h)).1
  have some : ds.isEmpty = false := by simpa using solid
  rw [shape]
  by_cases negative : e < 0
  · rw [if_pos negative]
    unfold readExponent
    simp [all, some, value, abs_of_neg negative]
  · rw [if_neg negative]
    unfold readExponent
    simp [all, some, value, Int.le_of_not_gt negative]

namespace Written.Proper

variable {w : Written}

theorem noDigit_mark (w : Written) : NoDigit w.mark := by
  unfold Written.mark
  cases w.exponent with
  | none => exact fun c h => by cases h
  | some e =>
    intro c h
    cases h
    rfl

theorem noDigit_fraction_mark (w : Written) : NoDigit (w.fraction ++ w.mark) := by
  unfold Written.fraction
  split
  · exact noDigit_mark w
  · intro c h
    cases h
    rfl

theorem readPlaces_fraction (proper : w.Proper) : readPlaces (w.fraction ++ w.mark) = (w.places, w.mark) := by
  obtain ⟨front, back⟩ := takeWhile_isDigit proper.places (noDigit_mark w)
  unfold Written.fraction
  by_cases none : w.places = []
  · rw [if_pos none, none, nil_append]
    unfold Written.mark
    cases w.exponent with
    | none => rfl
    | some e => rfl
  · rw [if_neg none, cons_append]
    unfold readPlaces
    simp only [front, back]

theorem readExponent_mark (w : Written) : readExponent w.mark = (w.exponent.getD 0, []) := by
  unfold Written.mark
  cases w.exponent with
  | none => rfl
  | some e => exact readExponent_exponentText e

theorem readDecimal_text (proper : w.Proper) : readDecimal w.text = some (w.digits, w.shift, []) := by
  obtain ⟨front, -⟩ := takeWhile_isDigit proper.whole (noDigit_fraction_mark w)
  have some : w.whole.isEmpty = false := by simpa using proper.solid
  unfold readDecimal Written.text
  simp only [front, drop_left, readPlaces_fraction proper, readExponent_mark, some, Bool.false_and]
  rfl

theorem exists_text (proper : w.Proper) : ∃ d rest, w.text = d :: rest ∧ d.isDigit := by
  obtain ⟨d, rest, shape⟩ := exists_cons_of_ne_nil proper.solid
  refine ⟨d, rest ++ (w.fraction ++ w.mark), by rw [Written.text, shape]; rfl, proper.whole d ?_⟩
  rw [shape]
  exact mem_cons_self

theorem mem_text (proper : w.Proper) {c : Char} (h : c ∈ w.text) : c.isDigit ∨ c ∈ ['.', 'e', '+', '-'] := by
  unfold Written.text Written.fraction Written.mark at h
  rcases mem_append.mp h with h | h
  · exact .inl (proper.whole c h)
  rcases mem_append.mp h with h | h
  · split at h
    · cases h
    · rcases mem_cons.mp h with rfl | h
      · exact .inr (by simp)
      · exact .inl (proper.places c h)
  · cases he : w.exponent with
    | none =>
      rw [he] at h
      cases h
    | some e =>
      obtain ⟨ds, shape, -, digit, -⟩ := exponentText_eq e
      rw [he, Option.elim_some, shape] at h
      rcases mem_cons.mp h with rfl | h
      · exact .inr (by simp)
      rcases mem_cons.mp h with rfl | h
      · right
        split <;> simp
      · exact .inl (digit c h)

end Written.Proper

theorem digit_forall {P : Char → Prop} (h : ∀ n < 128, (Char.ofNat n).isDigit → P (Char.ofNat n)) (hc : c.isDigit) : P c :=
  Expr.alphanum_forall (P := fun c => c.isDigit = true → P c) (fun n hn _ => h n hn) (Expr.isAlphanum_of_isDigit hc) hc

theorem plain_of_mem_text (h : c.isDigit ∨ c ∈ ['.', 'e', '+', '-']) :
    c.toNat < 128 ∧ isNumeralBlank c = false ∧ c ≠ '_' := by
  rcases h with digit | mark
  · exact digit_forall (P := fun c => c.toNat < 128 ∧ isNumeralBlank c = false ∧ c ≠ '_') (by decide) digit
  · simp only [mem_cons, not_mem_nil, or_false] at mark
    rcases mark with rfl | rfl | rfl | rfl <;> decide

theorem splitSign_signText (negative : Bool) {d : Char} (shape : s = d :: rest) (digit : d.isDigit) :
    splitSign (signText negative ++ s) = (negative, s) := by
  cases negative with
  | true => rfl
  | false =>
    have other : d ≠ '-' ∧ d ≠ '+' := digit_forall (P := fun d => d ≠ '-' ∧ d ≠ '+') (by decide) digit
    rw [shape]
    change splitSign (d :: rest) = _
    unfold splitSign
    simp [other]

theorem plainDigits_eq_self (plain : ∀ c ∈ s, c.toNat < 128) : plainDigits s = s := by
  unfold plainDigits
  rw [if_pos]
  simpa using plain

/-- A text without blanks and underscores that starts with a digit after its sign is read as digits, point and exponent. -/
theorem readFloat_of_plain {body : List Char} {negative : Bool} {d : Char} {digits : Nat} {e : Int}
    (plain : ∀ c ∈ s, c.toNat < 128 ∧ isNumeralBlank c = false ∧ c ≠ '_') (sign : splitSign s = (negative, body))
    (shape : body = d :: rest) (digit : d.isDigit) (read : readDecimal body = some (digits, e, [])) :
    readFloat s = some (withSign negative (ofDecimal digits e)) := by
  have same := plainDigits_eq_self fun c hc => (plain c hc).1
  have trimmed : Text.trim isNumeralBlank s = s :=
    Text.trim_eq_self (fun c first => (plain c (mem_of_head? first)).2.1)
      fun c last => (plain c (mem_of_getLast? last)).2.1
  have solid : s.contains '_' = false := by
    simpa using fun bar => (plain '_' bar).2.2 rfl
  have letters : d.toLower ≠ 'i' ∧ d.toLower ≠ 'n' :=
    digit_forall (P := fun d => d.toLower ≠ 'i' ∧ d.toLower ≠ 'n') (by decide) digit
  -- it starts with a digit, so it is none of the words that are numbers too
  have word (text : List Char) (first : text.head? = some 'i' ∨ text.head? = some 'n') :
      decide (body.map Char.toLower = text) = false := by
    rw [decide_eq_false_iff_not]
    rintro rfl
    rw [shape, map_cons, head?_cons] at first
    rcases first with i | n
    · exact letters.1 (Option.some.inj i)
    · exact letters.2 (Option.some.inj n)
  unfold readFloat
  simp only [same, trimmed, solid, Bool.false_eq_true, if_false, sign]
  rw [word _ (.inl rfl), word _ (.inl rfl), if_neg (by decide), if_neg (of_decide_eq_false (word _ (.inr rfl))), read]

theorem Written.Proper.plain (proper : w.Proper) (negative : Bool) :
    ∀ c ∈ signText negative ++ w.text, c.toNat < 128 ∧ isNumeralBlank c = false ∧ c ≠ '_' := by
  intro c hc
  apply plain_of_mem_text
  rcases mem_append.mp hc with sign | hc
  · cases negative with
    | true =>
      rw [mem_singleton.mp sign]
      exact .inr (by simp)
    | false => cases sign
  · exact proper.mem_text hc

/-- A written number is read as its digits, point and sign say. -/
theorem Written.Proper.readFloat_text (proper : w.Proper) (negative : Bool) :
    readFloat (signText negative ++ w.text) = some (withSign negative (ofDecimal w.digits w.shift)) := by
  obtain ⟨d, rest, shape, digit⟩ := proper.exists_text
  exact readFloat_of_plain (proper.plain negative) (splitSign_signText negative shape digit) shape digit
    proper.readDecimal_text

/-! ## Layout -/

/-- A decimal as it is laid out: with an exponent if the point stands far outside the digits. -/
def Decimal.written (d : Decimal) : Written :=
  if -3 ≤ d.point ∧ d.point ≤ 16 then
    if d.point ≤ 0 then ⟨['0'], List.replicate (-d.point).toNat '0' ++ d.digits, none⟩
    else if d.digits.length ≤ d.point.toNat then
      ⟨d.digits ++ List.replicate (d.point.toNat - d.digits.length) '0', ['0'], none⟩
    else ⟨d.digits.take d.point.toNat, d.digits.drop d.point.toNat, none⟩
  else ⟨d.digits.take 1, d.digits.drop 1, some (d.point - 1)⟩

namespace Decimal.Proper

variable {d : Decimal}

theorem isDigit_of_mem_fill {ds : List Char} (digit : ∀ c ∈ ds, c.isDigit) (n : Nat) {c : Char}
    (h : c ∈ ds ∨ c ∈ List.replicate n '0') : c.isDigit := by
  rcases h with h | h
  · exact digit c h
  · rw [(mem_replicate.mp h).2]
    rfl

theorem written (proper : d.Proper) : d.written.Proper := by
  obtain ⟨c, cs, shape⟩ := exists_cons_of_ne_nil proper.solid
  have digit := proper.digit
  have lead := proper.lead
  unfold Decimal.written
  -- the point before the digits, behind them, among them, or moved behind the first
  split
  · split
    · constructor
      · simp
      · exact fun c hc => isDigit_of_mem_fill digit _ (mem_append.mp hc).symm
      · exact cons_ne_nil _ _
      · exact fun _ => rfl
    · split
      · constructor
        · exact fun c hc => isDigit_of_mem_fill digit _ (mem_append.mp hc)
        · simp
        · simp [proper.solid]
        · intro first
          rw [shape] at first lead
          exact absurd first lead
      · obtain ⟨n, positive'⟩ : ∃ n, d.point.toNat = n + 1 := ⟨d.point.toNat - 1, by omega⟩
        constructor
        · exact fun c hc => digit c (mem_of_mem_take hc)
        · exact fun c hc => digit c (mem_of_mem_drop hc)
        · simp [positive', shape]
        · intro first
          rw [positive', shape] at first
          rw [shape] at lead
          exact absurd first lead
  · constructor
    · exact fun c hc => digit c (mem_of_mem_take hc)
    · exact fun c hc => digit c (mem_of_mem_drop hc)
    · simp [shape]
    · intro first
      rw [shape] at first lead
      exact absurd first lead

theorem marked_written (proper : d.Proper) : d.written.Marked := by
  unfold Decimal.written Written.Marked Written.fraction Written.mark
  split
  · split
    · simp [proper.solid]
    · split
      · simp
      · rename_i within
        simp [Nat.lt_of_not_le within]
  · simp [exponentText]

end Decimal.Proper

theorem contains_point_of_digits (digit : ∀ c ∈ ds, c.isDigit) : ds.contains '.' = false := by
  simpa using fun point => absurd (digit '.' point) (by decide)

theorem Decimal.Proper.positional_written (proper : d.Proper) (low : -3 ≤ d.point) (high : d.point ≤ 16) :
    (if !(positional d.digits d.point).contains '.' then positional d.digits d.point ++ ['.', '0']
      else positional d.digits d.point) = d.written.text := by
  unfold positional Decimal.written Written.text Written.fraction Written.mark
  rw [if_pos (show -3 ≤ d.point ∧ d.point ≤ 16 from ⟨low, high⟩)]
  by_cases small : d.point ≤ 0
  · rw [if_pos small, if_pos small]
    simp [proper.solid]
  · rw [if_neg small, if_neg small]
    by_cases whole : d.digits.length ≤ d.point.toNat
    · have none : (d.digits ++ List.replicate (d.point.toNat - d.digits.length) '0').contains '.' = false :=
        contains_point_of_digits fun c hc =>
          Decimal.Proper.isDigit_of_mem_fill proper.digit _ (mem_append.mp hc)
      rw [if_pos whole, if_pos whole, none]
      simp
    · rw [if_neg whole, if_neg whole]
      simp [Nat.lt_of_not_le whole]

theorem Decimal.Proper.exponential_written (proper : d.Proper) (far : ¬ (-3 ≤ d.point ∧ d.point ≤ 16)) :
    exponential d.digits d.point = d.written.text := by
  unfold exponential Decimal.written Written.text Written.fraction Written.mark
  rw [if_neg far]
  cases digits : d.digits with
  | nil => exact absurd digits proper.solid
  | cons c cs =>
    cases cs with
    | nil => rfl
    | cons c' cs => rfl

/-- The text of a finite number other than zero is its sign and its shortest decimal, laid out. -/
theorem floatText_eq (number : x.isNaN = false) (bounded : x.isInf = false) (other : (x == 0.0) = false)
    (proper : (shortest x).Proper) : floatText x = signText (signBit x) ++ (shortest x).written.text := by
  unfold floatText layoutFloat
  simp only [number, bounded, other, Bool.false_eq_true, if_false, plainLayout]
  congr 1
  by_cases near : -3 ≤ (shortest x).point ∧ (shortest x).point ≤ 16
  · rw [if_pos (by simpa using near)]
    exact proper.positional_written near.1 near.2
  · rw [if_neg (by simpa using near)]
    exact proper.exponential_written near

/-- Layout fills in zeros at most: `k` of them after the digits. -/
theorem Decimal.Proper.digits_written (proper : d.Proper) :
    ∃ k : Nat, d.written.digits = ofDigits 10 d.digits * 10 ^ k ∧ d.written.shift = d.point - d.digits.length - k ∧
      d.digits.length + k ≤ 21 := by
  have few := proper.few
  have some : 0 < d.digits.length := length_pos_of_ne_nil proper.solid
  have zero : ofDigits 10 ['0'] = 0 := rfl
  unfold Decimal.written Written.digits Written.shift
  split
  · split
    · refine ⟨0, ?_, ?_, by omega⟩
      · simp only [ofDigits_append, ofDigits_replicate_zero, zero, zero_mul, zero_add, pow_zero, mul_one]
      · simp only [length_append, length_replicate, Option.getD_none]
        omega
    · split
      · refine ⟨d.point.toNat - d.digits.length + 1, ?_, ?_, by omega⟩
        · simp only [ofDigits_append, ofDigits_replicate_zero, zero, length_replicate, length_singleton,
            Nat.add_zero, pow_succ, pow_zero, one_mul, mul_assoc]
        · simp only [length_singleton, Option.getD_none]
          omega
      · refine ⟨0, ?_, ?_, by omega⟩
        · rw [take_append_drop, pow_zero, mul_one]
        · simp only [length_drop, Option.getD_none]
          omega
  · refine ⟨0, ?_, ?_, by omega⟩
    · rw [take_append_drop, pow_zero, mul_one]
    · simp only [length_drop, Option.getD_some]
      omega

theorem Decimal.Proper.digits_written_lt (proper : d.Proper) : d.written.digits < 10 ^ 21 := by
  obtain ⟨k, digits, -, few⟩ := proper.digits_written
  have bound : ofDigits 10 d.digits < 10 ^ d.digits.length :=
    ofDigits_lt fun c hc => digit_forall (P := fun c => isDigitOf 10 c = true) (by decide) (proper.digit c hc)
  calc d.written.digits = ofDigits 10 d.digits * 10 ^ k := digits
    _ < 10 ^ d.digits.length * 10 ^ k := Nat.mul_lt_mul_of_pos_right bound (by positivity)
    _ = 10 ^ (d.digits.length + k) := (pow_add _ _ _).symm
    _ ≤ 10 ^ 21 := Nat.pow_le_pow_right (by decide) few

/-- Layout keeps the fraction that the digits stand for. -/
theorem Decimal.Proper.value_written (proper : d.Proper) : (d.written.digits * 10 ^ d.written.shift : ℚ) = d.value := by
  obtain ⟨k, digits, shift, -⟩ := proper.digits_written
  have power : (10 : ℚ) ^ (k : Int) * 10 ^ (d.point - d.digits.length - k) = 10 ^ (d.point - d.digits.length) := by
    rw [← zpow_add₀ (by norm_num)]
    congr 1
    ring
  unfold Decimal.value
  rw [digits, shift, ← power, zpow_natCast]
  push_cast
  ring

/-- The digits of a finite number other than zero, laid out, and the number that they are read as. -/
theorem exists_written (number : x.isNaN = false) (bounded : x.isInf = false) (other : (x == 0.0) = false) :
    ∃ w : Written, w.Proper ∧ w.Marked ∧ floatText x = signText (signBit x) ++ w.text ∧
      withSign (signBit x) (ofDecimal w.digits w.shift) = x := by
  have proper := proper_parts number bounded other
  obtain ⟨d, n, same, near, few⟩ := exists_shortest proper
  have pos : 0 < d := pos_of_near proper near
  have laid : (shortest x).Proper := same ▸ proper_ofUnits pos few n
  refine ⟨(shortest x).written, laid.written, laid.marked_written, floatText_eq number bounded other laid, ?_⟩
  rw [ofDecimal_of_near proper laid.digits_written_lt]
  · exact withSign_ofScaled number bounded
  · rw [laid.value_written, same, value_ofUnits pos]
    exact near

theorem exists_written_finite (number : x.isNaN = false) (bounded : x.isInf = false) :
    ∃ w : Written, w.Proper ∧ w.Marked ∧ floatText x = signText (signBit x) ++ w.text ∧
      withSign (signBit x) (ofDecimal w.digits w.shift) = x := by
  cases zero : x == 0.0 with
  | true =>
    refine ⟨⟨['0'], ['0'], none⟩, ?_, ?_, ?_, ?_⟩
    · constructor <;> simp
    · exact cons_ne_nil _ _
    · unfold floatText layoutFloat
      simp only [number, bounded, zero]
      rfl
    · exact (eq_zero_of_beq zero).symm
  | false => exact exists_written number bounded zero

/-- A finite number that is written and read again is the same number. -/
theorem readFloat_floatText (number : x.isNaN = false) (bounded : x.isInf = false) : readFloat (floatText x) = some x := by
  obtain ⟨w, proper, -, text, same⟩ := exists_written_finite number bounded
  rw [text, proper.readFloat_text, same]

end LineScript.Number
