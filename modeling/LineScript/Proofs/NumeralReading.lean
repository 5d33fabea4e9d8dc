
import LineScript.Proofs.JsonTokens
import LineScript.Proofs.NumeralTokens
import LineScript.Proofs.TextSearch

/-!
# Texts that are read as numbers

What a conversion reads as a number has the form of a numeral, once digits of other scripts, which start no name, are
replaced by the usual ones. Underscores stand after digits only, and without them a token has the same value.
-/

namespace LineScript

open List

/-! ## Digits of other scripts -/

namespace Text

namespace RangeSet

variable {s t : RangeSet} {lo : Nat}

def Holds (s : RangeSet) (k : Nat) : Prop := ∃ r ∈ s, r.1 ≤ k ∧ k ≤ r.2

theorem contains_iff {c : Char} : s.contains c ↔ s.Holds c.toNat := by
  unfold RangeSet.contains Holds
  simp

/-- Whether the ranges of two lists together, in the order of their lower bounds, lie one after the other from `lo` on. -/
def apart : Nat → Nat → RangeSet → RangeSet → Bool
  | 0, _, _, _ => false
  | _ + 1, _, [], [] => true
  | n + 1, lo, r :: s, [] => lo ≤ r.1 && r.1 ≤ r.2 && apart n (r.2 + 1) s []
  | n + 1, lo, [], q :: t => lo ≤ q.1 && q.1 ≤ q.2 && apart n (q.2 + 1) [] t
  | n + 1, lo, r :: s, q :: t =>
    if r.1 < q.1 then lo ≤ r.1 && r.1 ≤ r.2 && apart n (r.2 + 1) s (q :: t)
    else lo ≤ q.1 && q.1 ≤ q.2 && apart n (q.2 + 1) (r :: s) t

/-- From `lo` on, no code point lies in a range of both lists. -/
def Disjoint (lo : Nat) (s t : RangeSet) : Prop := ∀ k, (s.Holds k → lo ≤ k ∧ ¬ t.Holds k) ∧ (t.Holds k → lo ≤ k)

theorem Disjoint.cons_left {r : Nat × Nat} (low : lo ≤ r.1) (proper : r.1 ≤ r.2) (rest : Disjoint (r.2 + 1) s t) :
    Disjoint lo (r :: s) t := by
  intro k
  obtain ⟨left, right⟩ := rest k
  refine ⟨?_, fun holds => by have above := right holds; omega⟩
  rintro ⟨q, mem, lower, upper⟩
  rcases mem_cons.mp mem with rfl | mem
  · refine ⟨by omega, fun holds => ?_⟩
    have above := right holds
    omega
  · obtain ⟨above, other⟩ := left ⟨q, mem, lower, upper⟩
    exact ⟨by omega, other⟩

theorem Disjoint.symm (h : Disjoint lo s t) : Disjoint lo t s := fun k =>
  ⟨fun right => ⟨(h k).2 right, fun left => ((h k).1 left).2 right⟩, fun left => ((h k).1 left).1⟩

theorem disjoint_of_apart {n : Nat} (h : apart n lo s t) : Disjoint lo s t := by
  fun_induction apart n lo s t with
  | case1 => cases h
  | case2 =>
    intro k
    constructor
    all_goals
      rintro ⟨r, none, -⟩
      cases none
  | case3 n lo r s ih =>
    simp only [Bool.and_eq_true, decide_eq_true_eq] at h
    exact .cons_left h.1.1 h.1.2 (ih h.2)
  | case4 n lo q t ih =>
    simp only [Bool.and_eq_true, decide_eq_true_eq] at h
    exact (Disjoint.cons_left h.1.1 h.1.2 (ih h.2).symm).symm
  | case5 n lo r s q t before ih =>
    simp only [Bool.and_eq_true, decide_eq_true_eq] at h
    exact .cons_left h.1.1 h.1.2 (ih h.2)
  | case6 n lo r s q t before ih =>
    simp only [Bool.and_eq_true, decide_eq_true_eq] at h
    exact (Disjoint.cons_left h.1.1 h.1.2 (ih h.2).symm).symm

end RangeSet

/-- Digits start no names and are no blanks. -/
theorem disjoint_digits : RangeSet.Disjoint 128 decimals letters ∧ RangeSet.Disjoint 128 decimals nameStarters ∧
    RangeSet.Disjoint 128 decimals blanks ∧ RangeSet.Disjoint 128 superscripts blanks := by
  refine ⟨?_, ?_, ?_, ?_⟩
  all_goals
    apply RangeSet.disjoint_of_apart (n := 1000)
    simp only [decimals, letters, nameStarters, superscripts, blanks, RangeSet.ofLines, numbersOf, flatMap_cons, flatMap_nil]
    repeat rw [String.toList_ofList]
    decide +kernel

theorem digit_of_decimalValue? {c : Char} {d : Nat} (large : 128 ≤ c.toNat) (value : decimalValue? c = some d) :
    d < 10 ∧ isNameStart c = false := by
  unfold decimalValue? at value
  rw [if_neg (by omega)] at value
  obtain ⟨r, found, rfl⟩ := Option.map_eq_some_iff.mp value
  refine ⟨Nat.mod_lt _ (by decide), ?_⟩
  have within := find?_some found
  simp only [Bool.and_eq_true, decide_eq_true_eq] at within
  have holds : decimals.Holds c.toNat := ⟨r, mem_of_find?_eq_some found, within⟩
  have letter : letters.contains c = false := Bool.eq_false_iff.mpr fun other =>
    ((disjoint_digits.1 _).1 holds).2 (RangeSet.contains_iff.mp other)
  have starter : nameStarters.contains c = false := Bool.eq_false_iff.mpr fun other =>
    ((disjoint_digits.2.1 _).1 holds).2 (RangeSet.contains_iff.mp other)
  unfold isNameStart
  rw [if_neg (by omega), letter, starter]
  rfl

end Text

namespace Number

open Text

variable {s u rest places : List Char} {n : Nat} {e : Int} {last c : Char} {q : Expr.Part}

/-- What a character is replaced by in a numeral. -/
inductive Replaces (c : Char) : Char → Prop where
  | same (small : c.toNat < 128) : Replaces c c
  | blank (blank : isBlank c = true) : Replaces c ' '
  | digit {d : Nat} (large : 128 ≤ c.toNat) (value : decimalValue? c = some d) : Replaces c (Char.ofNat (48 + d))
  | strange (large : 128 ≤ c.toNat) : Replaces c '?'

theorem exists_plainDigits (s : List Char) : ∃ g : Char → Char, plainDigits s = s.map g ∧ ∀ c ∈ s, Replaces c (g c) := by
  unfold plainDigits
  split
  · rename_i all
    refine ⟨id, (map_id s).symm, fun c hc => .same ?_⟩
    simpa using all_eq_true.mp all c hc
  · refine ⟨_, rfl, fun c _ => ?_⟩
    split
    · split
      · exact .blank ‹_›
      · exact .same ‹_›
    · split
      · exact .blank ‹_›
      · split
        · exact .digit (by omega) ‹_›
        · exact .strange (by omega)

namespace Replaces

variable {c d : Char} (h : Replaces c d)

include h

theorem isBlank_of_blank (blank : isNumeralBlank d) : isBlank c := by
  cases h with
  | same small =>
    unfold isNumeralBlank at blank
    unfold isBlank
    rw [if_pos small]
    simp only [Bool.or_eq_true, decide_eq_true_eq] at blank ⊢
    rcases blank with rfl | between
    · exact Or.inl (Or.inl rfl)
    · exact Or.inl (Or.inr between)
  | blank there => exact there
  | digit large value =>
    have other : ∀ d < 10, isNumeralBlank (Char.ofNat (48 + d)) = false := by decide
    rw [other _ (digit_of_decimalValue? large value).1] at blank
    cases blank
  | strange large => exact absurd blank (by decide)

theorem isNumeralBlank_eq_false (solid : isBlank c = false) : isNumeralBlank d = false := by
  refine Bool.eq_false_iff.mpr fun blank => ?_
  rw [h.isBlank_of_blank blank] at solid
  cases solid

theorem eq_of_mark (mark : d ∈ ['+', '-', '.', '_', 'e', 'E']) : c = d := by
  cases h with
  | same small => rfl
  | blank there => exact absurd mark (by decide)
  | digit large value =>
    have other : ∀ d < 10, Char.ofNat (48 + d) ∉ ['+', '-', '.', '_', 'e', 'E'] := by decide
    exact absurd mark (other _ (digit_of_decimalValue? large value).1)
  | strange large => exact absurd mark (by decide)

theorem eq_of_small (small : c.toNat < 128) (solid : d ≠ ' ') : d = c := by
  cases h with
  | same _ => rfl
  | blank there => exact absurd rfl solid
  | digit large value => omega
  | strange large => omega

theorem eq_of_solid (small : c.toNat < 128) (solid : isBlank c = false) : d = c := by
  cases h with
  | same _ => rfl
  | blank there =>
    rw [solid] at there
    cases there
  | digit large value => omega
  | strange large => omega

theorem isNameStart_of_digit (large : 128 ≤ c.toNat) (digit : d.isDigit) : isNameStart c = false := by
  cases h with
  | same small => omega
  | blank there => exact absurd digit (by decide)
  | digit large value => exact (digit_of_decimalValue? large value).2
  | strange large => exact absurd digit (by decide)

end Replaces

/-! ## Underscores -/

section

open LineScript.Expr

/-- Underscores stand after digits, so a numeral is in the same part with and without them. -/
theorem runs_of_dropUnderscores (dropped : dropUnderscores last s = some u) (h : Runs [] q u)
    (start : q = .mark → last.isDigit = false) : Runs [] q s := by
  fun_induction dropUnderscores last s generalizing q u with
  | case2 => exact .stop
  | case3 last cs digit ih =>
    have other : q ≠ .mark := fun mark => by simp [start mark] at digit
    exact .step (Part.next_digit (by decide) other) (ih dropped h fun mark => absurd mark other)
  | case6 last c cs other keeps ih =>
    obtain ⟨v, rest, rfl⟩ := Option.map_eq_some_iff.mp dropped
    cases h with
    | step next h =>
      refine .step next (ih rest h fun mark => ?_)
      cases q <;> grind [Part.next, inDigits]
  | _ => cases dropped

theorem exists_digit_underscore (dropped : dropUnderscores last s = some u) (bar : '_' ∈ s) :
    ∃ d, d.isDigit ∧ [d, '_'] <:+: last :: s := by
  fun_induction dropUnderscores last s generalizing u with
  | case2 => cases bar
  | case3 last cs digit => exact ⟨last, digit, (prefix_append [last, '_'] cs).isInfix⟩
  | case6 last c cs other keeps ih =>
    obtain ⟨v, rest, -⟩ := Option.map_eq_some_iff.mp dropped
    obtain ⟨d, digit, found⟩ := ih rest ((mem_cons.mp bar).resolve_left fun same => other same.symm)
    exact ⟨d, digit, List.infix_cons found⟩
  | _ => cases dropped

theorem dropUnderscores_eq_some (dropped : dropUnderscores last s = some u) (start : last.isDigit = false) :
    u.head? = s.head? ∧ u = s.filter (· ≠ '_') := by
  have filtered : u = s.filter (· ≠ '_') := by
    clear start
    fun_induction dropUnderscores last s generalizing u with
    | case2 => exact (Option.some.inj dropped).symm
    | case3 last cs digit ih => exact ih dropped
    | case6 last c cs other keeps ih =>
      obtain ⟨v, rest, rfl⟩ := Option.map_eq_some_iff.mp dropped
      rw [ih rest, filter_cons_of_pos (by simpa using other)]
    | _ => cases dropped
  refine ⟨?_, filtered⟩
  cases s with
  | nil => rw [filtered]; rfl
  | cons c s =>
    have other : c ≠ '_' := by
      rintro rfl
      rw [dropUnderscores, start] at dropped
      cases dropped
    rw [filtered, filter_cons_of_pos (by simpa using other)]
    rfl

/-! ## Exponent, point and digits -/

theorem drop_takeWhile (s : List Char) : s.drop (s.takeWhile Char.isDigit).length = s.dropWhile Char.isDigit := by
  have whole := takeWhile_append_dropWhile (p := Char.isDigit) (l := s)
  nth_rewrite 2 [← whole]
  exact drop_left

theorem readExponent_cases (read : readExponent s = (e, [])) :
    s = [] ∧ e = 0 ∨ ∃ c ds, (c = 'e' ∨ c = 'E') ∧ ds ≠ [] ∧ (∀ c ∈ ds, c.isDigit) ∧ (s = c :: ds ∧ e = ofDigits 10 ds ∨
        ∃ d, s = c :: d :: ds ∧ (d = '+' ∨ d = '-') ∧ e = if d = '-' then -(ofDigits 10 ds : Int) else ofDigits 10 ds) := by
  unfold readExponent at read
  extract_lets exponent at read
  have digits : ∀ {c : Char} {negative r}, s ≠ [] →
      (if (c = 'e' || c = 'E') = true then exponent negative r else (0, s)) = (e, []) → (c = 'e' ∨ c = 'E') ∧
        r ≠ [] ∧ (∀ c ∈ r, c.isDigit) ∧ e = if negative then -(ofDigits 10 r : Int) else ofDigits 10 r := by
    intro c negative r filled read
    split at read
    · rename_i mark
      dsimp only [exponent] at read
      split at read
      · exact absurd (Prod.mk.inj read).2 filled
      · rename_i some
        rw [drop_takeWhile] at read
        have all : r.takeWhile Char.isDigit = r := takeWhile_eq_self_iff.mpr (dropWhile_eq_nil_iff.mp (Prod.mk.inj read).2)
        rw [all] at some read
        exact ⟨by simpa using mark, by simpa using some, takeWhile_eq_self_iff.mp all, (Prod.mk.inj read).1.symm⟩
    · exact absurd (Prod.mk.inj read).2 filled
  split at read
  · obtain ⟨mark, some, all, rfl⟩ := digits (cons_ne_nil _ _) read
    exact Or.inr ⟨_, _, mark, some, all, Or.inr ⟨'-', rfl, Or.inr rfl, rfl⟩⟩
  · obtain ⟨mark, some, all, rfl⟩ := digits (cons_ne_nil _ _) read
    exact Or.inr ⟨_, _, mark, some, all, Or.inr ⟨'+', rfl, Or.inl rfl, rfl⟩⟩
  · obtain ⟨mark, some, all, rfl⟩ := digits (cons_ne_nil _ _) read
    exact Or.inr ⟨_, _, mark, some, all, Or.inl ⟨rfl, rfl⟩⟩
  · exact Or.inl ⟨rfl, (Prod.mk.inj read).1.symm⟩

theorem runs_of_readExponent (read : readExponent s = (e, [])) (start : ∀ c, c = 'e' ∨ c = 'E' → q.next c = some .mark) :
    Runs [] q s := by
  rcases readExponent_cases read with ⟨rfl, -⟩ | ⟨c, ds, mark, some, digits, shape⟩
  · exact .stop
  · have part : ∀ c ∈ ds, inDigits c := fun c hc => by simp [inDigits, digits c hc]
    have power : Runs [] .power ds := append_nil ds ▸ .append part (by simp) .stop
    rcases shape with ⟨rfl, -⟩ | ⟨d, rfl, sign, -⟩
    · obtain ⟨d, ds, rfl⟩ := exists_cons_of_ne_nil some
      cases power with
      | step next power => exact .step (start c mark) (.step (by simp_all [Part.next]) power)
    · refine .step (start c mark) (.step ?_ power)
      rcases sign with rfl | rfl <;> rfl

/-- With an exponent that is read to its end, a token is a number with a fraction. -/
theorem lexExponent_of_read (ds : List Char) (shift : Int) (read : readExponent s = (e, [])) :
    lexExponent ds shift false s = some (.float (ofDecimal (ofDigits 10 ds) (shift + e)), []) := by
  have power : ∀ negative {es : List Char}, (∀ c ∈ es, c.isDigit) → lexPower (ofDigits 10 ds) shift negative es =
      some (.float (ofDecimal (ofDigits 10 ds) (shift + if negative then -(ofDigits 10 es : Int) else ofDigits 10 es)), []) := by
    intro negative es digits
    rw [lexPower, Expr.digitTail_digits digits]
    rfl
  rcases readExponent_cases read with ⟨rfl, rfl⟩ | ⟨c, es, mark, some, digits, shape⟩
  · rw [Int.add_zero]
    rfl
  · obtain ⟨d, es, rfl⟩ := exists_cons_of_ne_nil some
    have digit := digits d mem_cons_self
    have marked : (decide (c = 'e') || decide (c = 'E')) := by simpa using mark
    unfold lexExponent
    rcases shape with ⟨rfl, rfl⟩ | ⟨sign, rfl, mark, rfl⟩
    · dsimp only
      rw [if_pos marked, if_pos digit, power false digits]
      rfl
    · have signed : (decide (sign = '+') || decide (sign = '-')) := by simpa using mark
      have undigit : ¬ sign.isDigit := by
        rcases mark with rfl | rfl <;> decide
      dsimp only
      rw [if_pos marked, if_neg undigit, if_pos signed, head?_cons, Option.any_some, if_pos digit, power _ digits]
      simp

theorem readPlaces_cases (point : readPlaces s = (places, rest)) :
    places = [] ∧ rest = s ∨ s = '.' :: (places ++ rest) ∧ ∀ c ∈ places, c.isDigit := by
  unfold readPlaces at point
  split at point
  · cases point
    exact Or.inr ⟨by rw [takeWhile_append_dropWhile], all_eq_true.mp all_takeWhile⟩
  · cases point
    exact Or.inl ⟨rfl, rfl⟩

theorem readDecimal_cases (read : readDecimal s = some (n, e, [])) :
    ∃ whole places rest k, (∀ c ∈ whole, c.isDigit) ∧ readExponent rest = (k, []) ∧ (whole ≠ [] ∧ s = whole ++ rest ∨
        (whole ≠ [] ∨ places ≠ []) ∧ (∀ c ∈ places, c.isDigit) ∧ s = whole ++ '.' :: (places ++ rest) ∧
          n = ofDigits 10 (whole ++ places) ∧ e = -(places.length : Int) + k) := by
  unfold readDecimal at read
  simp only [drop_takeWhile] at read
  have whole := takeWhile_append_dropWhile (p := Char.isDigit) (l := s)
  have digits : ∀ c ∈ s.takeWhile Char.isDigit, c.isDigit := all_eq_true.mp all_takeWhile
  generalize s.takeWhile Char.isDigit = w at whole digits read
  generalize s.dropWhile Char.isDigit = r at whole read
  subst whole
  rcases point : readPlaces r with ⟨places, rest⟩
  rcases power : readExponent rest with ⟨k, left⟩
  simp only [point, power] at read
  split at read
  · cases read
  · rename_i some
    obtain ⟨rfl, rfl, rfl⟩ : ofDigits 10 (w ++ places) = n ∧ -(places.length : Int) + k = e ∧ left = [] := by simpa using read
    refine ⟨w, places, rest, k, digits, power, ?_⟩
    rcases readPlaces_cases point with ⟨rfl, rfl⟩ | ⟨rfl, more⟩
    · exact Or.inl ⟨by simpa using some, rfl⟩
    · exact Or.inr ⟨by simpa [Decidable.imp_iff_not_or] using some, more, rfl, rfl, rfl⟩

theorem runs_of_readDecimal (read : readDecimal s = some (n, e, [])) :
    Runs [] .whole s ∧ ∃ c r, s = c :: r ∧ (c.isDigit = true ∨ c = '.') := by
  obtain ⟨whole, places, rest, k, digits, power, shape⟩ := readDecimal_cases read
  have part : ∀ {ds : List Char}, (∀ c ∈ ds, c.isDigit) → ∀ c ∈ ds, inDigits c := fun digits c hc => by
    simp [inDigits, digits c hc]
  rcases shape with ⟨some, rfl⟩ | ⟨-, more, rfl, -⟩
  · refine ⟨.append (part digits) (by simp) (runs_of_readExponent power ?_), ?_⟩
    · rintro c (rfl | rfl) <;> rfl
    · obtain ⟨d, ds, rfl⟩ := exists_cons_of_ne_nil some
      exact ⟨d, ds ++ rest, rfl, Or.inl (digits d mem_cons_self)⟩
  · refine ⟨.append (part digits) (by simp) (.step rfl (.append (part more) (by simp) (runs_of_readExponent power ?_))), ?_⟩
    · rintro c (rfl | rfl) <;> rfl
    · cases whole with
      | nil => exact ⟨'.', _, rfl, Or.inr rfl⟩
      | cons d ds => exact ⟨d, _, rfl, Or.inl (digits d mem_cons_self)⟩

theorem lexFraction_of_read {k : Int} (whole : List Char) (digits : ∀ c ∈ places, c.isDigit)
    (power : readExponent rest = (k, [])) : lexFraction whole ('.' :: (places ++ rest)) =
      some (.float (ofDecimal (ofDigits 10 (whole ++ places)) (-(places.length : Int) + k)), []) := by
  have ends : ∀ c, rest.head? = some c → c ≠ '_' ∧ c.isDigit = false := by
    intro c first
    rcases readExponent_cases power with ⟨rfl, -⟩ | ⟨_, ds, mark, -, -, ⟨rfl, -⟩ | ⟨d, rfl, -⟩⟩
    · cases first
    all_goals
      cases first
      rcases mark with rfl | rfl <;> decide
  have exponent := fun ds shift => lexExponent_of_read ds shift power
  rw [lexFraction]
  cases places with
  | nil =>
    have undigit : ¬ rest.head?.any Char.isDigit := by
      cases first : rest.head? with
      | none => simp
      | some c => simp [(ends c first).2]
    rw [nil_append, if_neg undigit, exponent, append_nil]
    rfl
  | cons d ds =>
    have first : ((d :: ds ++ rest).head?.any Char.isDigit) := digits d mem_cons_self
    rw [if_pos first, digitTail_append digits ends]
    exact exponent _ _

/-- A numeral with a point and without underscores is a token with the value that it is read as. -/
theorem lexToken_of_readDecimal (pointed : '.' ∈ s) (read : readDecimal s = some (n, e, [])) :
    lexToken s = some (.number (.float (ofDecimal n e)), []) := by
  have runs := (runs_of_readDecimal read).1
  obtain ⟨whole, places, rest, k, digits, power, shape⟩ := readDecimal_cases read
  rcases shape with ⟨-, rfl⟩ | ⟨some, more, rfl, rfl, rfl⟩
  · rcases readExponent_cases power with ⟨rfl, -⟩ | ⟨c, ds, mark, -, all, ⟨rfl, -⟩ | ⟨d, rfl, sign, -⟩⟩
    all_goals grind
  · have fraction := lexFraction_of_read whole more power
    cases whole with
    | nil =>
      obtain ⟨d, ds, rfl⟩ := exists_cons_of_ne_nil (some.resolve_left fun other => other rfl)
      have first : ('.'.isDigit || decide ('.' = '.') && (d :: ds ++ rest).head?.any Char.isDigit) := more d mem_cons_self
      rw [nil_append, lexToken, if_pos first, lexNumber, fraction]
      rfl
    | cons d ds =>
      have digit := digits d mem_cons_self
      have halts : Halts [] := fun c none => by cases none
      have ends : ∀ c, ('.' :: (places ++ rest)).head? = Option.some c → c ≠ '_' ∧ c.isDigit = false := by
        rintro c ⟨⟩
        decide
      rw [cons_append] at runs
      rw [cons_append, lexToken, if_pos (by simp [digit]), lexNumber_of_runs halts digit runs, ← cons_append,
        digitTail_append digits ends, Option.bind_some]
      rw [fraction]
      rfl

end

/-! ## Conversions -/

theorem first_of_strip (bare : strip s = s) : ∀ c, s.head? = some c → isBlank c = false := by
  intro c first
  obtain ⟨r, rfl⟩ := head?_eq_some_iff.mp first
  refine Bool.eq_false_iff.mpr fun blank => ?_
  -- a blank in front would be taken off
  have shorter : (strip (c :: r)).length ≤ r.length := by
    have dropped : strip (c :: r) = trim isBlank r := by
      unfold strip trim trimLeft
      rw [dropWhile_cons_of_pos blank]
    rw [dropped]
    exact (trim_sublist isBlank r).length_le
  rw [bare, length_cons] at shorter
  omega

theorem last_of_strip (bare : strip s = s) : ∀ c, s.getLast? = some c → isBlank c = false := by
  intro c last
  rw [← bare] at last
  exact getLast?_trimRight last

def Signed (s : List Char) : Prop := ∃ c, s.head? = some c ∧ (c = '+' ∨ c = '-')

theorem splitSign_cases (s : List Char) : Signed s ∨ splitSign s = (false, s) := by
  unfold splitSign
  split
  · exact Or.inl ⟨'-', rfl, Or.inr rfl⟩
  · exact Or.inl ⟨'+', rfl, Or.inl rfl⟩
  · exact Or.inr rfl

theorem point_mem_plainDigits (pointed : '.' ∈ s) : '.' ∈ plainDigits s := by
  obtain ⟨g, plain, replaces⟩ := exists_plainDigits s
  have same : g '.' = '.' := (replaces '.' pointed).eq_of_solid (by decide) (by decide)
  rw [plain]
  exact mem_map.mpr ⟨'.', pointed, same⟩

theorem toLower_ne_of_point {text : List Char} (point : '.' ∈ s) (unpointed : '.' ∉ text) : s.map Char.toLower ≠ text := by
  rintro rfl
  exact unpointed (mem_map.mpr ⟨'.', point, by decide⟩)

/-- If only blanks follow the digits of a text that does not end with one, nothing follows them. -/
theorem dropWhile_of_blank {p : List Char} (last : ∀ c, p.getLast? = some c → isNumeralBlank c = false)
    (blank : ∀ c ∈ p.dropWhile Expr.inDigits, isNumeralBlank c) : p.dropWhile Expr.inDigits = [] := by
  cases rest : (p.dropWhile Expr.inDigits).getLast? with
  | none => exact getLast?_eq_none_iff.mp rest
  | some c =>
    have final : p.getLast? = some c := by
      rw [← takeWhile_append_dropWhile (p := Expr.inDigits) (l := p), getLast?_append, rest]
      rfl
    have ends := last c final
    rw [blank c (mem_of_getLast? rest)] at ends
    cases ends

section

variable {s : List Char} (bare : strip s = s)

include bare

theorem ends_plainDigits : (∀ c, (plainDigits s).head? = some c → isNumeralBlank c = false) ∧
    ∀ c, (plainDigits s).getLast? = some c → isNumeralBlank c = false := by
  obtain ⟨g, plain, replaces⟩ := exists_plainDigits s
  rw [plain, head?_map, getLast?_map]
  constructor
  all_goals
    intro c found
    obtain ⟨d, here, rfl⟩ := Option.map_eq_some_iff.mp found
  · exact (replaces d (mem_of_head? here)).isNumeralBlank_eq_false (first_of_strip bare d here)
  · exact (replaces d (mem_of_getLast? here)).isNumeralBlank_eq_false (last_of_strip bare d here)

omit bare in
theorem signed_of_plainDigits (h : Signed (plainDigits s)) : Signed s := by
  obtain ⟨g, plain, replaces⟩ := exists_plainDigits s
  rw [plain] at h
  obtain ⟨c, first, sign⟩ := h
  rw [head?_map] at first
  obtain ⟨d, here, rfl⟩ := Option.map_eq_some_iff.mp first
  have mark : g d ∈ ['+', '-', '.', '_', 'e', 'E'] := by
    rcases sign with same | same <;> rw [same] <;> decide
  have same : d = g d := (replaces d (mem_of_head? here)).eq_of_mark mark
  rw [← same] at sign
  exact ⟨d, here, sign⟩

/-- A text that is read as a whole number has a sign, or it is digits throughout. -/
theorem readInt_cases {n : Int} (read : readInt 10 s = .value n) :
    Signed s ∨ ∃ d ds es, plainDigits s = d :: ds ∧ d.isDigit ∧ (∀ c ∈ ds, Expr.inDigits c) ∧
      digitTail Char.isDigit (d :: ds) = some (es, []) ∧ n = ofDigits 10 es := by
  have ten : isDigitOf 10 = Char.isDigit := funext Json.isDigitOf_ten
  have unblank : (plainDigits s).dropWhile isNumeralBlank = plainDigits s := trimLeft_eq_self (ends_plainDigits bare).1
  obtain ⟨negative, d, ds, es, rest, sign, digit, cut, blank, -, rfl⟩ := readInt_eq_value read
  rw [unblank] at sign
  rw [ten] at digit cut
  rcases splitSign_cases (plainDigits s) with signed | unsigned
  · exact Or.inl (signed_of_plainDigits signed)
  · obtain ⟨rfl, shape⟩ := Prod.mk.inj (unsigned.symm.trans sign)
    have last := (ends_plainDigits bare).2
    rw [shape] at last
    obtain rfl := Expr.digitTail_rest _ _ cut
    have none := dropWhile_of_blank last (dropWhile_eq_nil_iff.mp blank)
    refine Or.inr ⟨d, ds, es, shape, digit, fun c hc => ?_, none ▸ cut, rfl⟩
    exact dropWhile_eq_nil_iff.mp none c (mem_cons_of_mem d hc)

/-- A text that is read as a number with a point has a sign, or the form of a numeral. Without underscores it is a token
with this value. -/
theorem readFloat_cases {x : Float} (pointed : '.' ∈ s) (read : readFloat s = some x) :
    Signed s ∨ ∃ c r, plainDigits s = c :: r ∧ (c.isDigit = true ∨ c = '.') ∧ Expr.Runs [] .whole (c :: r) ∧
      ((∃ d, d.isDigit ∧ [d, '_'] <:+: c :: r) ∨ Expr.lexToken (c :: r) = some (.number (.float x), [])) := by
  have trimmed : trim isNumeralBlank (plainDigits s) = plainDigits s :=
    trim_eq_self (ends_plainDigits bare).1 (ends_plainDigits bare).2
  have point := point_mem_plainDigits pointed
  have signed := signed_of_plainDigits (s := s)
  unfold readFloat at read
  simp only [trimmed] at read
  generalize plainDigits s = p at point signed read
  split at read
  · cases read
  · rename_i u dropped
    -- without underscores the text is read as it stands
    have kept : u.head? = p.head? ∧ '.' ∈ u ∧ (Expr.Runs [] .whole u → Expr.Runs [] .whole p) ∧
        ((∃ d, d.isDigit ∧ [d, '_'] <:+: ' ' :: p) ∨ u = p) := by
      split at dropped
      · rename_i bar
        obtain ⟨first, rfl⟩ := dropUnderscores_eq_some dropped rfl
        refine ⟨first, mem_filter.mpr ⟨point, by decide⟩, fun h => runs_of_dropUnderscores dropped h (by simp), ?_⟩
        exact Or.inl (exists_digit_underscore dropped (by simpa using bar))
      · cases dropped
        exact ⟨rfl, point, id, Or.inr rfl⟩
    obtain ⟨first, dotted, runs, bar⟩ := kept
    rcases splitSign_cases u with ⟨c, begins, sign⟩ | unsigned
    · exact Or.inl (signed ⟨c, first ▸ begins, sign⟩)
    · right
      rw [unsigned] at read
      -- with a point it is none of the words that are numbers too
      have infinite := decide_eq_false (toLower_ne_of_point dotted (by decide : '.' ∉ "inf".toList))
      have infinite' := decide_eq_false (toLower_ne_of_point dotted (by decide : '.' ∉ "infinity".toList))
      have number := toLower_ne_of_point dotted (by decide : '.' ∉ "nan".toList)
      dsimp only at read
      rw [infinite, infinite', if_neg (by decide), if_neg number] at read
      split at read
      · rename_i n e decimal
        have positive : withSign false (ofDecimal n e) = ofDecimal n e := by
          rw [withSign, if_neg Bool.false_ne_true]
        rw [positive] at read
        cases read
        obtain ⟨form, c, r, shape, start⟩ := runs_of_readDecimal decimal
        rw [shape] at first
        obtain ⟨r', rfl⟩ := head?_eq_some_iff.mp first.symm
        refine ⟨c, r', rfl, start, runs form, bar.imp ?_ ?_⟩
        · rintro ⟨d, digit, found⟩
          refine ⟨d, digit, (List.infix_cons_iff.mp found).resolve_left fun front => ?_⟩
          rw [(cons_prefix_cons.mp front).1] at digit
          cases digit
        · rintro rfl
          exact lexToken_of_readDecimal point decimal
      · cases read

end

end Number

end LineScript
