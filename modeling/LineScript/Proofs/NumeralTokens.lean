
import LineScript.Proofs.FloatText

/-!
# Numerals as tokens

A decimal numeral has digits, then maybe a point and digits, then maybe an exponent. The front of such a text has this form
too, except that it can stop anywhere. If nothing that goes on with a number follows, cutting a token takes either the
whole of it or nothing.
-/

namespace LineScript.Expr

open Text Number List

variable {c d : Char} {s t r : List Char}

/-! ## The form -/

def inDigits (c : Char) : Bool := c.isDigit || c = '_'

def inNumeral (c : Char) : Bool := inDigits c || c ∈ ['.', 'e', 'E', '+', '-']

/-- The parts of a numeral without a sign; `mark` is right after the mark of an exponent. -/
inductive Part where
  | whole
  | places
  | mark
  | power

/-- The part that a character leads to. -/
def Part.next : Part → Char → Option Part
  | .whole, c =>
    if inDigits c then some .whole else if c = '.' then some .places else if c = 'e' || c = 'E' then some .mark else none
  | .places, c => if inDigits c then some .places else if c = 'e' || c = 'E' then some .mark else none
  | .mark, c => if inDigits c || c = '+' || c = '-' then some .power else none
  | .power, c => if inDigits c then some .power else none

/-- From a part on, a text goes on with a numeral up to its end `t`. -/
inductive Runs (t : List Char) : Part → List Char → Prop where
  | stop {q : Part} : Runs t q t
  | step {q q' : Part} {c : Char} {s : List Char} (next : q.next c = some q') (rest : Runs t q' s) : Runs t q (c :: s)

variable {q q' : Part}

theorem Part.inNumeral_of_next (next : q.next c = some q') : inNumeral c := by
  cases q <;> grind [Part.next, inNumeral]

theorem Part.next_digit (digit : inDigits c) (other : q ≠ .mark) : q.next c = some q := by
  cases q <;> simp_all [Part.next]

theorem Runs.inNumeral (h : Runs [] q s) (mem : c ∈ s) : inNumeral c := by
  induction h with
  | stop => cases mem
  | step next rest ih =>
    rcases mem_cons.mp mem with rfl | mem
    · exact Part.inNumeral_of_next next
    · exact ih mem

theorem Runs.front {a : List Char} (h : Runs [] q s) (front : a <+: s) (t : List Char) : Runs t q (a ++ t) := by
  obtain ⟨b, rfl⟩ := front
  induction a generalizing q with
  | nil => exact .stop
  | cons c a ih =>
    cases h with
    | step next rest => exact .step next (ih rest)

theorem Runs.append {ds : List Char} (digits : ∀ c ∈ ds, inDigits c) (other : q ≠ .mark) (h : Runs t q s) :
    Runs t q (ds ++ s) := by
  induction ds with
  | nil => exact h
  | cons c ds ih =>
    exact .step (Part.next_digit (digits c mem_cons_self) other) (ih fun d hd => digits d (mem_cons_of_mem c hd))

/-! ## Cutting -/

/-- A text that no numeral goes on with: none at all, or one that starts with a parenthesis or beyond the first 128
characters. -/
def Halts (t : List Char) : Prop := ∀ c, t.head? = some c → c = '(' ∨ 128 ≤ c.toNat

def Ended (t : List Char) : Prop := ∀ c, t.head? = some c → c = '('

theorem ne_of_large (large : 128 ≤ c.toNat) (small : d.toNat < 128) : c ≠ d := by
  rintro rfl
  omega

theorem Halts.head?_ne (halts : Halts t) (part : inNumeral d) : t.head? ≠ some d := by
  have plain : d ≠ '(' ∧ d.toNat < 128 := by
    simp only [inNumeral, inDigits, Bool.or_eq_true, decide_eq_true_eq] at part
    rcases part with (digit | rfl) | mark
    · exact digit_forall (P := fun d => d ≠ '(' ∧ d.toNat < 128) (by decide) digit
    · decide
    · have all : ∀ d ∈ ['.', 'e', 'E', '+', '-'], d ≠ '(' ∧ d.toNat < 128 := all_iff_forall_prop.mp (by decide)
      exact all d mark
  intro first
  rcases halts d first with same | large
  · exact plain.1 same
  · omega

theorem Halts.inDigits (halts : Halts t) (first : t.head? = some c) : inDigits c = false :=
  Bool.eq_false_iff.mpr fun part => halts.head?_ne (by simp [inNumeral, part]) first

theorem isDigit_eq_false (other : inDigits c = false) : c.isDigit = false := (Bool.or_eq_false_iff.mp other).1

theorem inDigits_dropWhile (s : List Char) (first : (s.dropWhile inDigits).head? = some c) : inDigits c = false := by
  have strange := head?_dropWhile_not inDigits s
  rwa [first] at strange

theorem lexSym_point (other : r.head? ≠ some '.') : lexSym ('.' :: r) = some (.dot, r) := by
  cases r with
  | nil => rfl
  | cons c r =>
    have differs : c ≠ '.' := fun same => other (same ▸ rfl)
    simp [lexSym, differs]

theorem digitTail_rest (s : List Char) : Gives (fun p => p.2 = s.dropWhile inDigits) (digitTail Char.isDigit s) :=
  fun _ read => (digitTail_eq_some read).2

/-- No number ends at the mark of an exponent without digits, or at an underscore. -/
theorem lexNumberEnd_of_mark (mark : c ∈ ['e', 'E', '_']) (other : r.head? ≠ some 'l') (v : Literal) (x : Float) :
    lexNumberEnd v x (c :: r) = none := by
  have else' : ['l', 's', 'e'].isPrefixOf r = false := by
    cases r with
    | nil => rfl
    | cons d r =>
      have differs : ('l' == d) = false := beq_eq_false_iff_ne.mpr fun same => other (same ▸ rfl)
      rw [isPrefixOf_cons_cons, differs, Bool.false_and]
  simp only [mem_cons, not_mem_nil, or_false] at mark
  unfold lexNumberEnd endsNumber
  rcases mark with rfl | rfl | rfl <;> simp [isPrefixOf_cons_cons, else']

theorem gives_lexExponent {R : Literal × List Char → Prop} (ds : List Char) (shift : Int) (isInt : Bool)
    (plain : ∀ v x, Gives R (lexNumberEnd v x s)) (power : ∀ c d r, s = c :: d :: r → c = 'e' ∨ c = 'E' →
      (d.isDigit = true → Gives R (lexPower (ofDigits 10 ds) shift false (d :: r))) ∧
      (d = '+' ∨ d = '-' → Gives R (lexPower (ofDigits 10 ds) shift (d = '-') r))) :
    Gives R (lexExponent ds shift isInt s) := by
  unfold lexExponent
  dsimp only
  split
  · split
    · rename_i c d r mark
      obtain ⟨unsigned, signed⟩ := power c d r rfl (by simpa using mark)
      split
      · exact unsigned ‹_›
      · split
        · rename_i sign
          exact .ite (signed (by simpa using sign)) .none
        · exact plain _ _
    · exact plain _ _
  · exact plain _ _

def UpTo (t : List Char) (r : Literal × List Char) : Prop := r.2 = t ∧ Ended t

section

variable (halts : Halts t)

include halts

theorem lexNumberEnd_of_halts (v : Literal) (x : Float) : Gives (UpTo t) (lexNumberEnd v x t) := by
  cases t with
  | nil => exact .some ⟨rfl, fun c none => by cases none⟩
  | cons c t =>
    rcases halts c rfl with rfl | large
    · exact .some ⟨rfl, fun d same => (Option.some.inj same).symm⟩
    · -- the words that may stand right after a number start with small letters
      have small : ∀ d ∈ ['a', 'e', 'f', 'i', 'o', 'n', 'j', 'J'], d.toNat < 128 := all_iff_forall_prop.mp (by decide)
      have other : ∀ d ∈ ['a', 'e', 'f', 'i', 'o', 'n', 'j', 'J'], (d == c) = false ∧ c ≠ d := fun d hd =>
        ⟨beq_eq_false_iff_ne.mpr (ne_of_large large (small d hd)).symm, ne_of_large large (small d hd)⟩
      simp only [forall_mem_cons] at other
      have open' : endsNumber (c :: t) = false := by
        unfold endsNumber
        simp [isPrefixOf_cons_cons, other, large]
      rw [lexNumberEnd, open']
      simp only [other]
      exact .none

namespace Runs

theorem of_cons (h : Runs t q (c :: s)) (part : Expr.inNumeral c) : ∃ q', q.next c = some q' ∧ Runs t q' s := by
  generalize shape : c :: s = r at h
  cases h with
  | stop => exact absurd (shape ▸ rfl) (halts.head?_ne part)
  | step next rest =>
    cases shape
    exact ⟨_, next, rest⟩

/-- Neither a numeral nor what follows it starts with another character of the first 128. -/
theorem head?_ne (h : Runs t q s) (other : Expr.inNumeral d = false) (small : d ≠ '(' ∧ d.toNat < 128) :
    s.head? ≠ some d := by
  intro first
  cases h with
  | stop => exact (halts d first).elim small.1 (by omega)
  | step next rest =>
    cases first
    rw [Part.inNumeral_of_next next] at other
    cases other

theorem dropWhile (h : Runs t q s) (other : q ≠ .mark) : Runs t q (s.dropWhile inDigits) := by
  induction h with
  | stop =>
    cases t with
    | nil => exact .stop
    | cons c t =>
      rw [dropWhile_cons_of_neg (by simp [halts.inDigits rfl])]
      exact .stop
  | @step q q' c s next rest ih =>
    by_cases part : inDigits c
    · rw [Part.next_digit part other] at next
      cases next
      rw [dropWhile_cons_of_pos part]
      exact ih other
    · rw [dropWhile_cons_of_neg part]
      exact .step next rest

theorem dropWhile_power (h : Runs t .power s) : s.dropWhile inDigits = t := by
  have rest := h.dropWhile halts (by simp)
  have strange := head?_dropWhile_not inDigits s
  generalize s.dropWhile inDigits = r at rest strange
  cases rest with
  | stop => rfl
  | step next rest => simp_all [Part.next]

end Runs

theorem lexPower_of_halts (n : Nat) (shift : Int) (negative : Bool) (h : Runs t .power s) :
    Gives (UpTo t) (lexPower n shift negative s) := by
  unfold lexPower
  split
  · rename_i read
    obtain rfl := (digitTail_rest s _ read).trans (h.dropWhile_power halts)
    exact lexNumberEnd_of_halts halts _ _
  · exact .none

theorem lexExponent_of_halts (ds : List Char) (shift : Int) (isInt : Bool) (h : Runs t .places s)
    (first : ∀ c, s.head? = some c → c.isDigit = false) : Gives (UpTo t) (lexExponent ds shift isInt s) := by
  cases h with
  | stop =>
    refine gives_lexExponent ds shift isInt (lexNumberEnd_of_halts halts) fun c d r shape mark => ?_
    have part : inNumeral c := by
      rcases mark with rfl | rfl <;> decide
    exact absurd (shape ▸ rfl) (halts.head?_ne part)
  | @step q q' c s next rest =>
    have listed : c ∈ ['e', 'E', '_'] ∧ (c = 'e' ∨ c = 'E' → q' = .mark) := by
      grind [Part.next, inDigits]
    have letter := rest.head?_ne halts (d := 'l') (by decide) (by decide)
    refine gives_lexExponent ds shift isInt (fun v x => lexNumberEnd_of_mark listed.1 letter v x ▸ .none) ?_
    rintro _ d r ⟨⟩ mark
    obtain rfl := listed.2 mark
    refine ⟨fun digit => ?_, fun sign => ?_⟩
    · have part : inDigits d := by simp [inDigits, digit]
      obtain ⟨q, next, rest⟩ := rest.of_cons halts (by simp [inNumeral, part])
      obtain rfl : Part.power = q := by simpa [Part.next, part] using next
      exact lexPower_of_halts halts _ _ _ (.step (Part.next_digit part (by simp)) rest)
    · obtain ⟨q, next, rest⟩ := rest.of_cons halts (by rcases sign with rfl | rfl <;> decide)
      obtain rfl : Part.power = q := by
        rcases sign with rfl | rfl <;> exact Option.some.inj next
      exact lexPower_of_halts halts _ _ _ rest

theorem lexFraction_of_halts (whole : List Char) (h : Runs t .whole s) (first : ∀ c, s.head? = some c → inDigits c = false) :
    Gives (UpTo t) (lexFraction whole s) := by
  unfold lexFraction
  split
  · rename_i r
    obtain ⟨q, next, rest⟩ := h.of_cons halts (by decide)
    obtain rfl : Part.places = q := Option.some.inj next
    split
    · split
      · rename_i read
        obtain rfl := digitTail_rest r _ read
        exact lexExponent_of_halts halts _ _ _ (rest.dropWhile halts (by simp)) fun c first =>
          isDigit_eq_false (inDigits_dropWhile r first)
      · exact .none
    · rename_i other
      exact lexExponent_of_halts halts _ _ _ rest fun c first => by simpa [first] using other
  · rename_i unpointed
    refine lexExponent_of_halts halts _ _ _ ?_ fun c here => isDigit_eq_false (first c here)
    generalize begins : Part.whole = q at h
    cases h with
    | stop => exact .stop
    | @step _ q' c s next rest =>
      subst begins
      have other : c ≠ '.' := fun point => unpointed s (by rw [point])
      refine .step ?_ rest
      simpa [Part.next, first c rfl, other] using next

omit halts in
theorem checkWhole_eq_some {whole : List Char} {r q : Literal × List Char} (checked : checkWhole whole r = some q) : q = r := by
  unfold checkWhole at checked
  split at checked
  · split at checked
    · cases checked
    · split at checked
      · cases checked
      · exact (Option.some.inj checked).symm
  · exact (Option.some.inj checked).symm

/-- No base is marked by what can come second. -/
theorem lexNumber_of_runs (digit : d.isDigit) (h : Runs t .whole (d :: s)) :
    lexNumber (d :: s) = (digitTail Char.isDigit (d :: s)).bind fun p => (lexFraction p.1 p.2).bind (checkWhole p.1) := by
  obtain ⟨_, -, rest⟩ := h.of_cons halts (by simp [inNumeral, inDigits, digit])
  unfold lexNumber
  split
  · rename_i shape
    rw [(List.cons.inj shape).1] at digit
    cases digit
  · rename_i c r shape
    have second : s.head? = some c := by rw [(List.cons.inj shape).2]; rfl
    have unmarked : ∀ m ∈ ['x', 'X', 'o', 'O', 'b', 'B'], ¬ c = m := by
      have facts : ∀ m ∈ ['x', 'X', 'o', 'O', 'b', 'B'], inNumeral m = false ∧ m ≠ '(' ∧ m.toNat < 128 :=
        all_iff_forall_prop.mp (by decide)
      rintro m hm rfl
      exact rest.head?_ne halts (facts c hm).1 (facts c hm).2 second
    simp only [forall_mem_cons] at unmarked
    have none : markedBase c = none := by simp [markedBase, unmarked]
    rw [none]
  · rfl

theorem lexNumber_of_halts (digit : d.isDigit) (h : Runs t .whole (d :: s)) : Gives (UpTo t) (lexNumber (d :: s)) := by
  rw [lexNumber_of_runs halts digit h]
  refine (digitTail_rest _).bind fun p rest => ?_
  rw [rest]
  refine (lexFraction_of_halts halts p.1 (h.dropWhile halts (by simp)) fun c => inDigits_dropWhile _).bind fun r hr q checked => ?_
  rwa [checkWhole_eq_some checked]

/-- **The front of a numeral gives one token**: a number that takes all of it, or a point with no digit after it. -/
theorem lexToken_of_halts (h : Runs t .whole (c :: s)) (start : c.isDigit ∨ c = '.') :
    Gives (fun r => r.1 = .sym .dot ∨ ∃ v, r.1 = .number v ∧ UpTo t (v, r.2)) (lexToken (c :: s)) := by
  rw [lexToken]
  split
  · refine Gives.map ?_ fun r hr => Or.inr ⟨r.1, rfl, hr⟩
    rcases start with digit | rfl
    · exact lexNumber_of_halts halts digit h
    · refine lexFraction_of_halts halts [] h fun c first => ?_
      cases first
      rfl
  · rename_i other
    obtain rfl : c = '.' := start.resolve_left fun digit => other (by simp [digit])
    obtain ⟨q, next, rest⟩ := h.of_cons halts (by decide)
    obtain rfl : Part.places = q := Option.some.inj next
    have apart : s.head? ≠ some '.' := by
      intro first
      obtain ⟨r, rfl⟩ := head?_eq_some_iff.mp first
      obtain ⟨q, next, -⟩ := rest.of_cons halts (by decide)
      cases next
    rw [lexSym_point apart]
    exact .some (Or.inl rfl)

end

end LineScript.Expr
