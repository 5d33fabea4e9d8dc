
import LineScript.Line.Basic

/-!
# The text of a line

What is left of a line when its comments, the white space around it and its dots are taken off: no comment can
start in it, it does not begin with a dot, and it does not end with white space.
-/

namespace LineScript.Text

open List

variable {c : Char} {s w a : List Char} {p : Char → Bool}

theorem exists_last (mem : c ∈ s) : ∃ a b, s = a ++ c :: b ∧ c ∉ b := by
  obtain ⟨b, a, same, last⟩ := eq_append_cons_of_mem (mem_reverse.mpr mem)
  refine ⟨a.reverse, b.reverse, ?_, by simpa using last⟩
  rw [← reverse_reverse s, same]
  simp

theorem mem_of_mem_trimRight (h : c ∈ trimRight p s) : c ∈ s := by
  unfold trimRight at h
  rw [mem_reverse] at h
  exact mem_reverse.mp ((dropWhile_sublist p).subset h)

theorem getLast?_trimRight (h : (trimRight p s).getLast? = some c) : p c = false := by
  unfold trimRight at h
  rw [getLast?_reverse] at h
  have first := head?_dropWhile_not p s.reverse
  rw [h] at first
  exact first

theorem trimRight_eq_self (last : ∀ c, s.getLast? = some c → p c = false) : trimRight p s = s := by
  have right : s.reverse.dropWhile p = s.reverse := by
    cases h : s.reverse with
    | nil => rfl
    | cons c r =>
      have final : s.getLast? = some c := by rw [← head?_reverse, h]; rfl
      rw [dropWhile_cons_of_neg (by rw [last c final]; exact Bool.false_ne_true)]
  unfold trimRight
  rw [right, reverse_reverse]

theorem trimLeft_eq_self (first : ∀ c, s.head? = some c → p c = false) : trimLeft p s = s := by
  unfold trimLeft
  cases s with
  | nil => rfl
  | cons c s => rw [dropWhile_cons_of_neg (by rw [first c rfl]; exact Bool.false_ne_true)]

theorem trim_eq_self (first : ∀ c, s.head? = some c → p c = false) (last : ∀ c, s.getLast? = some c → p c = false) :
    trim p s = s := by
  unfold trim
  rw [trimLeft_eq_self first, trimRight_eq_self last]

theorem trim_of_solid (solid : ∀ c ∈ s, p c = false) : trim p s = s :=
  trim_eq_self (fun c hc => solid c (mem_of_mem_head? hc)) fun c hc => solid c (mem_of_getLast? hc)

/-! ## Cutting and splitting at a character -/

theorem findFrom_append (h : c ∉ a) (b : List Char) (i : Nat) : findFrom [c] i (a ++ c :: b) = some (i + a.length) := by
  induction a generalizing i with
  | nil => simp [findFrom]
  | cons d a ih =>
    obtain ⟨hd, ha⟩ := ne_and_not_mem_of_not_mem_cons h
    simp only [cons_append, findFrom, List.isPrefixOf, beq_eq_false_iff_ne.mpr hd, Bool.false_and,
      Bool.false_eq_true, if_false]
    rw [ih ha, length_cons, Nat.add_assoc, Nat.add_comm 1]

theorem findFrom_eq_none (h : c ∉ s) (i : Nat) : findFrom [c] i s = none := by
  induction s generalizing i with
  | nil => rfl
  | cons d s ih =>
    obtain ⟨hd, hs⟩ := ne_and_not_mem_of_not_mem_cons h
    simp only [findFrom, List.isPrefixOf, beq_eq_false_iff_ne.mpr hd]
    exact ih hs (i + 1)

theorem cut?_append (h : c ∉ a) (b : List Char) : cut? [c] (a ++ c :: b) = some (a, b) := by
  unfold cut? find?
  rw [findFrom_append h b 0, Nat.zero_add, Option.map_some, take_left, length_singleton,
    ← drop_drop, drop_left]
  rfl

theorem cut?_eq_none (h : c ∉ s) : cut? [c] s = none := by
  unfold cut? find?
  rw [findFrom_eq_none h]
  rfl

theorem splitGo_append (h : c ∉ a) (cur b : List Char) :
    splitGo [c] none cur 0 (a ++ c :: b) = (cur.reverse ++ a) :: splitOn [c] b := by
  induction a generalizing cur with
  | nil => simp [splitGo, splitOn]
  | cons d a ih =>
    obtain ⟨hd, ha⟩ := ne_and_not_mem_of_not_mem_cons h
    simp only [cons_append, splitGo, List.isPrefixOf, beq_eq_false_iff_ne.mpr hd, Bool.false_and,
      Bool.false_eq_true, if_false]
    rw [ih ha, reverse_cons, append_assoc]
    rfl

theorem splitGo_eq_singleton (h : c ∉ s) (cur : List Char) : splitGo [c] none cur 0 s = [cur.reverse ++ s] := by
  induction s generalizing cur with
  | nil => simp [splitGo]
  | cons d s ih =>
    obtain ⟨hd, hs⟩ := ne_and_not_mem_of_not_mem_cons h
    simp only [splitGo, List.isPrefixOf, beq_eq_false_iff_ne.mpr hd]
    rw [ih hs, reverse_cons, append_assoc]
    rfl

theorem length_splitGo (c : Char) (s cur : List Char) : (splitGo [c] none cur 0 s).length = s.count c + 1 := by
  induction s generalizing cur with
  | nil => rfl
  | cons d s ih =>
    by_cases hd : c = d
    · subst hd
      simp [splitGo, ih]
    · simp [splitGo, hd, ih, Ne.symm hd]

/-- What has a character that a text has not does not stand in the text. -/
theorem contains_eq_false {p : List Char} (hp : c ∈ p) (hs : c ∉ s) : contains s p = false := by
  have absent : ∀ i, findFrom p i s = none := by
    induction s with
    | nil =>
      intro i
      rw [findFrom]
      simpa using ne_nil_of_mem hp
    | cons d s ih =>
      intro i
      have front : ¬ p.isPrefixOf (d :: s) := fun h => hs ((List.isPrefixOf_iff_prefix.mp h).subset hp)
      rw [findFrom, if_neg front]
      exact ih (fun h => hs (mem_cons_of_mem _ h)) (i + 1)
  rw [contains, find?, absent]
  rfl

theorem startsWith_eq_false {p : List Char} (hp : c ∈ p) (hs : c ∉ s) : startsWith s p = false :=
  Bool.eq_false_iff.mpr fun h => hs ((List.isPrefixOf_iff_prefix.mp h).subset hp)

/-! ## Words -/

theorem wordsMax_blank (h : isBlank c) (n : Nat) (s : List Char) : wordsMax n (c :: s) = wordsMax n s := by
  cases n <;> rw [wordsMax, wordsMax, dropWhile_cons_of_pos h]

theorem dropWhile_word (nonempty : w ≠ []) (solid : ∀ c ∈ w, isBlank c = false) (rest : List Char) :
    (w ++ rest).dropWhile isBlank = w ++ rest ∧ (w ++ rest).isEmpty = false := by
  obtain ⟨c, w, rfl⟩ := exists_cons_of_ne_nil nonempty
  refine ⟨dropWhile_cons_of_neg ?_, rfl⟩
  rw [solid c mem_cons_self]
  exact Bool.false_ne_true

/-- A word, and what follows it after white space. -/
theorem wordsMax_append (nonempty : w ≠ []) (solid : ∀ c ∈ w, isBlank c = false) {rest : List Char}
    (apart : isBlank c) (n : Nat) : wordsMax (n + 1) (w ++ c :: rest) = w :: wordsMax n rest := by
  obtain ⟨start, filled⟩ := dropWhile_word nonempty solid (c :: rest)
  have inside : ∀ d ∈ w, (!isBlank d) := fun d hd => by rw [solid d hd]; rfl
  have outside : ¬ (!isBlank c) := by rw [apart]; exact Bool.false_ne_true
  rw [wordsMax, start, filled, if_neg Bool.false_ne_true, takeWhile_append_of_pos inside, dropWhile_append_of_pos inside,
    takeWhile_cons_of_neg (p := fun d => !isBlank d) outside,
    dropWhile_cons_of_neg (p := fun d => !isBlank d) outside, append_nil, wordsMax_blank apart]

theorem wordsMax_zero (nonempty : w ≠ []) (solid : ∀ c ∈ w, isBlank c = false) (rest : List Char) :
    wordsMax 0 (w ++ rest) = [w ++ rest] := by
  obtain ⟨start, filled⟩ := dropWhile_word nonempty solid rest
  rw [wordsMax, start, filled, if_neg Bool.false_ne_true]

end LineScript.Text

namespace LineScript.Line

open Text List

variable {l : Line}

structure Tidy (code : List Char) : Prop where
  uncommented : '\x7b' ∉ code
  undotted : code.head? ≠ some '.'
  trimmed : ∀ c, code.getLast? = some c → isBlank c = false

theorem not_mem_uncommented (inside : Bool) (s : List Char) : '\x7b' ∉ uncommented inside s := by
  induction s generalizing inside with
  | nil => simp [uncommented]
  | cons c s ih =>
    unfold uncommented
    split
    · exact ih _
    · split
      · exact ih _
      · rename_i hc
        rw [mem_cons, not_or]
        exact ⟨fun e => hc e.symm, ih _⟩

theorem not_mem_stripComments (s : List Char) : '\x7b' ∉ stripComments s :=
  fun h => not_mem_uncommented false s ((dropWhile_sublist isBlank).subset (mem_of_mem_trimRight h))

/-- The code of a line that was stripped of comments and dots. -/
theorem tidy_splitIndent (s : List Char) : Tidy (splitIndent (stripComments s)).2 where
  uncommented h := not_mem_stripComments s ((dropWhile_sublist isDot).subset h)
  undotted := by
    intro h
    have first := head?_dropWhile_not isDot (stripComments s)
    unfold splitIndent at h
    rw [h] at first
    simp [isDot] at first
  trimmed c h := by
    unfold splitIndent at h
    have whole : (stripComments s).getLast? = some c := by
      rw [← takeWhile_append_dropWhile (p := isDot) (l := stripComments s), getLast?_append, h]
      rfl
    exact getLast?_trimRight whole

/-! ## Reading lines -/

/-- The line that a text stands for; none if nothing but comments and white space is in it. -/
def read? (raw : List Char) : Option Line :=
  let stripped := stripComments (trimRight (· = '\n') raw)
  if stripped.isEmpty then none else some ⟨(splitIndent stripped).1, (splitIndent stripped).2⟩

theorem uncommented_eq_self {s : List Char} (h : '\x7b' ∉ s) : uncommented false s = s := by
  induction s with
  | nil => rfl
  | cons c s ih =>
    obtain ⟨hc, hs⟩ := ne_and_not_mem_of_not_mem_cons h
    rw [uncommented, if_neg Bool.false_ne_true, if_neg (Ne.symm hc), ih hs]

theorem splitIndent_text (undotted : l.code.head? ≠ some '.') : splitIndent l.text = (l.indent, l.code) := by
  have dots : ∀ c ∈ List.replicate l.indent '.', isDot c := fun c hc => by
    rw [eq_of_mem_replicate hc]
    rfl
  have stop : l.code.takeWhile isDot = [] ∧ l.code.dropWhile isDot = l.code := by
    rcases hl : l.code with _ | ⟨c, code⟩
    · exact ⟨rfl, rfl⟩
    · have hc : isDot c = false := by
        rw [hl] at undotted
        exact decide_eq_false fun h => undotted (by rw [h]; rfl)
      exact ⟨takeWhile_cons_of_neg (by rw [hc]; exact Bool.false_ne_true),
        dropWhile_cons_of_neg (by rw [hc]; exact Bool.false_ne_true)⟩
  unfold splitIndent Line.text
  rw [takeWhile_append_of_pos dots, dropWhile_append_of_pos dots, stop.1, stop.2, append_nil,
    length_replicate]

theorem tidy_of_read? {raw : List Char} (h : read? raw = some l) : Tidy l.code := by
  unfold read? at h
  dsimp only at h
  split at h
  · cases h
  · cases h
    exact tidy_splitIndent _

theorem read?_text (tidy : Tidy l.code) {first : Char} (head : l.text.head? = some first)
    (solid : isBlank first = false) : read? l.text = some l := by
  have last : ∀ c, l.text.getLast? = some c → isBlank c = false := by
    intro c hc
    unfold Line.text at hc
    rw [getLast?_append] at hc
    -- the text ends as the code does, or in a dot if there is no code
    cases h : l.code.getLast? with
    | some d =>
      rw [h] at hc
      exact tidy.trimmed c (h.trans hc)
    | none =>
      rw [h, Option.none_or] at hc
      rw [eq_of_mem_replicate (mem_of_getLast? hc)]
      decide
  have ended : trimRight (· = '\n') l.text = l.text := by
    refine trimRight_eq_self fun c hc => decide_eq_false fun h => ?_
    have blank := last c hc
    rw [h] at blank
    exact absurd blank (by decide)
  have bare : '\x7b' ∉ l.text := by
    intro h
    rcases mem_append.mp h with dots | code
    · exact absurd (eq_of_mem_replicate dots) (by decide)
    · exact tidy.uncommented code
  have stripped : stripComments (trimRight (· = '\n') l.text) = l.text := by
    rw [ended, stripComments, uncommented_eq_self bare]
    refine trim_eq_self (fun c hc => ?_) last
    cases head.symm.trans hc
    exact solid
  have filled : l.text.isEmpty = false := by
    cases h : l.text with
    | nil => rw [h] at head; cases head
    | cons => rfl
  rw [read?, stripped, filled, splitIndent_text tidy.undotted]
  rfl

theorem read?_text_of_deep (deep : 1 ≤ l.indent) (tidy : Tidy l.code) : read? l.text = some l := by
  obtain ⟨k, hk⟩ := Nat.exists_eq_add_of_le' deep
  have head : l.text.head? = some '.' := by
    rw [Line.text, hk, replicate_succ]
    rfl
  exact read?_text tidy head (by decide)

end LineScript.Line
