
import LineScript.Proofs.LineText

/-!
# Searching and trimming

A text stands in another one exactly if a search finds it, and the search finds the first place. What stands in front of
the place where a search can start is passed over, and what no trimming can reach stays.
-/

namespace LineScript.Text

open List

variable {s p : List Char} {c : Char}

/-! ## Trimming -/

/-- Trimming on the right stops at the latest in front of a character that stays. -/
theorem trimRight_append {p : Char → Bool} {a : List Char} (last : ∀ c, a.getLast? = some c → p c = false)
    (b : List Char) : trimRight p (a ++ b) = a ++ trimRight p b := by
  have kept : a.reverse.dropWhile p = a.reverse := by
    have whole := congrArg List.reverse (trimRight_eq_self last)
    rwa [trimRight, reverse_reverse] at whole
  unfold trimRight
  rw [reverse_append, dropWhile_append]
  split
  · rename_i gone
    rw [isEmpty_iff.mp gone, kept]
    simp
  · simp

theorem trimRight_cons (p : Char → Bool) (c : Char) (s : List Char) :
    trimRight p (c :: s) = if p c && (trimRight p s).isEmpty then [] else c :: trimRight p s := by
  unfold trimRight
  rw [reverse_cons, dropWhile_append]
  cases gone : s.reverse.dropWhile p with
  | nil => cases hc : p c <;> simp [hc]
  | cons d rest => simp

theorem trimRight_trimRight {p q : Char → Bool} (weaker : ∀ c, q c → p c) (s : List Char) :
    trimRight p (trimRight q s) = trimRight p s := by
  induction s with
  | nil => rfl
  | cons c s ih =>
    rw [trimRight_cons p, trimRight_cons q, ← ih]
    cases gone : trimRight q s with
    | nil =>
      cases hq : q c with
      | true => simp [weaker c hq, trimRight]
      | false => simp [trimRight_cons]
    | cons d rest => simp [trimRight_cons p c]

theorem isBlank_of_newline (c : Char) (newline : decide (c = '\n') = true) : isBlank c := by
  rw [decide_eq_true_eq.mp newline]
  decide

theorem trimRight_sublist (p : Char → Bool) (s : List Char) : (trimRight p s).Sublist s := by
  have part := (dropWhile_sublist (l := s.reverse) p).reverse
  rwa [reverse_reverse] at part

theorem trim_sublist (p : Char → Bool) (s : List Char) : (trim p s).Sublist s :=
  (trimRight_sublist p _).trans (dropWhile_sublist p)

section

variable {p : Char → Bool}

theorem mem_trimRight (stays : p c = false) (s : List Char) : c ∈ trimRight p s ↔ c ∈ s := by
  refine ⟨mem_of_mem_trimRight, ?_⟩
  intro mem
  obtain ⟨a, b, rfl⟩ := append_of_mem mem
  have last : ∀ d, (a ++ [c]).getLast? = some d → p d = false := by
    intro d hd
    rw [getLast?_concat] at hd
    rw [← Option.some.inj hd]
    exact stays
  rw [append_cons, trimRight_append last]
  simp

theorem mem_trimLeft (stays : p c = false) (s : List Char) : c ∈ trimLeft p s ↔ c ∈ s := by
  refine ⟨fun mem => (dropWhile_sublist p).subset mem, ?_⟩
  intro mem
  rw [← takeWhile_append_dropWhile (p := p) (l := s)] at mem
  rcases mem_append.mp mem with front | back
  · have gone := all_eq_true.mp all_takeWhile c front
    exact absurd (stays.symm.trans gone) Bool.false_ne_true
  · exact back

theorem mem_trim (stays : p c = false) (s : List Char) : c ∈ trim p s ↔ c ∈ s := by
  rw [trim, mem_trimRight stays, mem_trimLeft stays]

/-- What could be trimmed as a whole makes no difference at the end. -/
theorem trim_append_of_all {b : List Char} (all : ∀ c ∈ b, p c) (a : List Char) :
    trim p (a ++ b) = trim p a := by
  have gone : (b ++ []).dropWhile p = [] := dropWhile_append_of_pos all
  have back : ∀ c ∈ b.reverse, p c := fun c mem => all c (mem_reverse.mp mem)
  unfold trim trimLeft trimRight
  rw [dropWhile_append]
  split
  · rename_i empty
    rw [append_nil] at gone
    rw [gone, isEmpty_iff.mp empty]
  · rw [reverse_append, dropWhile_append_of_pos back]

/-- Where there is nothing to take off in front, only the end is trimmed. -/
theorem trim_of_head (first : ∀ c, s.head? = some c → p c = false) : trim p s = trimRight p s := by
  rw [trim, trimLeft_eq_self first]

/-- A text that does not begin with white space has something left when it is trimmed. -/
theorem head?_trimRight (first : ∀ c, s.head? = some c → p c = false) :
    (trimRight p s).head? = s.head? := by
  cases s with
  | nil => rfl
  | cons c s => rw [trimRight_cons, first c rfl]; rfl

theorem head?_trim (h : (trim p s).head? = some c) : p c = false := by
  have first : ∀ c, (trimLeft p s).head? = some c → p c = false := by
    intro c hc
    have stops := head?_dropWhile_not p s
    rw [trimLeft] at hc
    rw [hc] at stops
    exact stops
  rw [trim, head?_trimRight first] at h
  exact first c h

theorem trim_trim (s : List Char) : trim p (trim p s) = trim p s :=
  trim_eq_self (fun _ => head?_trim) fun _ => getLast?_trimRight

end

/-! ## Searching -/

theorem findFrom_add (p : List Char) (i k : Nat) (s : List Char) : findFrom p (i + k) s = (findFrom p i s).map (· + k) := by
  induction s generalizing i with
  | nil =>
    unfold findFrom
    split <;> rfl
  | cons c s ih =>
    unfold findFrom
    split
    · rfl
    · rw [Nat.add_right_comm, ih]

theorem append_of_findFrom {i j : Nat} (found : findFrom p i s = some j) :
    i ≤ j ∧ s = s.take (j - i) ++ (p ++ s.drop (j - i + p.length)) := by
  induction s generalizing i with
  | nil =>
    unfold findFrom at found
    split at found
    · rename_i none
      obtain rfl := Option.some.inj found
      simp [isEmpty_iff.mp none]
    · cases found
  | cons c s ih =>
    unfold findFrom at found
    split at found
    · rename_i here
      obtain rfl := Option.some.inj found
      obtain ⟨rest, shape⟩ := isPrefixOf_iff_prefix.mp here
      refine ⟨Nat.le_refl i, ?_⟩
      rw [Nat.sub_self, take_zero, nil_append, Nat.zero_add, ← shape, drop_left]
    · obtain ⟨after, shape⟩ := ih found
      have step : j - i = (j - (i + 1)) + 1 := by omega
      refine ⟨by omega, ?_⟩
      rw [step, take_succ_cons, Nat.add_right_comm, drop_succ_cons, cons_append, ← shape]

theorem isSome_findFrom (stands : p <:+: s) (i : Nat) : (findFrom p i s).isSome := by
  induction s generalizing i with
  | nil =>
    obtain rfl := infix_nil.mp stands
    rfl
  | cons c s ih =>
    unfold findFrom
    split
    · rfl
    · rename_i elsewhere
      rcases infix_cons_iff.mp stands with front | later
      · exact absurd (List.isPrefixOf_iff_prefix.mpr front) elsewhere
      · exact ih later (i + 1)

/-- A text stands in another one exactly if it is found there. -/
theorem contains_iff_occurs : contains s p ↔ p <:+: s := by
  constructor
  · intro found
    obtain ⟨j, at_j⟩ := Option.isSome_iff_exists.mp found
    obtain ⟨-, shape⟩ := append_of_findFrom at_j
    rw [← append_assoc] at shape
    exact ⟨_, _, shape.symm⟩
  · exact fun stands => isSome_findFrom stands 0

/-- The two texts around what is cut out, and what is cut out, are the whole. -/
theorem eq_of_cut? {u v : List Char} (cut : cut? p s = some (u, v)) : s = u ++ (p ++ v) := by
  obtain ⟨j, found, parts⟩ := Option.map_eq_some_iff.mp cut
  cases parts
  exact (append_of_findFrom found).2

section

variable {x : Char} {p a : List Char} (free : x ∉ a)

include free

/-- A search passes over what has not even the first character of what it looks for. -/
theorem findFrom_append_of_not_mem (i : Nat) (b : List Char) :
    findFrom (x :: p) i (a ++ b) = findFrom (x :: p) (i + a.length) b := by
  induction a generalizing i with
  | nil => rfl
  | cons c a ih =>
    obtain ⟨other, rest⟩ := ne_and_not_mem_of_not_mem_cons free
    have here : ¬ (x :: p).isPrefixOf (c :: (a ++ b)) := by simp [List.isPrefixOf, other]
    rw [cons_append, findFrom, if_neg here, ih rest, length_cons, Nat.add_right_comm]
    rfl

theorem contains_append_of_not_mem (b : List Char) : contains (a ++ b) (x :: p) = contains b (x :: p) := by
  unfold contains find?
  rw [findFrom_append_of_not_mem free, findFrom_add, Option.isSome_map]

theorem cut?_append_of_not_mem (b : List Char) :
    cut? (x :: p) (a ++ b) = (cut? (x :: p) b).map fun parts => (a ++ parts.1, parts.2) := by
  unfold cut? find?
  rw [findFrom_append_of_not_mem free, findFrom_add]
  cases findFrom (x :: p) 0 b with
  | none => rfl
  | some i =>
    simp only [Option.map_some]
    rw [Nat.add_comm i, take_length_add_append, Nat.add_assoc, drop_length_add_append]

end

/-! ## Across a separator -/

/-- A text does not reach beyond a character that is not in it. -/
theorem prefix_append_iff (free : c ∉ p) (a b : List Char) : p <+: a ++ c :: b ↔ p <+: a := by
  refine ⟨fun here => ?_, fun here => here.trans (prefix_append a (c :: b))⟩
  rcases prefix_or_prefix_of_prefix here (prefix_append a (c :: b)) with short | ⟨e, rfl⟩
  · exact short
  · cases e with
    | nil => simp
    | cons d e =>
      rw [prefix_append_right_inj] at here
      exact absurd ((cons_prefix_cons.mp here).1 ▸ (by simp)) free

theorem infix_append_iff (free : c ∉ p) (a b : List Char) : p <:+: a ++ c :: b ↔ p <:+: a ∨ p <:+: b := by
  induction a with
  | nil =>
    have start : p <+: c :: b ↔ p <+: [] := prefix_append_iff free [] b
    rw [nil_append, infix_cons_iff, start, prefix_nil, infix_nil]
  | cons d a ih =>
    have start : p <+: d :: (a ++ c :: b) ↔ p <+: d :: a := prefix_append_iff free (d :: a) b
    rw [cons_append, infix_cons_iff, infix_cons_iff, start, ih, or_assoc]

theorem contains_append (free : c ∉ p) (a b : List Char) : contains (a ++ c :: b) p = (contains a p || contains b p) := by
  rw [Bool.eq_iff_iff, Bool.or_eq_true, contains_iff_occurs, contains_iff_occurs, contains_iff_occurs]
  exact infix_append_iff free a b

/-! ## Deleting -/

/-- Scanning for a text: where it stands it is passed as a whole, elsewhere one character is passed. -/
theorem scan_induction (filled : p ≠ []) {motive : List Char → Prop} (nil : motive [])
    (hit : ∀ s, motive s → motive (p ++ s)) (miss : ∀ c s, ¬ p <+: c :: s → motive s → motive (c :: s)) (s : List Char) :
    motive s := by
  have positive : 0 < p.length := length_pos_iff.mpr filled
  induction h : s.length using Nat.strongRecOn generalizing s with
  | ind n ih =>
    subst h
    by_cases here : p <+: s
    · obtain ⟨t, rfl⟩ := here
      rw [length_append] at ih
      exact hit t (ih t.length (by omega) t rfl)
    · cases s with
      | nil => exact nil
      | cons c s => exact miss c s here (ih s.length (by simp) s rfl)

theorem replaceGo_skip (old new : List Char) (k : Nat) (s : List Char) :
    replaceGo old new none k s = replaceGo old new none 0 (s.drop k) := by
  induction s generalizing k with
  | nil => cases k <;> simp [replaceGo]
  | cons c s ih =>
    cases k with
    | zero => rfl
    | succ k =>
      rw [replaceGo, ih, drop_succ_cons]

section

variable {p : List Char} (filled : p ≠ [])

include filled

theorem replace_eq_replaceGo (s : List Char) : replace p [] s = replaceGo p [] none 0 s := by
  unfold replace replaceMax
  rw [if_neg (by simpa using filled)]

theorem replace_nil : replace p [] [] = [] := by
  rw [replace_eq_replaceGo filled, replaceGo]

theorem replace_hit (s : List Char) : replace p [] (p ++ s) = replace p [] s := by
  rw [replace_eq_replaceGo filled, replace_eq_replaceGo filled]
  obtain ⟨c, p, rfl⟩ := exists_cons_of_ne_nil filled
  have here : (c :: p).isPrefixOf (c :: (p ++ s)) := isPrefixOf_iff_prefix.mpr (prefix_append (c :: p) s)
  rw [cons_append, replaceGo, if_pos here]
  · show replaceGo (c :: p) [] none p.length (p ++ s) = _
    rw [replaceGo_skip, drop_left]
  · intro other
    cases other

theorem replace_miss (miss : ¬ p <+: c :: s) : replace p [] (c :: s) = c :: replace p [] s := by
  rw [replace_eq_replaceGo filled, replace_eq_replaceGo filled, replaceGo, if_neg]
  · exact fun here => miss (List.isPrefixOf_iff_prefix.mp here)
  · intro other
    cases other

/-- What is deleted does not reach beyond a character that is not in it. -/
theorem replace_append (free : c ∉ p) (a b : List Char) :
    replace p [] (a ++ c :: b) = replace p [] a ++ c :: replace p [] b := by
  induction a using scan_induction filled with
  | nil =>
    have miss : ¬ p <+: c :: b := fun here => filled (prefix_nil.mp ((prefix_append_iff free [] b).mp here))
    rw [nil_append, replace_miss filled miss, replace_nil filled, nil_append]
  | hit a ih => rw [append_assoc, replace_hit filled, replace_hit filled, ih]
  | miss d a miss ih =>
    have farther : ¬ p <+: d :: (a ++ c :: b) := fun here => miss ((prefix_append_iff free (d :: a) b).mp here)
    rw [cons_append, replace_miss filled farther, replace_miss filled miss, ih, cons_append]

theorem replace_sublist (s : List Char) : (replace p [] s).Sublist s := by
  induction s using scan_induction filled with
  | nil => simp [replace_nil filled]
  | hit s ih =>
    rw [replace_hit filled]
    exact ih.trans (sublist_append_right p s)
  | miss c s miss ih =>
    rw [replace_miss filled miss]
    exact ih.cons_cons c

theorem replace_eq_self (free : contains s p = false) : replace p [] s = s := by
  have absent : ¬ p <:+: s := fun inside => Bool.eq_false_iff.mp free (contains_iff_occurs.mpr inside)
  clear free
  induction s using scan_induction filled with
  | nil => exact replace_nil filled
  | hit s _ => exact absurd (prefix_append p s).isInfix absent
  | miss c s miss ih =>
    rw [replace_miss filled miss, ih fun inside => absent (inside.trans (suffix_cons c s).isInfix)]

theorem length_replace_add_le (found : contains s p) : (replace p [] s).length + p.length ≤ s.length := by
  have inside := contains_iff_occurs.mp found
  clear found
  induction s using scan_induction filled with
  | nil => exact absurd (eq_nil_of_infix_nil inside) filled
  | hit s _ =>
    have shorter := (replace_sublist filled s).length_le
    rw [replace_hit filled, length_append]
    omega
  | miss c s miss ih =>
    have rest := ih ((infix_cons_iff.mp inside).resolve_left miss)
    rw [replace_miss filled miss, length_cons, length_cons]
    omega

end

end LineScript.Text
