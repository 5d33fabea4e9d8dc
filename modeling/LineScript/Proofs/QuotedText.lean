
import LineScript.Proofs.NameValues

/-!
# Quoted texts as expressions

A text on one line between double quotes, with no quote and no backslash in it, is an expression for a text. Words with an
underscore that is not in front are respelled in it. With a carriage return or a null character in it there is no expression
at all.
-/

namespace LineScript.Expr

open Text List

variable {s w : List Char} {c : Char}

/-! ## Respelling -/

theorem respellWord_cases (w : List Char) : '_' ∉ w.tail ∧ respellWord w = w ∨
      ∃ a b, w = a ++ '_' :: b ∧ a ≠ [] ∧ respellWord w = a ++ '(' :: ')' :: b := by
  by_cases inner : '_' ∈ w.tail
  · obtain ⟨a, b, rfl, some, last⟩ := exists_last_underscore inner
    exact Or.inr ⟨a, b, rfl, some, respellWord_append some last⟩
  · exact Or.inl ⟨inner, respellWord_of_tail inner⟩

theorem length_le_respellWord (w : List Char) : w.length ≤ (respellWord w).length := by
  rcases respellWord_cases w with ⟨-, kept⟩ | ⟨a, b, rfl, -, replaced⟩
  · exact Nat.le_of_eq (congrArg List.length kept.symm)
  · rw [replaced]
    simp

theorem respellWord_eq_self_iff (w : List Char) : respellWord w = w ↔ '_' ∉ w.tail := by
  refine ⟨fun same => ?_, respellWord_of_tail⟩
  rcases respellWord_cases w with ⟨front, -⟩ | ⟨a, b, rfl, -, replaced⟩
  · exact front
  · have longer := congrArg List.length (replaced.symm.trans same)
    simp at longer

theorem length_le_respellFrom (word s : List Char) : word.length + s.length ≤ (respellFrom word s).length := by
  induction s generalizing word with
  | nil =>
    have grown := length_le_respellWord word.reverse
    rwa [length_reverse] at grown
  | cons c s ih =>
    rw [respellFrom]
    split
    · have later := ih (c :: word)
      rw [length_cons] at later ⊢
      omega
    · have grown := length_le_respellWord word.reverse
      have later := ih []
      simp only [length_append, length_cons, length_reverse, length_nil] at grown later ⊢
      omega

/-- Respelling shortens neither a word nor what follows it, so if both together stay, each of them does. -/
theorem parts_of_respell_eq (same : respellWord w ++ c :: respellFrom [] s = w ++ c :: s) :
    respellWord w = w ∧ respellFrom [] s = s := by
  have grown := length_le_respellWord w
  have later := length_le_respellFrom [] s
  have total := congrArg List.length same
  rw [length_append, length_append, length_cons, length_cons] at total
  rw [length_nil, Nat.zero_add] at later
  obtain ⟨left, right⟩ := append_inj same (by omega)
  exact ⟨left, (List.cons.inj right).2⟩

theorem mem_tail_iff_infix {x : Char} : x ∈ w.tail ↔ ∃ c, [c, x] <:+: w := by
  constructor
  · intro mem
    cases w with
    | nil => cases mem
    | cons d w =>
      obtain ⟨a, b, rfl⟩ := append_of_mem mem
      rcases eq_nil_or_concat (d :: a) with none | ⟨front, c, shape⟩
      · cases none
      · refine ⟨c, front, b, ?_⟩
        rw [← cons_append, shape]
        simp
  · rintro ⟨c, a, b, rfl⟩
    cases a <;> simp

/-- A text with a word before it stays as it is exactly if no character of a word is followed by an underscore. -/
theorem respellFrom_eq_self_iff (word : List Char) (inside : ∀ c ∈ word, isWord c) (s : List Char) :
    respellFrom word s = word.reverse ++ s ↔ ∀ c, isWord c → ¬ [c, '_'] <:+: word.reverse ++ s := by
  induction s generalizing word with
  | nil =>
    rw [respellFrom, append_nil, respellWord_eq_self_iff, mem_tail_iff_infix, not_exists]
    refine ⟨fun free c _ => free c, fun free c found => free c ?_ found⟩
    exact inside c (mem_reverse.mp (found.subset mem_cons_self))
  | cons d s ih =>
    rw [respellFrom]
    split
    · rename_i part
      have longer := ih (d :: word) fun c hc => (mem_cons.mp hc).elim (fun same => same ▸ part) (inside c)
      rwa [reverse_cons, append_assoc] at longer
    · rename_i gap
      have apart : ∀ c, isWord c → d ∉ [c, '_'] := by
        intro c part mem
        rcases mem_cons.mp mem with rfl | mem
        · exact gap part
        · exact gap (mem_singleton.mp mem ▸ by decide)
      have first := ih [] fun _ hc => absurd hc not_mem_nil
      rw [reverse_nil, nil_append] at first
      have word_iff := (respellWord_eq_self_iff word.reverse).trans (not_congr mem_tail_iff_infix)
      constructor
      · intro same c part found
        obtain ⟨left, right⟩ := parts_of_respell_eq same
        rcases (Text.infix_append_iff (apart c part) _ _).mp found with front | back
        · exact word_iff.mp left ⟨c, front⟩
        · exact first.mp right c part back
      · intro free
        have left : respellWord word.reverse = word.reverse := by
          refine word_iff.mpr ?_
          rintro ⟨c, found⟩
          have part := inside c (mem_reverse.mp (found.subset mem_cons_self))
          exact free c part (found.trans (prefix_append _ _).isInfix)
        have right : respellFrom [] s = s := first.mpr fun c part found =>
          free c part (found.trans ((suffix_cons d s).trans (suffix_append _ _)).isInfix)
        rw [left, right]

theorem respell_eq_self_iff (s : List Char) : respell s = s ↔ ∀ c, isWord c → ¬ [c, '_'] <:+: s :=
  respellFrom_eq_self_iff [] (fun _ hc => absurd hc not_mem_nil) s

theorem mem_respellWord (other : c ∉ ['_', '(', ')']) (w : List Char) : c ∈ respellWord w ↔ c ∈ w := by
  rcases respellWord_cases w with ⟨-, kept⟩ | ⟨a, b, rfl, -, replaced⟩
  · rw [kept]
  · simp only [mem_cons, not_mem_nil, or_false, not_or] at other
    rw [replaced]
    simp [other]

theorem mem_respellFrom (other : c ∉ ['_', '(', ')']) (word s : List Char) : c ∈ respellFrom word s ↔ c ∈ word ∨ c ∈ s := by
  induction s generalizing word with
  | nil => rw [respellFrom, mem_respellWord other, mem_reverse]; simp
  | cons d s ih =>
    rw [respellFrom]
    split
    · rw [ih, mem_cons, mem_cons, or_assoc, or_left_comm]
    · rw [mem_append, mem_respellWord other, mem_reverse, mem_cons, mem_cons, ih]
      simp

theorem mem_respell (other : c ∉ ['_', '(', ')']) (s : List Char) : c ∈ respell s ↔ c ∈ s := by
  rw [respell, mem_respellFrom other]
  simp

/-- A character that is part of no word divides a text into two that are respelled apart. -/
theorem respellFrom_append (gap : isWord c = false) (word s t : List Char) :
    respellFrom word (s ++ c :: t) = respellFrom word s ++ c :: respell t := by
  induction s generalizing word with
  | nil =>
    rw [nil_append, respellFrom.eq_2, gap, if_neg Bool.false_ne_true]
    rfl
  | cons d s ih =>
    rw [cons_append, respellFrom, respellFrom]
    split
    · exact ih _
    · rw [ih, append_assoc, cons_append]

/-! ## Cutting and reading -/

/-- A text that can stand between double quotes on one line as it is. -/
structure Quotable (s : List Char) : Prop where
  unquoted : '"' ∉ s
  unescaped : '\\' ∉ s
  oneLine : '\n' ∉ s

def inQuotes (s : List Char) : List Char := '"' :: (s ++ ['"'])

/-- With one of these in it a text in quotes is no expression. -/
def unreadable (s : List Char) : Bool := s.contains '\r' || s.contains '\x00'

theorem Quotable.respell (h : Quotable s) : Quotable (Expr.respell s) where
  unquoted mem := h.unquoted ((mem_respell (by decide) s).mp mem)
  unescaped mem := h.unescaped ((mem_respell (by decide) s).mp mem)
  oneLine mem := h.oneLine ((mem_respell (by decide) s).mp mem)

section

variable {c : Char} {s : List Char} (h : Quotable (c :: s))

include h

theorem Quotable.ne_quote : c ≠ '"' := fun same => h.unquoted (same ▸ mem_cons_self)

theorem Quotable.ne_back : c ≠ '\\' := fun same => h.unescaped (same ▸ mem_cons_self)

theorem Quotable.ne_newline : c ≠ '\n' := fun same => h.oneLine (same ▸ mem_cons_self)

theorem Quotable.of_cons : Quotable s where
  unquoted := not_mem_of_not_mem_cons h.unquoted
  unescaped := not_mem_of_not_mem_cons h.unescaped
  oneLine := not_mem_of_not_mem_cons h.oneLine

end

variable {q : Char}

theorem unreadable_respell (s : List Char) : unreadable (respell s) = unreadable s := by
  have same : ∀ {c : Char}, c ∉ ['_', '(', ')'] → (respell s).contains c = s.contains c := by
    intro c other
    rw [Bool.eq_iff_iff, contains_iff_mem, contains_iff_mem, mem_respell other]
  unfold unreadable
  rw [same (by decide), same (by decide)]

theorem respell_inQuotes (s : List Char) : respell (inQuotes s) = inQuotes (respell s) := by
  unfold inQuotes
  rw [respell, respellFrom, if_neg (by decide), respellFrom_append (by decide)]
  rfl

theorem scanLine_cons (quote : c ≠ q) (back : c ≠ '\\') (newline : c ≠ '\n') (cs : List Char) :
    scanLine q (c :: cs) = (scanLine q cs).map fun (b, rest) => (c :: b, rest) := by
  rw [scanLine.eq_3, if_neg quote, if_neg (by simp [newline, back])]
  exact fun _ _ same => absurd same back

/-- A text in quotes ends at its closing quote. -/
theorem scanLine_quoted (mark : q ≠ '\\') (unquoted : q ∉ s) (unescaped : '\\' ∉ s) (oneLine : '\n' ∉ s)
    (rest : List Char) : scanLine q (s ++ q :: rest) = some (s, rest) := by
  induction s with
  | nil =>
    rw [nil_append, scanLine.eq_3, if_pos rfl]
    exact fun _ _ same => absurd same mark
  | cons c s ih =>
    obtain ⟨quote, unquoted⟩ := ne_and_not_mem_of_not_mem_cons unquoted
    obtain ⟨back, unescaped⟩ := ne_and_not_mem_of_not_mem_cons unescaped
    obtain ⟨newline, oneLine⟩ := ne_and_not_mem_of_not_mem_cons oneLine
    rw [cons_append, scanLine_cons quote.symm back.symm newline.symm, ih unquoted unescaped oneLine]
    rfl

/-- A carriage return ends the line before the quote is closed. -/
theorem scanLine_lineFeeds (h : Quotable s) (broken : '\r' ∈ s) (rest : List Char) :
    scanLine '"' (lineFeeds (s ++ '"' :: rest)) = none := by
  induction s with
  | nil => cases broken
  | cons c s ih =>
    by_cases ends : c = '\r'
    · subst ends
      have next : ∀ cs, s ++ '"' :: rest ≠ '\n' :: cs := by
        intro cs same
        cases s with
        | nil => cases same
        | cons d s => exact h.of_cons.ne_newline (List.cons.inj same).1
      rw [cons_append, lineFeeds.eq_3 _ _ fun cs _ same => next cs same, if_pos rfl, scanLine.eq_3]
      · rfl
      · exact fun _ _ same => absurd same (by decide)
    · rw [cons_append, lineFeeds.eq_3 _ _ fun _ same _ => ends same, if_neg ends,
        scanLine_cons h.ne_quote h.ne_back h.ne_newline,
        ih h.of_cons (mem_of_ne_of_mem (Ne.symm ends) broken)]
      rfl

theorem unescapeText_eq_self (unescaped : '\\' ∉ s) : unescapeText s = some s := by
  have codes : unescapeGo true 0 s = some (s.map Char.toNat) := by
    induction s with
    | nil => rfl
    | cons c s ih =>
      have other : c ≠ '\\' := fun same => unescaped (same ▸ mem_cons_self)
      rw [unescapeGo.eq_def]
      dsimp only
      rw [if_pos other, ih (not_mem_of_not_mem_cons unescaped)]
      rfl
  rw [unescapeText, codes, Option.map_some, map_map]
  have back : Char.ofNat ∘ Char.toNat = id := funext fun c => Char.ofNat_toNat c
  rw [back, map_id]

theorem lexToken_quote (mark : q = '"' ∨ q = '\x27') {r : List Char} (single : r.head? ≠ some q ∨ r = [q]) :
    lexToken (q :: r) =
      (scanLine q r).bind fun (body, rest) => (unescapeText body).map fun s => (.string (.text s), rest) := by
  have line : [q, q].isPrefixOf r = false := by
    rcases single with other | rfl
    · cases r with
      | nil => rfl
      | cons c r =>
        have differs : (q == c) = false := beq_eq_false_iff_ne.mpr fun same => other (same ▸ rfl)
        rw [isPrefixOf_cons_cons, differs, Bool.false_and]
    · simp [List.isPrefixOf]
  have token : lexToken (q :: r) = lexString ⟨false, false, false⟩ (q :: r) := by
    rcases mark with rfl | rfl <;> rfl
  rw [token, lexString]
  dsimp only
  rw [line, if_neg Bool.false_ne_true]
  congr 1
  funext ⟨body, rest⟩
  dsimp only
  cases unescapeText body <;> rfl

/-- A text on one line in quotes of either kind is one token. -/
theorem lex_quoted (mark : q = '"' ∨ q = '\x27') (unquoted : q ∉ s) (unescaped : '\\' ∉ s) (oneLine : '\n' ∉ s)
    (straight : '\r' ∉ s) (nonnull : '\x00' ∉ s) : lex (q :: (s ++ [q])) = some [.string (.text s)] := by
  have single : (s ++ [q]).head? ≠ some q ∨ s ++ [q] = [q] := by
    cases s with
    | nil => exact Or.inr rfl
    | cons c s => exact Or.inl fun same => unquoted (Option.some.inj same ▸ mem_cons_self)
  have plain : startsToken q ∧ q ≠ '\\' ∧ q ≠ '\r' ∧ q ≠ '\x00' := by rcases mark with rfl | rfl <;> decide
  obtain ⟨start, back, feed, null⟩ := plain
  have cut : lexToken (q :: (s ++ [q])) = some (.string (.text s), []) := by
    rw [lexToken_quote mark single, scanLine_quoted back unquoted unescaped oneLine, Option.bind_some]
    dsimp only
    rw [unescapeText_eq_self unescaped]
    rfl
  unfold lex
  rw [if_neg (by simp [nonnull, null.symm]), lineFeeds_eq_self (by simp [straight, feed.symm]), lineStart_of_start start,
    Option.bind_some, lexGo_token _ start cut (Nat.zero_le _)]
  rfl

theorem lineFeeds_inQuotes (s : List Char) : lineFeeds (inQuotes s) = '"' :: lineFeeds (s ++ ['"']) := by
  rw [inQuotes, lineFeeds.eq_3 _ _ fun _ same _ => absurd same (by decide)]
  rfl

theorem lexToken_broken (h : Quotable s) (broken : '\r' ∈ s) : lexToken (lineFeeds (inQuotes s)) = none := by
  have single : (lineFeeds (s ++ ['"'])).head? ≠ some '"' := by
    cases s with
    | nil => cases broken
    | cons c s =>
      rw [cons_append, lineFeeds.eq_def]
      split
      · exact fun same => by cases same
      · exact fun same => by cases same
      · rename_i shape
        obtain ⟨rfl, -⟩ := List.cons.inj shape
        intro same
        have first := Option.some.inj same
        split at first
        · cases first
        · exact h.ne_quote first
  rw [lineFeeds_inQuotes, lexToken_quote (Or.inl rfl) (Or.inl single), scanLine_lineFeeds h broken]
  rfl

theorem lexGo_uncut (n depth : Nat) {cs : List Char} (start : startsToken c) (uncut : lexToken (c :: cs) = none) :
    lexGo (n + 1) depth (c :: cs) = none := by
  rw [lexGo_of_start n depth start, uncut]
  rfl

theorem lex_inQuotes (h : Quotable s) : lex (inQuotes s) = if unreadable s then none else some [.string (.text s)] := by
  have start : startsToken '"' := by decide
  cases readable : unreadable s with
  | false =>
    simp only [unreadable, Bool.or_eq_false_iff, contains_eq_mem, decide_eq_false_iff_not] at readable
    exact lex_quoted (Or.inl rfl) h.unquoted h.unescaped h.oneLine readable.1 readable.2
  | true =>
    have null : (inQuotes s).contains '\x00' = s.contains '\x00' := by simp [inQuotes]
    unfold lex
    rw [null]
    split
    · rfl
    · rename_i nonnull
      rw [unreadable, Bool.eq_false_iff.mpr nonnull, Bool.or_false] at readable
      have uncut := lexToken_broken h (contains_iff_mem.mp readable)
      rw [lineFeeds_inQuotes] at uncut ⊢
      rw [lineStart_of_start start, Option.bind_some, lexGo_uncut _ _ start uncut]
      rfl

theorem expressions_text (s : List Char) (n : Nat) :
    Parse.expressions (n + 15) [.string (.text s)] = some (.literal (.str (String.ofList s)), []) := by
  have atom : Parse.atom (n + 1) [.string (.text s)] = some (.of (.literal (.str (String.ofList s))), []) := by
    rw [Parse.atom]
    simp [Parse.takeStrings, Parse.joinParts]
  exact expressions_lone atom (fun _ same => by cases same) fun _ _ same => by cases same

theorem parse_of_lex_text {cs : List Char} (cut : lex cs = some [.string (.text s)]) :
    parse cs = some (.literal (.str (String.ofList s))) := by
  have fuel : parseFuel cs = 40 * cs.length + 145 + 15 := by
    unfold parseFuel
    omega
  rw [parse, cut, Option.bind_some, fuel, expressions_text]
  rfl

theorem parse_inQuotes (h : Quotable s) :
    parse (inQuotes s) = if unreadable s then none else some (.literal (.str (String.ofList s))) := by
  have cut := lex_inQuotes h
  cases readable : unreadable s with
  | true =>
    rw [parse, cut, readable]
    rfl
  | false =>
    rw [readable] at cut
    exact parse_of_lex_text cut

/-- A text with no underscore, in quotes of either kind, is its own value. -/
theorem evaluate_quoted (env : Env) (mark : q = '"' ∨ q = '\x27') (unquoted : q ∉ s) (unescaped : '\\' ∉ s)
    (oneLine : '\n' ∉ s) (straight : '\r' ∉ s) (nonnull : '\x00' ∉ s) (plain : '_' ∉ s) :
    evaluate env (q :: (s ++ [q])) = pure (.str (String.ofList s)) := by
  have other : '_' ∉ q :: (s ++ [q]) := by rcases mark with rfl | rfl <;> simp [plain]
  rw [evaluate, respell_eq_self other, readAndEval,
    parse_of_lex_text (lex_quoted mark unquoted unescaped oneLine straight nonnull)]
  rfl

/-- The value of a text in quotes is the text as it is respelled. -/
theorem evaluate_inQuotes (env : Env) (h : Quotable s) : evaluate env (inQuotes s) =
      if unreadable s then throw (.runtime (.evaluating invalidSyntax.message))
      else pure (.str (String.ofList (respell s))) := by
  rw [evaluate, respell_inQuotes, readAndEval, parse_inQuotes h.respell, unreadable_respell]
  cases unreadable s <;> rfl

/-- **A text in quotes has a text as its value, and its own text exactly if nothing in it is respelled**: no character of a word
is followed by an underscore. -/
theorem quoted_text_kept_iff (env : Env) {s : List Char} (h : Quotable s) (straight : '\r' ∉ s) (nonnull : '\x00' ∉ s) :
    ∃ text : String, evaluate env (inQuotes s) = pure (.str text) ∧
      (text.toList = s ↔ ∀ c, isWord c = true → ¬ [c, '_'] <:+: s) := by
  have readable : unreadable s = false := by simp [unreadable, straight, nonnull]
  refine ⟨String.ofList (respell s), ?_, ?_⟩
  · rw [evaluate_inQuotes env h, readable, if_neg Bool.false_ne_true]
  · rw [String.toList_ofList]
    exact respell_eq_self_iff s

/-- An accented letter is part of a word, so the underscore after it is respelled. -/
theorem quoted_text_kept_iff_accent :
    Quotable "é_x _y".toList ∧ '\r' ∉ "é_x _y".toList ∧ '\x00' ∉ "é_x _y".toList ∧
      ∃ text : String, evaluate [] (inQuotes "é_x _y".toList) = pure (.str text) ∧ text.toList ≠ "é_x _y".toList := by
  have h : Quotable "é_x _y".toList := ⟨by decide, by decide, by decide⟩
  have straight : '\r' ∉ "é_x _y".toList := by decide
  have nonnull : '\x00' ∉ "é_x _y".toList := by decide
  obtain ⟨text, value, kept⟩ := quoted_text_kept_iff [] h straight nonnull
  refine ⟨h, straight, nonnull, text, value, ?_⟩
  intro same
  exact kept.mp same 'é' (by decide +kernel) ⟨[], "x _y".toList, rfl⟩

end LineScript.Expr
