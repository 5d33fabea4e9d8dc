import LineScript.Line.Quotes
import LineScript.Proofs.TextSearch
import Mathlib.Data.Bool.AllAny

/-!
# Comments and quotes

What is left of a line without its comments is read as itself (`stripComments_laws`), a text is cut at every delimiter outside
quotes and nowhere else (`cut_iff`), and arguments are read back from the text they make (`arguments_round_trip`). The scanners
are folds over the text, so each place of it has a state of its own.
-/

namespace LineScript.Line

open Text List

/-! ## Comments -/

section

variable {a c s : List Char} {l : Line}

/-- Whether a comment is open after a text. -/
def commentOpen (inside : Bool) (s : List Char) : Bool :=
  s.foldl (fun inside c => if inside then c ≠ '\x7d' else c = '\x7b') inside

theorem uncommented_append (inside : Bool) (a b : List Char) :
    uncommented inside (a ++ b) = uncommented inside a ++ uncommented (commentOpen inside a) b := by
  induction a generalizing inside with
  | nil => rfl
  | cons c a ih =>
    rw [cons_append, uncommented, uncommented, commentOpen, foldl_cons, ← commentOpen]
    cases inside with
    | true => exact ih _
    | false => by_cases start : c = '\x7b' <;> simp [start, ih]

theorem uncommented_of_not_mem (unclosed : '\x7d' ∉ c) : uncommented true c = [] ∧ commentOpen true c := by
  induction c with
  | nil => exact ⟨rfl, rfl⟩
  | cons x c ih =>
    obtain ⟨other, rest⟩ := ne_and_not_mem_of_not_mem_cons unclosed
    rw [uncommented, if_pos rfl, commentOpen, foldl_cons, ← commentOpen, if_pos rfl, decide_eq_true other.symm]
    exact ih rest

theorem uncommented_comment (outside : commentOpen false a = false) (unclosed : '\x7d' ∉ c) (b : List Char) :
    uncommented false (a ++ '\x7b' :: (c ++ b)) = uncommented false a ++ uncommented true b := by
  obtain ⟨hidden, still⟩ := uncommented_of_not_mem unclosed
  rw [uncommented_append, outside, uncommented, if_neg Bool.false_ne_true, if_pos rfl, uncommented_append, hidden, still,
    nil_append]

theorem text_of_splitIndent (cut : splitIndent s = (l.indent, l.code)) : l.text = s := by
  obtain ⟨dots, rest⟩ := Prod.mk.inj cut
  have dotted : ∀ c ∈ s.takeWhile isDot, c = '.' := fun c hc => of_decide_eq_true (all_eq_true.mp all_takeWhile c hc)
  rw [Line.text, ← dots, ← rest, ← eq_replicate_of_mem dotted, takeWhile_append_dropWhile]

/-- **What is left of a line has no comments and no white space around it, and is read as itself.** A comment at a place outside
comments makes no difference, and one that is not closed hides what follows it. -/
theorem stripComments_laws (s : List Char) :
    '\x7b' ∉ stripComments s ∧
    (∀ c, (stripComments s).head? = some c ∨ (stripComments s).getLast? = some c → isBlank c = false) ∧
    stripComments (stripComments s) = stripComments s ∧
    (∀ a b c, s = a ++ b → commentOpen false a = false → '\x7d' ∉ c →
      stripComments (a ++ '\x7b' :: (c ++ '\x7d' :: b)) = stripComments s ∧
      stripComments (a ++ '\x7b' :: c) = stripComments a) ∧
    ('\x7b' ∉ s → stripComments s = strip s) ∧
    ∀ l : Line, splitIndent (stripComments s) = (l.indent, l.code) →
      splitIndent (stripComments l.text) = (l.indent, l.code) := by
  have bare := not_mem_stripComments s
  have again : stripComments (stripComments s) = stripComments s := by
    rw [stripComments, uncommented_eq_self bare]
    exact trim_trim _
  refine ⟨bare, fun c => Or.rec head?_trim getLast?_trimRight, again, ?_, fun plain => ?_, fun l split => ?_⟩
  · rintro a b c rfl outside unclosed
    have closed := uncommented_comment outside unclosed ('\x7d' :: b)
    have hidden := uncommented_comment outside unclosed []
    rw [append_nil, uncommented, append_nil] at hidden
    refine ⟨congrArg (trim isBlank) ?_, congrArg (trim isBlank) hidden⟩
    rw [closed, uncommented, uncommented_append, outside]
    rfl
  · rw [stripComments, uncommented_eq_self plain, strip]
  · rw [text_of_splitIndent split, again, split]

end

/-! ## Pieces between delimiters -/

variable {d c q : Char} {mark : Mark} {p s piece : List Char} {ps : List (List Char)}

/-- The mark that is open after a text. -/
def Mark.scan (mark : Mark) (s : List Char) : Mark := s.foldl Mark.after mark

/-- Every `d` in a text that starts inside `mark` stands in quotes. -/
def Covered (d : Char) (mark : Mark) (s : List Char) : Prop := ∀ a b, s = a ++ d :: b → mark.scan a ≠ none

/-- What the pieces of a text are. There is at least one, and only the last may leave a quote open. -/
structure Cut (d : Char) (s : List Char) (ps : List (List Char)) : Prop where
  filled : ps ≠ []
  joined : joinWith [d] ps = s
  covered : ∀ p ∈ ps, Covered d none p
  closed : ∀ p ∈ ps.dropLast, Mark.scan none p = none

theorem covered_of_not_mem (free : d ∉ s) : Covered d mark s := by
  rintro a b rfl
  exact absurd (mem_append_right a mem_cons_self) free

theorem scan_inside (free : q ∉ s) : Mark.scan (some q) s = some q := by
  induction s with
  | nil => rfl
  | cons c s ih =>
    obtain ⟨other, rest⟩ := ne_and_not_mem_of_not_mem_cons free
    rw [Mark.scan, foldl_cons, Mark.after, if_neg (Ne.symm other)]
    exact ih rest

theorem scan_plain (plain : ∀ c ∈ s, isMark c = false) : Mark.scan none s = none := by
  induction s with
  | nil => rfl
  | cons c s ih =>
    rw [Mark.scan, foldl_cons, Mark.after, plain c mem_cons_self]
    exact ih fun d hd => plain d (mem_cons_of_mem c hd)

theorem splitFrom_cut (plain : isMark d = false) (piece s : List Char) :
    splitFrom d none piece (d :: s) = piece.reverse :: splitFrom d none [] s := by
  rw [splitFrom, plain, decide_eq_true rfl]
  rfl

theorem splitFrom_keep (inside : c = d → mark ≠ none) (piece s : List Char) :
    splitFrom d mark piece (c :: s) = splitFrom d (mark.after c) (c :: piece) s := by
  rw [splitFrom, if_neg]
  simpa using fun same outside => absurd outside (inside same)

theorem splitFrom_append (covered : Covered d mark p) (piece rest : List Char) :
    splitFrom d mark piece (p ++ rest) = splitFrom d (mark.scan p) (p.reverse ++ piece) rest := by
  induction p generalizing mark piece with
  | nil => rfl
  | cons c p ih =>
    have inside : c = d → mark ≠ none := by
      rintro rfl
      exact covered [] p rfl
    have later : Covered d (mark.after c) p := fun a b same => covered (c :: a) b (congrArg (c :: ·) same)
    rw [cons_append, splitFrom_keep inside, ih later, reverse_cons, append_assoc]
    rfl

theorem Covered.concat (covered : Covered d none p) (inside : c = d → Mark.scan none p ≠ none) :
    Covered d none (p ++ [c]) := by
  intro a b same
  rcases eq_nil_or_concat b with rfl | ⟨b, x, rfl⟩
  · obtain ⟨rfl, last⟩ := append_inj' same rfl
    exact inside (singleton_inj.mp last)
  · rw [concat_eq_append, ← cons_append, ← append_assoc] at same
    exact covered a b (append_inj' same rfl).1

theorem Cut.cons (covered : Covered d none p) (closed : Mark.scan none p = none) (cut : Cut d s ps) :
    Cut d (p ++ d :: s) (p :: ps) := by
  obtain ⟨q, qs, rfl⟩ := exists_cons_of_ne_nil cut.filled
  refine ⟨cons_ne_nil _ _, ?_, forall_mem_cons.mpr ⟨covered, cut.covered⟩, forall_mem_cons.mpr ⟨closed, cut.closed⟩⟩
  rw [joinWith, cut.joined, append_assoc]
  · rfl
  · exact cut.filled

/-- The piece that is being read is covered so far, and leaves `mark` open. -/
theorem cut_splitFrom (plain : isMark d = false) (scanned : Mark.scan none piece.reverse = mark)
    (covered : Covered d none piece.reverse) (s : List Char) : Cut d (piece.reverse ++ s) (splitFrom d mark piece s) := by
  induction s generalizing mark piece with
  | nil =>
    rw [append_nil, splitFrom]
    exact ⟨cons_ne_nil _ _, rfl, forall_mem_singleton.mpr covered, fun _ h => absurd h not_mem_nil⟩
  | cons c s ih =>
    by_cases cut : c = d ∧ mark = none
    · obtain ⟨rfl, rfl⟩ := cut
      have rest : Cut c s (splitFrom c none [] s) := @ih none [] rfl (covered_of_not_mem not_mem_nil)
      rw [splitFrom_cut plain]
      exact .cons covered scanned rest
    · have inside : c = d → mark ≠ none := not_and.mp cut
      have next : Mark.scan none (c :: piece).reverse = mark.after c := by
        rw [← scanned, reverse_cons]
        exact foldl_append
      rw [splitFrom_keep inside, append_cons, ← reverse_cons]
      exact ih next (reverse_cons ▸ covered.concat (scanned ▸ inside))

theorem Cut.unique (plain : isMark d = false) (cut : Cut d s ps) : ps = splitOutsideQuotes s d := by
  obtain ⟨filled, rfl, covered, closed⟩ := cut
  unfold splitOutsideQuotes
  fun_induction joinWith [d] ps with
  | case1 => exact absurd rfl filled
  | case2 p =>
    have whole := splitFrom_append (covered p mem_cons_self) [] []
    rw [append_nil, append_nil, splitFrom, reverse_reverse] at whole
    exact whole.symm
  | case3 p ps more ih =>
    obtain ⟨q, qs, rfl⟩ := exists_cons_of_ne_nil more
    rw [append_assoc, splitFrom_append (covered p mem_cons_self), closed p mem_cons_self, singleton_append,
      splitFrom_cut plain, append_nil, reverse_reverse,
      ← ih more (fun r hr => covered r (mem_cons_of_mem p hr)) fun r hr => closed r (mem_cons_of_mem p hr)]

/-- **Splitting outside quotes is lossless and exact.** Joined with the delimiter, the pieces give the text; no piece has a
delimiter outside quotes, and none but the last leaves a quote open. No other pieces are like that. -/
theorem cut_iff (plain : isMark d = false) (s : List Char) (ps : List (List Char)) :
    Cut d s ps ↔ ps = splitOutsideQuotes s d := by
  refine ⟨Cut.unique plain, ?_⟩
  rintro rfl
  exact @cut_splitFrom d none [] plain rfl (covered_of_not_mem not_mem_nil) s

/-- A mark of the other kind is a character like others, and a quote that is not closed goes on to the end. -/
theorem cut_iff_unclosed :
    Cut ',' "a,\"b,'c\",'d,".toList ["a".toList, "\"b,'c\"".toList, "'d,".toList] :=
  (cut_iff rfl _ _).mpr (by decide)

/-! ## Arguments between spaces -/

/-- What is left of a text without the spaces outside quotes. -/
def unspaced (mark : Mark) : List Char → List Char
  | [] => []
  | c :: s => if c = ' ' ∧ mark = none then unspaced none s else c :: unspaced (mark.after c) s

/-- A word without spaces and marks, or a text between two marks that are not in it. -/
def IsArgument (s : List Char) : Prop :=
  s ≠ [] ∧ (∀ c ∈ s, c ≠ ' ' ∧ isMark c = false) ∨ ∃ q text, s = q :: (text ++ [q]) ∧ isMark q ∧ q ∉ text

theorem argumentsFrom_eq_filter (mark : Mark) (piece s : List Char) :
    argumentsFrom mark piece s = (splitFrom ' ' mark piece s).filter (!·.isEmpty) := by
  have flushed (piece) : flush piece = [piece.reverse].filter (!·.isEmpty) := by cases piece <;> simp [flush]
  induction s generalizing mark piece with
  | nil => exact flushed piece
  | cons c s ih =>
    by_cases cut : c = ' ' ∧ mark = none
    · obtain ⟨rfl, rfl⟩ := cut
      have rest := ih none []
      rw [splitFrom_cut rfl, ← @singleton_append _ piece.reverse, filter_append, ← flushed, ← rest]
      rfl
    · rw [splitFrom_keep (not_and.mp cut), ← ih, argumentsFrom, if_neg]
      simpa using cut

theorem flatten_splitFrom (mark : Mark) (piece s : List Char) :
    (splitFrom ' ' mark piece s).flatten = piece.reverse ++ unspaced mark s := by
  induction s generalizing mark piece with
  | nil => rfl
  | cons c s ih =>
    rw [unspaced]
    split
    · rename_i cut
      obtain ⟨rfl, rfl⟩ := cut
      rw [splitFrom_cut rfl, flatten_cons, ih]
      rfl
    · rename_i keep
      rw [splitFrom_keep (not_and.mp keep), ih, reverse_cons, append_assoc]
      rfl

/-- The spaces between the arguments are the only ones outside quotes. -/
theorem arguments_joinWith (filled : ∀ p ∈ ps, p ≠ []) (covered : ∀ p ∈ ps, Covered ' ' none p)
    (closed : ∀ p ∈ ps.dropLast, Mark.scan none p = none) : arguments (joinWith [' '] ps) = ps := by
  by_cases some : ps = []
  · rw [some]
    rfl
  · have pieces := Cut.unique rfl ⟨some, rfl, covered, closed⟩
    rw [arguments, argumentsFrom_eq_filter, ← splitOutsideQuotes, ← pieces, filter_eq_self]
    simpa using filled

theorem IsArgument.laws (h : IsArgument p) : p ≠ [] ∧ Covered ' ' none p ∧ Mark.scan none p = none := by
  rcases h with ⟨some, plain⟩ | ⟨q, text, rfl, quote, free⟩
  · exact ⟨some, covered_of_not_mem fun space => (plain _ space).1 rfl, scan_plain fun c hc => (plain c hc).2⟩
  · have other : q ≠ ' ' := by
      rintro rfl
      exact absurd quote (by decide)
    have opens (s) : Mark.scan none (q :: s) = Mark.scan (some q) s := by
      rw [Mark.scan, foldl_cons, Mark.after, if_pos quote]
      rfl
    have first : Covered ' ' none (q :: text) := by
      rintro (_ | ⟨_, a⟩) b same
      · exact absurd (head_eq_of_cons_eq same) other
      · obtain ⟨rfl, rfl⟩ := cons.inj same
        rw [opens, scan_inside fun inside => free (mem_append_left _ inside)]
        exact Option.some_ne_none q
    refine ⟨cons_ne_nil _ _, first.concat fun same => absurd same other, ?_⟩
    have inside := scan_inside free
    unfold Mark.scan at inside
    rw [opens, Mark.scan, foldl_append, inside]
    exact if_pos rfl

/-- Only the last piece may be open, and it is not empty then. -/
theorem mem_dropLast_of_filter {f : List Char → Bool} (h : p ∈ (ps.filter f).dropLast) : p ∈ ps.dropLast := by
  rcases eq_nil_or_concat ps with rfl | ⟨front, last, rfl⟩
  · exact h
  · rw [concat_eq_append, filter_append] at h
    have kept : p ∈ front.filter f := by
      cases chosen : f last
      · exact dropLast_subset _ (by simpa [chosen] using h)
      · simpa [chosen] using h
    rw [concat_eq_append, dropLast_concat]
    exact (mem_filter.mp kept).1

/-- **Arguments are read back when spaces are put between them.** None is empty, and all that is lost of a text are the spaces outside
quotes. -/
theorem arguments_round_trip (s : List Char) :
    (∀ p ∈ arguments s, p ≠ []) ∧
    (arguments s).flatten = unspaced none s ∧
    arguments (joinWith [' '] (arguments s)) = arguments s ∧
    ∀ ps, (∀ p ∈ ps, IsArgument p) → arguments (joinWith [' '] ps) = ps := by
  have kept : arguments s = (splitOutsideQuotes s ' ').filter (!·.isEmpty) := argumentsFrom_eq_filter none [] s
  have cut := @cut_splitFrom ' ' none [] rfl rfl (covered_of_not_mem not_mem_nil) s
  have filled : ∀ p ∈ arguments s, p ≠ [] := by
    rw [kept]
    intro p hp
    simpa using (mem_filter.mp hp).2
  refine ⟨filled, ?_, ?_, fun ps args => ?_⟩
  · rw [kept, flatten_filter_not_isEmpty]
    exact flatten_splitFrom none [] s
  · refine arguments_joinWith filled (fun p hp => cut.covered p ?_) fun p hp => cut.closed p ?_
    · exact (mem_filter.mp (kept ▸ hp)).1
    · exact mem_dropLast_of_filter (kept ▸ hp)
  · exact arguments_joinWith (fun p hp => (args p hp).laws.1) (fun p hp => (args p hp).laws.2.1)
      fun p hp => (args p (dropLast_subset _ hp)).laws.2.2

theorem arguments_round_trip_mixed : arguments (joinWith [' '] ["title".toList, "'it is \"late\"'".toList]) =
    ["title".toList, "'it is \"late\"'".toList] :=
  (arguments_round_trip []).2.2.2 _ (forall_mem_cons.mpr ⟨.inl ⟨by decide, all_iff_forall_prop.mp (by decide)⟩,
    forall_mem_singleton.mpr (.inr ⟨'\x27', "it is \"late\"".toList, by decide, rfl, by decide⟩)⟩)

end LineScript.Line
