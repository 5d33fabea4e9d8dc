
import LineScript.Proofs.Precedence
import LineScript.Proofs.TokenText

/-!
# Whole-number arithmetic in scripts

From the text to the value: an expression on whole numbers has no underscores to respell, is cut into its tokens, read as its
tree and evaluated to its exact value.
-/

namespace LineScript.Expr

open Value List

/-! ## From the text to the tree -/

theorem takeWhile_reverse_append {w : List Char} (h : '_' ∉ w) (s : List Char) :
    (w.reverse ++ s).takeWhile (· ≠ '_') = w.reverse ++ s.takeWhile (· ≠ '_') := by
  refine takeWhile_append_of_pos fun c hc => decide_eq_true fun same => h ?_
  rw [← same]
  exact mem_reverse.mp hc

theorem respellWord_eq_self {w : List Char} (h : '_' ∉ w) : respellWord w = w := by
  have all := takeWhile_reverse_append h []
  rw [takeWhile_nil, append_nil] at all
  unfold respellWord
  dsimp only
  rw [all, length_reverse, decide_eq_true rfl, Bool.true_or, if_pos rfl]

theorem respellFrom_eq {word s : List Char} (hw : '_' ∉ word) (hs : '_' ∉ s) : respellFrom word s = word.reverse ++ s := by
  have reversed : ∀ {w : List Char}, '_' ∉ w → respellWord w.reverse = w.reverse := fun h =>
    respellWord_eq_self fun mem => h (mem_reverse.mp mem)
  induction s generalizing word with
  | nil => rw [respellFrom, reversed hw, append_nil]
  | cons c s ih =>
    have rest : '_' ∉ s := fun mem => hs (mem_cons_of_mem c mem)
    rw [respellFrom]
    split
    · have longer : '_' ∉ c :: word := by
        intro mem
        rcases mem_cons.mp mem with rfl | mem
        · exact hs mem_cons_self
        · exact hw mem
      rw [ih longer rest, reverse_cons, append_assoc]
      rfl
    · rw [reversed hw, ih (not_mem_nil) rest]
      rfl

theorem respell_eq_self {s : List Char} (h : '_' ∉ s) : respell s = s := respellFrom_eq not_mem_nil h

theorem length_le_spread {pieces : List (List Char)} (h : ∀ p ∈ pieces, p ≠ []) (gaps : List Nat) :
    pieces.length ≤ (spread gaps pieces).length := by
  induction pieces generalizing gaps with
  | nil => exact Nat.zero_le _
  | cons p pieces ih =>
    have others := ih (fun q hq => h q (mem_cons_of_mem p hq)) gaps.tail
    have filled := length_pos_iff.mpr (h p mem_cons_self)
    rw [spread, length_append, length_append, length_cons]
    omega

section

variable {c : WholeChain} (shallow : c.Shallow) (gaps : List Nat)

include shallow

theorem parse_text : parse (c.text gaps) = some c.tree := by
  have whole := (WholeChain.cuttable shallow).whole
  have short : c.tokens.length ≤ (c.text gaps).length := by
    rw [← length_map Token.text]
    refine length_le_spread (fun p hp => ?_) gaps
    obtain ⟨t, ht, rfl⟩ := mem_map.mp hp
    obtain ⟨d, ds, text, -⟩ := (whole t ht).exists_text
    rw [text]
    exact cons_ne_nil d ds
  have read : Parse.expressions (parseFuel (c.text gaps)) c.tokens = some (c.tree, []) :=
    expressions_tokens c (by unfold parseFuel; omega)
  rw [parse, lex_text shallow, Option.bind_some, read]
  rfl

theorem respell_text : respell (c.text gaps) = c.text gaps := by
  refine respell_eq_self fun mem => ?_
  have plain : ∀ p ∈ c.tokens.map Token.text, ∀ d ∈ p, ordinary d :=
    forall_mem_map.mpr fun t ht => ((WholeChain.cuttable shallow).whole t ht).ordinary
  exact Bool.noConfusion (ordinary_spread plain gaps '_' mem)

/-- Evaluating the text of a chain is evaluating its tree; a failure says that it was one of evaluation. -/
theorem evaluate_text (vars : Env) : evaluate vars (c.text gaps) =
      tryCatch (eval vars c.tree) fun e => throw (.runtime (.evaluating e.message)) := by
  rw [evaluate, respell_text shallow, readAndEval, parse_text shallow]

end

/-! ## The result -/

theorem pure_ne_throw {α : Type} (a : α) (f : Fault) : (pure a : Eval α) ≠ throw f := by
  intro same
  have results := congrArg (fun x : Eval α => (x.run.run {}).1) same
  cases results

def nameA : Identifier := ⟨"a", all_iff_forall_prop.mp (by decide), by decide, by decide⟩

def nameB : Identifier := ⟨"b", all_iff_forall_prop.mp (by decide), by decide, by decide⟩

def smallNumeral (n : Nat) (h : n < 100) : Numeral :=
  ⟨n, Nat.lt_of_lt_of_le h (Nat.pow_le_pow_right (by decide : 0 < 10) (by decide : 2 ≤ Number.maxDigits))⟩

/-- A chain with a quotient of a negative number. -/
def roundedDown : WholeChain where
  first := .op .mod (.op .floorDiv (.op .sub (.named nameA) (.numeral (smallNumeral 7 (by decide))))
    (.numeral (smallNumeral 2 (by decide)))) (.numeral (smallNumeral 3 (by decide)))
  rest := [(.lt, .named nameB), (.le, .numeral (smallNumeral 12 (by decide)))]

/-- A remainder by zero after a comparison that does not hold. -/
def zeroAfterwards : WholeChain where
  first := .named nameB
  rest := [(.lt, .named nameA), (.eq, .op .mod (.numeral (smallNumeral 5 (by decide)))
    (.op .sub (.named nameA) (.named nameA)))]

end LineScript.Expr
