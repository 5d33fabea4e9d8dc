
import LineScript.Expr.Lexer

/-!
# Words of a text

Cutting a text into tokens goes from left to right and leaves the end of the text each time. So every word among the
tokens stands in the text as it is.
-/

namespace LineScript.Expr

open Text Number List

variable {cs : List Char} {ts : List Token}

section

variable {α β : Type} {R : α → Prop} {S : β → Prop}

def Gives (R : α → Prop) (x : Option α) : Prop := ∀ r, x = some r → R r

namespace Gives

protected theorem none : Gives R none := nofun

protected theorem some {r : α} (h : R r) : Gives R (some r) := fun _ same => Option.some.inj same ▸ h

protected theorem bind {x : Option α} {f : α → Option β} (hx : Gives R x) (hf : ∀ r, R r → Gives S (f r)) :
    Gives S (x.bind f) := by
  cases x with
  | none => exact .none
  | some r => exact hf r (hx r rfl)

protected theorem map {x : Option α} {f : α → β} (hx : Gives R x) (hf : ∀ r, R r → S (f r)) : Gives S (x.map f) := by
  cases x with
  | none => exact .none
  | some r => exact .some (hf r (hx r rfl))

protected theorem ite {c : Prop} [Decidable c] {x y : Option α} (hx : Gives R x) (hy : Gives R y) :
    Gives R (if c then x else y) := by
  split
  · exact hx
  · exact hy

theorem mono {T : α → Prop} {x : Option α} (h : ∀ r, R r → T r) (hx : Gives R x) : Gives T x := fun r same => h r (hx r same)

end Gives

end

def Leaves {α : Type} (cs : List Char) (r : α × List Char) : Prop := r.2 <:+ cs

theorem Leaves.cons {α : Type} {r : α × List Char} (h : Leaves cs r) (c : Char) : Leaves (c :: cs) r :=
  IsSuffix.trans h (suffix_cons c cs)

/-! ## Numbers -/

theorem digitTail_leaves (p : Char → Bool) (cs : List Char) : Gives (Leaves cs) (digitTail p cs) := by
  fun_induction digitTail p cs with
  | case1 => exact .some (suffix_refl _)
  | case2 c cs _ ih => exact ih.map fun r hr => (hr.cons c).cons '_'
  | case3 | case4 => exact .none
  | case5 c cs _ _ _ ih => exact ih.map fun r hr => hr.cons c
  | case6 => exact .some (suffix_refl _)

theorem lexMarked_leaves (base : Nat) (cs : List Char) : Gives (Leaves cs) (lexMarked base cs) := by
  unfold lexMarked
  extract_lets body
  have tail : body <:+ cs := by
    dsimp only [body]
    split
    · exact suffix_cons _ _
    · exact suffix_refl _
  split
  · rename_i read
    have left := digitTail_leaves _ _ _ read
    exact .ite (.some (IsSuffix.trans left tail)) .none
  · exact .none

theorem lexNumberEnd_leaves (v : Literal) (x : Float) (cs : List Char) : Gives (Leaves cs) (lexNumberEnd v x cs) := by
  unfold lexNumberEnd
  split
  · exact .ite (.ite (.some (suffix_cons _ _)) .none) (.ite (.some (suffix_refl _)) .none)
  · exact .some (suffix_refl _)

theorem lexPower_leaves (n : Nat) (shift : Int) (negative : Bool) (cs : List Char) :
    Gives (Leaves cs) (lexPower n shift negative cs) := by
  unfold lexPower
  split
  · rename_i read
    have left := digitTail_leaves _ _ _ read
    exact (lexNumberEnd_leaves _ _ _).mono fun r hr => IsSuffix.trans hr left
  · exact .none

theorem lexExponent_leaves (ds : List Char) (shift : Int) (isInt : Bool) (cs : List Char) :
    Gives (Leaves cs) (lexExponent ds shift isInt cs) := by
  unfold lexExponent
  extract_lets n plain
  have ends : ∀ cs, Gives (Leaves cs) (plain cs) := fun cs => lexNumberEnd_leaves _ _ cs
  split
  · rename_i c d r
    refine .ite ?_ (ends _)
    refine .ite ((lexPower_leaves _ _ _ _).mono fun r hr => hr.cons c) (.ite ?_ (ends _))
    exact .ite ((lexPower_leaves _ _ _ _).mono fun r hr => (hr.cons d).cons c) .none
  · exact ends _

theorem lexFraction_leaves (whole cs : List Char) : Gives (Leaves cs) (lexFraction whole cs) := by
  unfold lexFraction
  split
  · refine .ite ?_ ((lexExponent_leaves _ _ _ _).mono fun r hr => hr.cons '.')
    split
    · rename_i read
      have left := digitTail_leaves _ _ _ read
      exact (lexExponent_leaves _ _ _ _).mono fun r hr => Leaves.cons (IsSuffix.trans hr left) '.'
    · exact .none
  · exact lexExponent_leaves _ _ _ _

theorem checkWhole_leaves (whole : List Char) {r : Literal × List Char} (h : Leaves cs r) :
    Gives (Leaves cs) (checkWhole whole r) := by
  unfold checkWhole
  split
  · exact .ite .none (.ite .none (.some h))
  · exact .some h

theorem lexNumber_leaves (cs : List Char) : Gives (Leaves cs) (lexNumber cs) := by
  have whole : Gives (Leaves cs) ((digitTail Char.isDigit cs).bind fun r => (lexFraction r.1 r.2).bind (checkWhole r.1)) := by
    refine (digitTail_leaves _ cs).bind fun r hr => ?_
    refine (lexFraction_leaves r.1 r.2).bind fun q hq => ?_
    exact checkWhole_leaves r.1 (IsSuffix.trans hq hr)
  unfold lexNumber
  split
  · exact lexFraction_leaves _ _
  · split
    · exact (lexMarked_leaves _ _).mono fun r hr => (hr.cons _).cons _
    · exact whole
  · exact whole

/-! ## Strings -/

theorem scanLine_leaves (q : Char) (cs : List Char) : Gives (Leaves cs) (scanLine q cs) := by
  fun_induction scanLine q cs with
  | case1 => exact .none
  | case2 c cs ih => exact ih.map fun r hr => (hr.cons c).cons _
  | case3 c cs => exact .some (suffix_cons _ _)
  | case4 => exact .none
  | case5 c cs _ _ _ ih => exact ih.map fun r hr => hr.cons c

theorem scanTriple_leaves (q : Char) (cs : List Char) : Gives (Leaves cs) (scanTriple q cs) := by
  fun_induction scanTriple q cs with
  | case1 => exact .none
  | case2 c cs ih => exact ih.map fun r hr => (hr.cons c).cons _
  | case3 c cs => exact .some ((drop_suffix 2 cs).trans (suffix_cons c cs))
  | case4 => exact .none
  | case5 c cs _ _ _ ih => exact ih.map fun r hr => hr.cons c

/-! ## Tokens -/

/-- A token is read off a text: the end of the text is left, and a word stands in the text. -/
def TakenFrom (cs : List Char) (r : Token × List Char) : Prop := r.2 <:+ cs ∧ ∀ w, r.1 = .word w → w.toList <:+: cs

theorem lexString_takenFrom (m : StringMarks) (cs : List Char) : Gives (TakenFrom cs) (lexString m cs) := by
  unfold lexString
  split
  · exact .none
  · rename_i q r
    extract_lets scanned
    have hscanned : Gives (Leaves r) scanned := by
      refine .ite ?_ (scanLine_leaves q r)
      exact (scanTriple_leaves q _).mono fun s hs => IsSuffix.trans hs (drop_suffix 2 r)
    refine hscanned.bind fun s hs => ?_
    refine Gives.map (R := fun _ => True) (fun _ _ => trivial) fun p _ => ⟨hs.cons q, fun w same => ?_⟩
    cases same

theorem lexWord_takenFrom (cs : List Char) : Gives (TakenFrom cs) (lexWord cs) := by
  unfold lexWord
  extract_lets w rest quoteFollows
  have left : rest <:+ cs := drop_suffix _ _
  split
  · refine (lexString_takenFrom _ rest).mono fun r hr => ⟨hr.1.trans left, fun w same => ?_⟩
    exact (hr.2 w same).trans left.isInfix
  · refine .ite (.some ⟨left, fun x same => ?_⟩) .none
    cases same
    rw [String.toList_ofList]
    exact (List.takeWhile_prefix _).isInfix

theorem lexSym_leaves (cs : List Char) : Gives (Leaves cs) (lexSym cs) := by
  unfold lexSym
  split
  all_goals first | exact .none | skip
  all_goals
    refine .some ?_
    unfold Leaves
    simp only [suffix_cons_iff, suffix_refl, or_true]

theorem lexToken_takenFrom (cs : List Char) : Gives (TakenFrom cs) (lexToken cs) := by
  unfold lexToken
  split
  · exact .none
  · refine .ite ?_ (.ite (lexString_takenFrom _ _) (.ite (lexWord_takenFrom _) ?_))
    · exact (lexNumber_leaves _).map fun r hr => ⟨hr, fun w same => by cases same⟩
    · exact (lexSym_leaves _).map fun r hr => ⟨hr, fun w same => by cases same⟩

/-! ## Whole texts -/

theorem lineStart_suffixes (n : Nat) (cs : List Char) (short : cs.length < n) :
    (∀ indented, Gives (· <:+ cs) (lineStart indented cs)) ∧ Gives (· <:+ cs) (lineStart.lineComment cs) := by
  induction n generalizing cs with
  | zero => cases short
  | succ n ih =>
    -- whatever the end of the text leaves, the whole text leaves too
    have later : ∀ {ds : List Char}, ds <:+ cs → ds.length < cs.length →
        (∀ indented, Gives (· <:+ cs) (lineStart indented ds)) ∧ Gives (· <:+ cs) (lineStart.lineComment ds) := by
      intro ds tail shorter
      have hds := ih ds (Nat.lt_of_lt_of_le shorter (Nat.le_of_lt_succ short))
      exact ⟨fun indented => (hds.1 indented).mono fun r hr => hr.trans tail, hds.2.mono fun r hr => hr.trans tail⟩
    constructor
    · intro indented
      unfold lineStart
      split
      · exact .ite .none (.some (suffix_refl _))
      · rename_i ds
        have tail : ds <:+ '\\' :: '\n' :: ds := (suffix_cons _ ds).trans (suffix_cons _ _)
        exact .ite .none ((later tail (by simp only [length_cons]; omega)).1 indented)
      · rename_i c ds _
        have rest := later (suffix_cons c ds) (Nat.lt_succ_self _)
        refine .ite (rest.1 _) (.ite (rest.1 _) (.ite (rest.1 _) (.ite rest.2 ?_)))
        exact .ite .none (.some (suffix_refl _))
    · unfold lineStart.lineComment
      split
      · exact .some (suffix_refl _)
      · exact (later (suffix_cons _ _) (Nat.lt_succ_self _)).1 _
      · exact (later (suffix_cons _ _) (Nat.lt_succ_self _)).2

theorem lineStart_suffix (indented : Bool) (cs : List Char) : Gives (· <:+ cs) (lineStart indented cs) :=
  (lineStart_suffixes _ cs (Nat.lt_succ_self _)).1 indented

def StandIn (cs : List Char) (ts : List Token) : Prop := ∀ w, .word w ∈ ts → w.toList <:+: cs

theorem StandIn.nil (cs : List Char) : StandIn cs [] := fun w hw => by cases hw

theorem StandIn.cons {t : Token} (first : ∀ w, t = .word w → w.toList <:+: cs) (h : StandIn cs ts) :
    StandIn cs (t :: ts) := by
  intro w hw
  rcases mem_cons.mp hw with same | hw
  · exact first w same.symm
  · exact h w hw

theorem lexGo_standIn (n depth : Nat) (cs : List Char) : Gives (StandIn cs) (lexGo n depth cs) := by
  induction n generalizing depth cs with
  | zero =>
    cases cs with
    | nil => exact .some (StandIn.nil _)
    | cons c cs => exact .none
  | succ n ih =>
    cases cs with
    | nil => exact .some (StandIn.nil _)
    | cons c cs =>
      have later : ∀ {ds : List Char} (depth : Nat), ds <:+ c :: cs → Gives (StandIn (c :: cs)) (lexGo n depth ds) := by
        intro ds depth tail
        exact (ih depth ds).mono fun ts h w hw => (h w hw).trans tail.isInfix
      have rest : cs <:+ c :: cs := suffix_cons c cs
      unfold lexGo
      refine .ite (later _ rest) (.ite (later _ ((dropWhile_suffix _).trans rest)) (.ite ?_ (.ite ?_ ?_)))
      · split
        · exact later _ ((suffix_cons _ _).trans rest)
        · exact .none
      · refine .ite ?_ (later _ rest)
        refine (lineStart_suffix false cs).bind fun r hr => ?_
        refine (later 0 (hr.trans rest)).map fun ts h => ?_
        exact h.cons fun w same => by cases same
      · refine (lexToken_takenFrom (c :: cs)).bind fun r hr => ?_
        refine .ite .none ((later _ hr.1).map fun ts h => ?_)
        exact h.cons hr.2

/-- Every word among the tokens of a text stands in the text. -/
theorem word_infix_of_lex {s : List Char} (h : lex s = some ts) {w : String} (word : .word w ∈ ts) :
    w.toList <:+: lineFeeds s := by
  have stand : Gives (StandIn (lineFeeds s)) (lex s) := by
    refine .ite .none ((lineStart_suffix false (lineFeeds s)).bind fun r hr => ?_)
    exact (lexGo_standIn _ 0 r).mono fun ts h w hw => (h w hw).trans hr.isInfix
  exact stand ts h w word

end LineScript.Expr
