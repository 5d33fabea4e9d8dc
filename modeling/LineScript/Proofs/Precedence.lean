
import LineScript.Proofs.WholeNumbers

/-!
# Reading by precedence

The tokens of an expression on whole numbers are read back as its tree. The reading of a level stops where an operand is
followed by nothing, a closing parenthesis, a comparison, or an operator that binds less tightly. Twenty steps for each token
are enough: reading goes down through all levels for each operand, and once more for each parenthesis.
-/

namespace LineScript.Expr

open List

variable {level n : Nat} {e l r : Whole} {rest ts : List Token} {o : WholeOp} {w : String} {s : Sym}

/-! ## Where reading stops -/

/-- What may follow an operand of a level. -/
inductive Stops (level : Nat) : List Token → Prop where
  | done : Stops level []
  | close (ts : List Token) : Stops level (.sym .rparen :: ts)
  | test (t : WholeTest) (ts : List Token) : Stops level (.sym t.sym :: ts)
  | looser {o : WholeOp} (h : o.level < level) (ts : List Token) : Stops level (.sym o.sym :: ts)

theorem Stops.mono {tighter : Nat} (le : level ≤ tighter) (h : Stops level ts) : Stops tighter ts := by
  cases h with
  | done => exact .done
  | close ts => exact .close ts
  | test t ts => exact .test t ts
  | looser less ts => exact .looser (Nat.lt_of_lt_of_le less le) ts

theorem binaryAt_sym (level : Nat) (o : WholeOp) :
    Parse.binaryAt level o.sym = if level = o.level then some o.binOp else none := by
  cases o <;> (unfold Parse.binaryAt; split <;> simp_all [WholeOp.sym, WholeOp.level, WholeOp.binOp])

theorem binaryAt_test (level : Nat) (t : WholeTest) : Parse.binaryAt level t.sym = none := by
  cases t <;> (unfold Parse.binaryAt; split <;> simp_all [WholeTest.sym])

theorem Stops.binaryRest (h : Stops level rest) (n : Nat) (a : Parse.Parsed) :
    Parse.binaryRest (n + 1) level a rest = some (a, rest) := by
  have none_sym : ∀ {s : Sym}, Parse.binaryAt level s = none → ∀ ts,
      Parse.binaryRest (n + 1) level a (.sym s :: ts) = some (a, .sym s :: ts) := by
    intro s none ts
    rw [Parse.binaryRest, none]
  cases h with
  | done => rw [Parse.binaryRest]; simp
  | close ts => exact none_sym (by unfold Parse.binaryAt; split <;> simp_all) ts
  | test t ts => exact none_sym (binaryAt_test level t) ts
  | looser less ts => exact none_sym (by rw [binaryAt_sym, if_neg (Nat.ne_of_gt less)]) ts

def Sym.follows : Sym → Bool
  | .rparen | .plus | .minus | .star | .floorDiv | .percent | .lt | .ltE | .gt | .gtE | .eqEq | .notEq => true
  | _ => false

theorem Stops.ne_sym (h : Stops level rest) (other : s.follows = false) (ts : List Token) : rest ≠ .sym s :: ts := by
  rintro rfl
  cases h with
  | close => cases other
  | test t => cases t <;> cases other
  | @looser o => cases o <;> cases other

/-! ## Where reading starts -/

/-- How an operand starts. A name is not bound on the spot. -/
inductive Opens : List Token → Prop where
  | number (v : Literal) (ts : List Token) : Opens (.number v :: ts)
  | name (x : Identifier) {ts : List Token} (h : ∀ rest, ts ≠ .sym .walrus :: rest) : Opens (.word x.name :: ts)
  | paren (ts : List Token) : Opens (.sym .lparen :: ts)

theorem Opens.ne_sym (h : Opens ts) (other : s ≠ .lparen) (rest : List Token) : ts ≠ .sym s :: rest := by
  rintro rfl
  cases h
  exact other rfl

theorem ne_of_isKeyword (free : isKeyword w = false) {k : String} (keyword : isKeyword k) : w ≠ k := by
  rintro rfl
  exact Bool.noConfusion (keyword.symm.trans free)

theorem Opens.ne_word (h : Opens ts) (keyword : isKeyword w) (rest : List Token) : ts ≠ .word w :: rest := by
  rintro rfl
  cases h with
  | name x => exact ne_of_isKeyword x.free keyword rfl

theorem Opens.ne_binding (h : Opens ts) (w : String) (rest : List Token) : ts ≠ .word w :: .sym .walrus :: rest := by
  rintro rfl
  cases h with
  | name x free => exact free _ rfl

/-! ## Steps that hand on what they read -/

section

variable {a : Parse.Parsed}

theorem Stops.trailers (stops : Stops level rest) (n : Nat) (a : Parse.Parsed) :
    Parse.trailers (n + 1) a rest = some (a, rest) := by
  rw [Parse.trailers]
  · exact fun w ts => stops.ne_sym rfl _
  all_goals exact stops.ne_sym rfl

theorem primary_of (read : Parse.atom (n + 1) ts = some (a, rest)) (stops : Stops level rest) :
    Parse.primary (n + 2) ts = some (a, rest) := by
  rw [Parse.primary, read]
  exact stops.trailers n a

theorem compareRest_of (stops : Stops level rest) (last : ∀ t ts, rest ≠ .sym (WholeTest.sym t) :: ts) :
    Parse.compareRest (n + 1) rest = some ([], rest) := by
  rw [Parse.compareRest]
  cases stops with
  | done => rfl
  | close ts => rfl
  | test t ts => exact absurd rfl (last t ts)
  | @looser o less ts => cases o <;> rfl

theorem conjunction_of (read : Parse.inversion n ts = some (a, rest)) (stops : Stops level rest) :
    Parse.conjunction (n + 1) ts = some (a, rest) := by
  rw [Parse.conjunction, read]
  cases stops <;> rfl

theorem disjunction_of (read : Parse.conjunction n ts = some (a, rest)) (stops : Stops level rest) :
    Parse.disjunction (n + 1) ts = some (a, rest) := by
  rw [Parse.disjunction, read]
  cases stops <;> rfl

theorem atom_number (v : Literal) (ts : List Token) : Parse.atom (n + 1) (.number v :: ts) = some (.of (.literal v), ts) := by
  rw [Parse.atom]

theorem atom_word (free : isKeyword w = false) (ts : List Token) :
    Parse.atom (n + 1) (.word w :: ts) = some (⟨.name w, true⟩, ts) := by
  rw [Parse.atom, free, if_neg Bool.false_ne_true]
  all_goals exact ne_of_isKeyword free (by decide)

variable (opens : Opens ts)

include opens

theorem awaited_of (read : Parse.primary n ts = some (a, rest)) :
    Parse.awaited (n + 1) ts = some (a, rest) := by
  rw [Parse.awaited, read]
  exact opens.ne_word (by decide)

theorem factor_of (read : Parse.awaited n ts = some (a, rest)) (stops : Stops level rest) :
    Parse.factor (n + 1) ts = some (a, rest) := by
  rw [Parse.factor, read]
  · rw [Option.bind_some]
    dsimp only
    split
    · exact absurd rfl (stops.ne_sym rfl _)
    · rfl
  all_goals exact opens.ne_sym (by decide)

theorem expression_of (read : Parse.disjunction n ts = some (a, rest)) (stops : Stops level rest) :
    Parse.expression (n + 1) ts = some (a, rest) := by
  rw [Parse.expression, read]
  · cases stops <;> rfl
  · exact opens.ne_word (by decide)

theorem named_of (read : Parse.expression n ts = some (a, rest)) (stops : Stops level rest) :
    Parse.named (n + 1) ts = some (a, rest) := by
  rw [Parse.named, read]
  · rw [Option.bind_some]
    dsimp only
    split
    · exact absurd rfl (stops.ne_sym rfl _)
    · rfl
  · exact opens.ne_binding

theorem item_of (read : Parse.named n ts = some (a, rest)) : Parse.item (n + 1) ts = some (a, rest) := by
  rw [Parse.item, read]
  exact opens.ne_sym (by decide)

theorem parenthesised_of (read : Parse.item n ts = some (a, .sym .rparen :: rest))
    (plain : a.expr ≠ .other .starred) : Parse.parenthesised (n + 1) ts = some (a, rest) := by
  rw [Parse.parenthesised, read]
  · simp
  · exact opens.ne_sym (by decide)
  · exact fun ts => opens.ne_word (by decide) _
  · exact fun ts => opens.ne_word (by decide) _
  · exact opens.ne_word (by decide)

theorem inversion_of (read : Parse.binary (n + 1) 0 ts = some (a, rest)) (stops : Stops level rest)
    (last : ∀ t ts, rest ≠ .sym (WholeTest.sym t) :: ts) : Parse.inversion (n + 2) ts = some (a, rest) := by
  rw [Parse.inversion, read]
  · show (Parse.compareRest (n + 1) rest).map _ = _
    rw [compareRest_of stops last]
    rfl
  · exact opens.ne_word (by decide)

theorem binary_of_atom (read : Parse.atom (n + 1) ts = some (a, rest)) (stops : Stops level rest) :
    Parse.binary (n + 5) Parse.signLevel ts = some (a, rest) := by
  rw [Parse.binary]
  exact factor_of opens (awaited_of opens (primary_of read stops)) stops

theorem atom_of_enclosed (read : Parse.binary (n + 1) 0 ts = some (a, .sym .rparen :: rest))
    (plain : a.expr ≠ .other .starred) : Parse.atom (n + 9) (.sym .lparen :: ts) = some (a, rest) := by
  have stops : Stops 0 (.sym .rparen :: rest) := .close rest
  have last : ∀ t ts, (.sym .rparen :: rest : List Token) ≠ .sym (WholeTest.sym t) :: ts := by
    intro t ts same
    cases t <;> cases same
  have whole : Parse.expression (n + 5) ts = some (a, .sym .rparen :: rest) :=
    expression_of opens (disjunction_of (conjunction_of (inversion_of opens read stops last) stops) stops) stops
  rw [Parse.atom]
  exact parenthesised_of opens (item_of opens (named_of opens whole stops)) plain

end

/-! ## Operands and operators -/

/-- What an expression is read as. Only a name could be bound. -/
def Whole.parsed : Whole → Parse.Parsed
  | .named x => ⟨.name x.name, true⟩
  | e => .of e.tree

theorem Whole.expr_parsed (e : Whole) : e.parsed.expr = e.tree := by cases e <;> rfl

theorem Whole.tree_ne_starred (e : Whole) : e.tree ≠ .other .starred := by
  intro same
  cases e <;> cases same

theorem WholeOp.level_lt (o : WholeOp) : o.level < Parse.signLevel := by cases o <;> decide

theorem Whole.opens (e : Whole) (level : Nat) (stops : Stops Parse.signLevel rest) : Opens (e.tokens level ++ rest) := by
  induction e generalizing level rest with
  | numeral n => exact .number _ _
  | named x => exact .name x (stops.ne_sym rfl)
  | op o l r ihl ihr =>
    rw [Whole.tokens]
    split
    · exact .paren _
    · rw [append_assoc]
      exact ihl o.level (.looser o.level_lt _)

theorem Whole.length_tokens_pos (e : Whole) (level : Nat) : 0 < (e.tokens level).length := by
  cases e with
  | numeral | named => exact Nat.one_pos
  | op o l r =>
    rw [Whole.tokens]
    split <;> simp only [length_cons, length_append] <;> omega

/-- The tokens of an expression at a level are read back, with enough steps. -/
def ReadsAt (e : Whole) (level : Nat) : Prop :=
  ∀ n rest, 20 * (e.tokens level).length + Parse.signLevel ≤ n + level → Stops level rest →
    Parse.binary n level (e.tokens level ++ rest) = some (e.parsed, rest)

theorem ReadsAt.loosen (less : level < Parse.signLevel) (same : e.tokens level = e.tokens (level + 1))
    (h : ReadsAt e (level + 1)) : ReadsAt e level := by
  intro n rest enough stops
  have filled := e.length_tokens_pos level
  obtain ⟨n, rfl⟩ : ∃ k, n = k + 2 := ⟨n - 2, by omega⟩
  rw [same] at enough ⊢
  rw [Parse.binary, if_pos less, h (n + 1) rest (by omega) (stops.mono (Nat.le_succ level))]
  exact stops.binaryRest n e.parsed

theorem readsAt_numeral (n : Numeral) : ReadsAt (.numeral n) Parse.signLevel := by
  intro k rest enough stops
  obtain ⟨k, rfl⟩ : ∃ m, k = m + 5 := ⟨k - 5, by simp only [Whole.tokens, length_singleton] at enough; omega⟩
  exact binary_of_atom (.number _ _) (atom_number _ _) stops

theorem readsAt_named (x : Identifier) : ReadsAt (.named x) Parse.signLevel := by
  intro k rest enough stops
  obtain ⟨k, rfl⟩ : ∃ m, k = m + 5 := ⟨k - 5, by simp only [Whole.tokens, length_singleton] at enough; omega⟩
  exact binary_of_atom (.name x (stops.ne_sym rfl)) (atom_word x.free _) stops

/-- An operation stands in parentheses where a sign could. -/
theorem Whole.tokens_signLevel (o : WholeOp) (l r : Whole) :
    (Whole.op o l r).tokens Parse.signLevel = .sym .lparen :: (Whole.op o l r).tokens 0 ++ [.sym .rparen] := by
  rw [Whole.tokens, Whole.tokens, if_pos o.level_lt, if_neg (Nat.not_lt_zero _)]

theorem ReadsAt.enclosed (h : ReadsAt (.op o l r) 0) : ReadsAt (.op o l r) Parse.signLevel := by
  intro n rest enough stops
  rw [Whole.tokens_signLevel] at enough ⊢
  simp only [length_append, length_cons] at enough
  have six : Parse.signLevel = 6 := rfl
  -- nine steps from the parenthesis to its content, after four down to the parenthesis
  obtain ⟨n, rfl⟩ : ∃ k, n = k + 13 := ⟨n - 13, by omega⟩
  have inner : Parse.binary (n + 1) 0 ((Whole.op o l r).tokens 0 ++ .sym .rparen :: rest) =
      some (Whole.parsed (.op o l r), .sym .rparen :: rest) := h (n + 1) _ (by omega) (.close rest)
  rw [cons_append, cons_append, append_assoc]
  exact binary_of_atom (.paren _)
    (atom_of_enclosed (Whole.opens _ _ (.close rest)) inner (Whole.tree_ne_starred (.op o l r))) stops

/-- An expression has no operator of a level if its outermost one is not of that level. -/
theorem Whole.tokens_succ (other : o.level ≠ level) (l r : Whole) :
    (Whole.op o l r).tokens level = (Whole.op o l r).tokens (level + 1) := by
  have same : o.level < level ↔ o.level < level + 1 := by omega
  rw [Whole.tokens, Whole.tokens]
  simp only [same]

theorem ReadsAt.down {top : Nat} (h : ReadsAt e top) (bound : top ≤ Parse.signLevel) (le : level ≤ top)
    (same : ∀ i, level ≤ i → i < top → e.tokens i = e.tokens (i + 1)) : ReadsAt e level := by
  obtain ⟨d, rfl⟩ := Nat.exists_eq_add_of_le le
  induction d generalizing level with
  | zero => exact h
  | succ d ih =>
    have step : level + (d + 1) = level + 1 + d := by omega
    rw [step] at h bound same
    refine .loosen (by omega) (same level (Nat.le_refl _) (by omega)) (ih h bound (by omega) fun i low high => ?_)
    exact same i (by omega) high

/-! ## Operators of one level -/

def Whole.spine (level : Nat) : Whole → Nat
  | .op o l _ => if o.level = level then l.spine level + 1 else 0
  | _ => 0

theorem Whole.tokens_own (o : WholeOp) (l r : Whole) :
    (Whole.op o l r).tokens o.level = l.tokens o.level ++ .sym o.sym :: r.tokens (o.level + 1) := by
  rw [Whole.tokens, if_neg (Nat.lt_irrefl _)]

theorem Whole.spine_le (e : Whole) (level : Nat) : e.spine level ≤ (e.tokens level).length := by
  induction e with
  | numeral | named => exact Nat.zero_le _
  | op o l r ihl ihr =>
    rw [Whole.spine]
    split
    · rename_i own
      subst own
      rw [Whole.tokens_own, length_append, length_cons]
      omega
    · exact Nat.zero_le _

/-- An expression and what follows it are read as the loop over operators reads them, once it has read the expression.
Each operator of the level has taken one step. -/
def LoopsAt (e : Whole) (level : Nat) : Prop :=
  ∀ n rest, 20 * (e.tokens level).length + Parse.signLevel ≤ n + e.spine level + 1 + level → Stops (level + 1) rest →
    Parse.binary (n + e.spine level + 1) level (e.tokens level ++ rest) = Parse.binaryRest n level e.parsed rest

theorem ReadsAt.loops (less : level < Parse.signLevel) (same : e.tokens level = e.tokens (level + 1))
    (none : e.spine level = 0) (h : ReadsAt e (level + 1)) : LoopsAt e level := by
  intro n rest enough stops
  rw [same] at enough
  rw [none, same, Parse.binary, if_pos less, h n rest (by omega) stops]
  rfl

/-- One round of the loop reads an operator and its right operand. -/
theorem LoopsAt.op (hl : LoopsAt l o.level) (hr : ReadsAt r (o.level + 1)) : LoopsAt (.op o l r) o.level := by
  intro n rest enough stops
  have short := l.spine_le o.level
  have spine : (Whole.op o l r).spine o.level = l.spine o.level + 1 := by rw [Whole.spine, if_pos rfl]
  rw [Whole.tokens_own, length_append, length_cons] at enough
  have next : n + (l.spine o.level + 1) + 1 = n + 1 + l.spine o.level + 1 := by omega
  -- the left operand is followed by an operator of its own level, so its loop goes on there
  have left : Parse.binary (n + 1 + l.spine o.level + 1) o.level
      (l.tokens o.level ++ .sym o.sym :: (r.tokens (o.level + 1) ++ rest)) =
        Parse.binaryRest (n + 1) o.level l.parsed (.sym o.sym :: (r.tokens (o.level + 1) ++ rest)) :=
    hl (n + 1) _ (by omega) (.looser (Nat.lt_succ_self _) _)
  have right : Parse.binary n (o.level + 1) (r.tokens (o.level + 1) ++ rest) = some (r.parsed, rest) :=
    hr n rest (by omega) stops
  rw [Whole.tokens_own, spine, next, append_assoc, cons_append, left, Parse.binaryRest, binaryAt_sym,
    if_pos rfl]
  dsimp only
  rw [right, Option.bind_some, l.expr_parsed, r.expr_parsed]
  rfl

theorem LoopsAt.reads (less : level < Parse.signLevel) (h : LoopsAt e level) : ReadsAt e level := by
  intro n rest enough stops
  have short := e.spine_le level
  have filled := e.length_tokens_pos level
  obtain ⟨k, rfl⟩ : ∃ k, n = k + 1 + e.spine level + 1 := ⟨n - e.spine level - 2, by omega⟩
  rw [h (k + 1) rest (by omega) (stops.mono (Nat.le_succ level))]
  exact stops.binaryRest k e.parsed

/-! ## Whole expressions -/

/-- The tokens of an expression at any level are read back, in the loop of the level as well as on their own. -/
structure Readable (e : Whole) : Prop where
  reads : ∀ level ≤ Parse.signLevel, ReadsAt e level
  loops : ∀ level < Parse.signLevel, LoopsAt e level

theorem Readable.of_atom (top : ReadsAt e Parse.signLevel) (same : ∀ i j, e.tokens i = e.tokens j)
    (none : ∀ level, e.spine level = 0) : Readable e := by
  have reads : ∀ level ≤ Parse.signLevel, ReadsAt e level :=
    fun level le => top.down (Nat.le_refl _) le fun i _ _ => same i (i + 1)
  exact ⟨reads, fun level less => (reads (level + 1) less).loops less (same _ _) (none level)⟩

theorem Readable.op (hl : Readable l) (hr : Readable r) : Readable (.op o l r) := by
  have own : LoopsAt (.op o l r) o.level := .op (hl.loops _ o.level_lt) (hr.reads _ o.level_lt)
  have below : ∀ level ≤ o.level, ReadsAt (.op o l r) level := fun level le =>
    (own.reads o.level_lt).down (Nat.le_of_lt o.level_lt) le fun i _ less => Whole.tokens_succ (by omega) l r
  have above : ∀ level ≤ Parse.signLevel, o.level < level → ReadsAt (.op o l r) level := fun level le less =>
    (below 0 (Nat.zero_le _)).enclosed.down (Nat.le_refl _) le fun i low _ => Whole.tokens_succ (by omega) l r
  have reads : ∀ level ≤ Parse.signLevel, ReadsAt (.op o l r) level := by
    intro level le
    rcases Nat.lt_or_ge o.level level with less | ge
    · exact above level le less
    · exact below level ge
  refine ⟨reads, fun level less => ?_⟩
  by_cases same : o.level = level
  · subst same
    exact own
  · refine (reads (level + 1) less).loops less (Whole.tokens_succ same l r) ?_
    rw [Whole.spine, if_neg same]

theorem Whole.readable (e : Whole) : Readable e := by
  induction e with
  | numeral n => exact .of_atom (readsAt_numeral n) (fun _ _ => rfl) fun _ => rfl
  | named x => exact .of_atom (readsAt_named x) (fun _ _ => rfl) fun _ => rfl
  | op o l r ihl ihr => exact .op ihl ihr

/-! ## Chains of comparisons -/

theorem stops_restTokens (rest : List (WholeTest × Whole)) : Stops 0 (WholeChain.restTokens rest) := by
  cases rest with
  | nil => exact .done
  | cons p rest => exact .test p.1 _

theorem compareOp?_test (t : WholeTest) (ts : List Token) :
    Parse.compareOp? (.sym t.sym :: ts) = some (t.compareOp, ts) := by cases t <;> rfl

theorem compareRest_restTokens {rest : List (WholeTest × Whole)}
    (enough : 20 * (WholeChain.restTokens rest).length + 7 ≤ n) :
    Parse.compareRest n (WholeChain.restTokens rest) = some (WholeChain.comparisons rest, []) := by
  induction rest generalizing n with
  | nil =>
    obtain ⟨n, rfl⟩ : ∃ k, n = k + 1 := ⟨n - 1, by omega⟩
    rw [Parse.compareRest]
    rfl
  | cons p rest ih =>
    obtain ⟨t, e⟩ := p
    have six : Parse.signLevel = 6 := rfl
    have tokens : WholeChain.restTokens ((t, e) :: rest) = .sym t.sym :: (e.tokens 0 ++ WholeChain.restTokens rest) := rfl
    rw [tokens, length_cons, length_append] at enough
    obtain ⟨n, rfl⟩ : ∃ k, n = k + 1 := ⟨n - 1, by omega⟩
    have operand := e.readable.reads 0 (Nat.zero_le _) n (WholeChain.restTokens rest) (by omega) (stops_restTokens rest)
    rw [tokens, Parse.compareRest, compareOp?_test]
    dsimp only
    rw [operand, Option.bind_some, ih (by omega), e.expr_parsed]
    rfl

def WholeChain.parsed (c : WholeChain) : Parse.Parsed := if c.rest.isEmpty then c.first.parsed else .of c.tree

theorem WholeChain.expr_parsed (c : WholeChain) : c.parsed.expr = c.tree := by
  unfold WholeChain.parsed WholeChain.tree
  split
  · exact c.first.expr_parsed
  · rfl

theorem inversion_tokens (c : WholeChain) (enough : 20 * c.tokens.length + 8 ≤ n) :
    Parse.inversion n c.tokens = some (c.parsed, []) := by
  obtain ⟨first, rest⟩ := c
  have six : Parse.signLevel = 6 := rfl
  have tokens : WholeChain.tokens ⟨first, rest⟩ = first.tokens 0 ++ WholeChain.restTokens rest := rfl
  have opens := first.opens 0 ((stops_restTokens rest).mono (Nat.zero_le Parse.signLevel))
  rw [tokens, length_append] at enough
  obtain ⟨n, rfl⟩ : ∃ k, n = k + 1 := ⟨n - 1, by omega⟩
  have operand := first.readable.reads 0 (Nat.zero_le _) n (WholeChain.restTokens rest) (by omega) (stops_restTokens rest)
  rw [tokens, Parse.inversion, operand, Option.bind_some]
  · dsimp only
    rw [compareRest_restTokens (by omega), first.expr_parsed]
    cases rest <;> rfl
  · exact opens.ne_word (by decide)

theorem expressions_tokens (c : WholeChain) (enough : 20 * c.tokens.length + 11 ≤ n) :
    Parse.expressions n c.tokens = some (c.tree, []) := by
  have opens : Opens c.tokens := c.first.opens 0 ((stops_restTokens c.rest).mono (Nat.zero_le Parse.signLevel))
  have stops : Stops 0 [] := .done
  obtain ⟨n, rfl⟩ : ∃ k, n = k + 3 := ⟨n - 3, by omega⟩
  have whole : Parse.expression (n + 3) c.tokens = some (c.parsed, []) :=
    expression_of opens (disjunction_of (conjunction_of (inversion_tokens c (by omega)) stops) stops) stops
  rw [Parse.expressions, whole, Option.bind_some, ← c.expr_parsed]

end LineScript.Expr
