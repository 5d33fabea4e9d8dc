
import LineScript.Expr.Eval
import LineScript.Proofs.TokenSource

/-!
# Names in expressions

An expression depends on the variables that it names and on no others. The names that stand in the tree of a text are
words among its tokens, and no keywords.
-/

namespace LineScript.Expr

open List

/-! ## Names of a tree -/

mutual

/-- The variables that the value of an expression can depend on. -/
def names : Expr → List String
  | .literal _ => []
  | .name x => [x]
  | .attribute e _ => names e
  | .call f args kwargs => names f ++ (namesOfAll args ++ namesOfKeywords kwargs)
  | .binary _ l r => names l ++ names r
  | .compare l rest => names l ++ namesOfChain rest
  | .other _ => []

def namesOfAll : List Expr → List String
  | [] => []
  | e :: es => names e ++ namesOfAll es

def namesOfKeywords : List (Option String × Expr) → List String
  | [] => []
  | (_, e) :: rest => names e ++ namesOfKeywords rest

def namesOfChain : List (CompareOp × Expr) → List String
  | [] => []
  | (_, e) :: rest => names e ++ namesOfChain rest

end

/-- Two tables of variables agree on names: each of them has one value, or none, in both. -/
def AgreeOn (xs : List String) (env env' : Env) : Prop := ∀ x ∈ xs, env.find? x = env'.find? x

section

variable {env env' : Env} {xs ys : List String}

theorem AgreeOn.left (h : AgreeOn (xs ++ ys) env env') : AgreeOn xs env env' :=
  fun x hx => h x (mem_append_left _ hx)

theorem AgreeOn.right (h : AgreeOn (xs ++ ys) env env') : AgreeOn ys env env' :=
  fun x hx => h x (mem_append_right _ hx)

mutual

theorem eval_congr : ∀ e : Expr, AgreeOn (names e) env env' → eval env e = eval env' e
  | .literal _, _ => rfl
  | .name x, h => by
      have same := h x mem_cons_self
      simp only [eval, lookup, same]
  | .attribute e x, h => by
      simp only [eval, eval_congr e h]
  | .call f args kwargs, h => by
      simp only [eval, eval_congr f h.left, evalAll_congr args h.right.left, evalKeywords_congr kwargs h.right.right]
  | .binary op l r, h => by
      simp only [eval, eval_congr l h.left, eval_congr r h.right]
  | .compare l rest, h => by
      simp only [eval, eval_congr l h.left, evalChain_congr rest h.right]
  | .other _, _ => rfl

theorem evalAll_congr : ∀ es : List Expr, AgreeOn (namesOfAll es) env env' → evalAll env es = evalAll env' es
  | [], _ => rfl
  | e :: es, h => by
      simp only [evalAll, eval_congr e h.left, evalAll_congr es h.right]

theorem evalKeywords_congr : ∀ kwargs : List (Option String × Expr), AgreeOn (namesOfKeywords kwargs) env env' →
    evalKeywords env kwargs = evalKeywords env' kwargs
  | [], _ => rfl
  | (k, e) :: rest, h => by
      simp only [evalKeywords, eval_congr e h.left, evalKeywords_congr rest h.right]

theorem evalChain_congr : ∀ rest : List (CompareOp × Expr), AgreeOn (namesOfChain rest) env env' →
    ∀ holds l, evalChain env holds l rest = evalChain env' holds l rest
  | [], _, _, _ => rfl
  | (op, e) :: rest, h, holds, l => by
      simp only [evalChain, eval_congr e h.left, evalChain_congr rest h.right]

end

end

/-! ## Names that reading takes from the tokens -/

namespace Parse

variable {P : String → Prop} {α : Type} {ts : List Token}

def Within (P : String → Prop) (ts : List Token) : Prop := ∀ w, Token.word w ∈ ts → isKeyword w = false → P w

theorem Within.tail {t : Token} (h : Within P (t :: ts)) : Within P ts := fun w hw => h w (mem_cons_of_mem _ hw)

theorem Within.compareOp? (h : Within P ts) : Gives (fun r => Within P r.2) (compareOp? ts) := by
  unfold Parse.compareOp?
  split
  all_goals first | exact .none | exact .some h.tail.tail | exact .some h.tail

theorem Within.takeStrings (h : Within P ts) : Within P (takeStrings ts).2 := by
  fun_induction Parse.takeStrings ts with
  | case1 p ts ps rest same ih =>
    have left := ih h.tail
    rw [same] at left
    exact left
  | case2 => exact h

/-- What is read names only what may be named, and so do the tokens that are left. -/
def Reads (names : α → List String) (P : String → Prop) (r : α × List Token) : Prop :=
  (∀ x ∈ names r.1, P x) ∧ Within P r.2

def Parsed.names (a : Parsed) : List String := Expr.names a.expr

def argumentNames (r : List Expr × List (Option String × Expr)) : List String := namesOfAll r.1 ++ namesOfKeywords r.2

/-- Reading an expression takes names from the tokens only. -/
abbrev Takes (P : String → Prop) (x : Rest Parsed) : Prop := Gives (Reads Parsed.names P) x

theorem reads_nothing {names : α → List String} {a : α} (none : names a = []) (h : Within P ts) : Reads names P (a, ts) := by
  refine ⟨fun x hx => ?_, h⟩
  rw [none] at hx
  cases hx

/-- Reading with so much fuel takes names from the tokens only, whatever is read. -/
structure Faithful (P : String → Prop) (n : Nat) : Prop where
  expression : ∀ {ts}, Within P ts → Takes P (expression n ts)
  lambdaParams : ∀ {ts}, Within P ts → ∀ st, Gives (Within P) (lambdaParams n st ts)
  disjunction : ∀ {ts}, Within P ts → Takes P (disjunction n ts)
  conjunction : ∀ {ts}, Within P ts → Takes P (conjunction n ts)
  inversion : ∀ {ts}, Within P ts → Takes P (inversion n ts)
  compareRest : ∀ {ts}, Within P ts → Gives (Reads namesOfChain P) (compareRest n ts)
  binary : ∀ {ts}, Within P ts → ∀ level, Takes P (binary n level ts)
  binaryRest : ∀ {ts a}, Reads Parsed.names P (a, ts) → ∀ level, Takes P (binaryRest n level a ts)
  factor : ∀ {ts}, Within P ts → Takes P (factor n ts)
  awaited : ∀ {ts}, Within P ts → Takes P (awaited n ts)
  primary : ∀ {ts}, Within P ts → Takes P (primary n ts)
  trailers : ∀ {ts a}, Reads Parsed.names P (a, ts) → Takes P (trailers n a ts)
  callArgs : ∀ {ts}, Within P ts → Gives (Reads argumentNames P) (callArgs n ts)
  arguments : ∀ {ts}, Within P ts → ∀ phase, Gives (Reads argumentNames P) (arguments n phase ts)
  named : ∀ {ts}, Within P ts → Takes P (named n ts)
  slices : ∀ {ts}, Within P ts → Gives (Within P) (slices n ts)
  sliceBounds : ∀ {ts}, Within P ts → ∀ k, Gives (Within P) (sliceBounds n k ts)
  clauses : ∀ {ts}, Within P ts → Gives (Within P) (clauses n ts)
  conditions : ∀ {ts}, Within P ts → Gives (Within P) (conditions n ts)
  targets : ∀ {ts}, Within P ts → Gives (Within P) (targets n ts)
  items : ∀ {ts}, Within P ts → ∀ close, Gives (fun r => Within P r.2) (items n close ts)
  itemsFrom : ∀ {ts}, Within P ts → ∀ close, Gives (fun r => Within P r.2) (itemsFrom n close ts)
  item : ∀ {ts}, Within P ts → Takes P (item n ts)
  pairs : ∀ {ts}, Within P ts → Gives (Within P) (pairs n ts)
  atom : ∀ {ts}, Within P ts → Takes P (atom n ts)
  parenthesised : ∀ {ts}, Within P ts → Takes P (parenthesised n ts)
  yielded : ∀ {ts}, Within P ts → Gives (Within P) (yielded n ts)
  bracketed : ∀ {ts}, Within P ts → Takes P (bracketed n ts)
  braced : ∀ {ts}, Within P ts → Takes P (braced n ts)

section

variable {m : Nat} (ih : ∀ {n}, m = n + 1 → Faithful P n) (h : Within P ts)

include ih h

theorem expression_step : Takes P (expression m ts) := by
  unfold expression
  split
  · exact .none
  · refine ((ih rfl).lambdaParams h.tail _).bind fun ts h => ?_
    exact ((ih rfl).expression h).map fun r hr => reads_nothing rfl hr.2
  · refine ((ih rfl).disjunction h).bind fun r hr => ?_
    split
    split
    · split
      · rename_i other
        have rest := (ih rfl).disjunction hr.2.tail _ other
        exact ((ih rfl).expression rest.2.tail).map fun r hr => reads_nothing rfl hr.2
      · exact .some hr
    · exact .some hr

theorem lambdaParams_step (st : LambdaState) : Gives (Within P) (lambdaParams m st ts) := by
  unfold lambdaParams
  split
  · exact .none
  · exact .ite .none (.some h.tail)
  · refine .ite .none ?_
    extract_lets next
    have hnext : ∀ {ts}, Within P ts → ∀ st, Gives (Within P) (next st ts) := by
      intro ts h st
      dsimp only [next]
      split
      · exact (ih rfl).lambdaParams h.tail st
      · exact .ite .none (.some h.tail)
      · exact .none
    split
    · exact .ite (hnext h.tail _) .none
    · exact .ite .none (hnext h.tail.tail _)
    · exact .ite .none (hnext h.tail.tail _)
    · exact .ite .none ((ih rfl).lambdaParams h.tail.tail _)
    · exact .ite .none (((ih rfl).expression h.tail.tail).bind fun r hr => hnext hr.2 _)
    · exact .ite .none (hnext h.tail _)
    · exact .none

theorem disjunction_step : Takes P (disjunction m ts) := by
  unfold disjunction
  split
  · exact .none
  · refine ((ih rfl).conjunction h).bind fun r hr => ?_
    split
    split
    · exact ((ih rfl).disjunction hr.2.tail).map fun r hr => reads_nothing rfl hr.2
    · exact .some hr

theorem conjunction_step : Takes P (conjunction m ts) := by
  unfold conjunction
  split
  · exact .none
  · refine ((ih rfl).inversion h).bind fun r hr => ?_
    split
    split
    · exact ((ih rfl).conjunction hr.2.tail).map fun r hr => reads_nothing rfl hr.2
    · exact .some hr

theorem inversion_step : Takes P (inversion m ts) := by
  unfold inversion
  split
  · exact .none
  · exact ((ih rfl).inversion h.tail).map fun r hr => reads_nothing rfl hr.2
  · refine ((ih rfl).binary h 0).bind fun a ha => ?_
    refine ((ih rfl).compareRest ha.2).map fun rest hrest => ⟨?_, hrest.2⟩
    dsimp only
    split
    · exact ha.1
    · exact forall_mem_append.mpr ⟨ha.1, hrest.1⟩

theorem compareRest_step : Gives (Reads namesOfChain P) (compareRest m ts) := by
  unfold compareRest
  split
  · exact .none
  · split
    · exact .some (reads_nothing rfl h)
    · rename_i op
      refine ((ih rfl).binary (h.compareOp? _ op) 0).bind fun b hb => ?_
      refine ((ih rfl).compareRest hb.2).map fun rest hrest => ⟨?_, hrest.2⟩
      exact forall_mem_append.mpr ⟨hb.1, hrest.1⟩

theorem binary_step (level : Nat) : Takes P (binary m level ts) := by
  unfold binary
  split
  · exact .none
  · refine .ite ?_ ((ih rfl).factor h)
    exact ((ih rfl).binary h _).bind fun a ha => (ih rfl).binaryRest ha _

omit h in
theorem binaryRest_step {a : Parsed} (h : Reads Parsed.names P (a, ts)) (level : Nat) :
    Takes P (binaryRest m level a ts) := by
  unfold binaryRest
  split
  · exact .none
  · split
    · rename_i op _
      refine ((ih rfl).binary h.2.tail _).bind fun b hb => ?_
      have both : Reads Parsed.names P (.of (.binary op a.expr b.1.expr), b.2) :=
        ⟨forall_mem_append.mpr ⟨h.1, hb.1⟩, hb.2⟩
      exact (ih rfl).binaryRest both level
    · exact .some h
  · exact .some h

theorem factor_step : Takes P (factor m ts) := by
  unfold factor
  split
  · exact .none
  case h_2 | h_3 | h_4 => exact ((ih rfl).factor h.tail).map fun r hr => reads_nothing rfl hr.2
  · refine ((ih rfl).awaited h).bind fun a ha => ?_
    split
    split
    · refine ((ih rfl).factor ha.2.tail).map fun b hb => ⟨?_, hb.2⟩
      exact forall_mem_append.mpr ⟨ha.1, hb.1⟩
    · exact .some ha

theorem awaited_step : Takes P (awaited m ts) := by
  unfold awaited
  split
  · exact .none
  · exact ((ih rfl).primary h.tail).map fun r hr => reads_nothing rfl hr.2
  · exact (ih rfl).primary h

theorem primary_step : Takes P (primary m ts) := by
  unfold primary
  split
  · exact .none
  · exact ((ih rfl).atom h).bind fun a ha => (ih rfl).trailers ha

omit h in
theorem trailers_step {a : Parsed} (h : Reads Parsed.names P (a, ts)) : Takes P (trailers m a ts) := by
  unfold trailers
  split
  · exact .none
  · exact .ite .none ((ih rfl).trailers ⟨h.1, h.2.tail.tail⟩)
  · refine ((ih rfl).callArgs h.2.tail).bind fun r hr => ?_
    exact (ih rfl).trailers ⟨forall_mem_append.mpr ⟨h.1, hr.1⟩, hr.2⟩
  · refine ((ih rfl).slices h.2.tail).bind fun ts h => ?_
    exact (ih rfl).trailers (reads_nothing rfl h)
  · exact .none
  · exact .some h

theorem callArgs_step : Gives (Reads argumentNames P) (callArgs m ts) := by
  unfold callArgs
  split
  · exact .none
  · split
    · rename_i first
      have rest := (ih rfl).named h _ first
      refine .ite ?_ ((ih rfl).arguments h 0)
      split
      · rename_i read
        have left := (ih rfl).clauses rest.2 _ read
        exact .some (reads_nothing rfl left.tail)
      · exact .none
    · exact (ih rfl).arguments h 0

theorem arguments_step (phase : Nat) : Gives (Reads argumentNames P) (arguments m phase ts) := by
  unfold arguments
  split
  · exact .none
  · exact .some (reads_nothing rfl h.tail)
  · extract_lets next
    have hnext : ∀ {ts}, Within P ts → ∀ phase, Gives (Reads argumentNames P) (next phase ts) := by
      intro ts h phase
      dsimp only [next]
      split
      · exact (ih rfl).arguments h.tail phase
      · exact .some (reads_nothing rfl h.tail)
      · exact .none
    split
    · refine .ite .none (((ih rfl).expression h.tail).bind fun e he => ?_)
      exact (hnext he.2 _).map fun r hr => hr
    · refine ((ih rfl).expression h.tail).bind fun e he => ?_
      refine (hnext he.2 _).map fun r hr => ⟨?_, hr.2⟩
      have parts := forall_mem_append.mp hr.1
      exact forall_mem_append.mpr ⟨parts.1, forall_mem_append.mpr ⟨he.1, parts.2⟩⟩
    · refine .ite .none (((ih rfl).expression h.tail.tail).bind fun e he => ?_)
      refine (hnext he.2 _).map fun r hr => ⟨?_, hr.2⟩
      have parts := forall_mem_append.mp hr.1
      exact forall_mem_append.mpr ⟨parts.1, forall_mem_append.mpr ⟨he.1, parts.2⟩⟩
    · refine .ite .none (((ih rfl).named h).bind fun e he => ?_)
      refine (hnext he.2 _).map fun r hr => ⟨?_, hr.2⟩
      have parts := forall_mem_append.mp hr.1
      exact forall_mem_append.mpr ⟨forall_mem_append.mpr ⟨he.1, parts.1⟩, parts.2⟩

theorem named_step : Takes P (named m ts) := by
  unfold named
  split
  · exact .none
  · refine .ite .none ?_
    exact ((ih rfl).expression h.tail.tail).map fun r hr => reads_nothing rfl hr.2
  · refine ((ih rfl).expression h).bind fun e he => ?_
    split
    split
    · exact .none
    · exact .some he

theorem slices_step : Gives (Within P) (slices m ts) := by
  unfold slices
  split
  · exact .none
  · extract_lets next
    have hnext : ∀ {ts}, Within P ts → Gives (Within P) (next ts) := by
      intro ts h
      dsimp only [next]
      split
      · exact .some h.tail
      · exact .some h.tail.tail
      · exact (ih rfl).slices h.tail
      · exact .none
    split
    · exact ((ih rfl).expression h.tail).bind fun e he => hnext he.2
    · exact ((ih rfl).sliceBounds h.tail 2).bind fun ts h => hnext h
    · refine ((ih rfl).named h).bind fun e he => ?_
      split
      split
      · exact .ite .none (((ih rfl).sliceBounds he.2.tail 2).bind fun ts h => hnext h)
      · exact hnext he.2

theorem sliceBounds_step (k : Nat) : Gives (Within P) (sliceBounds m k ts) := by
  unfold sliceBounds
  split
  · exact .none
  · exact .none
  · extract_lets next
    have hnext : ∀ {ts}, Within P ts → Gives (Within P) (next ts) := by
      intro ts h
      dsimp only [next]
      split
      · exact .ite .none ((ih rfl).sliceBounds h.tail _)
      · exact .some h
    split
    case h_4 => exact ((ih rfl).expression h).bind fun e he => hnext he.2
    all_goals exact hnext h

theorem clauses_step : Gives (Within P) (clauses m ts) := by
  unfold clauses
  split
  · exact .none
  · exact (ih rfl).clauses h.tail
  · refine ((ih rfl).targets h.tail).bind fun ts h => ?_
    refine ((ih rfl).disjunction h).bind fun r hr => ?_
    refine ((ih rfl).conditions hr.2).bind fun ts h => ?_
    exact .ite ((ih rfl).clauses h) (.some h)
  · exact .none

theorem conditions_step : Gives (Within P) (conditions m ts) := by
  unfold conditions
  split
  · exact .none
  · exact ((ih rfl).disjunction h.tail).bind fun r hr => (ih rfl).conditions hr.2
  · exact .some h

theorem targets_step : Gives (Within P) (targets m ts) := by
  unfold targets
  split
  · exact .none
  · extract_lets body
    have hbody : Within P body := by
      dsimp only [body]
      split
      · exact h.tail
      · exact h
    refine ((ih rfl).primary hbody).bind fun e he => ?_
    split
    refine .ite .none ?_
    split
    · exact .some he.2.tail
    · exact .some he.2.tail.tail
    · exact (ih rfl).targets he.2.tail
    · exact .none

theorem items_step (close : Sym) : Gives (fun r => Within P r.2) (items m close ts) := by
  unfold items
  split
  · exact .none
  · split
    · exact .ite (.some h.tail) ((ih rfl).itemsFrom h close)
    · exact (ih rfl).itemsFrom h close

theorem itemsFrom_step (close : Sym) : Gives (fun r => Within P r.2) (itemsFrom m close ts) := by
  unfold itemsFrom
  split
  · exact .none
  · refine ((ih rfl).item h).bind fun e he => ?_
    split
    split
    · exact ((ih rfl).items he.2.tail close).map fun r hr => hr
    · exact .ite (.some he.2.tail) .none
    · exact .none

theorem item_step : Takes P (item m ts) := by
  unfold item
  split
  · exact .none
  · exact ((ih rfl).binary h.tail 0).map fun e he => reads_nothing rfl he.2
  · exact (ih rfl).named h

theorem pairs_step : Gives (Within P) (pairs m ts) := by
  unfold pairs
  split
  · exact .none
  · exact .some h.tail
  · extract_lets next
    have hnext : ∀ {ts}, Within P ts → Gives (Within P) (next ts) := by
      intro ts h
      dsimp only [next]
      split
      · exact (ih rfl).pairs h.tail
      · exact .some h.tail
      · exact .none
    split
    · exact ((ih rfl).binary h.tail 0).bind fun e he => hnext he.2
    · refine ((ih rfl).expression h).bind fun e he => ?_
      split
      split
      · exact ((ih rfl).expression he.2.tail).bind fun r hr => hnext hr.2
      · exact .none

theorem atom_step : Takes P (atom m ts) := by
  unfold atom
  split
  · exact .none
  case h_2 | h_3 | h_4 | h_6 => exact .some (reads_nothing rfl h.tail)
  · rename_i w _ _ _ _
    split
    · exact .none
    · rename_i free
      refine .some ⟨fun x hx => ?_, h.tail⟩
      rw [mem_singleton.mp hx]
      exact h w mem_cons_self (eq_false_of_ne_true free)
  · have hrest := h.takeStrings
    split
    rename_i taken
    rw [taken] at hrest
    split
    · exact .none
    · exact .some (reads_nothing rfl hrest)
    · exact .ite (.some (reads_nothing rfl hrest)) .none
  · exact .some (reads_nothing rfl h.tail)
  · exact (ih rfl).parenthesised h.tail
  · exact (ih rfl).bracketed h.tail
  · exact (ih rfl).braced h.tail
  · exact .none

theorem parenthesised_step : Takes P (parenthesised m ts) := by
  unfold parenthesised
  split
  · exact .none
  · exact .some (reads_nothing rfl h.tail)
  · refine ((ih rfl).expression h.tail.tail).bind fun r hr => ?_
    split
    split
    · exact .some (reads_nothing rfl hr.2.tail)
    · exact .none
  · exact .some (reads_nothing rfl h.tail.tail)
  · refine ((ih rfl).yielded h.tail).bind fun ts h => ?_
    split
    · exact .some (reads_nothing rfl h.tail)
    · exact .none
  · refine ((ih rfl).item h).bind fun e he => ?_
    split
    dsimp only
    split
    · exact .ite .none (.some ⟨he.1, he.2.tail⟩)
    · exact ((ih rfl).items he.2.tail .rparen).map fun r hr => reads_nothing rfl hr
    · refine .ite .none (((ih rfl).clauses he.2).bind fun ts h => ?_)
      split
      · exact .some (reads_nothing rfl h.tail)
      · exact .none

theorem yielded_step : Gives (Within P) (yielded m ts) := by
  unfold yielded
  split
  · exact .none
  · extract_lets one
    have hone : Takes P one := by
      dsimp only [one]
      split
      · exact (ih rfl).binary h.tail 0
      · exact (ih rfl).expression h
    refine hone.bind fun r hr => ?_
    split
    split
    · exact .some hr.2.tail
    · exact (ih rfl).yielded hr.2.tail
    · exact .some hr.2

theorem bracketed_step : Takes P (bracketed m ts) := by
  unfold bracketed
  split
  · exact .none
  · exact .some (reads_nothing rfl h.tail)
  · have list := ((ih rfl).items h .rbrack).map (f := fun r => ((⟨.other .list, r.1⟩ : Parsed), r.2))
      (S := Reads Parsed.names P) fun r hr => reads_nothing rfl hr
    split
    · exact list
    · rename_i first
      have rest := (ih rfl).item h _ first
      refine .ite ?_ list
      split
      · rename_i read
        exact .some (reads_nothing rfl ((ih rfl).clauses rest.2 _ read).tail)
      · exact .none
    · exact .none

theorem braced_step : Takes P (braced m ts) := by
  unfold braced
  split
  · exact .none
  · exact .some (reads_nothing rfl h.tail)
  · exact ((ih rfl).pairs h).map fun ts h => reads_nothing rfl h
  · split
    · exact ((ih rfl).items h .rbrace).map fun r hr => reads_nothing rfl hr
    · rename_i first
      have rest := (ih rfl).item h _ first
      refine .ite .none ?_
      split
      · rename_i second
        have rest := (ih rfl).expression rest.2.tail _ second
        refine .ite ?_ (((ih rfl).pairs h).map fun ts h => reads_nothing rfl h)
        split
        · rename_i read
          exact .some (reads_nothing rfl ((ih rfl).clauses rest.2 _ read).tail)
        · exact .none
      · exact .none
    · rename_i first
      have rest := (ih rfl).item h _ first
      refine .ite ?_ (((ih rfl).items h .rbrace).map fun r hr => reads_nothing rfl hr)
      split
      · rename_i read
        exact .some (reads_nothing rfl ((ih rfl).clauses rest.2 _ read).tail)
      · exact .none
    · exact .none

omit h in
theorem faithful_step : Faithful P m where
  expression := expression_step ih
  lambdaParams := lambdaParams_step ih
  disjunction := disjunction_step ih
  conjunction := conjunction_step ih
  inversion := inversion_step ih
  compareRest := compareRest_step ih
  binary := binary_step ih
  binaryRest := binaryRest_step ih
  factor := factor_step ih
  awaited := awaited_step ih
  primary := primary_step ih
  trailers := trailers_step ih
  callArgs := callArgs_step ih
  arguments := arguments_step ih
  named := named_step ih
  slices := slices_step ih
  sliceBounds := sliceBounds_step ih
  clauses := clauses_step ih
  conditions := conditions_step ih
  targets := targets_step ih
  items := items_step ih
  itemsFrom := itemsFrom_step ih
  item := item_step ih
  pairs := pairs_step ih
  atom := atom_step ih
  parenthesised := parenthesised_step ih
  yielded := yielded_step ih
  bracketed := bracketed_step ih
  braced := braced_step ih

end

theorem faithful (P : String → Prop) (n : Nat) : Faithful P n := by
  induction n with
  | zero => exact faithful_step nofun
  | succ n ih => exact faithful_step fun h => Nat.succ.inj h ▸ ih

theorem expressions_names {n : Nat} (h : Within P ts) : Gives (fun r => ∀ x ∈ Expr.names r.1, P x) (expressions n ts) := by
  refine ((faithful P n).expression h).bind fun r hr => ?_
  split
  split
  · exact Gives.map (R := fun _ => True) (fun _ _ => trivial) fun _ _ x hx => by cases hx
  · exact .some hr.1

end Parse

/-- The names in the tree of a text are words among its tokens, and no keywords. -/
theorem words_of_parse {s : List Char} {e : Expr} (h : parse s = some e) :
    ∃ ts, lex s = some ts ∧ ∀ x ∈ names e, .word x ∈ ts ∧ isKeyword x = false := by
  obtain ⟨ts, cut, h⟩ := Option.bind_eq_some_iff.mp h
  refine ⟨ts, cut, ?_⟩
  split at h
  · rename_i read
    split at h
    · cases h
      exact Parse.expressions_names (fun w word free => ⟨word, free⟩) _ read
    · cases h
  · cases h

/-! ## Evaluating a text -/

/-- Evaluating a text depends on the variables only that are words among its tokens, once it has been respelled. -/
theorem evaluate_congr {env env' : Env} {s : List Char}
    (agree : ∀ ts, lex (respell s) = some ts → ∀ x, .word x ∈ ts → isKeyword x = false → env.find? x = env'.find? x) :
    evaluate env s = evaluate env' s := by
  unfold evaluate readAndEval
  cases read : parse (respell s) with
  | none => rfl
  | some e =>
    obtain ⟨ts, cut, words⟩ := words_of_parse read
    have same : AgreeOn (names e) env env' := fun x hx => agree ts cut x (words x hx).1 (words x hx).2
    dsimp only
    rw [eval_congr e same]

end LineScript.Expr
