
import LineScript.Proofs.TreeNames

/-!
# Expressions without a value

Many expressions can be read and never have a value, whatever the variables are. The tokens in front can settle it: after a
sign, an opening bracket, or a number with an opening parenthesis right after it, no way to go on gives a value.
-/

namespace LineScript.Expr

open Value

variable {α β : Type}

/-! ## Computations that fail -/

def Fails (x : Eval α) : Prop := ∀ store a, (x.run.run store).1 ≠ .ok a

theorem fails_throw (f : Fault) : Fails (throw f : Eval α) := nofun

theorem fails_bind (x : Eval α) {k : α → Eval β} (h : ∀ a, Fails (k a)) : Fails (x >>= k) := by
  intro store b
  rw [ExceptT.run_bind, StateT.run_bind]
  rcases StateT.run (ExceptT.run x) store with ⟨f | a, t⟩
  · exact nofun
  · exact h a t b

theorem Fails.bind {x : Eval α} (h : Fails x) (k : α → Eval β) : Fails (x >>= k) := by
  intro store b
  rw [ExceptT.run_bind, StateT.run_bind]
  rcases ran : StateT.run (ExceptT.run x) store with ⟨f | a, t⟩
  · exact nofun
  · exact absurd (congrArg Prod.fst ran) (h store a)

/-- A fault told in other words is still a fault. -/
theorem Fails.reworded {x : Eval α} (h : Fails x) (words : Fault → Fault) : Fails (tryCatch x fun f => throw (words f)) := by
  intro store b
  rw [ExceptT.run_tryCatch, StateT.run_bind]
  rcases ran : StateT.run (ExceptT.run x) store with ⟨f | a, t⟩
  · exact nofun
  · exact absurd (congrArg Prod.fst ran) (h store a)

/-! ## Trees -/

def Valueless (e : Expr) : Prop := ∀ env, Fails (eval env e)

theorem valueless_other (form : Form) : Valueless (.other form) := by
  intro env
  exact fails_throw _

/-- No literal can be called. The arguments are evaluated first, so one of them may fail before that. -/
theorem valueless_call_literal (v : Literal) (args : List Expr) (kwargs : List (Option String × Expr)) :
    Valueless (.call (.literal v) args kwargs) := by
  intro env
  have plain : v.value.isCallable = false := by cases v <;> rfl
  show Fails (evalAll env args >>= fun args => evalKeywords env kwargs >>= fun kwargs => applyTo v.value args kwargs)
  refine fails_bind _ fun args => fails_bind _ fun kwargs => ?_
  unfold applyTo
  rw [plain]
  exact fails_bind _ fun store => fails_bind _ fun shown => (fails_throw _).bind _

namespace Valueless

variable {e : Expr} (h : Valueless e)

include h

theorem member (x : String) : Valueless (.attribute e x) := by
  intro env
  exact (h env).bind _

theorem call (args : List Expr) (kwargs : List (Option String × Expr)) : Valueless (.call e args kwargs) := by
  intro env
  exact (h env).bind _

theorem binary (op : BinOp) (r : Expr) : Valueless (.binary op e r) := by
  intro env
  exact (h env).bind _

theorem compare (rest : List (CompareOp × Expr)) : Valueless (.compare e rest) := by
  intro env
  exact (h env).bind _

end Valueless

/-! ## Reading -/

namespace Parse

variable {ts : List Token} {a : Parsed}

def Barren (r : Parsed × List Token) : Prop := Valueless r.1.expr

theorem gives_anything {α : Type} (x : Option α) : Gives (fun _ => True) x := fun _ _ => trivial

/-- Nothing that follows an operand without a value gives it one. -/
theorem trailers_barren (h : Valueless a.expr) (m : Nat) : Gives Barren (trailers m a ts) := by
  induction m using Nat.strongRecOn generalizing a ts with
  | ind m ih =>
    unfold trailers
    split
    · exact .none
    · exact .ite .none (ih _ (Nat.lt_succ_self _) (h.member _))
    · refine (gives_anything _).bind fun r _ => ?_
      exact ih _ (Nat.lt_succ_self _) (h.call r.1.1 r.1.2)
    · refine (gives_anything _).bind fun r _ => ?_
      exact ih _ (Nat.lt_succ_self _) (valueless_other _)
    · exact .none
    · exact .some h

theorem binaryRest_barren (h : Valueless a.expr) (level m : Nat) : Gives Barren (binaryRest m level a ts) := by
  induction m using Nat.strongRecOn generalizing a ts with
  | ind m ih =>
    unfold binaryRest
    split
    · exact .none
    · split
      · refine (gives_anything _).bind fun r _ => ?_
        exact ih _ (Nat.lt_succ_self _) (h.binary _ r.1.expr)
      · exact .some h
    · exact .some h

/-- A list is a form that has no meaning. -/
theorem bracketed_barren (m : Nat) : Gives Barren (bracketed m ts) := by
  have items : ∀ n, Gives Barren ((items n .rbrack ts).map fun r => (⟨.other .list, r.1⟩, r.2)) := by
    intro n
    exact (gives_anything _).map fun _ _ => valueless_other .list
  unfold bracketed
  split
  · exact .none
  · exact .some (valueless_other .list)
  · split
    · exact items _
    · refine .ite ?_ (items _)
      split
      · exact .some (valueless_other .listComp)
      · exact .none
    · exact .none

/-- Tokens that no expression with a value starts with. -/
structure Doomed (ts : List Token) : Prop where
  wordless : ∀ w rest, ts ≠ .word w :: rest
  primary : ∀ m, Gives Barren (primary m ts)

/-- Symbols that an operand with a value can start with. -/
def startsOperand (s : Sym) : Bool := s = .ellipsis || s = .lparen || s = .lbrace

theorem doomed_sym {s : Sym} (other : startsOperand s = false) (ts : List Token) : Doomed (.sym s :: ts) where
  wordless _ _ same := by cases same
  primary m := by
    have atom : ∀ n, Gives Barren (atom n (.sym s :: ts)) := by
      intro n
      cases n with
      | zero =>
        unfold Parse.atom
        exact .none
      | succ n =>
        unfold Parse.atom
        cases s with
        | lbrack => exact bracketed_barren n
        | ellipsis | lparen | lbrace => exact absurd other (by decide)
        | _ => exact .none
    unfold Parse.primary
    split
    · exact .none
    · exact (atom _).bind fun r hr => trailers_barren hr _

theorem doomed_call (v : Literal) (ts : List Token) : Doomed (.number v :: .sym .lparen :: ts) where
  wordless _ _ same := by cases same
  primary m := by
    unfold Parse.primary
    split
    · exact .none
    · rename_i n
      cases n with
      | zero =>
        unfold Parse.atom
        exact .none
      | succ n =>
        rw [Parse.atom, Option.bind_some]
        dsimp only
        rw [trailers]
        refine (gives_anything _).bind fun r _ => ?_
        exact trailers_barren (valueless_call_literal v r.1.1 r.1.2) n

namespace Doomed

variable (h : Doomed ts)

include h

variable (m : Nat)

theorem awaited : Gives Barren (awaited m ts) := by
  unfold Parse.awaited
  split
  · exact .none
  · exact absurd rfl (h.wordless _ _)
  · exact h.primary _

theorem factor : Gives Barren (factor m ts) := by
  unfold Parse.factor
  split
  · exact .none
  case h_2 | h_3 | h_4 => exact (gives_anything _).map fun _ _ => valueless_other .unaryOp
  · refine (h.awaited _).bind fun a ha => ?_
    split
    split
    · exact (gives_anything _).map fun b _ => Valueless.binary ha .pow b.1.expr
    · exact .some ha

theorem binary (m level : Nat) : Gives Barren (binary m level ts) := by
  induction m using Nat.strongRecOn generalizing level with
  | ind m ih =>
    unfold Parse.binary
    split
    · exact .none
    · refine .ite ?_ (h.factor _)
      exact (ih _ (Nat.lt_succ_self _) _).bind fun a ha => binaryRest_barren ha _ _

theorem inversion : Gives Barren (inversion m ts) := by
  unfold Parse.inversion
  split
  · exact .none
  · exact absurd rfl (h.wordless _ _)
  · refine (h.binary _ 0).bind fun a ha => (gives_anything _).map fun rest _ => ?_
    dsimp only
    split
    · exact ha
    · exact Valueless.compare ha rest.1

theorem conjunction : Gives Barren (conjunction m ts) := by
  unfold Parse.conjunction
  split
  · exact .none
  · refine (h.inversion _).bind fun a ha => ?_
    split
    split
    · exact (gives_anything _).map fun _ _ => valueless_other .boolOp
    · exact .some ha

theorem disjunction : Gives Barren (disjunction m ts) := by
  unfold Parse.disjunction
  split
  · exact .none
  · refine (h.conjunction _).bind fun a ha => ?_
    split
    split
    · exact (gives_anything _).map fun _ _ => valueless_other .boolOp
    · exact .some ha

theorem expression : Gives Barren (expression m ts) := by
  unfold Parse.expression
  split
  · exact .none
  · exact absurd rfl (h.wordless _ _)
  · refine (h.disjunction _).bind fun a ha => ?_
    split
    split
    · split
      · exact (gives_anything _).map fun _ _ => valueless_other .ifExp
      · exact .some ha
    · exact .some ha

theorem expressions : Gives (fun r => Valueless r.1) (expressions m ts) := by
  refine (h.expression m).bind fun a ha => ?_
  split
  split
  · exact (gives_anything _).map fun _ _ => valueless_other .tuple
  · exact .some ha

end Doomed

end Parse

/-- A text has no value if its tokens start like no expression with a value. -/
theorem fails_evaluate {s : List Char} (h : ∀ ts, lex (respell s) = some ts → Parse.Doomed ts) (env : Env) :
    Fails (evaluate env s) := by
  refine Fails.reworded ?_ _
  unfold readAndEval
  split
  · rename_i e read
    obtain ⟨ts, cut, read⟩ := Option.bind_eq_some_iff.mp read
    split at read
    · rename_i e' rest tree
      have barren := (h ts cut).expressions _ _ tree
      split at read
      · cases read
        exact barren env
      · cases read
    · cases read
  · exact fails_throw _

end LineScript.Expr
