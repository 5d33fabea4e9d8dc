
import LineScript.Expr.Eval
import Mathlib.Algebra.Group.Nat.Defs

/-!
# Arithmetic on whole numbers

Expressions of whole numbers and variables that stand for them, and chains of comparisons between such. Each has a meaning on
the unbounded integers, which fails just if a divisor is zero, and a text with parentheses only where the operators need
them.
-/

namespace LineScript.Expr

open Value List

variable {b a : Int} {e : Whole} {c : WholeChain}

/-! ## Expressions -/

inductive WholeOp where
  | add | sub | mul | floorDiv | mod
  deriving DecidableEq

def WholeOp.level : WholeOp → Nat
  | .add | .sub => 4
  | .mul | .floorDiv | .mod => 5

def WholeOp.sym : WholeOp → Sym
  | .add => .plus
  | .sub => .minus
  | .mul => .star
  | .floorDiv => .floorDiv
  | .mod => .percent

def WholeOp.binOp : WholeOp → BinOp
  | .add => .add
  | .sub => .sub
  | .mul => .mult
  | .floorDiv => .floorDiv
  | .mod => .mod

def WholeOp.apply : WholeOp → Int → Int → Int
  | .add, a, b => a + b
  | .sub, a, b => a - b
  | .mul, a, b => a * b
  | .floorDiv, a, b => a.fdiv b
  | .mod, a, b => a.fmod b

def WholeOp.divides : WholeOp → Bool
  | .floorDiv | .mod => true
  | _ => false

inductive WholeTest where
  | lt | le | gt | ge | eq | ne
  deriving DecidableEq

def WholeTest.sym : WholeTest → Sym
  | .lt => .lt
  | .le => .ltE
  | .gt => .gt
  | .ge => .gtE
  | .eq => .eqEq
  | .ne => .notEq

def WholeTest.compareOp : WholeTest → CompareOp
  | .lt => .lt
  | .le => .ltE
  | .gt => .gt
  | .ge => .gtE
  | .eq => .eq
  | .ne => .notEq

def WholeTest.holds : WholeTest → Int → Int → Bool
  | .lt, a, b => a < b
  | .le, a, b => a ≤ b
  | .gt, a, b => b < a
  | .ge, a, b => b ≤ a
  | .eq, a, b => a = b
  | .ne, a, b => a ≠ b

structure Numeral where
  value : Nat
  short : value < 10 ^ Number.maxDigits

structure Identifier where
  name : String
  solid : ∀ c ∈ name.toList, c.isAlphanum = true
  start : name.toList.head?.any Char.isAlpha = true
  free : isKeyword name = false

theorem Identifier.exists_letter (x : Identifier) : ∃ c cs, x.name.toList = c :: cs ∧ c.isAlpha := by
  have start := x.start
  cases shape : x.name.toList with
  | nil =>
    rw [shape] at start
    cases start
  | cons c cs =>
    rw [shape] at start
    exact ⟨c, cs, rfl, start⟩

inductive Whole where
  | numeral (n : Numeral)
  | named (x : Identifier)
  | op (o : WholeOp) (l r : Whole)

structure WholeChain where
  first : Whole
  rest : List (WholeTest × Whole)

/-! ## Meaning -/

namespace Whole

def value (env : String → Int) : Whole → Int
  | .numeral n => n.value
  | .named x => env x.name
  | .op o l r => o.apply (l.value env) (r.value env)

def divisors : Whole → List Whole
  | .numeral _ | .named _ => []
  | .op o l r => l.divisors ++ r.divisors ++ (if o.divides then [r] else [])

def names : Whole → List String
  | .numeral _ => []
  | .named x => [x.name]
  | .op _ l r => l.names ++ r.names

def tree : Whole → Expr
  | .numeral n => .literal (.int n.value)
  | .named x => .name x.name
  | .op o l r => .binary o.binOp l.tree r.tree

end Whole

namespace WholeChain

/-- Each comparison holds between its neighbours. -/
def holdsFrom (env : String → Int) (l : Whole) : List (WholeTest × Whole) → Bool
  | [] => true
  | (t, r) :: rest => t.holds (l.value env) (r.value env) && holdsFrom env r rest

def result (env : String → Int) (c : WholeChain) : Value :=
  if c.rest.isEmpty then .int (c.first.value env) else .bool (holdsFrom env c.first c.rest)

def divisors (c : WholeChain) : List Whole := c.first.divisors ++ c.rest.flatMap fun p => p.2.divisors

def names (c : WholeChain) : List String := c.first.names ++ c.rest.flatMap fun p => p.2.names

def comparisons (rest : List (WholeTest × Whole)) : List (CompareOp × Expr) := rest.map fun p => (p.1.compareOp, p.2.tree)

def tree (c : WholeChain) : Expr :=
  if c.rest.isEmpty then c.first.tree else .compare c.first.tree (comparisons c.rest)

end WholeChain

/-! ## Text -/

/-- The tokens of an expression that stands where operators bind at least as tightly as a level says. -/
def Whole.tokens (level : Nat) : Whole → List Token
  | .numeral n => [.number (.int n.value)]
  | .named x => [.word x.name]
  | .op o l r =>
    let inside := l.tokens o.level ++ .sym o.sym :: r.tokens (o.level + 1)
    if o.level < level then .sym .lparen :: inside ++ [.sym .rparen] else inside

def Whole.nesting (level : Nat) : Whole → Nat
  | .numeral _ | .named _ => 0
  | .op o l r =>
    max (l.nesting o.level) (r.nesting (o.level + 1)) + (if o.level < level then 1 else 0)

def WholeChain.restTokens (rest : List (WholeTest × Whole)) : List Token :=
  rest.flatMap fun p => .sym p.1.sym :: p.2.tokens 0

def WholeChain.tokens (c : WholeChain) : List Token := c.first.tokens 0 ++ restTokens c.rest

def WholeChain.Shallow (c : WholeChain) : Prop :=
  c.first.nesting 0 ≤ maxNesting ∧ ∀ p ∈ c.rest, p.2.nesting 0 ≤ maxNesting

def Sym.text : Sym → List Char
  | .lparen => ['(']
  | .rparen => [')']
  | .plus => ['+']
  | .minus => ['-']
  | .star => ['*']
  | .floorDiv => ['/', '/']
  | .percent => ['%']
  | .lt => ['<']
  | .ltE => ['<', '=']
  | .gt => ['>']
  | .gtE => ['>', '=']
  | .eqEq => ['=', '=']
  | .notEq => ['!', '=']
  | _ => []

def Token.text : Token → List Char
  | .number (.int n) => Number.decimalText n
  | .word w => w.toList
  | .sym s => s.text
  | _ => []

/-- Pieces of text one after the other, each followed by as many blanks as its number says. -/
def spread : List Nat → List (List Char) → List Char
  | _, [] => []
  | gaps, piece :: rest => piece ++ (List.replicate (gaps.headD 0) ' ' ++ spread gaps.tail rest)

def WholeChain.text (gaps : List Nat) (c : WholeChain) : List Char := spread gaps (c.tokens.map Token.text)

/-! ## Evaluation -/

def Stand (vars : Env) (env : String → Int) (names : List String) : Prop :=
  ∀ x ∈ names, vars.find? x = some (.int (env x))

theorem floorDivNum_ints (f : Fault) (h : b ≠ 0) : floorDivNum f (.ints a b) = .ok (.int (a.fdiv b)) :=
  if_neg h

theorem modNum_ints (f : Fault) (h : b ≠ 0) : modNum f (.ints a b) = .ok (.int (a.fmod b)) := if_neg h

theorem apply_int (o : WholeOp) (h : o.divides → b ≠ 0) : o.binOp.apply (.int a) (.int b) = pure (.int (o.apply a b)) := by
  cases o with
  | add => rfl
  | sub => rfl
  | mul => rfl
  | floorDiv => exact congrArg liftM (floorDivNum_ints (unsupported "//" (.int a) (.int b)) (h rfl))
  | mod => exact congrArg liftM (modNum_ints (unsupported "%" (.int a) (.int b)) (h rfl))

theorem apply_zero {o : WholeOp} (h : o.divides) (a : Int) : ∃ f, o.binOp.apply (.int a) (.int 0) = throw f := by
  cases o with
  | floorDiv => exact ⟨zeroDivision "integer division or modulo by zero", rfl⟩
  | mod => exact ⟨zeroDivision "integer modulo by zero", rfl⟩
  | _ => cases h

/-- The comparison that a test makes, by the order of its operands. -/
def WholeTest.ofOrdering : WholeTest → Ordering → Bool
  | .lt, o => o == .lt
  | .le, o => o != .gt
  | .gt, o => o == .gt
  | .ge, o => o != .lt
  | .eq, o => some o == some .eq
  | .ne, o => !(some o == some .eq)

theorem ofOrdering_compare (t : WholeTest) (a b : Int) : t.ofOrdering (compareOfLessAndEq a b) = t.holds a b := by
  unfold compareOfLessAndEq
  rcases Int.lt_trichotomy a b with less | rfl | more
  · have other : a ≠ b := Int.ne_of_lt less
    have back : ¬ b < a := Int.lt_asymm less
    cases t <;> simp [WholeTest.ofOrdering, WholeTest.holds, less, other, Int.le_of_lt less]
  · cases t <;> simp [WholeTest.ofOrdering, WholeTest.holds]
  · have other : a ≠ b := (Int.ne_of_lt more).symm
    have back : ¬ a < b := Int.lt_asymm more
    cases t <;> simp [WholeTest.ofOrdering, WholeTest.holds, more, other, back, Int.le_of_lt more]

theorem compare_int (t : WholeTest) (a b : Int) : t.compareOp.apply (.int a) (.int b) = pure (t.holds a b) := by
  have ordered : t.compareOp.apply (.int a) (.int b) = pure (t.ofOrdering (compareOfLessAndEq a b)) := by
    cases t <;> rfl
  rw [ordered, ofOrdering_compare]

section

variable {vars : Env} {env : String → Int}

theorem eval_whole (stand : Stand vars env e.names) (defined : ∀ d ∈ e.divisors, d.value env ≠ 0) :
    eval vars e.tree = pure (.int (e.value env)) := by
  induction e with
  | numeral n => rfl
  | named x =>
    have found : vars.find? x.name = some (.int (env x.name)) := stand x.name (mem_singleton_self _)
    rw [Whole.tree, eval, lookup, found]
    rfl
  | op o l r ihl ihr =>
    have left := ihl (fun x hx => stand x (mem_append_left _ hx))
      fun d hd => defined d (mem_append_left _ (mem_append_left _ hd))
    have right := ihr (fun x hx => stand x (mem_append_right _ hx))
      fun d hd => defined d (mem_append_left _ (mem_append_right _ hd))
    have nonzero : o.divides → r.value env ≠ 0 := by
      intro divides
      refine defined r (mem_append_right _ ?_)
      rw [if_pos divides]
      exact mem_singleton_self r
    rw [Whole.tree, eval, left, pure_bind, right, pure_bind, apply_int o nonzero]
    rfl

/-- It fails if one is zero: the first such, from the left and from the inside, is met after operands that have their
values. -/
theorem eval_whole_fails (stand : Stand vars env e.names) (zero : ∃ d ∈ e.divisors, d.value env = 0) :
    ∃ f, eval vars e.tree = throw f := by
  induction e with
  | numeral | named =>
    obtain ⟨d, mem, -⟩ := zero
    cases mem
  | op o l r ihl ihr =>
    have standl : Stand vars env l.names := fun x hx => stand x (mem_append_left _ hx)
    have standr : Stand vars env r.names := fun x hx => stand x (mem_append_right _ hx)
    rw [Whole.tree, eval]
    -- operands are evaluated from the left, each only if those before it have values
    by_cases zerol : ∃ d ∈ l.divisors, d.value env = 0
    · obtain ⟨f, fails⟩ := ihl standl zerol
      exact ⟨f, by rw [fails, ExceptT.bind_throw]⟩
    rw [eval_whole standl fun d hd z => zerol ⟨d, hd, z⟩, pure_bind]
    by_cases zeror : ∃ d ∈ r.divisors, d.value env = 0
    · obtain ⟨f, fails⟩ := ihr standr zeror
      exact ⟨f, by rw [fails, ExceptT.bind_throw]⟩
    rw [eval_whole standr fun d hd z => zeror ⟨d, hd, z⟩]
    obtain ⟨d, mem, zero⟩ := zero
    rw [Whole.divisors, mem_append, mem_append] at mem
    rcases mem with (mem | mem) | mem
    · exact absurd ⟨d, mem, zero⟩ zerol
    · exact absurd ⟨d, mem, zero⟩ zeror
    · by_cases divides : o.divides
      · rw [if_pos divides, mem_singleton] at mem
        rw [← mem, zero]
        exact apply_zero divides _
      · rw [if_neg divides] at mem
        cases mem

theorem isOrder_compareOp (t : WholeTest) : t.compareOp.isOrder := by cases t <;> rfl

/-- One comparison of a chain. The chain goes on with the right operand, whether it holds or not. -/
theorem evalChain_cons (held : Bool) (a : Int) (t : WholeTest) {r : Expr} (right : eval vars r = pure (.int b))
    (rest : List (CompareOp × Expr)) :
    evalChain vars held (.int a) ((t.compareOp, r) :: rest) = evalChain vars (held && t.holds a b) (.int b) rest := by
  rw [evalChain, right, pure_bind]
  cases held with
  | false => rw [isOrder_compareOp, if_neg (by decide), pure_bind, Bool.false_and]
  | true => rw [if_pos (by rfl), compare_int, pure_bind, Bool.true_and]

/-- A chain that has held so far holds if the rest of it does. -/
theorem evalChain_whole (held : Bool) (l : Whole) (rest : List (WholeTest × Whole))
    (stand : ∀ p ∈ rest, Stand vars env p.2.names) (defined : ∀ p ∈ rest, ∀ d ∈ p.2.divisors, d.value env ≠ 0) :
    evalChain vars held (.int (l.value env)) (WholeChain.comparisons rest) =
      pure (.bool (held && WholeChain.holdsFrom env l rest)) := by
  induction rest generalizing held l with
  | nil =>
    rw [WholeChain.holdsFrom, Bool.and_true]
    rfl
  | cons p rest ih =>
    obtain ⟨t, r⟩ := p
    have right := eval_whole (stand (t, r) mem_cons_self) (defined (t, r) mem_cons_self)
    have others := ih (held && t.holds (l.value env) (r.value env)) r
      (fun p hp => stand p (mem_cons_of_mem _ hp)) fun p hp => defined p (mem_cons_of_mem _ hp)
    rw [WholeChain.comparisons, map_cons, evalChain_cons held _ t right, WholeChain.holdsFrom, ← Bool.and_assoc]
    exact others

/-- Every operand of a chain is evaluated, also after a comparison that does not hold. -/
theorem evalChain_fails (held : Bool) (a : Int) {rest : List (WholeTest × Whole)}
    (stand : ∀ p ∈ rest, Stand vars env p.2.names) (zero : ∃ p ∈ rest, ∃ d ∈ p.2.divisors, d.value env = 0) :
    ∃ f, evalChain vars held (.int a) (WholeChain.comparisons rest) = throw f := by
  induction rest generalizing held a with
  | nil =>
    obtain ⟨p, mem, -⟩ := zero
    cases mem
  | cons p rest ih =>
    obtain ⟨t, r⟩ := p
    have standr : Stand vars env r.names := stand (t, r) mem_cons_self
    by_cases zeror : ∃ d ∈ r.divisors, d.value env = 0
    · obtain ⟨f, fails⟩ := eval_whole_fails standr zeror
      refine ⟨f, ?_⟩
      rw [WholeChain.comparisons, map_cons, evalChain, fails, ExceptT.bind_throw]
    · have right := eval_whole standr fun d hd z => zeror ⟨d, hd, z⟩
      rw [WholeChain.comparisons, map_cons, evalChain_cons held a t right]
      obtain ⟨p, mem, zero⟩ := zero
      rcases mem_cons.mp mem with rfl | mem
      · exact absurd zero zeror
      · exact ih _ _ (fun p hp => stand p (mem_cons_of_mem _ hp)) ⟨p, mem, zero⟩

theorem eval_chain (stand : Stand vars env c.names) (defined : ∀ d ∈ c.divisors, d.value env ≠ 0) :
    eval vars c.tree = pure (c.result env) := by
  obtain ⟨first, rest⟩ := c
  have left := eval_whole (fun x hx => stand x (mem_append_left _ hx))
    fun d hd => defined d (mem_append_left _ hd)
  cases rest with
  | nil => exact left
  | cons p rest =>
    have compared := evalChain_whole true first (p :: rest)
      (fun q hq x hx => stand x (mem_append_right _ (mem_flatMap.mpr ⟨q, hq, hx⟩)))
      fun q hq d hd => defined d (mem_append_right _ (mem_flatMap.mpr ⟨q, hq, hd⟩))
    show eval vars (.compare first.tree _) = _
    rw [eval, left, pure_bind, compared]
    rfl

theorem eval_chain_fails (stand : Stand vars env c.names) (zero : ∃ d ∈ c.divisors, d.value env = 0) :
    ∃ f, eval vars c.tree = throw f := by
  obtain ⟨first, rest⟩ := c
  have standFirst : Stand vars env first.names := fun x hx => stand x (mem_append_left _ hx)
  have standRest : ∀ p ∈ rest, Stand vars env p.2.names :=
    fun p hp x hx => stand x (mem_append_right _ (mem_flatMap.mpr ⟨p, hp, hx⟩))
  by_cases zeroFirst : ∃ d ∈ first.divisors, d.value env = 0
  · obtain ⟨f, fails⟩ := eval_whole_fails standFirst zeroFirst
    cases rest with
    | nil => exact ⟨f, fails⟩
    | cons p rest =>
      show ∃ f, eval vars (.compare first.tree _) = throw f
      rw [eval]
      exact ⟨f, by rw [fails, ExceptT.bind_throw]⟩
  · obtain ⟨d, mem, zero⟩ := zero
    rcases mem_append.mp mem with mem | mem
    · exact absurd ⟨d, mem, zero⟩ zeroFirst
    · obtain ⟨q, hq, mem⟩ := mem_flatMap.mp mem
      have fails := evalChain_fails true (first.value env) standRest ⟨q, hq, d, mem, zero⟩
      cases rest with
      | nil => cases hq
      | cons p rest =>
        show ∃ f, eval vars (.compare first.tree _) = throw f
        rwa [eval, eval_whole standFirst fun d hd z => zeroFirst ⟨d, hd, z⟩, pure_bind]

end

end LineScript.Expr
