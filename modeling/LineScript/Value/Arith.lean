import LineScript.Value.Basic
import LineScript.Number.Complex
import LineScript.Expr.Tree

/-!
# Arithmetic on values

Whole numbers are unbounded. A result takes the widest kind of its operands: whole, double precision,
complex. Texts, bytes, lists and tuples can be joined and repeated.
-/

namespace LineScript.Value

open Number

/-- The three kinds of numbers; truth values count as 0 and 1. -/
inductive Num where
  | int (n : Int)
  | float (x : Float)
  | complex (z : Number.Complex)

def num? : Value → Option Num
  | .bool b => some (.int (if b then 1 else 0))
  | .int n => some (.int n)
  | .float x => some (.float x)
  | .complex re im => some (.complex ⟨re, im⟩)
  | _ => Option.none

def ofComplex (z : Number.Complex) : Value := .complex z.re z.im

def intToFloat (n : Int) : Except Fault Float :=
  match ofInt? n with
  | some x => .ok x
  | none => .error .intTooLarge

/-- Two numbers of one kind. -/
inductive Pair where
  | ints (a b : Int)
  | floats (a b : Float)
  | complexes (a b : Number.Complex)

def Num.toFloat : Num → Except Fault Float
  | .int n => intToFloat n
  | .float x => .ok x
  | .complex z => .ok z.re

def Num.toComplex : Num → Except Fault Number.Complex
  | .int n => do return ⟨← intToFloat n, 0.0⟩
  | .float x => .ok ⟨x, 0.0⟩
  | .complex z => .ok z

def Num.unify : Num → Num → Except Fault Pair
  | .int a, .int b => .ok (.ints a b)
  | .complex a, b => do return .complexes a (← b.toComplex)
  | a, .complex b => do return .complexes (← a.toComplex) b
  | a, b => do return .floats (← a.toFloat) (← b.toFloat)

def zeroDivision (text : String) : Fault := .primitive .zeroDivision text

def addNum : Pair → Value
  | .ints a b => .int (a + b)
  | .floats a b => .float (a + b)
  | .complexes a b => ofComplex (a.add b)

def subNum : Pair → Value
  | .ints a b => .int (a - b)
  | .floats a b => .float (a - b)
  | .complexes a b => ofComplex (a.sub b)

def mulNum : Pair → Value
  | .ints a b => .int (a * b)
  | .floats a b => .float (a * b)
  | .complexes a b => ofComplex (a.mul b)

/-- Quotients. That of whole numbers has the sign of the divisor if the dividend is zero. -/
def divNum : Pair → Except Fault Value
  | .ints a b =>
    if b = 0 then .error (zeroDivision "division by zero")
    else
      let x := withSign ((a < 0) != (b < 0)) (ofRatio a.natAbs b.natAbs)
      if x.isInf then .error (.primitive .overflow "integer division result too large for a float")
      else .ok (.float x)
  | .floats a b =>
    if b == 0.0 then .error (zeroDivision "float division by zero") else .ok (.float (a / b))
  | .complexes a b =>
    match a.div? b with
    | some z => .ok (ofComplex z)
    | none => .error (zeroDivision "complex division by zero")

/-- Quotients are rounded down. Complex numbers have none. -/
def floorDivNum (unsupported : Fault) : Pair → Except Fault Value
  | .ints a b =>
    if b = 0 then .error (zeroDivision "integer division or modulo by zero") else .ok (.int (a.fdiv b))
  | .floats a b =>
    if b == 0.0 then .error (zeroDivision "float floor division by zero") else .ok (.float (floorDiv a b))
  | .complexes _ _ => .error unsupported

/-- Remainders take the sign of the divisor. Complex numbers have none. -/
def modNum (unsupported : Fault) : Pair → Except Fault Value
  | .ints a b =>
    if b = 0 then .error (zeroDivision "integer modulo by zero") else .ok (.int (a.fmod b))
  | .floats a b => if b == 0.0 then .error (zeroDivision "float modulo") else .ok (.float (floorMod a b))
  | .complexes _ _ => .error unsupported

def powComplex (a b : Number.Complex) : Except Fault Value :=
  match a.pow b with
  | .value z => .ok (ofComplex z)
  | .zeroToNegative => .error (zeroDivision "0.0 to a negative or complex power")
  | .overflow => .error (.primitive .overflow "complex exponentiation")

def powFloat (a b : Float) : Except Fault Value :=
  match realPower a b with
  | .real x => .ok (.float x)
  | .complex => powComplex ⟨a, 0.0⟩ ⟨b, 0.0⟩
  | .zeroToNegative => .error (zeroDivision "0.0 cannot be raised to a negative power")
  | .overflow => .error (.primitive .overflow "(34, 'Numerical result out of range')")

/-- A power of a whole number. Those of 0, 1 and -1 are told without multiplying, however large the exponent. -/
def wholePower (a : Int) (n : Nat) : Int :=
  if n = 0 then 1
  else if a = 0 || a = 1 then a
  else if a = -1 then (if n % 2 = 0 then 1 else -1)
  else Int.pow a n

/-- A whole power with a negative exponent is not whole. -/
def powNum : Pair → Except Fault Value
  | .ints a b =>
    if 0 ≤ b then .ok (.int (wholePower a b.toNat)) else do powFloat (← intToFloat a) (← intToFloat b)
  | .floats a b => powFloat a b
  | .complexes a b => powComplex a b

def unsupported (symbol : String) (l r : Value) : Fault :=
  .type ("unsupported operand type(s) for " ++ symbol ++ ": '" ++ l.typeName ++ "' and '" ++ r.typeName ++ "'")

/-- A binary operation that only numbers have. -/
def numeric (symbol : String) (f : Pair → Except Fault Value) (l r : Value) : Except Fault Value :=
  match l.num?, r.num? with
  | some a, some b => do f (← a.unify b)
  | _, _ => .error (unsupported symbol l r)

/-- The count that a sequence is repeated by. -/
def count? : Value → Option Int
  | .bool b => some (if b then 1 else 0)
  | .int n => some n
  | _ => Option.none

/-- Sequences longer than this do not fit into memory. -/
def maxLength : Nat := Nat.pow 2 34

def outOfMemory : Fault := .primitive .memory ""

/-- A list repeated by a count, which is an index of the machine. `tooLong` is the fault of a length that is none. -/
def repeatList (tooLong : Fault) (vs : List α) (n : Int) : Except Fault (List α) :=
  if n ≥ Nat.pow 2 63 || n < -Nat.pow 2 63 then .error (.primitive .overflow "cannot fit 'int' into an index-sized integer")
  else if vs.isEmpty then .ok []
  else if vs.length * n.toNat ≥ Nat.pow 2 63 then .error tooLong
  else if vs.length * n.toNat > maxLength then .error outOfMemory
  else .ok (List.replicate n.toNat vs).flatten

def add (l r : Value) : Eval Value :=
  match l, r with
  | .str a, .str b => return .str (a ++ b)
  | .str _, r => throw (.type ("can only concatenate str (not \"" ++ r.typeName ++ "\") to str"))
  | .bytes a, .bytes b => return .bytes (a ++ b)
  | .bytes _, r => throw (.type ("can't concat " ++ r.typeName ++ " to bytes"))
  | .list a, .list b => do
    let s ← get
    Eval.newList (s.items a ++ s.items b)
  | .list _, r => throw (.type ("can only concatenate list (not \"" ++ r.typeName ++ "\") to list"))
  | .tuple a, .tuple b => return .tuple (a ++ b)
  | .tuple _, r => throw (.type ("can only concatenate tuple (not \"" ++ r.typeName ++ "\") to tuple"))
  | l, r => numeric "+" (fun p => .ok (addNum p)) l r

/-- A sequence repeated by a count; `none` if the value is no sequence. -/
def repeatSequence (v count : Value) : Option (Eval Value) :=
  let times (k : Int → Eval Value) : Eval Value :=
    match count? count with
    | some n => k n
    | none => throw (.type ("can't multiply sequence by non-int of type '" ++ count.typeName ++ "'"))
  let tooLong (what : String) : Fault := .primitive .overflow ("repeated " ++ what ++ " too long")
  match v with
  | .str s => some (times fun n => do return .ofText (← repeatList (tooLong "string is") s.toList n))
  | .bytes bs => some (times fun n => do return .bytes (← repeatList (tooLong "bytes are") bs n))
  | .list ref => some (times fun n => do Eval.newList (← repeatList outOfMemory ((← get).items ref) n))
  | .tuple vs => some (times fun n => do return .tuple (← repeatList outOfMemory vs n))
  | _ => none

def mul (l r : Value) : Eval Value :=
  match l.num?, r.num? with
  | some a, some b => do return mulNum (← a.unify b)
  | _, _ =>
    match repeatSequence l r with
    | some v => v
    | none =>
      match repeatSequence r l with
      | some v => v
      | none => throw (unsupported "*" l r)

end LineScript.Value
