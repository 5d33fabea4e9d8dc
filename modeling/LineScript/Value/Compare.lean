import LineScript.Value.Arith

/-!
# Comparing values

Numbers compare by value across kinds, exactly; texts and bytes by their characters; lists and tuples
element by element. Any two values can be tested for equality, few can be ordered.
-/

namespace LineScript.Value

open Number

def truthy (store : Store) : Value → Bool
  | .nothing => false
  | .bool b => b
  | .int n => n ≠ 0
  | .float x => x != 0.0
  | .complex re im => re != 0.0 || im != 0.0
  | .str s => !s.isEmpty
  | .bytes bs => !bs.isEmpty
  | .list ref => !(store.items ref).isEmpty
  | .tuple vs => !vs.isEmpty
  | _ => true

/-- Order of two double precision numbers; none if one is not a number. -/
def orderFloats (a b : Float) : Option Ordering :=
  if a < b then some .lt else if a == b then some .eq else if a > b then some .gt else Option.none

def orderIntFloat (n : Int) (x : Float) : Option Ordering :=
  if x.isNaN then Option.none
  else if x.isInf then some (if x > 0.0 then .lt else .gt)
  else some (compareInt n x)

/-- Exact order of two numbers that are not complex. -/
def orderNums : Num → Num → Option Ordering
  | .int a, .int b => some (compare a b)
  | .float a, .float b => orderFloats a b
  | .int a, .float b => orderIntFloat a b
  | .float a, .int b => (orderIntFloat b a).map Ordering.swap
  | _, _ => Option.none

def equalNums : Num → Num → Bool
  | .complex a, .complex b => a.re == b.re && a.im == b.im
  | .complex a, b => a.im == 0.0 && orderNums (.float a.re) b == some .eq
  | a, .complex b => b.im == 0.0 && orderNums a (.float b.re) == some .eq
  | a, b => orderNums a b == some .eq

def isComplex : Num → Bool
  | .complex _ => true
  | _ => false

/-- Whether all of two lists agree under a test that may fail; the lengths are compared first. -/
def allAgree (f : α → α → Except Fault Bool) : List α → List α → Except Fault Bool
  | [], [] => .ok true
  | a :: as, b :: bs => do if ← f a b then allAgree f as bs else return false
  | _, _ => .ok false

def equalFrom (store : Store) : Nat → Value → Value → Except Fault Bool
  | 0, _, _ => .error (.tooDeep " in comparison")
  | n + 1, a, b =>
    match a.num?, b.num? with
    | some x, some y => .ok (equalNums x y)
    | _, _ =>
      match a, b with
      | .nothing, .nothing => .ok true
      | .ellipsis, .ellipsis => .ok true
      | .str s, .str t => .ok (s = t)
      | .bytes s, .bytes t => .ok (s = t)
      | .list r, .list q =>
        if r = q then .ok true
        else if (store.items r).length ≠ (store.items q).length then .ok false
        else allAgree (equalFrom store n) (store.items r) (store.items q)
      | .tuple s, .tuple t =>
        if s.length ≠ t.length then .ok false else allAgree (equalFrom store n) s t
      | .record s, .record t =>
        if s.length ≠ t.length then .ok false
        else s.foldlM (fun ok (x, v) =>
          if !ok then .ok false
          else match t.lookup x with
            | some w => equalFrom store n v w
            | none => .ok false) true
      | .package _ _ _ x, .package _ _ _ y => .ok (x = y)
      | .builtin f, .builtin g => .ok (f = g)
      | .libraryFn _ l x, .libraryFn _ k y => .ok (l = k && x = y)
      | .method s m, .method t k => do return m = k && (← equalFrom store n s t)
      | _, _ => .ok false

def equal (store : Store) (a b : Value) : Except Fault Bool := equalFrom store maxDepth a b
where maxDepth : Nat := 1000

inductive OrderOp where
  | lt | le | gt | ge

def OrderOp.symbol : OrderOp → String
  | .lt => "<"
  | .le => "<="
  | .gt => ">"
  | .ge => ">="

def OrderOp.holds : OrderOp → Ordering → Bool
  | .lt, o => o == .lt
  | .le, o => o != .gt
  | .gt, o => o == .gt
  | .ge, o => o != .lt

def notOrdered (op : OrderOp) (l r : String) : Fault :=
  .type ("'" ++ op.symbol ++ "' not supported between instances of '" ++ l ++ "' and '" ++ r ++ "'")

/-- Lexicographic order of texts by code points and of bytes by value. -/
def orderList (key : α → Nat) : List α → List α → Ordering
  | [], [] => .eq
  | [], _ :: _ => .lt
  | _ :: _, [] => .gt
  | a :: as, b :: bs => (compare (key a) (key b)).then (orderList key as bs)

/-- The first place where two sequences differ, then the lengths. -/
def orderItems (same : Value → Value → Except Fault Bool) (decide : Value → Value → Except Fault Bool)
    (op : OrderOp) : List Value → List Value → Except Fault Bool
  | a :: as, b :: bs => do if ← same a b then orderItems same decide op as bs else decide a b
  | as, bs => .ok (op.holds (compare as.length bs.length))

def orderedFrom (store : Store) (op : OrderOp) : Nat → Value → Value → Except Fault Bool
  | 0, _, _ => .error (.tooDeep " in comparison")
  | n + 1, a, b =>
    match a.num?, b.num? with
    | some x, some y =>
      if isComplex x || isComplex y then .error (notOrdered op a.typeName b.typeName)
      else .ok ((orderNums x y).any op.holds)
    | _, _ =>
      match a, b with
      | .str s, .str t => .ok (op.holds (orderList Char.toNat s.toList t.toList))
      | .bytes s, .bytes t => .ok (op.holds (orderList UInt8.toNat s t))
      | .list r, .list q =>
        orderItems (equal store) (orderedFrom store op n) op (store.items r) (store.items q)
      | .tuple s, .tuple t => orderItems (equal store) (orderedFrom store op n) op s t
      | .record _, .record _ => .error (notOrdered op "dict" "dict")
      | a, b => .error (notOrdered op a.typeName b.typeName)

def ordered (store : Store) (op : OrderOp) (a b : Value) : Except Fault Bool :=
  orderedFrom store op 1000 a b

end LineScript.Value
