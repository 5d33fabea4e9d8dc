import LineScript.Number.Binary64

/-!
# Arithmetic on double precision numbers

Remainder, floor division and powers with the conventions of the language: the remainder takes the
sign of the divisor, and a power that cannot be real is left to complex numbers.
-/

namespace LineScript.Number

def isFinite (x : Float) : Bool := !(x.isNaN || x.isInf)

def copySign (x y : Float) : Float := withSign (signBit y) x.abs

/-- The exact remainder of two finite numbers, with the sign of the first. -/
def remainder (x y : Float) : Float :=
  let p := parts x
  let r := parts y
  let q := min p.q r.q
  let m := (p.m * Nat.pow 2 (p.q - q).toNat) % (r.m * Nat.pow 2 (r.q - q).toNat)
  withSign p.negative (ofRatio (scaleNum m q) (scaleDen 1 q))

/-- The remainder toward zero of any two numbers, the second not zero. -/
def truncRemainder (x y : Float) : Float :=
  if x.isNaN || y.isNaN || x.isInf then nan else if y.isInf then x else remainder x y

/-- The remainder with the sign of a divisor that is not zero. -/
def floorMod (x y : Float) : Float :=
  let m := truncRemainder x y
  if m == 0.0 then copySign 0.0 y
  else if (y < 0.0) != (m < 0.0) then m + y else m

/-- The whole quotient rounded down, for a divisor that is not zero. -/
def floorDiv (x y : Float) : Float :=
  let m := truncRemainder x y
  let d := (x - m) / y
  let d := if m != 0.0 && (y < 0.0) != (m < 0.0) then d - 1.0 else d
  if d == 0.0 then copySign 0.0 (x / y)
  else
    let f := d.floor
    if d - f > 0.5 then f + 1.0 else f

def isOddWhole (x : Float) : Bool :=
  isFinite x && isWhole x && (truncate x) % 2 = 1

inductive Power where
  | real (x : Float)
  | complex
  | zeroToNegative
  | overflow

def realPower (x y : Float) : Power :=
  if y == 0.0 then .real 1.0
  else if x.isNaN then .real x
  else if y.isNaN then .real (if x == 1.0 then 1.0 else y)
  else if y.isInf then
    let a := x.abs
    if a == 1.0 then .real 1.0
    else if (y > 0.0) == (a > 1.0) then .real infinity
    else .real 0.0
  else if x.isInf then
    let odd := isOddWhole y
    if y > 0.0 then .real (if odd then x else x.abs)
    else .real (if odd then copySign 0.0 x else 0.0)
  else if x == 0.0 then
    if y < 0.0 then .zeroToNegative
    else .real (if isOddWhole y then x else 0.0)
  else if x < 0.0 && !isWhole y then .complex
  else
    let negate := x < 0.0 && isOddWhole y
    let a := x.abs
    if a == 1.0 then .real (if negate then -1.0 else 1.0)
    else
      let r := Float.pow a y
      if r.isInf then .overflow else .real (if negate then -r else r)

/-- Whole square root by halving steps that only go down. -/
def sqrtFrom (n : Nat) : Nat → Nat → Nat
  | 0, r => r
  | k + 1, r =>
    let next := (r + n / r) / 2
    if next < r then sqrtFrom n k next else r

def natSqrt (n : Nat) : Nat :=
  if n = 0 then 0 else sqrtFrom n (n.log2 + 2) (Nat.pow 2 (n.log2 / 2 + 1))

/-- The length of a vector, exactly rounded. -/
def hypot (x y : Float) : Float :=
  if x.isInf || y.isInf then infinity
  else if x.isNaN || y.isNaN then nan
  else
    let p := parts x
    let r := parts y
    let q := min p.q r.q
    let a := p.m * Nat.pow 2 (p.q - q).toNat
    let b := r.m * Nat.pow 2 (r.q - q).toNat
    let s := a * a + b * b
    if s = 0 then 0.0
    else
      -- enough digits for rounding, and one below them that tells whether the root is exact
      let k : Nat := 60
      let t := s * Nat.pow 2 (2 * k)
      let root := natSqrt t
      let m := 2 * root + (if root * root = t then 0 else 1)
      let e := q - (k : Int) - 1
      ofRatio (scaleNum m e) (scaleDen 1 e)

end LineScript.Number
