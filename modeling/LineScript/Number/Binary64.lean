/-!
# Double precision numbers as exact fractions

A finite number is `± m · 2^q` with whole `m` and `q`. Both directions are here: the parts of a number,
and the number nearest to a fraction (a half goes to the even neighbour).
-/

namespace LineScript.Number

/-- A finite number: sign, whole part `m` and exponent `q`. -/
structure Parts where
  negative : Bool
  m : Nat
  q : Int

def signBit (x : Float) : Bool := x.toBits.toNat / Nat.pow 2 63 = 1

def parts (x : Float) : Parts :=
  let bits := x.toBits.toNat
  let e : Nat := bits / Nat.pow 2 52 % Nat.pow 2 11
  let f : Nat := bits % Nat.pow 2 52
  { negative := signBit x
    m := if e = 0 then f else f + Nat.pow 2 52
    q := if e = 0 then -1074 else (e : Int) - 1075 }

/-- `num / den` rounded to a whole number, a half to the even one. -/
def roundDiv (num den : Nat) : Nat :=
  let d := num / den
  let r := num % den
  if 2 * r < den then d else if 2 * r > den then d + 1 else if d % 2 = 0 then d else d + 1

/-- `2^q` scales a fraction by its numerator or its denominator. -/
def scaleNum (num : Nat) (q : Int) : Nat := if 0 ≤ q then num * Nat.pow 2 q.toNat else num

def scaleDen (den : Nat) (q : Int) : Nat := if 0 ≤ q then den else den * Nat.pow 2 (-q).toNat

def infinity : Float := Float.ofBits 0x7ff0000000000000

def nan : Float := Float.ofBits 0x7ff8000000000000

def withSign (negative : Bool) (x : Float) : Float := if negative then -x else x

/-- Bits of `m · 2^q` for `m < 2^53`; infinity past the largest exponent. -/
def ofScaled (m : Nat) (q : Int) : Float :=
  if m < Nat.pow 2 52 then Float.ofBits (UInt64.ofNat m)
  else if q + 1075 ≥ 2047 then infinity
  else Float.ofBits (UInt64.ofNat ((q + 1075).toNat * Nat.pow 2 52 + (m - Nat.pow 2 52)))

/-- The exponent at which `num / den` has 53 binary digits, but at least the smallest one. -/
def exponentOf (num den : Nat) : Int :=
  let q : Int := (num.log2 : Int) - (den.log2 : Int) - 52
  let q := if scaleNum num (-q) < scaleDen den (-q) * Nat.pow 2 52 then q - 1 else q
  max q (-1074)

/-- The number nearest to `num / den`, infinity past the largest one. -/
def ofRatio (num den : Nat) : Float :=
  if num = 0 then 0.0 else
  let q := exponentOf num den
  let m := roundDiv (scaleNum num (-q)) (scaleDen den (-q))
  if m = Nat.pow 2 53 then ofScaled (Nat.pow 2 52) (q + 1) else ofScaled m q

def ofIntRatio (n : Int) (d : Nat) : Float := withSign (n < 0) (ofRatio n.natAbs d)

/-- The nearest number to a whole one, if it is in range. -/
def ofInt? (n : Int) : Option Float :=
  let x := ofIntRatio n 1
  if x.isInf then none else some x

/-- The whole part toward zero of a finite number. -/
def truncate (x : Float) : Int :=
  let p := parts x
  let n := scaleNum p.m p.q / scaleDen 1 p.q
  if p.negative then -(n : Int) else n

/-- The nearest whole number of a finite number, a half to the even one. -/
def roundWhole (x : Float) : Int :=
  let p := parts x
  let n := roundDiv (scaleNum p.m p.q) (scaleDen 1 p.q)
  if p.negative then -(n : Int) else n

/-- Exact order between a whole number and a finite number. -/
def compareInt (n : Int) (x : Float) : Ordering :=
  let p := parts x
  let v : Int := if p.negative then -(scaleNum p.m p.q : Int) else scaleNum p.m p.q
  compare (n * scaleDen 1 p.q) v

def isWhole (x : Float) : Bool :=
  let p := parts x
  scaleNum p.m p.q % scaleDen 1 p.q = 0

end LineScript.Number
