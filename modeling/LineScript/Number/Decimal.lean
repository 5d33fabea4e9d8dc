import LineScript.Number.Binary64

/-!
# Decimal texts of numbers

* `shortest`: the fewest decimal digits that read back as the number, the nearest of those.
* `rounded`: the nearest decimal with a given number of places, a half to the even neighbour.
* `general`, `scientific`: the two written forms for a given precision.
-/

namespace LineScript.Number

/-- Digits `d₁ d₂ …` standing for `0.d₁d₂… · 10^point`. -/
structure Decimal where
  digits : List Char
  point : Int

def decimalText (n : Nat) : List Char := Nat.toDigits 10 n

/-- Whether `num / den < 10^k`. -/
def below10 (num den : Nat) (k : Int) : Bool :=
  if 0 ≤ k then num < den * Nat.pow 10 k.toNat else num * Nat.pow 10 (-k).toNat < den

/-- Moves `k` until `10^(k-1) ≤ num / den < 10^k`. -/
def settlePoint (num den : Nat) : Nat → Int → Int
  | 0, k => k
  | n + 1, k =>
    if !below10 num den k then settlePoint num den n (k + 1)
    else if below10 num den (k - 1) then settlePoint num den n (k - 1)
    else k

/-- The `k` with `10^(k-1) ≤ num / den < 10^k`, for a positive fraction. -/
def pointOf (num den : Nat) : Int :=
  settlePoint num den 8 (((num.log2 : Int) - (den.log2 : Int)) * 30103 / 100000)

/-- `num / den · 10^n` as a fraction. -/
def scale10 (num den : Nat) (n : Int) : Nat × Nat :=
  if 0 ≤ n then (num * Nat.pow 10 n.toNat, den) else (num, den * Nat.pow 10 (-n).toNat)

def stripZeros (ds : List Char) : List Char :=
  match (ds.reverse.dropWhile (· = '0')).reverse with
  | [] => ['0']
  | ds => ds

/-- A whole number `d` of units `10^(-n)` as a decimal. -/
def Decimal.ofUnits (d : Nat) (n : Int) : Decimal :=
  let ds := decimalText d
  { digits := stripZeros ds, point := (ds.length : Int) - n }

/-- The numbers that read back as `m · 2^q`, as bounds in units of `2^(q-2)`. -/
structure Neighbourhood where
  lo : Nat
  mid : Nat
  hi : Nat
  closed : Bool

def neighbourhood (p : Parts) : Neighbourhood :=
  { lo := if p.m = Nat.pow 2 52 && p.q > -1074 then 4 * p.m - 1 else 4 * p.m - 2
    mid := 4 * p.m
    hi := 4 * p.m + 2
    closed := p.m % 2 = 0 }

/-- Whether the fraction `num / den` lies in the neighbourhood, both in the same units. -/
def Neighbourhood.holds (h : Neighbourhood) (num den : Nat) : Bool :=
  if h.closed then h.lo * den ≤ num && num ≤ h.hi * den else h.lo * den < num && num < h.hi * den

/-- Of the two decimals with `n` places around the number, the one that reads back, and of two such the
nearer, of two equally near the even one. -/
def shortestAt (p : Parts) (n : Int) : Option Nat :=
  let h := neighbourhood p
  -- one unit of the grid is `unit.1 / unit.2` in units of `2^(q-2)`
  let unit := scale10 (scaleDen 1 (p.q - 2)) (scaleNum 1 (p.q - 2)) (-n)
  let d := h.mid * unit.2 / unit.1
  let below := h.holds (d * unit.1) unit.2
  let above := h.holds ((d + 1) * unit.1) unit.2
  if below && above then
    let gapUnder := h.mid * unit.2 - d * unit.1
    let gapOver := (d + 1) * unit.1 - h.mid * unit.2
    some (if gapUnder < gapOver then d else if gapOver < gapUnder then d + 1
      else if d % 2 = 0 then d else d + 1)
  else if below then some d
  else if above then some (d + 1)
  else none

/-- Tries one more digit until a decimal reads back; seventeen always do. -/
def shortestFrom (p : Parts) (point : Int) : Nat → Nat → Decimal
  | 0, n => Decimal.ofUnits ((shortestAt p ((n : Int) - point)).getD 0) ((n : Int) - point)
  | more + 1, n =>
    match shortestAt p ((n : Int) - point) with
    | some d => Decimal.ofUnits d ((n : Int) - point)
    | none => shortestFrom p point more (n + 1)

/-- The fewest digits that read back as a finite number other than zero. -/
def shortest (x : Float) : Decimal :=
  let p := parts x
  shortestFrom p (pointOf (scaleNum p.m p.q) (scaleDen 1 p.q)) 17 1

/-- Exponents are written with a sign and at least two digits. -/
def exponentText (e : Int) : List Char :=
  let ds := decimalText e.natAbs
  'e' :: (if e < 0 then '-' else '+') :: (if ds.length < 2 then '0' :: ds else ds)

/-- Digits with the decimal point after `point` of them, zeros filled in. -/
def positional (ds : List Char) (point : Int) : List Char :=
  if point ≤ 0 then '0' :: '.' :: (List.replicate (-point).toNat '0' ++ ds)
  else if ds.length ≤ point.toNat then ds ++ List.replicate (point.toNat - ds.length) '0'
  else ds.take point.toNat ++ '.' :: ds.drop point.toNat

def exponential (ds : List Char) (point : Int) : List Char :=
  match ds with
  | [] => []
  | [d] => d :: exponentText (point - 1)
  | d :: more => d :: '.' :: more ++ exponentText (point - 1)

/-- How the shortest form is laid out. -/
structure Layout where
  /-- The largest number of digits before the point that is written positionally. -/
  maxPoint : Int
  /-- The smallest one, negative for zeros after the point. -/
  minPoint : Int
  /-- Whether a whole number gets `.0`. -/
  markWhole : Bool

/-- Numbers from `10^-4` up to `10^16` are positional, and whole numbers end in `.0`. -/
def plainLayout : Layout := ⟨16, -3, true⟩

/-- The parts of a complex number have no `.0`. -/
def complexLayout : Layout := ⟨16, -3, false⟩

def signText (negative : Bool) : List Char := if negative then ['-'] else []

def layoutFloat (l : Layout) (x : Float) : List Char :=
  if x.isNaN then "nan".toList
  else if x.isInf then signText (signBit x) ++ "inf".toList
  else
    let d : Decimal := if x == 0.0 then ⟨['0'], 1⟩ else shortest x
    let body :=
      if l.minPoint ≤ d.point && d.point ≤ l.maxPoint then
        let t := positional d.digits d.point
        if l.markWhole && !t.contains '.' then t ++ ['.', '0'] else t
      else exponential d.digits d.point
    signText (signBit x) ++ body

/-- The written form of a number: the fewest digits that read back. -/
def floatText (x : Float) : List Char := layoutFloat plainLayout x

/-- Magnitude of a finite number as a fraction. -/
def fraction (x : Float) : Nat × Nat :=
  let p := parts x
  (scaleNum p.m p.q, scaleDen 1 p.q)

/-- The magnitude of a fraction with exactly `n` decimal places. -/
def fixedRatio (num den : Nat) (n : Nat) : List Char :=
  let u := roundDiv (num * Nat.pow 10 n) den
  let ds := decimalText u
  let ds := List.replicate (n + 1 - ds.length) '0' ++ ds
  if n = 0 then ds else ds.take (ds.length - n) ++ '.' :: ds.drop (ds.length - n)

/-- The magnitude of a finite number with exactly `n` decimal places. -/
def fixedDigits (x : Float) (n : Nat) : List Char := fixedRatio (fraction x).1 (fraction x).2 n

/-- The magnitude of a finite number rounded to `n` significant digits, all of them kept. -/
def significant (x : Float) (n : Nat) : Decimal :=
  if x == 0.0 then ⟨List.replicate n '0', 1⟩ else
  let (num, den) := fraction x
  let k := pointOf num den
  let s := scale10 num den ((n : Int) - k)
  let ds := decimalText (roundDiv s.1 s.2)
  if ds.length > n then ⟨ds.take n, k + 1⟩ else ⟨ds, k⟩

/-- Magnitude in scientific form with `n` places after the point. -/
def scientificDigits (x : Float) (n : Nat) (pointAlways : Bool) : List Char :=
  let d := significant x (n + 1)
  match d.digits with
  | [] => []
  | c :: more =>
    c :: (if more.isEmpty && !pointAlways then [] else '.' :: more) ++ exponentText (d.point - 1)

/-- Magnitude with `n` significant digits: positional unless the exponent is below -4 or not below `n`.
Trailing zeros go unless `keepZeros`. -/
def generalDigits (x : Float) (n : Nat) (keepZeros : Bool) : List Char :=
  let n := if n = 0 then 1 else n
  let d := significant x n
  let e := d.point - 1
  let ds := if keepZeros then d.digits else if x == 0.0 then ['0'] else stripZeros d.digits
  if -4 ≤ e && e < n then
    let t := positional ds d.point
    if keepZeros && !t.contains '.' then t ++ ['.'] else t
  else match ds with
    | [] => []
    | c :: more =>
      c :: (if more.isEmpty && !keepZeros then [] else '.' :: more) ++ exponentText e

/-- Digits with `.` and an exponent as a number: `digits · 10^exponent`, exactly rounded. -/
def ofDecimal (digits : Nat) (exponent : Int) : Float :=
  let size : Int := (digits.log2 : Int) * 30103 / 100000 + 1 + exponent
  if digits = 0 then 0.0
  else if size > 400 then infinity
  else if size < -400 then 0.0
  else
    let s := scale10 digits 1 exponent
    ofRatio s.1 s.2

/-- A finite number rounded to `n` decimal places, or to tens, hundreds, … for negative `n`. -/
def roundPlaces (x : Float) (n : Int) : Float :=
  let (num, den) := fraction x
  let s := scale10 num den n
  let u := roundDiv s.1 s.2
  let t := scale10 u 1 (-n)
  withSign (signBit x) (ofRatio t.1 t.2)

end LineScript.Number
