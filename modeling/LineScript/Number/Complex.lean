import LineScript.Number.Real

/-!
# Complex numbers
-/

namespace LineScript.Number

structure Complex where
  re : Float
  im : Float

namespace Complex

def add (a b : Complex) : Complex := ⟨a.re + b.re, a.im + b.im⟩

def sub (a b : Complex) : Complex := ⟨a.re - b.re, a.im - b.im⟩

def mul (a b : Complex) : Complex := ⟨a.re * b.re - a.im * b.im, a.re * b.im + a.im * b.re⟩

/-- Division, with the larger part of the divisor divided out first; `none` for zero. -/
def div? (a b : Complex) : Option Complex :=
  if b.re.abs >= b.im.abs then
    if b.re.abs == 0.0 then none
    else
      let ratio := b.im / b.re
      let denom := b.re + b.im * ratio
      some ⟨(a.re + a.im * ratio) / denom, (a.im - a.re * ratio) / denom⟩
  else if b.im.abs >= b.re.abs then
    let ratio := b.re / b.im
    let denom := b.re * ratio + b.im
    some ⟨(a.re * ratio + a.im) / denom, (a.im * ratio - a.re) / denom⟩
  else some ⟨nan, nan⟩

/-- Powers by repeated squaring: `p` is the current square, `k` what is left of the exponent. -/
def powNatFrom : Nat → Complex → Complex → Nat → Complex
  | 0, r, _, _ => r
  | fuel + 1, r, p, k =>
    if k = 0 then r
    else powNatFrom fuel (if k % 2 = 1 then r.mul p else r) (p.mul p) (k / 2)

def powNat (a : Complex) (n : Nat) : Complex := powNatFrom 64 ⟨1.0, 0.0⟩ a n

inductive PowerResult where
  | value (z : Complex)
  | zeroToNegative
  | overflow

/-- Powers in polar form. An infinite angle has no direction and counts as a power of zero does. -/
def powPolar (a b : Complex) : PowerResult :=
  if b.re == 0.0 && b.im == 0.0 then .value ⟨1.0, 0.0⟩
  else if a.re == 0.0 && a.im == 0.0 then
    if b.im != 0.0 || b.re < 0.0 then .zeroToNegative else .value ⟨0.0, 0.0⟩
  else
    let size := hypot a.re a.im
    let len := Float.pow size b.re
    let angle := Float.atan2 a.im a.re
    let phase := angle * b.re
    let len := if b.im != 0.0 then len / Float.exp (angle * b.im) else len
    let phase := if b.im != 0.0 then phase + b.im * Float.log size else phase
    if phase.isInf then .zeroToNegative
    else .value ⟨len * Float.cos phase, len * Float.sin phase⟩

/-- Small whole exponents are multiplied out. -/
def pow (a b : Complex) : PowerResult :=
  let result : PowerResult :=
    if b.im == 0.0 && isFinite b.re && isWhole b.re && b.re.abs <= 100.0 then
      let n := truncate b.re
      if n > 0 then .value (powNat a n.toNat)
      else match div? ⟨1.0, 0.0⟩ (powNat a n.natAbs) with
        | some z => .value z
        | none => .zeroToNegative
    else powPolar a b
  match result with
  | .value z => if z.re.isInf || z.im.isInf then .overflow else .value z
  | r => r

end Complex

end LineScript.Number
