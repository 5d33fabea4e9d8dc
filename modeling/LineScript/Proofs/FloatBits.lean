
import LineScript.Number.Decimal
import Mathlib

/-!
# Numbers as bits

A number is its 64 bits: sign, exponent and fraction. A finite number is its magnitude with its sign (`withSign_ofScaled`),
and infinities, zeros and what is not a number are what their bits say.
-/

namespace LineScript.Number

open Float.Model Float.Model.UnpackedFloat

variable {x : Float}

/-! ## Words of 64 bits -/

variable (b : BitVec Format.binary64.numBits)

theorem toNat_unpackMantissa : (unpackMantissa b).toNat = b.toNat % 2 ^ 52 := by
  simp [unpackMantissa]

theorem toNat_unpackExponent : (unpackExponent b).toNat = b.toNat / 2 ^ 52 % 2 ^ 11 := by
  simp [unpackExponent, Nat.shiftRight_eq_div_pow]

theorem toNat_unpackSign : (unpackSign b).toNat = b.toNat / 2 ^ 63 % 2 := by
  simp [unpackSign, Nat.shiftRight_eq_div_pow]

/-- Two words that differ in the sign alone stand for opposite numbers. -/
theorem unpack_opposite {b c : BitVec Format.binary64.numBits} (exponent : unpackExponent b = unpackExponent c)
    (fraction : unpackMantissa b = unpackMantissa c) (sign : Sign.ofBitVec (unpackSign b) = -Sign.ofBitVec (unpackSign c)) :
    UnpackedFloat.unpack .binary64 b = (UnpackedFloat.unpack .binary64 c).neg := by
  unfold UnpackedFloat.unpack
  simp only [exponent, fraction, sign]
  split
  · split <;> rfl
  · split
    · split <;> rfl
    · rfl

/-! ## Numbers -/

def word (x : Float) : BitVec Format.binary64.numBits := x.toBits.toBitVec

theorem ofModel_pack (x : Float) : Float.ofModel (.pack (UnpackedFloat.unpack .binary64 (word x))) = x :=
  Float.ofBits_toBits x

theorem eq_nan_of_isNaN (h : x.isNaN) : x = nan := by
  rw [Float.isNaN_eq_decide_eq_nan, decide_eq_true_eq] at h
  rw [h]
  decide

theorem eq_infinity_of_isInf (h : x.isInf) : x = if x < 0.0 then -infinity else infinity := by
  have packed := ofModel_pack x
  change (UnpackedFloat.unpack .binary64 (word x)).isInf = true at h
  cases u : UnpackedFloat.unpack .binary64 (word x) with
  | infinity s =>
    rw [u] at packed
    rw [← packed]
    cases s <;> decide
  | _ =>
    rw [u] at h
    cases h

theorem beq_zero (x : Float) :
    (x == 0.0) = ((UnpackedFloat.unpack .binary64 (word x)).compare (.zero .positive) == some .eq) := rfl

theorem eq_zero_of_beq (h : (x == 0.0)) : x = withSign (signBit x) 0.0 := by
  rcases Float.beq_iff_ne_nan_and_eq.mp h with ⟨-, -, rfl | ⟨-, other⟩ | ⟨rfl, -⟩⟩
  · decide
  · exact absurd other (by decide)
  · decide

/-! ## Parts of a finite number -/

/-- Parts as finite numbers other than zero have them: 53 binary digits, or fewer at the smallest exponent. -/
structure Parts.Proper (p : Parts) : Prop where
  pos : 0 < p.m
  narrow : p.m < 2 ^ 53
  least : -1074 ≤ p.q
  most : p.q ≤ 971
  full : 2 ^ 52 ≤ p.m ∨ p.q = -1074

theorem exponent_lt (number : x.isNaN = false) (bounded : x.isInf = false) : x.toBits.toNat / 2 ^ 52 % 2 ^ 11 < 2047 := by
  have other : x.toBits.toNat / 2 ^ 52 % 2 ^ 11 ≠ 2047 := by
    intro top
    have all : unpackExponent (word x) = -1#_ := BitVec.eq_of_toNat_eq ((toNat_unpackExponent _).trans top)
    change (UnpackedFloat.unpack .binary64 (word x)).isNaN = false at number
    change (UnpackedFloat.unpack .binary64 (word x)).isInf = false at bounded
    unfold UnpackedFloat.unpack at number bounded
    rw [if_pos all] at number bounded
    by_cases none : unpackMantissa (word x) = 0#_
    · rw [if_pos none] at bounded
      cases bounded
    · rw [if_neg none] at number
      cases number
  omega

theorem significand_pos (other : (x == 0.0) = false) : 0 < (parts x).m := by
  refine Nat.pos_of_ne_zero fun nothing => ?_
  have fields : x.toBits.toNat / 2 ^ 52 % 2 ^ 11 = 0 ∧ x.toBits.toNat % 2 ^ 52 = 0 := by
    unfold parts at nothing
    dsimp only [Nat.pow_eq] at nothing
    split at nothing
    · exact ⟨‹_›, nothing⟩
    · omega
  have bottom : unpackExponent (word x) = 0#_ := BitVec.eq_of_toNat_eq ((toNat_unpackExponent _).trans fields.1)
  have none : unpackMantissa (word x) = 0#_ := BitVec.eq_of_toNat_eq ((toNat_unpackMantissa _).trans fields.2)
  rw [beq_zero] at other
  unfold UnpackedFloat.unpack at other
  rw [if_neg (by rw [bottom]; decide), if_pos bottom, dif_pos none] at other
  cases other

variable (number : x.isNaN = false) (bounded : x.isInf = false)

include number bounded

theorem proper_parts (other : (x == 0.0) = false) : (parts x).Proper := by
  have top := exponent_lt number bounded
  have pos := significand_pos other
  constructor
  · exact pos
  all_goals
    unfold parts
    dsimp only [Nat.pow_eq]
    split <;> omega

theorem ofScaled_parts :
    ofScaled (parts x).m (parts x).q = Float.ofBits (UInt64.ofNat (x.toBits.toNat % 2 ^ 63)) := by
  have top := exponent_lt number bounded
  unfold ofScaled parts
  dsimp only [Nat.pow_eq]
  split
  · rw [if_pos (by omega)]
    exact congrArg (fun n => Float.ofBits (UInt64.ofNat n)) (by omega)
  · rw [if_neg (by omega), if_neg (by omega)]
    exact congrArg (fun n => Float.ofBits (UInt64.ofNat n)) (by omega)

/-- Setting the sign bit of a number that is none is changing its sign. -/
theorem neg_ofBits (negative : x.toBits.toNat / 2 ^ 63 = 1) :
    -Float.ofBits (UInt64.ofNat (x.toBits.toNat % 2 ^ 63)) = x := by
  have top := exponent_lt number bounded
  -- the word without its sign bit, opposite to the word of the number
  let c : BitVec Format.binary64.numBits := BitVec.ofNat 64 (x.toBits.toNat % 2 ^ 63)
  have toNat_c : c.toNat = x.toBits.toNat % 2 ^ 63 := Nat.mod_eq_of_lt (by omega)
  have valid : Format.binary64.Valid c := by
    refine ⟨fun all _ => ?_⟩
    have same := congrArg BitVec.toNat all
    rw [toNat_unpackExponent] at same
    change _ = 2047 at same
    omega
  have exponent : unpackExponent (word x) = unpackExponent c := by
    apply BitVec.eq_of_toNat_eq
    rw [toNat_unpackExponent, toNat_unpackExponent]
    change x.toBits.toNat / _ % _ = _
    omega
  have fraction : unpackMantissa (word x) = unpackMantissa c := by
    apply BitVec.eq_of_toNat_eq
    rw [toNat_unpackMantissa, toNat_unpackMantissa]
    change x.toBits.toNat % _ = _
    omega
  have one : unpackSign (word x) = 1#1 := by
    apply BitVec.eq_of_toNat_eq
    rw [toNat_unpackSign]
    change x.toBits.toNat / _ % _ = 1
    omega
  have zero : unpackSign c = 0#1 := by
    apply BitVec.eq_of_toNat_eq
    rw [toNat_unpackSign]
    change _ = 0
    omega
  have opposite := unpack_opposite exponent fraction (by rw [one, zero]; rfl)
  change Float.ofModel (.pack (UnpackedFloat.unpack .binary64
    (UnpackedFloat.pack .binary64 (UnpackedFloat.unpack .binary64 c))).neg) = x
  rw [pack_unpack_of_valid valid, ← opposite]
  exact ofModel_pack x

/-- A finite number is its magnitude with its sign. -/
theorem withSign_ofScaled :
    withSign (signBit x) (ofScaled (parts x).m (parts x).q) = x := by
  rw [ofScaled_parts number bounded]
  unfold withSign signBit
  by_cases negative : x.toBits.toNat / 2 ^ 63 = 1
  · rw [if_pos (by simpa using negative)]
    exact neg_ofBits number bounded negative
  · have most := x.toBits.toNat_lt
    rw [if_neg (by simpa using negative), Nat.mod_eq_of_lt (by omega), UInt64.ofNat_toNat]
    exact Float.ofBits_toBits x

end LineScript.Number
