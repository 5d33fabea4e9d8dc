
import LineScript.Proofs.Nearest
import LineScript.Proofs.TokenText

/-!
# The shortest decimal

The digits that are written for a number lie in its neighbourhood (`exists_shortest`): the search finds some at the latest
with eighteen digits, where the step of the decimals is below a quarter of the step of the numbers. So the digits are read as
the number (`ofDecimal_of_near`).
-/

namespace LineScript.Number

open List

variable {p : Parts} {d den : Nat} {n : Int}

/-! ## Powers of two between powers of ten -/

theorem ten_pow_le_two_pow (n : Nat) : 10 ^ (3 * (n / 10)) ≤ 2 ^ n := by
  calc 10 ^ (3 * (n / 10)) = 1000 ^ (n / 10) := by rw [pow_mul]; norm_num
    _ ≤ 1024 ^ (n / 10) := Nat.pow_le_pow_left (by norm_num) _
    _ = 2 ^ (10 * (n / 10)) := by rw [pow_mul]; norm_num
    _ ≤ 2 ^ n := Nat.pow_le_pow_right (by norm_num) (Nat.mul_div_le n 10)

theorem two_pow_le_ten_pow (n : Nat) : 2 ^ n ≤ 10 ^ (28 * (n / 93) + (n % 93 / 3 + 1)) := by
  calc 2 ^ n = 2 ^ (93 * (n / 93)) * 2 ^ (n % 93) := by rw [← pow_add, Nat.div_add_mod]
    _ ≤ 10 ^ (28 * (n / 93)) * 10 ^ (n % 93 / 3 + 1) := Nat.mul_le_mul ?_ ?_
    _ = 10 ^ (28 * (n / 93) + (n % 93 / 3 + 1)) := (pow_add _ _ _).symm
  · rw [pow_mul, pow_mul]
    exact Nat.pow_le_pow_left (by norm_num) _
  · calc 2 ^ (n % 93) ≤ 2 ^ (3 * (n % 93 / 3 + 1)) := Nat.pow_le_pow_right (by norm_num) (by omega)
      _ = 8 ^ (n % 93 / 3 + 1) := by rw [pow_mul]; norm_num
      _ ≤ 10 ^ (n % 93 / 3 + 1) := Nat.pow_le_pow_left (by norm_num) _

/-- `30103 / 100000` of the binary length is the decimal length, up to a few digits. -/
theorem two_zpow_bounds {e : Int} (low : -1100 ≤ e) (high : e ≤ 1100) :
    (10 : ℚ) ^ (e * 30103 / 100000 - 8) ≤ 2 ^ e ∧ (2 : ℚ) ^ e ≤ 10 ^ (e * 30103 / 100000 + 7) := by
  have one : (1 : ℚ) ≤ 10 := by norm_num
  have less (n : Nat) : (10 : ℚ) ^ ((3 * (n / 10) : Nat) : Int) ≤ 2 ^ (n : Int) := by
    exact_mod_cast ten_pow_le_two_pow n
  have more (n : Nat) : (2 : ℚ) ^ (n : Int) ≤ 10 ^ ((28 * (n / 93) + (n % 93 / 3 + 1) : Nat) : Int) := by
    exact_mod_cast two_pow_le_ten_pow n
  rcases Int.lt_or_le e 0 with below | above
  · -- the inverse powers, with the bounds the other way round
    obtain ⟨n, rfl⟩ : ∃ n : Nat, e = -(n : Int) := ⟨(-e).toNat, by omega⟩
    rw [zpow_neg]
    constructor
    · refine le_trans ?_ (inv_anti₀ (by positivity) (more n))
      rw [← zpow_neg]
      exact zpow_le_zpow_right₀ one (by omega)
    · refine le_trans (inv_anti₀ (by positivity) (less n)) ?_
      rw [← zpow_neg]
      exact zpow_le_zpow_right₀ one (by omega)
  · obtain ⟨n, rfl⟩ : ∃ n : Nat, e = (n : Int) := ⟨e.toNat, by omega⟩
    exact ⟨le_trans (zpow_le_zpow_right₀ one (by omega)) (less n),
      le_trans (more n) (zpow_le_zpow_right₀ one (by omega))⟩

/-! ## Where the decimal point stands -/

theorem below10_iff (num : Nat) (pos : 0 < den) (k : Int) : below10 num den k ↔ (num / den : ℚ) < 10 ^ k := by
  have posDen : (0 : ℚ) < den := by exact_mod_cast pos
  unfold below10
  rw [div_lt_iff₀' posDen]
  rcases Int.lt_or_le k 0 with below | above
  · obtain ⟨n, rfl⟩ : ∃ n : Nat, k = -(n : Int) := ⟨(-k).toNat, by omega⟩
    rw [if_neg (by omega), neg_neg, Int.toNat_natCast, zpow_neg, zpow_natCast, ← div_eq_mul_inv,
      lt_div_iff₀ (by positivity), decide_eq_true_iff]
    exact_mod_cast Iff.rfl
  · obtain ⟨n, rfl⟩ : ∃ n : Nat, k = (n : Int) := ⟨k.toNat, by omega⟩
    rw [if_pos above, decide_eq_true_iff]
    exact_mod_cast Iff.rfl

/-- Steps enough to reach the place of the point from a first guess leave it there. -/
theorem settlePoint_bounds (num : Nat) (pos : 0 < den) (steps : Nat) (k : Int)
    (low : (10 : ℚ) ^ (k - 1 - steps) ≤ num / den) (high : (num / den : ℚ) < 10 ^ (k + steps)) :
    (10 : ℚ) ^ (settlePoint num den steps k - 1) ≤ num / den ∧ (num / den : ℚ) < 10 ^ settlePoint num den steps k := by
  have one : (1 : ℚ) ≤ 10 := by norm_num
  induction steps generalizing k with
  | zero =>
    simp only [Nat.cast_zero, sub_zero, add_zero] at low high
    exact ⟨low, high⟩
  | succ steps ih =>
    unfold settlePoint
    have under := below10_iff num pos k
    have under' := below10_iff num pos (k - 1)
    split
    · rename_i reached
      have large : (10 : ℚ) ^ k ≤ num / den := by
        refine le_of_not_gt fun less => ?_
        rw [under.mpr less] at reached
        cases reached
      refine ih (k + 1) (le_trans (zpow_le_zpow_right₀ one (by omega)) large) ?_
      rwa [show k + 1 + (steps : Int) = k + ((steps + 1 : Nat) : Int) by omega]
    · rename_i small
      split
      · rename_i smaller
        refine ih (k - 1) ?_ (lt_of_lt_of_le (under'.mp smaller) (zpow_le_zpow_right₀ one (by omega)))
        rwa [show k - 1 - 1 - (steps : Int) = k - 1 - ((steps + 1 : Nat) : Int) by omega]
      · rename_i large
        refine ⟨le_of_not_gt fun less => large (under'.mpr less), under.mp ?_⟩
        simpa using small

theorem pointOf_bounds {num : Nat} (hn : 0 < num) (hd : 0 < den) (low : -1100 ≤ (num.log2 : Int) - den.log2)
    (high : (num.log2 : Int) - den.log2 ≤ 1100) :
    (10 : ℚ) ^ (pointOf num den - 1) ≤ num / den ∧ (num / den : ℚ) < 10 ^ pointOf num den := by
  have near := div_bounds hn hd
  have powers := two_zpow_bounds low high
  have ten : (10 : ℚ) ≠ 0 := by norm_num
  unfold pointOf
  generalize ((num.log2 : Int) - den.log2) * 30103 / 100000 = k at *
  refine settlePoint_bounds num hd 8 k ?_ ?_
  · have less : (10 : ℚ) ^ (k - 1 - (8 : Nat)) = 10 ^ (k - 8) / 10 := by
      rw [div_eq_mul_inv, ← zpow_sub_one₀ ten]
      congr 1
      push_cast
      ring
    linarith
  · have more : (10 : ℚ) ^ (k + (8 : Nat)) = 10 ^ (k + 7) * 10 := by
      rw [← zpow_add_one₀ ten]
      congr 1
      push_cast
      ring
    rw [more]
    linarith

/-! ## Decimals with a given number of places -/

def decimalStep (p : Parts) (n : Int) : Nat × Nat := scale10 (scaleDen 1 (p.q - 2)) (scaleNum 1 (p.q - 2)) (-n)

theorem decimalStep_div (p : Parts) (n : Int) :
    ((decimalStep p n).1 : ℚ) / (decimalStep p n).2 = 10 ^ (-n) / 2 ^ (p.q - 2) := by
  have power := scaleNum_div_scaleDen 1 1 (p.q - 2)
  unfold decimalStep
  rw [scale10_div, ← inv_div, power]
  ring

theorem decimalStep_pos (p : Parts) (n : Int) : 0 < (decimalStep p n).1 ∧ 0 < (decimalStep p n).2 := by
  have den := scale10_pos (scaleDen 1 (p.q - 2)) (scaleNum_pos one_pos (p.q - 2)) (-n)
  refine ⟨Nat.pos_of_ne_zero fun zero => ?_, den⟩
  have ratio := decimalStep_div p n
  rw [zero, Nat.cast_zero, zero_div] at ratio
  have : (0 : ℚ) < 10 ^ (-n) / 2 ^ (p.q - 2) := by positivity
  linarith

theorem holds_iff_near (p : Parts) (n : Int) (d : Nat) :
    (neighbourhood p).holds (d * (decimalStep p n).1) (decimalStep p n).2 ↔ p.Near (d * 10 ^ (-n)) := by
  rw [holds_iff _ _ (decimalStep_pos p n).2, Nat.cast_mul, mul_div_assoc, decimalStep_div, ← mul_div_assoc]
  rfl

theorem shortestAt_eq_some (found : shortestAt p n = some d) :
    p.Near (d * 10 ^ (-n)) ∧ d ≤ (neighbourhood p).mid * (decimalStep p n).2 / (decimalStep p n).1 + 1 := by
  rw [← holds_iff_near]
  unfold shortestAt at found
  dsimp only at found
  split at found
  · rename_i both
    rw [Bool.and_eq_true] at both
    split at found
    · cases found
      exact ⟨both.1, Nat.le_succ _⟩
    · split at found
      · cases found
        exact ⟨both.2, le_refl _⟩
      · split at found
        · cases found
          exact ⟨both.1, Nat.le_succ _⟩
        · cases found
          exact ⟨both.2, le_refl _⟩
  · split at found
    · cases found
      exact ⟨‹_›, Nat.le_succ _⟩
    · split at found
      · cases found
        exact ⟨‹_›, le_refl _⟩
      · cases found

theorem mid_div (p : Parts) (n : Int) :
    ((neighbourhood p).mid * (decimalStep p n).2 : ℚ) / (decimalStep p n).1 = p.m * 2 ^ p.q * 10 ^ n := by
  have ratio := decimalStep_div p n
  have mid : ((neighbourhood p).mid : ℚ) = 4 * p.m := by exact_mod_cast rfl
  rw [two_zpow_sub_two] at ratio
  rw [mul_div_assoc, ← inv_div, ratio, mid, zpow_neg]
  field_simp

theorem shortestAt_le (found : shortestAt p n = some d) : (d : ℚ) ≤ p.m * 2 ^ p.q * 10 ^ n + 1 := by
  have most := (shortestAt_eq_some found).2
  have floor : (((neighbourhood p).mid * (decimalStep p n).2 / (decimalStep p n).1 : Nat) : ℚ) ≤
      p.m * 2 ^ p.q * 10 ^ n := by
    rw [← mid_div]
    exact_mod_cast Nat.cast_div_le (α := ℚ)
  have most' : (d : ℚ) ≤ ((neighbourhood p).mid * (decimalStep p n).2 / (decimalStep p n).1 : Nat) + 1 := by
    exact_mod_cast most
  linarith

/-- Where the step of the decimals is below a quarter of the number's, the decimal below the number is near. -/
theorem exists_shortestAt (proper : p.Proper) (fine : 4 * (10 : ℚ) ^ (-n) ≤ 2 ^ p.q) : ∃ d, shortestAt p n = some d := by
  obtain ⟨hu, hv⟩ := decimalStep_pos p n
  have ratio := decimalStep_div p n
  obtain ⟨d, chosen⟩ : ∃ d, (neighbourhood p).mid * (decimalStep p n).2 / (decimalStep p n).1 = d := ⟨_, rfl⟩
  have step : (decimalStep p n).1 ≤ (decimalStep p n).2 := by
    have : ((decimalStep p n).1 : ℚ) ≤ (decimalStep p n).2 := by
      rw [← div_le_one (by exact_mod_cast hv), ratio, two_zpow_sub_two, div_le_one (by positivity)]
      linarith
    exact_mod_cast this
  -- the decimal below the number is less than a step away, and a step is at most a quarter of the number's
  have below : (neighbourhood p).holds (d * (decimalStep p n).1) (decimalStep p n).2 := by
    have split := Nat.div_add_mod ((neighbourhood p).mid * (decimalStep p n).2) (decimalStep p n).1
    have short := Nat.mod_lt ((neighbourhood p).mid * (decimalStep p n).2) hu
    rw [chosen, Nat.mul_comm] at split
    have pos := proper.pos
    have low : (neighbourhood p).lo + 1 ≤ (neighbourhood p).mid := by
      unfold neighbourhood
      dsimp only
      split <;> omega
    have high : (neighbourhood p).mid + 2 = (neighbourhood p).hi := rfl
    have low' := Nat.mul_le_mul_right (decimalStep p n).2 low
    rw [Nat.add_mul] at low'
    have high' := congrArg (· * (decimalStep p n).2) high
    simp only [Nat.add_mul] at high'
    unfold Neighbourhood.holds
    split
    all_goals
      simp only [Bool.and_eq_true, decide_eq_true_eq]
      omega
  unfold decimalStep at below chosen
  unfold shortestAt
  dsimp only
  rw [chosen]
  split <;> exact ⟨_, rfl⟩

theorem shortestFrom_eq {point : Int} (more n : Nat) (last : ∃ d, shortestAt p (((n + more : Nat) : Int) - point) = some d) :
    ∃ k d, k ≤ n + more ∧ shortestAt p ((k : Int) - point) = some d ∧
      shortestFrom p point more n = Decimal.ofUnits d ((k : Int) - point) := by
  induction more generalizing n with
  | zero =>
    obtain ⟨d, found⟩ := last
    refine ⟨n, d, le_refl _, found, ?_⟩
    unfold shortestFrom
    rw [Nat.add_zero] at found
    rw [found]
    rfl
  | succ more ih =>
    unfold shortestFrom
    cases found : shortestAt p ((n : Int) - point) with
    | some d => exact ⟨n, d, Nat.le_add_right _ _, found, rfl⟩
    | none =>
      rw [show n + (more + 1) = n + 1 + more by omega] at last ⊢
      exact ih (n + 1) last

/-! ## The digits of a number -/

theorem log2_bounds (proper : p.Proper) : -1100 ≤ ((scaleNum p.m p.q).log2 : Int) - (scaleDen 1 p.q).log2 ∧
      ((scaleNum p.m p.q).log2 : Int) - (scaleDen 1 p.q).log2 ≤ 1100 := by
  have near := div_bounds (scaleNum_pos proper.pos p.q) (scaleDen_pos one_pos p.q)
  rw [scaleNum_div_scaleDen] at near
  have one : (1 : ℚ) ≤ p.m := by exact_mod_cast proper.pos
  have wide : (p.m : ℚ) ≤ 2 ^ 53 := by exact_mod_cast proper.narrow.le
  have least := proper.least
  have most := proper.most
  generalize ((scaleNum p.m p.q).log2 : Int) - (scaleDen 1 p.q).log2 = e at *
  have low : (2 : ℚ) ^ p.q < 2 ^ (e + 1) := by
    rw [zpow_add_one₀ two_ne_zero]
    nlinarith
  have high : (2 : ℚ) ^ e < 2 ^ (p.q + 54) := by
    rw [zpow_add₀ two_ne_zero]
    nlinarith
  rw [zpow_lt_zpow_iff_right₀ one_lt_two] at low high
  omega

/-- The digits written for a number are a whole number of decimal steps near it, at most a little over seventeen of them. -/
theorem exists_shortest {x : Float} (proper : (parts x).Proper) :
    ∃ (d : Nat) (n : Int), shortest x = Decimal.ofUnits d n ∧ (parts x).Near (d * 10 ^ (-n)) ∧ d ≤ 10 ^ 18 := by
  have bounds := log2_bounds proper
  have place := pointOf_bounds (scaleNum_pos proper.pos (parts x).q) (scaleDen_pos one_pos (parts x).q) bounds.1 bounds.2
  rw [scaleNum_div_scaleDen, Nat.cast_one, div_one] at place
  unfold shortest
  dsimp only
  generalize parts x = p at *
  generalize pointOf (scaleNum p.m p.q) (scaleDen 1 p.q) = point at *
  have step : (0 : ℚ) < 2 ^ p.q := by positivity
  have ten : (10 : ℚ) ≠ 0 := by norm_num
  -- eighteen digits are fine enough for any number of 53 binary digits
  have last : ∃ d, shortestAt p (((1 + 17 : Nat) : Int) - point) = some d := by
    apply exists_shortestAt proper
    have wide : (p.m : ℚ) ≤ 2 ^ 53 := by exact_mod_cast proper.narrow.le
    have size : (10 : ℚ) ^ (-(((1 + 17 : Nat) : Int) - point)) = 10 ^ (point - 1) / 10 ^ 17 := by
      rw [← zpow_natCast, ← zpow_sub₀ ten]
      congr 1
      push_cast
      ring
    rw [size]
    nlinarith
  obtain ⟨k, d, few, found, same⟩ := shortestFrom_eq 17 1 last
  refine ⟨d, _, same, (shortestAt_eq_some found).1, ?_⟩
  have most := shortestAt_le found
  have power : (10 : ℚ) ^ point * 10 ^ ((k : Int) - point) = 10 ^ k := by
    rw [← zpow_add₀ ten, ← zpow_natCast]
    congr 1
    ring
  have less : p.m * 2 ^ p.q * 10 ^ ((k : Int) - point) < (10 : ℚ) ^ k := by
    rw [← power]
    exact mul_lt_mul_of_pos_right place.2 (by positivity)
  have small : d ≤ 10 ^ k := by
    have : (d : ℚ) < 10 ^ k + 1 := by linarith
    have : d < 10 ^ k + 1 := by exact_mod_cast this
    omega
  exact le_trans small (Nat.pow_le_pow_right (by decide) few)

/-! ## Reading digits -/

theorem near_range (proper : p.Proper) {v : ℚ} (near : p.Near v) : (10 : ℚ) ^ (-340 : Int) ≤ v ∧ v ≤ 10 ^ (340 : Int) := by
  obtain ⟨low, high, -, -⟩ := near_bounds proper near
  have least := proper.least
  have most := proper.most
  have powers := two_zpow_bounds (e := p.q) (by omega) (by omega)
  have one : (1 : ℚ) ≤ 10 := by norm_num
  have ten : (10 : ℚ) ≠ 0 := by norm_num
  have pos : (1 : ℚ) ≤ p.m := by exact_mod_cast proper.pos
  have wide : (p.m : ℚ) + 1 ≤ 10 ^ 16 :=
    le_trans (show (p.m : ℚ) + 1 ≤ 2 ^ 53 by exact_mod_cast proper.narrow) (by norm_num)
  have step : (0 : ℚ) < 2 ^ p.q := by positivity
  constructor
  · calc (10 : ℚ) ^ (-340 : Int) ≤ 10 ^ (p.q * 30103 / 100000 - 8 - 1) := zpow_le_zpow_right₀ one (by omega)
      _ = 10 ^ (p.q * 30103 / 100000 - 8) / 10 := by rw [zpow_sub_one₀ ten, div_eq_mul_inv]
      _ ≤ (p.m - 1 / 2) * 2 ^ p.q := by nlinarith
      _ ≤ v := low
  · calc v ≤ (p.m + 1 / 2) * 2 ^ p.q := high
      _ ≤ 10 ^ 16 * 10 ^ (p.q * 30103 / 100000 + 7) := mul_le_mul (by linarith) powers.2 step.le (by positivity)
      _ = 10 ^ (16 + (p.q * 30103 / 100000 + 7)) := by
          rw [zpow_add₀ ten 16]
          norm_cast
      _ ≤ 10 ^ (340 : Int) := zpow_le_zpow_right₀ one (by omega)

/-- Digits and exponent of a decimal near a number are read as the number: the decimal is neither too large nor too small to
be looked at. -/
theorem ofDecimal_of_near (proper : p.Proper) {digits : Nat} {exponent : Int} (short : digits < 10 ^ 21)
    (near : p.Near (digits * 10 ^ exponent)) : ofDecimal digits exponent = ofScaled p.m p.q := by
  obtain ⟨low, high⟩ := near_range proper near
  have pos : 0 < digits := pos_of_near proper near
  have ten : (10 : ℚ) ≠ 0 := by norm_num
  have less : (1 : ℚ) < 10 := by norm_num
  have length : digits.log2 < 70 := (Nat.log2_lt pos.ne').mpr (lt_trans short (by norm_num))
  have powers := two_zpow_bounds (e := digits.log2) (by omega) (by omega)
  have below := two_zpow_log2_le pos
  have above := lt_two_zpow_log2 digits
  rw [zpow_add_one₀ two_ne_zero] at above
  have scale : (0 : ℚ) < 10 ^ exponent := by positivity
  unfold ofDecimal
  generalize (digits.log2 : Int) * 30103 / 100000 = k at *
  have small : k - 8 + exponent ≤ 340 := by
    rw [← zpow_le_zpow_iff_right₀ less, zpow_add₀ ten]
    exact le_trans (mul_le_mul_of_nonneg_right (le_trans powers.1 below) scale.le) high
  have large : -340 ≤ k + 7 + 1 + exponent := by
    rw [← zpow_le_zpow_iff_right₀ less, zpow_add₀ ten, zpow_add_one₀ ten]
    refine le_trans low (mul_le_mul_of_nonneg_right ?_ scale.le)
    linarith [powers.2]
  rw [if_neg pos.ne', if_neg (by omega), if_neg (by omega)]
  apply ofRatio_of_near proper (scale10_pos digits one_pos exponent)
  rwa [scale10_div, Nat.cast_one, div_one]

theorem ofDigits_append (base : Nat) (ds es : List Char) :
    ofDigits base (ds ++ es) = ofDigits base ds * base ^ es.length + ofDigits base es := by
  rcases eq_nil_or_concat es with rfl | ⟨front, d, rfl⟩
  · simp [ofDigits]
  · rw [concat_eq_append, ← append_assoc, Expr.ofDigits_concat, Expr.ofDigits_concat,
      ofDigits_append base ds front, length_append, length_singleton, pow_succ]
    ring
  termination_by es.length
  decreasing_by simp_all

theorem ofDigits_replicate_zero (base n : Nat) : ofDigits base (List.replicate n '0') = 0 := by
  induction n with
  | zero => rfl
  | succ n ih =>
    rw [replicate_succ', Expr.ofDigits_concat, ih, Nat.zero_mul]
    rfl

def Decimal.value (d : Decimal) : ℚ := ofDigits 10 d.digits * 10 ^ (d.point - d.digits.length)

structure Decimal.Proper (d : Decimal) : Prop where
  digit : ∀ c ∈ d.digits, c.isDigit = true
  solid : d.digits ≠ []
  lead : d.digits.head? ≠ some '0'
  few : d.digits.length ≤ 19

theorem exists_stripZeros {ds : List Char} (lead : ds.head? ≠ some '0') (solid : ds ≠ []) :
    ∃ k, ds = stripZeros ds ++ List.replicate k '0' := by
  have parts := takeWhile_append_dropWhile (p := fun c => decide (c = '0')) (l := ds.reverse)
  have zeros : ds.reverse.takeWhile (fun c => decide (c = '0')) =
      List.replicate (ds.reverse.takeWhile fun c => decide (c = '0')).length '0' := by
    refine eq_replicate_of_mem fun c hc => ?_
    simpa using all_eq_true.mp all_takeWhile c hc
  have whole := congrArg List.reverse parts
  rw [reverse_append, reverse_reverse] at whole
  refine ⟨(ds.reverse.takeWhile fun c => decide (c = '0')).length, ?_⟩
  unfold stripZeros
  cases kept : (ds.reverse.dropWhile fun c => decide (c = '0')).reverse with
  | nil =>
    -- all digits would be zeros, the first as well
    rw [kept, nil_append, zeros, reverse_replicate] at whole
    exfalso
    cases count : (ds.reverse.takeWhile fun c => decide (c = '0')).length with
    | zero => exact solid (by rw [← whole, count]; rfl)
    | succ n => exact lead (by rw [← whole, count]; rfl)
  | cons c cs =>
    rw [kept, zeros, reverse_replicate] at whole
    exact whole.symm

theorem proper_ofUnits (pos : 0 < d) (few : d ≤ 10 ^ 18) (n : Int) : (Decimal.ofUnits d n).Proper := by
  have lead := Expr.head?_decimalText pos.ne'
  have solid : decimalText d ≠ [] := Nat.toDigits_ne_nil
  obtain ⟨k, stripped⟩ := exists_stripZeros lead solid
  have front : (stripZeros (decimalText d)) <+: decimalText d := ⟨_, stripped.symm⟩
  have some : stripZeros (decimalText d) ≠ [] := by
    intro none
    rw [none, nil_append] at stripped
    cases k with
    | zero => exact solid stripped
    | succ k => exact lead (by rw [stripped]; rfl)
  constructor
  · exact fun c hc => Expr.isDigit_of_mem_decimalText (front.subset hc)
  · exact some
  · intro zero
    obtain ⟨c, cs, shape⟩ := exists_cons_of_ne_nil some
    change (stripZeros (decimalText d)).head? = _ at zero
    rw [shape] at zero stripped
    exact lead (by rw [stripped]; exact zero)
  · refine le_trans front.length_le ?_
    exact (Nat.length_toDigits_le_iff (by decide) (by decide)).mpr (lt_of_le_of_lt few (by norm_num))

theorem value_ofUnits (pos : 0 < d) (n : Int) : (Decimal.ofUnits d n).value = d * 10 ^ (-n) := by
  have ten : (10 : ℚ) ≠ 0 := by norm_num
  obtain ⟨k, stripped⟩ := exists_stripZeros (Expr.head?_decimalText pos.ne') Nat.toDigits_ne_nil
  have units := Expr.ofDigits_decimalText d
  have length := congrArg List.length stripped
  rw [length_append, length_replicate] at length
  rw [stripped, ofDigits_append, ofDigits_replicate_zero, length_replicate, Nat.add_zero] at units
  unfold Decimal.value Decimal.ofUnits
  rw [show ((decimalText d).length : Int) - n - (stripZeros (decimalText d)).length = k + -n by omega, zpow_add₀ ten,
    ← mul_assoc, zpow_natCast]
  congr 1
  exact_mod_cast units

end LineScript.Number
