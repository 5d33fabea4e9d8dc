
import LineScript.Proofs.FloatBits

/-!
# The nearest number

Every fraction in the neighbourhood of a number is rounded to it (`ofRatio_of_near`). The neighbourhood reaches half a step
to each side, a quarter of one below a power of two, and its ends belong to it if the number is even.
-/

namespace LineScript.Number

variable {den num m n : Nat} {p : Parts} {v : ℚ}

/-! ## Scaled fractions -/

theorem two_zpow_sub_one (q : Int) : (2 : ℚ) ^ (q - 1) = 2 ^ q / 2 := zpow_sub_one₀ two_ne_zero q

theorem two_zpow_sub_two (q : Int) : (2 : ℚ) ^ (q - 2) = 2 ^ q / 4 := by
  rw [zpow_sub₀ two_ne_zero]
  norm_num

theorem scaleDen_pos (pos : 0 < den) (q : Int) : 0 < scaleDen den q := by
  unfold scaleDen
  split
  · exact pos
  · exact Nat.mul_pos pos (Nat.two_pow_pos _)

theorem scaleNum_pos (pos : 0 < num) (q : Int) : 0 < scaleNum num q := by
  unfold scaleNum
  split
  · exact Nat.mul_pos pos (Nat.two_pow_pos _)
  · exact pos

theorem scaleNum_div_scaleDen (num den : Nat) (q : Int) : (scaleNum num q : ℚ) / scaleDen den q = num / den * 2 ^ q := by
  unfold scaleNum scaleDen
  rcases Int.lt_or_le q 0 with below | above
  · obtain ⟨k, rfl⟩ : ∃ k : Nat, q = -(k : Int) := ⟨(-q).toNat, by omega⟩
    rw [if_neg (by omega), if_neg (by omega), neg_neg, Int.toNat_natCast, zpow_neg, zpow_natCast]
    simp only [Nat.pow_eq, Nat.cast_mul, Nat.cast_pow, Nat.cast_ofNat]
    field_simp
  · obtain ⟨k, rfl⟩ : ∃ k : Nat, q = (k : Int) := ⟨q.toNat, by omega⟩
    rw [if_pos above, if_pos above, Int.toNat_natCast, zpow_natCast]
    simp only [Nat.pow_eq, Nat.cast_mul, Nat.cast_pow]
    ring

theorem scale10_pos (num : Nat) (pos : 0 < den) (n : Int) : 0 < (scale10 num den n).2 := by
  unfold scale10
  split
  · exact pos
  · exact Nat.mul_pos pos (Nat.pow_pos (by decide))

theorem scale10_div (num den : Nat) (n : Int) :
    ((scale10 num den n).1 : ℚ) / (scale10 num den n).2 = num / den * 10 ^ n := by
  unfold scale10
  rcases Int.lt_or_le n 0 with below | above
  · obtain ⟨k, rfl⟩ : ∃ k : Nat, n = -(k : Int) := ⟨(-n).toNat, by omega⟩
    rw [if_neg (by omega), neg_neg, Int.toNat_natCast, zpow_neg, zpow_natCast]
    simp only [Nat.pow_eq, Nat.cast_mul, Nat.cast_pow, Nat.cast_ofNat]
    field_simp
  · obtain ⟨k, rfl⟩ : ∃ k : Nat, n = (k : Int) := ⟨n.toNat, by omega⟩
    rw [if_pos above, Int.toNat_natCast, zpow_natCast]
    simp only [Nat.pow_eq, Nat.cast_mul, Nat.cast_pow]
    ring

/-! ## Rounding -/

/-- What is within a half of a whole number is rounded to it; at exactly a half the number has to be even. -/
theorem roundDiv_eq (pos : 0 < den) (low : 2 * (m * den) ≤ 2 * num + den) (high : 2 * num ≤ 2 * (m * den) + den)
    (tie : m % 2 = 0 ∨ 2 * (m * den) < 2 * num + den ∧ 2 * num < 2 * (m * den) + den) : roundDiv num den = m := by
  have split := Nat.div_add_mod num den
  have short := Nat.mod_lt num pos
  unfold roundDiv
  generalize num / den = d at *
  generalize num % den = r at *
  rcases Nat.lt_trichotomy d m with less | rfl | more
  · -- the quotient is one below
    obtain ⟨k, rfl⟩ : ∃ k, m = d + 1 + k := ⟨m - (d + 1), by omega⟩
    have wide : (d + 1 + k) * den = den * d + den + den * k := by ring
    have last : k = 0 := by
      rcases Nat.eq_zero_or_pos k with zero | some
      · exact zero
      · have := Nat.mul_le_mul_left den some
        omega
    subst last
    rw [if_neg (by omega)]
    by_cases above : den < 2 * r
    · rw [if_pos above]
    · rw [if_neg above, if_neg (by omega)]
  · rw [Nat.mul_comm d den] at low high tie
    by_cases under : 2 * r < den
    · rw [if_pos under]
    · rw [if_neg under, if_neg (by omega), if_pos (by omega)]
  · obtain ⟨k, rfl⟩ : ∃ k, d = m + 1 + k := ⟨d - (m + 1), by omega⟩
    have wide : den * (m + 1 + k) = m * den + den + den * k := by ring
    omega

theorem two_zpow_log2_le (pos : 0 < n) : (2 : ℚ) ^ (n.log2 : Int) ≤ n := by
  exact_mod_cast Nat.log2_self_le (by omega)

theorem lt_two_zpow_log2 (n : Nat) : (n : ℚ) < 2 ^ ((n.log2 : Int) + 1) := by
  have : n < 2 ^ (n.log2 + 1) := Nat.lt_log2_self
  exact_mod_cast this

/-- A fraction lies within a factor of two of the power that the lengths of its terms give. -/
theorem div_bounds (hn : 0 < num) (hd : 0 < den) : (2 : ℚ) ^ ((num.log2 : Int) - den.log2) < 2 * (num / den) ∧
      (num / den : ℚ) < 2 * 2 ^ ((num.log2 : Int) - den.log2) := by
  have top := two_zpow_log2_le hn
  have top' := lt_two_zpow_log2 num
  have bottom := two_zpow_log2_le hd
  have bottom' := lt_two_zpow_log2 den
  rw [zpow_add₀ two_ne_zero] at top' bottom'
  have posDen : (0 : ℚ) < den := by exact_mod_cast hd
  have posPow : (0 : ℚ) < 2 ^ (den.log2 : Int) := by positivity
  rw [zpow_sub₀ two_ne_zero, ← mul_div_assoc, ← mul_div_assoc]
  constructor
  · rw [div_lt_div_iff₀ posPow posDen]
    nlinarith
  · rw [div_lt_div_iff₀ posDen posPow]
    nlinarith

theorem scaled_lt_iff (num : Nat) (pos : 0 < den) (q : Int) (k : Nat) :
    scaleNum num (-q) < scaleDen den (-q) * k ↔ (num / den : ℚ) < k * 2 ^ q := by
  have scaled := scaleNum_div_scaleDen num den (-q)
  have posDen : (0 : ℚ) < scaleDen den (-q) := by exact_mod_cast scaleDen_pos pos (-q)
  rw [zpow_neg, ← div_eq_mul_inv] at scaled
  rw [← div_lt_iff₀ (by positivity), ← scaled, div_lt_iff₀' posDen]
  exact_mod_cast Iff.rfl

/-- At its exponent a fraction has 53 binary digits, or fewer at the smallest exponent. -/
theorem exponentOf_spec (hn : 0 < num) (hd : 0 < den) :
    -1074 ≤ exponentOf num den ∧ (num / den : ℚ) < 2 ^ 53 * 2 ^ exponentOf num den ∧
      (exponentOf num den = -1074 ∨ (2 ^ 52 * 2 ^ exponentOf num den : ℚ) ≤ num / den) := by
  have bounds := div_bounds hn hd
  obtain ⟨q, chosen⟩ : ∃ q : Int, (num.log2 : Int) - den.log2 - 52 = q := ⟨_, rfl⟩
  have power : (2 : ℚ) ^ ((num.log2 : Int) - den.log2) = 2 ^ 52 * 2 ^ q := by
    rw [← zpow_natCast, ← zpow_add₀ two_ne_zero]
    congr 1
    omega
  have half := two_zpow_sub_one q
  -- before the smallest exponent comes in
  obtain ⟨r, same, narrow, full⟩ : ∃ r : Int, exponentOf num den = max r (-1074) ∧
      (num / den : ℚ) < 2 ^ 53 * 2 ^ r ∧ (2 ^ 52 * 2 ^ r : ℚ) ≤ num / den := by
    by_cases less : scaleNum num (-q) < scaleDen den (-q) * Nat.pow 2 52
    · refine ⟨q - 1, ?_, ?_, ?_⟩
      · unfold exponentOf
        dsimp only
        rw [chosen, if_pos less]
      · have bound := (scaled_lt_iff num hd q _).mp less
        push_cast [Nat.pow_eq] at bound
        linarith
      · linarith
    · refine ⟨q, ?_, ?_, ?_⟩
      · unfold exponentOf
        dsimp only
        rw [chosen, if_neg less]
      · linarith
      · have bound := (scaled_lt_iff num hd q _).not.mp less
        push_cast [Nat.pow_eq] at bound
        linarith
  rcases Int.lt_or_le r (-1074) with low | high
  · rw [same, max_eq_right low.le]
    have wider := mul_le_mul_of_nonneg_left (zpow_le_zpow_right₀ (one_le_two (α := ℚ)) low.le)
      (show (0 : ℚ) ≤ 2 ^ 53 by positivity)
    exact ⟨le_refl _, lt_of_lt_of_le narrow wider, .inl rfl⟩
  · rw [same, max_eq_left high]
    exact ⟨high, narrow, .inr full⟩

/-! ## Neighbourhoods -/

/-- A fraction that is as near to the number as the neighbourhood reaches. -/
def Parts.Near (p : Parts) (v : ℚ) : Prop :=
  let h := neighbourhood p
  let t := v / 2 ^ (p.q - 2)
  if h.closed then h.lo ≤ t ∧ t ≤ h.hi else h.lo < t ∧ t < h.hi

theorem holds_iff (h : Neighbourhood) (num : Nat) (pos : 0 < den) : h.holds num den ↔
      if h.closed then (h.lo : ℚ) ≤ num / den ∧ (num / den : ℚ) ≤ h.hi
      else (h.lo : ℚ) < num / den ∧ (num / den : ℚ) < h.hi := by
  have posDen : (0 : ℚ) < den := by exact_mod_cast pos
  unfold Neighbourhood.holds
  split
  · rw [le_div_iff₀ posDen, div_le_iff₀ posDen]
    norm_cast
    simp
  · rw [lt_div_iff₀ posDen, div_lt_iff₀ posDen]
    norm_cast
    simp

theorem near_bounds (proper : p.Proper) (near : p.Near v) : (p.m - 1 / 2) * 2 ^ p.q ≤ v ∧ v ≤ (p.m + 1 / 2) * 2 ^ p.q ∧
      (p.m % 2 = 0 ∨ (p.m - 1 / 2) * 2 ^ p.q < v ∧ v < (p.m + 1 / 2) * 2 ^ p.q) ∧
        (p.m = 2 ^ 52 → -1074 < p.q → (p.m - 1 / 4) * 2 ^ p.q ≤ v) := by
  have pos := proper.pos
  have step := two_zpow_sub_two p.q
  have posStep : (0 : ℚ) < 2 ^ p.q / 4 := by positivity
  have low : ((neighbourhood p).lo : ℚ) =
      if p.m = 2 ^ 52 ∧ -1074 < p.q then 4 * (p.m : ℚ) - 1 else 4 * (p.m : ℚ) - 2 := by
    unfold neighbourhood
    simp only [Nat.pow_eq, Bool.and_eq_true, decide_eq_true_eq]
    split
    all_goals
      rw [Nat.cast_sub (by omega)]
      push_cast
      rfl
  have high : ((neighbourhood p).hi : ℚ) = 4 * p.m + 2 := by
    unfold neighbourhood
    push_cast
    rfl
  have even : (neighbourhood p).closed = decide (p.m % 2 = 0) := rfl
  unfold Parts.Near at near
  dsimp only at near
  rw [step, even, low, high, le_div_iff₀ posStep, div_le_iff₀ posStep, lt_div_iff₀ posStep, div_lt_iff₀ posStep] at near
  generalize (2 : ℚ) ^ p.q = s at *
  by_cases quarter : p.m = 2 ^ 52 ∧ -1074 < p.q
  · have closed : p.m % 2 = 0 := by omega
    rw [if_pos (by simpa using closed), if_pos quarter] at near
    refine ⟨by linarith, by linarith, .inl closed, fun _ _ => by linarith⟩
  · rw [if_neg quarter] at near
    have open' : p.m = 2 ^ 52 → -1074 < p.q → (p.m - 1 / 4 : ℚ) * s ≤ v := fun h h' => absurd ⟨h, h'⟩ quarter
    by_cases closed : p.m % 2 = 0
    · rw [if_pos (by simpa using closed)] at near
      exact ⟨by linarith, by linarith, .inl closed, open'⟩
    · rw [if_neg (by simpa using closed)] at near
      exact ⟨by linarith, by linarith, .inr ⟨by linarith, by linarith⟩, open'⟩

theorem roundDiv_scaled (pos : 0 < den) {q : Int} (low : (m - 1 / 2) * 2 ^ q ≤ (num / den : ℚ))
    (high : (num / den : ℚ) ≤ (m + 1 / 2) * 2 ^ q)
    (tie : m % 2 = 0 ∨ (m - 1 / 2) * 2 ^ q < (num / den : ℚ) ∧ (num / den : ℚ) < (m + 1 / 2) * 2 ^ q) :
    roundDiv (scaleNum num (-q)) (scaleDen den (-q)) = m := by
  have posDen := scaleDen_pos pos (-q)
  have scaled := scaleNum_div_scaleDen num den (-q)
  have posStep : (0 : ℚ) < 2 ^ q := by positivity
  rw [zpow_neg, ← div_eq_mul_inv, eq_div_iff posStep.ne'] at scaled
  rw [← scaled] at low high tie
  have posDen' : (0 : ℚ) < scaleDen den (-q) := by exact_mod_cast posDen
  simp only [mul_le_mul_iff_left₀ posStep, mul_lt_mul_iff_left₀ posStep, le_div_iff₀ posDen', div_le_iff₀ posDen',
    lt_div_iff₀ posDen', div_lt_iff₀ posDen'] at low high tie
  generalize scaleNum num (-q) = n at *
  generalize scaleDen den (-q) = d at *
  refine roundDiv_eq posDen ?_ ?_ (tie.imp_right fun strict => ⟨?_, ?_⟩)
  · have : (2 * (m * d) : ℚ) ≤ 2 * n + d := by linarith
    exact_mod_cast this
  · have : (2 * n : ℚ) ≤ 2 * (m * d) + d := by linarith
    exact_mod_cast this
  · have : (2 * (m * d) : ℚ) < 2 * n + d := by linarith [strict.1]
    exact_mod_cast this
  · have : (2 * n : ℚ) < 2 * (m * d) + d := by linarith [strict.2]
    exact_mod_cast this

/-- A fraction in the neighbourhood of a number has the number's exponent, unless it is below a power of two. -/
theorem exponentOf_near (proper : p.Proper) (hn : 0 < num) (hd : 0 < den) (near : p.Near (num / den)) :
    exponentOf num den = p.q ∨
      exponentOf num den = p.q - 1 ∧ p.m = 2 ^ 52 ∧ -1074 < p.q ∧ (num / den : ℚ) < 2 ^ 52 * 2 ^ p.q := by
  obtain ⟨low, high, -, quarter⟩ := near_bounds proper near
  obtain ⟨least, narrow, full⟩ := exponentOf_spec hn hd
  have wide : (p.m : ℚ) + 1 ≤ 2 ^ 53 := by exact_mod_cast proper.narrow
  rcases lt_trichotomy (exponentOf num den) p.q with less | same | more
  · -- a smaller exponent: then the number is a power of two and the fraction below it
    have large : 2 ^ 52 ≤ p.m := by
      have := proper.full
      omega
    have half : (2 : ℚ) ^ exponentOf num den ≤ 2 ^ p.q / 2 := by
      rw [← two_zpow_sub_one]
      exact zpow_le_zpow_right₀ one_le_two (by omega)
    have power : p.m = 2 ^ 52 := by
      by_contra other
      have : (2 ^ 52 + 1 : ℚ) ≤ p.m := by exact_mod_cast (show 2 ^ 52 + 1 ≤ p.m by omega)
      nlinarith
    have exact' := quarter power (by omega)
    refine .inr ⟨?_, power, by omega, by linarith⟩
    by_contra other
    have fourth : (2 : ℚ) ^ exponentOf num den ≤ 2 ^ p.q / 4 := by
      rw [← two_zpow_sub_two]
      exact zpow_le_zpow_right₀ one_le_two (by omega)
    have cast : (p.m : ℚ) = 2 ^ 52 := by exact_mod_cast power
    rw [cast] at exact'
    linarith
  · exact .inl same
  · have least' := proper.least
    have enough := full.resolve_left (by omega)
    have double : (2 : ℚ) ^ p.q * 2 ≤ 2 ^ exponentOf num den := by
      rw [← zpow_add_one₀ two_ne_zero]
      exact zpow_le_zpow_right₀ one_le_two (by omega)
    nlinarith

theorem near_pos (proper : p.Proper) (near : p.Near v) : 0 < v := by
  have low := (near_bounds proper near).1
  have one : (1 : ℚ) ≤ p.m := by exact_mod_cast proper.pos
  have posStep : (0 : ℚ) < 2 ^ p.q := by positivity
  nlinarith

theorem pos_of_near (proper : p.Proper) (near : p.Near (n * v)) : 0 < n := by
  refine Nat.pos_of_ne_zero fun zero => ?_
  have := near_pos proper near
  rw [zero] at this
  simp at this

/-- Fractions in the neighbourhood of a number are rounded to it. -/
theorem ofRatio_of_near (proper : p.Proper) (pos : 0 < den) (near : p.Near (num / den)) :
    ofRatio num den = ofScaled p.m p.q := by
  obtain ⟨low, high, tie, quarter⟩ := near_bounds proper near
  have hn : 0 < num := pos_of_near proper (div_eq_mul_inv (num : ℚ) den ▸ near)
  unfold ofRatio
  rw [if_neg (by omega)]
  dsimp only
  rcases exponentOf_near proper hn pos near with same | ⟨lower, power, above, less⟩
  · rw [same, roundDiv_scaled pos low high tie, if_neg]
    exact proper.narrow.ne
  · -- rounded at the exponent below, the fraction reaches the next power of two, which is then taken at its own exponent
    have half := two_zpow_sub_one p.q
    have exact' := quarter power above
    have cast : (p.m : ℚ) = 2 ^ 52 := by exact_mod_cast power
    have rounded : roundDiv (scaleNum num (-(p.q - 1))) (scaleDen den (-(p.q - 1))) = 2 ^ 53 := by
      rw [cast] at exact'
      refine roundDiv_scaled pos ?_ ?_ (.inl (by decide))
      · linarith
      · linarith
    rw [lower, rounded, Nat.pow_eq, if_pos rfl, power, Int.sub_add_cancel]
    rfl

end LineScript.Number
