import SandboxPool.Proofs.Decimal.Intervals

/-!
# The shortest decimal rounds to its double

`shortest` gives a decimal of the interval of the double (`contains_shortest`): a grid with eighteen digits
always has a point there, so that the search ends before that or with it.
-/

namespace SandboxPool.Decimal

variable {b : Binary} {p : Int} {n : Nat}

/-- The number that a decimal stands for. -/
def Scaled.value (d : Scaled) : ℚ := d.digits * 10 ^ d.exponent

/-! ## The leading digit -/

/-- Multiplied by ten so many times, the number reaches the bound, if it can be reached at all. -/
theorem le_stepsToReach {bound fuel n : Nat} (h : bound ≤ n * 10 ^ fuel) :
    bound ≤ n * 10 ^ stepsToReach bound fuel n := by
  induction fuel generalizing n with
  | zero => exact h
  | succ fuel ih =>
    unfold stepsToReach
    split
    · next hle => simpa using hle
    · have hnext : bound ≤ n * 10 * 10 ^ fuel := by
        rwa [Nat.mul_assoc, ← Nat.pow_succ']
      have := ih hnext
      rwa [Nat.mul_assoc, ← Nat.pow_succ'] at this

/-- A positive ratio is at least as large as its leading decimal digit says. -/
theorem Ratio.leading_le {r : Ratio} (hd : 0 < r.den) (h : r.den ≤ r.num * 10 ^ 400) :
    (10 : ℚ) ^ r.leading ≤ r.value := by
  unfold leading
  simp only
  split
  · next hwhole =>
    have hpow : 10 ^ ((Nat.toDigits 10 (r.num / r.den)).length - 1) ≤ r.num / r.den := by
      by_contra hlt
      have hpos := Nat.length_toDigits_pos (b := 10) (n := r.num / r.den)
      rcases Nat.eq_zero_or_pos ((Nat.toDigits 10 (r.num / r.den)).length - 1) with hz | hz
      · rw [hz] at hlt
        omega
      · have := (Nat.length_toDigits_le_iff (by decide) hz).2 (Nat.lt_of_not_le hlt)
        omega
    have hmul : 10 ^ ((Nat.toDigits 10 (r.num / r.den)).length - 1) * r.den ≤ r.num :=
      (Nat.mul_le_mul_right _ hpow).trans (Nat.div_mul_le_self _ _)
    have hexp : (Int.ofNat (Nat.toDigits 10 (r.num / r.den)).length - 1 : Int)
        = ((Nat.toDigits 10 (r.num / r.den)).length - 1 : Nat) := by
      have hpos := Nat.length_toDigits_pos (b := 10) (n := r.num / r.den)
      simp only [Int.ofNat_eq_natCast]
      omega
    have hle := (Ratio.le_value_iff hd _).2 hmul
    rw [hexp, zpow_natCast]
    exact_mod_cast hle
  · have hreach := le_stepsToReach h
    have hden : (0 : ℚ) < r.den := Nat.cast_pos.2 hd
    have hten : (0 : ℚ) < 10 ^ stepsToReach r.den 400 r.num := by positivity
    have hcast : (r.den : ℚ) ≤ r.num * 10 ^ stepsToReach r.den 400 r.num := by exact_mod_cast hreach
    simp only [Int.ofNat_eq_natCast, zpow_neg, zpow_natCast]
    unfold value
    rw [inv_le_iff_one_le_mul₀ hten, div_mul_eq_mul_div, one_le_div hden]
    exact hcast

/-! ## Grids -/

namespace Binary

/-- What is found on a grid rounds to the double. -/
theorem contains_of_onGrid? (h : b.onGrid? p = some n) : b.interval.Contains (n * 10 ^ (-p)) := by
  have hholds : b.interval.holds p n = true := by
    unfold onGrid? at h
    simp only at h
    split at h
    · next hfloor hceil =>
      split at h
      · obtain rfl := Option.some.inj h
        exact hfloor
      split at h
      · obtain rfl := Option.some.inj h
        exact hceil
      split at h
      · obtain rfl := Option.some.inj h
        exact hfloor
      · obtain rfl := Option.some.inj h
        exact hceil
    · next hfloor _ =>
      obtain rfl := Option.some.inj h
      exact hfloor
    · next _ hceil =>
      obtain rfl := Option.some.inj h
      exact hceil
    · cases h
  exact (Interval.holds_iff (Ratio.den_scale2_pos _ _) (Ratio.den_scale2_pos _ _) p n).1 hholds

/-- Something is found on a grid if the point below the double rounds to it. -/
theorem onGrid?_isSome {floor : Nat}
    (hf : floor = ((Ratio.scale2 b.mantissa b.exponent).scale10 p).num
      / ((Ratio.scale2 b.mantissa b.exponent).scale10 p).den)
    (h : b.interval.Contains (floor * 10 ^ (-p))) : (b.onGrid? p).isSome = true := by
  have hholds :=
    (Interval.holds_iff (Ratio.den_scale2_pos _ _) (Ratio.den_scale2_pos _ _) p floor).2 h
  unfold onGrid?
  simp only
  rw [← hf, hholds]
  split
  · split
    · rfl
    split
    · rfl
    split <;> rfl
  · rfl
  · rfl
  · next hfalse _ => cases hfalse

/-- A double is in its interval, and so is all that is not more than a quarter of a gap below it. -/
theorem contains_of_near {x : ℚ} (hpos : 0 < b.mantissa) (hl : b.value - 2 ^ (b.exponent - 2) < x)
    (hh : x ≤ b.value) : b.interval.Contains x := by
  have hgap : (0 : ℚ) < 2 ^ (b.exponent - 2) := zpow_pos (by norm_num) _
  have hvalue : b.value = 4 * b.mantissa * 2 ^ (b.exponent - 2) := by
    have hsplit : b.exponent = (b.exponent - 2) + 2 := by omega
    unfold value
    rw [hsplit, zpow_add₀ (by norm_num : (2 : ℚ) ≠ 0), ← hsplit]
    norm_num
    ring
  refine Interval.contains_of_between ?_ ?_
  · have hlow : b.interval.low.value ≤ b.value - 2 ^ (b.exponent - 2) := by
      have hle : 4 * b.mantissa - (if b.narrow then 1 else 2) ≤ 4 * b.mantissa - 1 := by
        split <;> omega
      have hcast : ((4 * b.mantissa - (if b.narrow then 1 else 2) : Nat) : ℚ)
          ≤ 4 * b.mantissa - 1 := by
        have hone : 1 ≤ 4 * b.mantissa := by omega
        calc ((4 * b.mantissa - (if b.narrow then 1 else 2) : Nat) : ℚ)
            ≤ ((4 * b.mantissa - 1 : Nat) : ℚ) := by exact_mod_cast hle
          _ = 4 * b.mantissa - 1 := by
              rw [Nat.cast_sub hone]
              push_cast
              ring
      rw [low_interval, hvalue]
      calc ((4 * b.mantissa - (if b.narrow then 1 else 2) : Nat) : ℚ) * 2 ^ (b.exponent - 2)
          ≤ (4 * b.mantissa - 1) * 2 ^ (b.exponent - 2) :=
            mul_le_mul_of_nonneg_right hcast hgap.le
        _ = 4 * b.mantissa * 2 ^ (b.exponent - 2) - 2 ^ (b.exponent - 2) := by ring
    exact hlow.trans_lt hl
  · refine hh.trans_lt ?_
    rw [high_interval, hvalue]
    push_cast
    nlinarith

/-- The grid with eighteen digits has a point in the interval of the double. -/
theorem exists_onGrid (hpos : 0 < b.mantissa) (hlt : b.mantissa < 2 ^ 53) {leading : Int}
    (hlead : (10 : ℚ) ^ leading ≤ b.value) : (b.onGrid? (17 - leading)).isSome = true := by
  have hden := Ratio.den_scale10_pos (Ratio.den_scale2_pos b.mantissa b.exponent) (17 - leading)
  have hscaled : ((Ratio.scale2 b.mantissa b.exponent).scale10 (17 - leading)).value
      = b.value * 10 ^ (17 - leading) := by
    rw [Ratio.value_scale10, Ratio.value_scale2]
    rfl
  refine onGrid?_isSome rfl ?_
  generalize (Ratio.scale2 b.mantissa b.exponent).scale10 (17 - leading) = r at hden hscaled ⊢
  have hgrid : (0 : ℚ) < 10 ^ (-(17 - leading)) := zpow_pos (by norm_num) _
  have hback : b.value = r.value * 10 ^ (-(17 - leading)) := by
    rw [hscaled, mul_assoc, ← zpow_add₀ (by norm_num : (10 : ℚ) ≠ 0), add_neg_cancel, zpow_zero,
      mul_one]
  have hfloor : ((r.num / r.den : Nat) : ℚ) ≤ r.value :=
    (Ratio.le_value_iff hden _).2 (Nat.div_mul_le_self _ _)
  have hceil : r.value < (r.num / r.den : Nat) + 1 := by
    have hnot : ¬(r.num / r.den + 1) * r.den ≤ r.num := by
      rw [Nat.not_le, ← Nat.div_lt_iff_lt_mul hden]
      exact Nat.lt_succ_self _
    have := mt (Ratio.le_value_iff hden (r.num / r.den + 1)).1 hnot
    push_cast at this
    exact lt_of_not_ge this
  -- the grid is finer than a quarter of the gap between doubles there
  have hfine : (10 : ℚ) ^ (-(17 - leading)) ≤ 2 ^ (b.exponent - 2) := by
    have hexp : -(17 - leading) = leading + (-17) := by omega
    have htwo : (2 : ℚ) ^ b.exponent = 2 ^ (b.exponent - 2) * 4 := by
      rw [show b.exponent = (b.exponent - 2) + 2 by omega,
        zpow_add₀ (by norm_num : (2 : ℚ) ≠ 0)]
      norm_num
    have hgap : (0 : ℚ) < 2 ^ (b.exponent - 2) := zpow_pos (by norm_num) _
    have hm : (b.mantissa : ℚ) ≤ 2 ^ 53 := by exact_mod_cast hlt.le
    calc (10 : ℚ) ^ (-(17 - leading))
        = 10 ^ leading * 10 ^ (-17 : Int) := by
          rw [hexp, zpow_add₀ (by norm_num : (10 : ℚ) ≠ 0)]
      _ ≤ b.value * 10 ^ (-17 : Int) := mul_le_mul_of_nonneg_right hlead (by positivity)
      _ = b.mantissa * (2 ^ (b.exponent - 2) * 4) * 10 ^ (-17 : Int) := by
          rw [← htwo]
          rfl
      _ ≤ 2 ^ 53 * (2 ^ (b.exponent - 2) * 4) * 10 ^ (-17 : Int) := by gcongr
      _ ≤ 2 ^ (b.exponent - 2) := by
          norm_num
          linarith
  refine contains_of_near hpos ?_ ?_
  · rw [hback]
    nlinarith
  · rw [hback]
    exact mul_le_mul_of_nonneg_right hfloor hgrid.le

end Binary

/-! ## The search -/

/-- Taking zeros off the end changes no number. -/
theorem value_stripZeros (fuel : Nat) (d : Scaled) : (stripZeros fuel d).value = d.value := by
  induction fuel generalizing d with
  | zero => rfl
  | succ fuel ih =>
    unfold stripZeros
    split
    · next h =>
      simp only [ne_eq, Bool.and_eq_true, decide_eq_true_eq] at h
      have hdigits : (d.digits : ℚ) = (d.digits / 10 : Nat) * 10 := by
        exact_mod_cast (Nat.div_mul_cancel (Nat.dvd_of_mod_eq_zero h.2)).symm
      rw [ih]
      unfold Scaled.value
      rw [hdigits, zpow_add_one₀ (by norm_num : (10 : ℚ) ≠ 0)]
      ring
    · rfl

/-- A search that goes on to the grid with eighteen digits finds a decimal that rounds to the double. -/
theorem contains_searchGrids {leading : Int} (hlast : (b.onGrid? (17 - leading)).isSome = true)
    {fuel count : Nat} (hc : fuel + count = 18) :
    b.interval.Contains (searchGrids b leading (fuel + 1) count).value := by
  induction fuel generalizing count with
  | zero =>
    obtain rfl : count = 18 := by omega
    obtain ⟨n, hn⟩ := Option.isSome_iff_exists.1 hlast
    have hp : Int.ofNat 18 - 1 - leading = 17 - leading := by
      simp only [Int.ofNat_eq_natCast]
      omega
    unfold searchGrids
    simp only
    rw [hp, hn]
    simp only
    rw [value_stripZeros]
    exact Binary.contains_of_onGrid? hn
  | succ fuel ih =>
    unfold searchGrids
    simp only
    split
    · next hn =>
      rw [value_stripZeros]
      exact Binary.contains_of_onGrid? hn
    · exact ih (by omega)

/-- **The shortest decimal of a double rounds to it.** -/
theorem contains_shortest {bits : UInt64} (h : bits.toNat % 2 ^ 63 ≠ 0) :
    (Binary.ofMagnitude (bits.toNat % 2 ^ 63)).interval.Contains (shortest bits).value := by
  unfold shortest
  simp only
  rw [Binary.ofBits_eq]
  generalize bits.toNat % 2 ^ 63 = m at h ⊢
  have hpos := Binary.mantissa_pos h
  rw [if_neg hpos.ne']
  refine contains_searchGrids (Binary.exists_onGrid hpos (Binary.mantissa_lt m) ?_) rfl
  have hexp := Binary.exponent_ge m
  have hle := Ratio.leading_le
    (Ratio.den_scale2_pos (Binary.ofMagnitude m).mantissa (Binary.ofMagnitude m).exponent)
    (Ratio.den_scale2_le hpos (by omega))
  rwa [Ratio.value_scale2] at hle

/-- The shortest decimal of a double other than zero is positive. -/
theorem digits_shortest_ne_zero {bits : UInt64} (h : bits.toNat % 2 ^ 63 ≠ 0) :
    (shortest bits).digits ≠ 0 := by
  intro hz
  have hle := (contains_shortest h).le.1
  have hpos := Binary.mantissa_pos h
  have hgap : (0 : ℚ) < 2 ^ ((Binary.ofMagnitude (bits.toNat % 2 ^ 63)).exponent - 2) :=
    zpow_pos (by norm_num) _
  have hlow : 0 < (Binary.ofMagnitude (bits.toNat % 2 ^ 63)).interval.low.value := by
    rw [Binary.low_interval]
    refine mul_pos (Nat.cast_pos.2 ?_) hgap
    split <;> omega
  unfold Scaled.value at hle
  rw [hz, Nat.cast_zero, zero_mul] at hle
  exact absurd hlow hle.not_gt

end SandboxPool.Decimal
