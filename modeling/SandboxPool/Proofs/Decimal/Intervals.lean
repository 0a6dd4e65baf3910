import SandboxPool.Decimal.Shortest
import Mathlib.Algebra.Order.Field.Basic
import Mathlib.Algebra.Order.Ring.Rat
import Mathlib.Data.Rat.Cast.Order
import Mathlib.Order.Monotone.Basic
import Mathlib.Tactic.FieldSimp
import Mathlib.Tactic.Linarith
import Mathlib.Tactic.NormNum
import Mathlib.Tactic.Positivity
import Mathlib.Tactic.Ring

/-!
# The numbers that round to a double

The doubles in the order of their bits (`Binary.ofMagnitude`) leave no number between their intervals, and
no number lies in two of them (`Binary.eq_of_contains`): neighbours meet in the middle, and only the one
with the even mantissa has that point.
-/

namespace SandboxPool.Decimal

theorem powerOfTwo_eq (n : Nat) : powerOfTwo n = 2 ^ n := rfl

theorem powerOfTen_eq (n : Nat) : powerOfTen n = 10 ^ n := rfl

/-! ## Ratios -/

namespace Ratio

/-- The number that a ratio stands for. -/
def value (r : Ratio) : ℚ := r.num / r.den

theorem den_scale2_pos (n : Nat) (e : Int) : 0 < (scale2 n e).den := by
  unfold scale2
  split
  · exact Nat.one_pos
  · exact Nat.pow_pos Nat.two_pos

/-- Three powers of two are less than one of ten. -/
theorem den_scale2_le {n k : Nat} {e : Int} (hn : 0 < n) (he : -e ≤ 3 * k) :
    (scale2 n e).den ≤ (scale2 n e).num * 10 ^ k := by
  have hten : 0 < 10 ^ k := Nat.pow_pos (by decide)
  unfold scale2
  split
  · exact Nat.mul_pos (Nat.mul_pos hn (Nat.pow_pos Nat.two_pos)) hten
  · calc 2 ^ (-e).toNat
        ≤ 2 ^ (3 * k) := Nat.pow_le_pow_right Nat.two_pos (by omega)
      _ = 8 ^ k := Nat.pow_mul ..
      _ ≤ 10 ^ k := Nat.pow_le_pow_left (by decide) k
      _ ≤ n * 10 ^ k := Nat.le_mul_of_pos_left _ hn

theorem value_scale2 (n : Nat) (e : Int) : (scale2 n e).value = n * 2 ^ e := by
  unfold scale2 value
  split
  · next h =>
    obtain ⟨k, rfl⟩ := Int.eq_ofNat_of_zero_le h
    simp [powerOfTwo_eq]
  · next h =>
    obtain ⟨k, hk⟩ := Int.eq_ofNat_of_zero_le (a := -e) (by omega)
    obtain rfl : e = -(k : Int) := by omega
    simp [powerOfTwo_eq, div_eq_mul_inv]

theorem den_scale10_pos {r : Ratio} (hr : 0 < r.den) (e : Int) : 0 < (r.scale10 e).den := by
  unfold scale10
  split
  · exact hr
  · exact Nat.mul_pos hr (Nat.pow_pos (by decide))

theorem value_scale10 (r : Ratio) (e : Int) : (r.scale10 e).value = r.value * 10 ^ e := by
  unfold scale10 value
  split
  · next h =>
    obtain ⟨k, rfl⟩ := Int.eq_ofNat_of_zero_le h
    simp only [powerOfTen_eq, Int.toNat_natCast, zpow_natCast]
    push_cast
    ring
  · next h =>
    obtain ⟨k, hk⟩ := Int.eq_ofNat_of_zero_le (a := -e) (by omega)
    obtain rfl : e = -(k : Int) := by omega
    simp only [powerOfTen_eq, neg_neg, Int.toNat_natCast, zpow_neg, zpow_natCast]
    push_cast
    rw [← div_div, div_eq_mul_inv]

/-- Comparing a ratio with a whole number is comparing its parts. -/
theorem value_le_iff {r : Ratio} (hr : 0 < r.den) (n : Nat) : r.value ≤ n ↔ r.num ≤ n * r.den := by
  have hd : (0 : ℚ) < r.den := Nat.cast_pos.2 hr
  unfold value
  rw [div_le_iff₀ hd]
  exact_mod_cast Iff.rfl

theorem le_value_iff {r : Ratio} (hr : 0 < r.den) (n : Nat) : (n : ℚ) ≤ r.value ↔ n * r.den ≤ r.num := by
  have hd : (0 : ℚ) < r.den := Nat.cast_pos.2 hr
  unfold value
  rw [le_div_iff₀ hd]
  exact_mod_cast Iff.rfl

end Ratio

/-! ## Intervals -/

namespace Interval

/-- The number lies between the ends, which count if the interval is closed. -/
def Contains (i : Interval) (x : ℚ) : Prop :=
  if i.closed then i.low.value ≤ x ∧ x ≤ i.high.value else i.low.value < x ∧ x < i.high.value

variable {i : Interval} {x : ℚ}

theorem Contains.le (h : i.Contains x) : i.low.value ≤ x ∧ x ≤ i.high.value := by
  unfold Contains at h
  split at h
  · exact h
  · exact ⟨h.1.le, h.2.le⟩

/-- An end that counts is one of a closed interval. -/
theorem Contains.closed_of_end (h : i.Contains x) (he : x = i.low.value ∨ x = i.high.value) :
    i.closed = true := by
  by_contra hopen
  unfold Contains at h
  rw [if_neg hopen] at h
  rcases he with he | he
  · exact h.1.ne' he
  · exact h.2.ne he

theorem contains_of_between (hl : i.low.value < x) (hh : x < i.high.value) : i.Contains x := by
  unfold Contains
  split
  · exact ⟨hl.le, hh.le⟩
  · exact ⟨hl, hh⟩

/-- The test on a grid is that of the number there. -/
theorem holds_iff (hl : 0 < i.low.den) (hh : 0 < i.high.den) (p : Int) (n : Nat) :
    i.holds p n = true ↔ i.Contains (n * 10 ^ (-p)) := by
  have hpos : (0 : ℚ) < 10 ^ p := zpow_pos (by norm_num) p
  have hscale : ((n : ℚ) * 10 ^ (-p)) * 10 ^ p = n := by
    rw [mul_assoc, ← zpow_add₀ (by norm_num : (10 : ℚ) ≠ 0), neg_add_cancel, zpow_zero, mul_one]
  have hlow := Ratio.den_scale10_pos hl p
  have hhigh := Ratio.den_scale10_pos hh p
  -- both comparisons are made on the grid, where the number is whole
  have hle : i.low.value ≤ n * 10 ^ (-p) ↔ (i.low.scale10 p).num ≤ n * (i.low.scale10 p).den := by
    rw [← Ratio.value_le_iff hlow, Ratio.value_scale10, ← mul_le_mul_iff_of_pos_right hpos, hscale]
  have hge : (n : ℚ) * 10 ^ (-p) ≤ i.high.value ↔
      n * (i.high.scale10 p).den ≤ (i.high.scale10 p).num := by
    rw [← Ratio.le_value_iff hhigh, Ratio.value_scale10, ← mul_le_mul_iff_of_pos_right hpos, hscale]
  have hlt : i.low.value < n * 10 ^ (-p) ↔ (i.low.scale10 p).num < n * (i.low.scale10 p).den := by
    rw [← not_le, ← Nat.not_le, not_iff_not, ← Ratio.le_value_iff hlow, Ratio.value_scale10,
      ← mul_le_mul_iff_of_pos_right hpos, hscale]
  have hgt : (n : ℚ) * 10 ^ (-p) < i.high.value ↔
      n * (i.high.scale10 p).den < (i.high.scale10 p).num := by
    rw [← not_le, ← Nat.not_le, not_iff_not, ← Ratio.value_le_iff hhigh, Ratio.value_scale10,
      ← mul_le_mul_iff_of_pos_right hpos, hscale]
  unfold holds Contains
  split
  · rw [hle, hge]
    simp
  · rw [hlt, hgt]
    simp

end Interval

/-! ## Doubles in the order of their bits -/

namespace Binary

variable {n : Nat} {x : ℚ}

/-- The double whose bits, without the sign, are those of a number. -/
def ofMagnitude (n : Nat) : Binary :=
  if n / 2 ^ 52 = 0 then ⟨n % 2 ^ 52, -1074, false⟩
  else ⟨2 ^ 52 + n % 2 ^ 52, Int.ofNat (n / 2 ^ 52) - 1075, n % 2 ^ 52 = 0 && 1 < n / 2 ^ 52⟩

theorem ofBits_eq (bits : UInt64) : ofBits bits = ofMagnitude (bits.toNat % 2 ^ 63) := by
  have hlt : bits.toNat < 2 ^ 64 := bits.toNat_lt
  have hfraction : bits.toNat % 2 ^ 63 % 2 ^ 52 = bits.toNat % 2 ^ 52 := by omega
  have hfield : bits.toNat % 2 ^ 63 / 2 ^ 52 = bits.toNat / 2 ^ 52 % 2 ^ 11 := by omega
  unfold ofMagnitude
  rw [hfraction, hfield]
  rfl

theorem mantissa_lt (n : Nat) : (ofMagnitude n).mantissa < 2 ^ 53 := by
  unfold ofMagnitude
  split <;> simp only <;> omega

theorem exponent_ge (n : Nat) : -1074 ≤ (ofMagnitude n).exponent := by
  unfold ofMagnitude
  split
  · exact le_refl _
  · next h =>
    simp only [Int.ofNat_eq_natCast]
    omega

theorem mantissa_pos (h : n ≠ 0) : 0 < (ofMagnitude n).mantissa := by
  unfold ofMagnitude
  split <;> simp only <;> omega

/-- The interval of a double is closed if its bits are even. -/
theorem closed_interval (n : Nat) : (ofMagnitude n).interval.closed = decide (n % 2 = 0) := by
  have hparity : (ofMagnitude n).mantissa % 2 = n % 2 := by
    unfold ofMagnitude
    split <;> simp only <;> omega
  unfold interval
  rw [hparity]

/-- A double. -/
def value (b : Binary) : ℚ := b.mantissa * 2 ^ b.exponent

theorem high_interval (b : Binary) :
    b.interval.high.value = (4 * b.mantissa + 2 : Nat) * 2 ^ (b.exponent - 2) :=
  Ratio.value_scale2 _ _

theorem low_interval (b : Binary) :
    b.interval.low.value
      = (4 * b.mantissa - (if b.narrow then 1 else 2) : Nat) * 2 ^ (b.exponent - 2) :=
  Ratio.value_scale2 _ _

/-- The intervals of neighbours meet. -/
theorem low_succ (n : Nat) :
    (ofMagnitude (n + 1)).interval.low.value = (ofMagnitude n).interval.high.value := by
  rw [low_interval, high_interval]
  by_cases hcarry : n % 2 ^ 52 = 2 ^ 52 - 1
  · have hfraction : (n + 1) % 2 ^ 52 = 0 := by omega
    have hfield : (n + 1) / 2 ^ 52 = n / 2 ^ 52 + 1 := by omega
    have hsucc : ofMagnitude (n + 1) = ⟨2 ^ 52, Int.ofNat (n / 2 ^ 52 + 1) - 1075,
        decide (0 < n / 2 ^ 52)⟩ := by
      unfold ofMagnitude
      rw [hfraction, hfield]
      simp
    by_cases hfirst : n / 2 ^ 52 = 0
    · -- the largest double without an exponent of its own is followed by one with the same gap
      have hn : ofMagnitude n = ⟨2 ^ 52 - 1, -1074, false⟩ := by
        unfold ofMagnitude
        rw [hcarry, if_pos hfirst]
      rw [hsucc, hn, hfirst]
      norm_num
    · -- the exponent goes up by one, and the gap below is half of that above
      have hn : ofMagnitude n = ⟨2 ^ 52 + (2 ^ 52 - 1), Int.ofNat (n / 2 ^ 52) - 1075, false⟩ := by
        unfold ofMagnitude
        rw [hcarry, if_neg hfirst]
        norm_num
      have hpos : 0 < n / 2 ^ 52 := Nat.pos_of_ne_zero hfirst
      have hexp : (Int.ofNat (n / 2 ^ 52 + 1) - 1075 - 2 : Int)
          = (Int.ofNat (n / 2 ^ 52) - 1075 - 2) + 1 := by
        simp only [Int.ofNat_eq_natCast]
        omega
      rw [hsucc, hn]
      simp only [hpos, decide_true, if_true]
      rw [hexp, zpow_add_one₀ (by norm_num : (2 : ℚ) ≠ 0)]
      norm_num
      ring
  · -- the mantissa goes up by one
    have hfraction : (n + 1) % 2 ^ 52 = n % 2 ^ 52 + 1 := by omega
    have hfield : (n + 1) / 2 ^ 52 = n / 2 ^ 52 := by omega
    have hnarrow : (ofMagnitude (n + 1)).narrow = false := by
      unfold ofMagnitude
      rw [hfraction, decide_eq_false (Nat.succ_ne_zero _)]
      split <;> rfl
    have hmantissa : (ofMagnitude (n + 1)).mantissa = (ofMagnitude n).mantissa + 1 := by
      unfold ofMagnitude
      rw [hfield, hfraction]
      split <;> simp [Nat.add_assoc]
    have hexponent : (ofMagnitude (n + 1)).exponent = (ofMagnitude n).exponent := by
      unfold ofMagnitude
      rw [hfield]
      split <;> rfl
    rw [hnarrow, hmantissa, hexponent]
    rfl

theorem low_lt_high (b : Binary) : b.interval.low.value < b.interval.high.value := by
  have hpos : (0 : ℚ) < 2 ^ (b.exponent - 2) := zpow_pos (by norm_num) _
  rw [low_interval, high_interval, mul_lt_mul_iff_of_pos_right hpos, Nat.cast_lt]
  omega

theorem strictMono_high : StrictMono fun n => (ofMagnitude n).interval.high.value :=
  strictMono_nat_of_lt_succ fun n => by
    have h := low_lt_high (ofMagnitude (n + 1))
    rwa [low_succ] at h

/-- **No number rounds to two doubles.** -/
theorem eq_of_contains {m n : Nat} (hm : (ofMagnitude m).interval.Contains x)
    (hn : (ofMagnitude n).interval.Contains x) : m = n := by
  by_contra hne
  wlog hlt : m < n generalizing m n
  · exact this hn hm (Ne.symm hne) (by omega)
  obtain ⟨k, rfl⟩ : ∃ k, n = k + 1 := ⟨n - 1, by omega⟩
  have hup := hm.le.2
  have hdown := hn.le.1
  rw [low_succ] at hdown
  -- both ends are the number itself, so the doubles are neighbours
  have hge : (ofMagnitude k).interval.high.value ≤ (ofMagnitude m).interval.high.value :=
    hdown.trans hup
  have hkm : k = m := by
    have hle := (strictMono_high.le_iff_le (a := k) (b := m)).1 hge
    omega
  subst hkm
  have hend : x = (ofMagnitude k).interval.high.value := le_antisymm hup hdown
  have hclosed := hm.closed_of_end (.inr hend)
  have hclosed' := hn.closed_of_end (.inl (by rw [low_succ]; exact hend))
  rw [closed_interval, decide_eq_true_eq] at hclosed hclosed'
  omega

end Binary

end SandboxPool.Decimal
