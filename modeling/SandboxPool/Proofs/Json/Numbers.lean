import SandboxPool.Proofs.Json.Numerals
import SandboxPool.Proofs.Decimal.Shortest

/-!
# Numbers as they are written

`Number.numeral` is the numeral that a number is written with (`Number.text_eq`). No two numbers share one
(`Number.numeral_inj`): a whole number has neither fraction nor exponent, and the shortest decimal of a
double rounds to no other one.
-/

namespace SandboxPool

namespace Json.Numeral

/-- The digits of a numeral, without the point. -/
def allDigits (n : Numeral) : List Char := n.whole ++ n.fraction.getD []

/-- The number that an exponent stands for. -/
def power : Option (Bool × List Char) → Int
  | some (true, ds) => -(Nat.ofDigitChars 10 ds 0 : Int)
  | some (false, ds) => Nat.ofDigitChars 10 ds 0
  | none => 0

/-- The number that a numeral stands for, without its sign. -/
def magnitude (n : Numeral) : ℚ :=
  Nat.ofDigitChars 10 n.allDigits 0 * 10 ^ (power n.exponent - (n.fraction.getD []).length)

end Json.Numeral

namespace Decimal

open Json (Numeral)

variable {d : Scaled} {negative : Bool}

/-- The numeral that a decimal is written with: positional, or with an exponent. -/
def Scaled.numeral (negative : Bool) (d : Scaled) : Numeral :=
  let digits := digitList d.digits
  let point := Int.ofNat digits.length + d.exponent
  if 0 ≤ d.exponent && point ≤ 16 then
    ⟨negative, digits ++ List.replicate d.exponent.toNat '0', some ['0'], none⟩
  else if 0 < point && point ≤ 16 then
    ⟨negative, digits.take point.toNat, some (digits.drop point.toNat), none⟩
  else if -5 < point && point ≤ 0 then
    ⟨negative, ['0'], some (List.replicate (-point).toNat '0' ++ digits), none⟩
  else
    ⟨negative, digits.take 1, if digits.length = 1 then none else some (digits.drop 1),
      some (point - 1 < 0, digitList (point - 1).natAbs)⟩

/-- The ways in which digits are written at an exponent: with zeros behind them, with a point in them, with
zeros in front of them, and with a power of ten behind the first one. -/
inductive Written (negative : Bool) (ds : List Char) : Int → Numeral → Prop where
  | padded (k : Nat) : Written negative ds k ⟨negative, ds ++ List.replicate k '0', some ['0'], none⟩
  | pointed (k : Nat) (hpos : 0 < k) (hlt : k < ds.length) :
    Written negative ds (k - ds.length) ⟨negative, ds.take k, some (ds.drop k), none⟩
  | small (k : Nat) :
    Written negative ds (-(k + ds.length)) ⟨negative, ['0'], some (List.replicate k '0' ++ ds), none⟩
  | powered (e : Int) :
    Written negative ds (e + 1 - ds.length)
      ⟨negative, ds.take 1, if ds.length = 1 then none else some (ds.drop 1),
        some (e < 0, digitList e.natAbs)⟩

theorem Scaled.written (negative : Bool) (d : Scaled) :
    Written negative (digitList d.digits) d.exponent (d.numeral negative) := by
  unfold numeral
  simp only
  generalize digitList d.digits = ds
  generalize d.exponent = exponent
  simp only [Bool.and_eq_true, decide_eq_true_eq, Int.ofNat_eq_natCast]
  split
  · next h =>
    obtain ⟨k, rfl⟩ := Int.eq_ofNat_of_zero_le h.1
    exact .padded k
  split
  · next hneg hpoint =>
    obtain ⟨k, hk⟩ := Int.eq_ofNat_of_zero_le hpoint.1.le
    have he : exponent = k - ds.length := by omega
    rw [hk, Int.toNat_natCast, he]
    exact .pointed k (by omega) (by omega)
  split
  · next hpoint =>
    obtain ⟨k, hk⟩ := Int.eq_ofNat_of_zero_le (neg_nonneg.2 hpoint.2)
    have he : exponent = -(k + ds.length) := by omega
    rw [hk, Int.toNat_natCast, he]
    exact .small k
  · have he : exponent = ds.length + exponent - 1 + 1 - ds.length := by omega
    generalize (ds.length : Int) + exponent - 1 = e at he
    rw [he]
    exact .powered e

namespace Written

variable {ds : List Char} {e : Int} {n : Numeral}

theorem negative_eq (h : Written negative ds e n) : n.negative = negative := by
  cases h <;> rfl

/-- There is a point or an exponent. -/
theorem fraction_or_exponent (h : Written negative ds e n) : n.fraction ≠ none ∨ n.exponent ≠ none := by
  cases h with
  | padded k => exact .inl (Option.some_ne_none _)
  | pointed k hpos hlt => exact .inl (Option.some_ne_none _)
  | small k => exact .inl (Option.some_ne_none _)
  | powered e => exact .inr (Option.some_ne_none _)

end Written

theorem integerText_eq (i : Int) :
    'e' :: integerText i = Numeral.exponentChars (some (i < 0, digitList i.natAbs)) := by
  unfold integerText
  split
  · next h => simp [Numeral.exponentChars, h]
  · next h => simp [Numeral.exponentChars, h]

theorem Scaled.text_eq (d : Scaled) : d.text = (d.numeral false).chars := by
  unfold text numeral
  simp only
  split
  · simp [Numeral.chars, Numeral.fractionChars, Numeral.exponentChars]
  split
  · simp [Numeral.chars, Numeral.fractionChars, Numeral.exponentChars]
  split
  · simp [Numeral.chars, Numeral.fractionChars, Numeral.exponentChars]
  · generalize hds : digitList d.digits = ds
    rw [Numeral.chars]
    simp only
    rw [← integerText_eq]
    cases ds with
    | nil => exact absurd hds Text.digitList_ne_nil
    | cons c rest =>
      cases rest with
      | nil => simp [Numeral.fractionChars]
      | cons c' rest => simp [Numeral.fractionChars]

theorem Scaled.chars_numeral (negative : Bool) (d : Scaled) :
    (d.numeral negative).chars = (if negative then ['-'] else []) ++ d.text := by
  have hsign : d.numeral negative = { d.numeral false with negative := negative } := by
    unfold numeral
    simp only
    split_ifs <;> rfl
  rw [d.text_eq, hsign]
  simp [Numeral.chars, (d.written false).negative_eq]

/-! ## The grammar -/

theorem digits_zero : Numeral.Digits ['0'] := by
  refine ⟨List.cons_ne_nil _ _, fun c hc => ?_⟩
  obtain rfl := List.mem_singleton.1 hc
  decide

theorem digits_digitList (n : Nat) : Numeral.Digits (digitList n) :=
  ⟨Text.digitList_ne_nil, fun _ hc => Text.isDigit_of_mem_digitList hc⟩

section Digits

variable {ds : List Char} {k : Nat}

theorem digits_replicate_append (hds : Numeral.Digits ds) : Numeral.Digits (List.replicate k '0' ++ ds) := by
  refine ⟨fun he => hds.1 (List.append_eq_nil_iff.1 he).2, fun c hc => ?_⟩
  rcases List.mem_append.1 hc with hc | hc
  · obtain rfl := List.eq_of_mem_replicate hc
    decide
  · exact hds.2 c hc

theorem digits_append_replicate (hds : Numeral.Digits ds) : Numeral.Digits (ds ++ List.replicate k '0') := by
  refine ⟨fun he => hds.1 (List.append_eq_nil_iff.1 he).1, fun c hc => ?_⟩
  rcases List.mem_append.1 hc with hc | hc
  · exact hds.2 c hc
  · obtain rfl := List.eq_of_mem_replicate hc
    decide

theorem digits_take (hds : Numeral.Digits ds) (hk : 0 < k) : Numeral.Digits (ds.take k) := by
  have hpos : 0 < ds.length := List.length_pos_iff.2 hds.1
  refine ⟨List.length_pos_iff.1 ?_, fun c hc => hds.2 c (List.mem_of_mem_take hc)⟩
  rw [List.length_take]
  omega

theorem digits_drop (hds : Numeral.Digits ds) (hk : k < ds.length) : Numeral.Digits (ds.drop k) := by
  refine ⟨List.length_pos_iff.1 ?_, fun c hc => hds.2 c (List.mem_of_mem_drop hc)⟩
  rw [List.length_drop]
  omega

end Digits

/-- A decimal that does not begin with zero is written as the grammar allows. -/
theorem Written.grammatical {ds : List Char} {e : Int} {n : Numeral} (h : Written negative ds e n)
    (hds : Numeral.Digits ds) (hhead : ds.head? ≠ some '0') : n.Grammatical := by
  have hpos : 0 < ds.length := List.length_pos_iff.2 hds.1
  cases h with
  | padded k =>
    refine ⟨digits_append_replicate hds, fun hlead => ?_, ?_, ?_⟩
    · rw [List.head?_append, Option.or_of_isSome (by simpa using hds.1)] at hlead
      exact absurd hlead hhead
    · rintro _ ⟨⟩
      exact digits_zero
    · rintro _ ⟨⟩
  | pointed k hk hlt =>
    refine ⟨digits_take hds hk, fun hlead => ?_, ?_, ?_⟩
    · rw [List.head?_take, if_neg (by omega)] at hlead
      exact absurd hlead hhead
    · rintro _ ⟨⟩
      exact digits_drop hds hlt
    · rintro _ ⟨⟩
  | small k =>
    refine ⟨digits_zero, fun _ => rfl, ?_, ?_⟩
    · rintro _ ⟨⟩
      exact digits_replicate_append hds
    · rintro _ ⟨⟩
  | powered e =>
    refine ⟨digits_take hds Nat.one_pos, fun _ => ?_, fun rest hrest => ?_, ?_⟩
    · simp only [List.length_take]
      omega
    · simp only [Option.mem_def, Option.ite_none_left_eq_some, Option.some.injEq] at hrest
      obtain ⟨hlong, rfl⟩ := hrest
      exact digits_drop hds (by omega)
    · rintro _ ⟨⟩
      exact digits_digitList _

/-- A positive decimal is written as the grammar allows. -/
theorem Scaled.grammatical_numeral (h : d.digits ≠ 0) : (d.numeral negative).Grammatical :=
  (d.written negative).grammatical (digits_digitList _) (Text.head?_digitList h)

/-! ## The value -/

theorem ofDigitChars_digitList (n : Nat) : Nat.ofDigitChars 10 (digitList n) 0 = n :=
  Nat.ofDigitChars_ten_toDigits

/-- An exponent is written with its sign. -/
theorem power_signed (i : Int) : Numeral.power (some (i < 0, digitList i.natAbs)) = i := by
  by_cases h : i < 0
  · simp only [h, decide_true, Numeral.power, ofDigitChars_digitList,
      Int.ofNat_natAbs_of_nonpos h.le, neg_neg]
  · simp only [h, decide_false, Numeral.power, ofDigitChars_digitList,
      Int.natAbs_of_nonneg (not_lt.1 h)]

/-- What is written has the value of the digits at their exponent. -/
theorem Written.magnitude {ds : List Char} {e : Int} {n : Numeral} {m : Nat} (h : Written negative ds e n)
    (hds : ds ≠ []) (hvalue : Nat.ofDigitChars 10 ds 0 = m) : n.magnitude = m * 10 ^ e := by
  have hpos : 0 < ds.length := List.length_pos_iff.2 hds
  cases h with
  | padded k =>
    have hten : (10 : ℚ) ≠ 0 := by norm_num
    have hzero : Nat.ofDigitChars 10 ['0'] (10 ^ k * m) = 10 * (10 ^ k * m) := by
      simp [Nat.ofDigitChars_cons]
    simp only [Numeral.magnitude, Numeral.allDigits, Numeral.power, Option.getD_some,
      Nat.ofDigitChars_append, hvalue, Nat.ofDigitChars_replicate_zero, List.length_singleton, hzero]
    push_cast
    rw [zpow_neg, zpow_one, zpow_natCast]
    field_simp
  | pointed k hk hlt =>
    have hlen : (0 : Int) - (ds.drop k).length = k - ds.length := by
      rw [List.length_drop]
      omega
    simp only [Numeral.magnitude, Numeral.allDigits, Numeral.power, Option.getD_some,
      List.take_append_drop, hvalue, hlen]
  | small k =>
    have hlen : (0 : Int) - (List.replicate k '0' ++ ds).length = -(k + ds.length) := by
      rw [List.length_append, List.length_replicate]
      omega
    have hzeros : Nat.ofDigitChars 10 (['0'] ++ (List.replicate k '0' ++ ds)) 0 = m := by
      rw [Nat.ofDigitChars_append, Nat.ofDigitChars_append]
      simp [Nat.ofDigitChars_cons, Nat.ofDigitChars_replicate_zero, hvalue]
    simp only [Numeral.magnitude, Numeral.allDigits, Numeral.power, Option.getD_some, hlen, hzeros]
  | powered e =>
    have hsplit : ds.take 1 ++ (if ds.length = 1 then none else some (ds.drop 1)).getD [] = ds := by
      split
      · next hone => rw [Option.getD_none, List.append_nil, List.take_of_length_le hone.le]
      · exact List.take_append_drop 1 ds
    have hlen : ((if ds.length = 1 then none else some (ds.drop 1)).getD []).length = ds.length - 1 := by
      split
      · next hone => simp [hone]
      · simp
    have hexp : e - (ds.length - 1 : Nat) = e + 1 - ds.length := by omega
    simp only [Numeral.magnitude, Numeral.allDigits, hsplit, hvalue, hlen, power_signed, hexp]

/-- A decimal is written with a numeral of its value. -/
theorem Scaled.magnitude_numeral (negative : Bool) (d : Scaled) :
    (d.numeral negative).magnitude = d.value :=
  (d.written negative).magnitude Text.digitList_ne_nil (ofDigitChars_digitList d.digits)

end Decimal

namespace Json.Number

open Decimal

/-- The numeral that a number is written with. -/
def numeral : Number → Numeral
  | .whole i => ⟨i < 0, digitList i.natAbs, none, none⟩
  | .double bits =>
    if bits.toNat % 2 ^ 63 = 0 then ⟨2 ^ 63 ≤ bits.toNat, ['0'], some ['0'], none⟩
    else (shortest bits).numeral (2 ^ 63 ≤ bits.toNat)

theorem text_eq (n : Number) : n.text = n.numeral.chars := by
  cases n with
  | whole i =>
    simp only [text, integerText, numeral, Numeral.chars, Numeral.fractionChars, Numeral.exponentChars]
    split
    · next h => simp [h]
    · next h => simp [h]
  | double bits =>
    show (if 2 ^ 63 ≤ bits.toNat
      then '-' :: (if bits.toNat % 2 ^ 63 = 0 then ['0', '.', '0'] else (shortest bits).text)
      else if bits.toNat % 2 ^ 63 = 0 then ['0', '.', '0'] else (shortest bits).text) = _
    unfold numeral
    simp only
    by_cases hzero : bits.toNat % 2 ^ 63 = 0
    · rw [if_pos hzero, if_pos hzero]
      split
      · next h => rw [decide_eq_true h]; rfl
      · next h => rw [decide_eq_false h]; rfl
    · rw [if_neg hzero, if_neg hzero, Scaled.chars_numeral]
      split
      · next h => rw [decide_eq_true h]; rfl
      · next h => rw [decide_eq_false h]; rfl

theorem grammatical_numeral (n : Number) : n.numeral.Grammatical := by
  cases n with
  | whole i =>
    refine ⟨digits_digitList _, fun hlead => ?_, ?_, ?_⟩
    · by_cases hz : i.natAbs = 0
      · simp only [numeral, hz]
        rfl
      · exact absurd hlead (Text.head?_digitList hz)
    · rintro _ ⟨⟩
    · rintro _ ⟨⟩
  | double bits =>
    simp only [numeral]
    split
    · refine ⟨digits_zero, fun _ => rfl, ?_, ?_⟩
      · rintro _ ⟨⟩
        exact digits_zero
      · rintro _ ⟨⟩
    · next h => exact Scaled.grammatical_numeral (digits_shortest_ne_zero h)

/-- A double is written with a point or with an exponent. -/
theorem pointed_numeral (bits : UInt64) :
    (double bits).numeral.fraction ≠ none ∨ (double bits).numeral.exponent ≠ none := by
  simp only [numeral]
  split
  · exact .inl (Option.some_ne_none _)
  · exact (Scaled.written _ _).fraction_or_exponent

theorem negative_numeral (bits : UInt64) :
    (double bits).numeral.negative = decide (2 ^ 63 ≤ bits.toNat) := by
  simp only [numeral]
  split
  · rfl
  · exact (Scaled.written _ _).negative_eq

theorem magnitude_numeral (bits : UInt64) : (double bits).numeral.magnitude =
    if bits.toNat % 2 ^ 63 = 0 then 0 else (shortest bits).value := by
  simp only [numeral]
  split
  · rw [Numeral.magnitude, show Nat.ofDigitChars 10 (Numeral.allDigits _) 0 = 0 from rfl, Nat.cast_zero,
      zero_mul]
  · exact Scaled.magnitude_numeral _ _

/-- The magnitude of a numeral tells the bits of a double without the sign. -/
theorem magnitude_inj {bits bits' : UInt64}
    (h : (double bits).numeral.magnitude = (double bits').numeral.magnitude) :
    bits.toNat % 2 ^ 63 = bits'.toNat % 2 ^ 63 := by
  have value_ne : ∀ {bits : UInt64}, bits.toNat % 2 ^ 63 ≠ 0 → (shortest bits).value ≠ 0 := by
    intro bits hne
    exact mul_ne_zero (Nat.cast_ne_zero.2 (digits_shortest_ne_zero hne))
      (zpow_ne_zero _ (by norm_num))
  rw [magnitude_numeral, magnitude_numeral] at h
  split at h
  · next hzero =>
    split at h
    · next hzero' => rw [hzero, hzero']
    · next hne' => exact absurd h.symm (value_ne hne')
  · next hne =>
    split at h
    · exact absurd h (value_ne hne)
    · next hne' =>
      have hin := contains_shortest hne
      rw [h] at hin
      exact Binary.eq_of_contains hin (contains_shortest hne')

/-- **No two numbers are written alike.** -/
theorem numeral_inj {m n : Number} : m.numeral = n.numeral ↔ m = n := by
  constructor
  · intro h
    cases m with
    | whole i =>
      cases n with
      | whole j =>
        have hsign : decide (i < 0) = decide (j < 0) := congrArg Numeral.negative h
        have hsize : i.natAbs = j.natAbs := Text.digitList_inj.1 (congrArg Numeral.whole h)
        rw [decide_eq_decide] at hsign
        rw [Int.natAbs_eq_natAbs_iff] at hsize
        have hij : i = j := by omega
        rw [hij]
      | double bits =>
        rcases pointed_numeral bits with hp | hp
        · exact absurd (congrArg Numeral.fraction h).symm hp
        · exact absurd (congrArg Numeral.exponent h).symm hp
    | double bits =>
      cases n with
      | whole j =>
        rcases pointed_numeral bits with hp | hp
        · exact absurd (congrArg Numeral.fraction h) hp
        · exact absurd (congrArg Numeral.exponent h) hp
      | double bits' =>
        have hsize := magnitude_inj (congrArg Numeral.magnitude h)
        have hsign := congrArg Numeral.negative h
        rw [negative_numeral, negative_numeral, decide_eq_decide] at hsign
        have hlt : bits.toNat < 2 ^ 64 := bits.toNat_lt
        have hlt' : bits'.toNat < 2 ^ 64 := bits'.toNat_lt
        have hbits : bits.toNat = bits'.toNat := by omega
        rw [UInt64.toNat_inj.1 hbits]
  · rintro rfl
    rfl

end Json.Number

end SandboxPool
