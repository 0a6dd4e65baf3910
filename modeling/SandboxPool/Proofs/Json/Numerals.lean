import SandboxPool.Proofs.Text.Digits

/-!
# Numerals

`Numeral.chars` writes a numeral of the JSON grammar, and reading gives it back (`readNumeral?_chars`)
where nothing behind it goes on with it.
-/

namespace SandboxPool.Json

open Text (IsDigit)

namespace Numeral

/-- The characters of a fraction. -/
def fractionChars : Option (List Char) → List Char
  | some digits => '.' :: digits
  | none => []

/-- The characters of an exponent, without a sign if it is positive. -/
def exponentChars : Option (Bool × List Char) → List Char
  | some (true, digits) => 'e' :: '-' :: digits
  | some (false, digits) => 'e' :: digits
  | none => []

/-- The characters of a numeral. -/
def chars (n : Numeral) : List Char :=
  (if n.negative then ['-'] else []) ++
    (n.whole ++ (fractionChars n.fraction ++ exponentChars n.exponent))

/-- Some digits. -/
def Digits (cs : List Char) : Prop := cs ≠ [] ∧ ∀ c ∈ cs, IsDigit c

/-- A numeral that the grammar allows: there are digits in every part, and no zero in front of others. -/
structure Grammatical (n : Numeral) : Prop where
  whole : Digits n.whole
  lead : n.whole.head? = some '0' → n.whole.length = 1
  fraction : ∀ ds ∈ n.fraction, Digits ds
  exponent : ∀ e ∈ n.exponent, Digits e.2

end Numeral

/-- What stands behind a numeral does not go on with it. -/
def Apart (rest : Marked) : Prop := ∀ c, rest.head? = some (some c) → ¬IsDigit c ∧ c ≠ '.' ∧ c ≠ 'e' ∧ c ≠ 'E'

variable {n : Numeral} {ds : List Char} {rest : Marked}

theorem takeDigits_append (hds : ∀ c ∈ ds, IsDigit c)
    (hrest : ∀ c, rest.head? = some (some c) → ¬IsDigit c) :
    takeDigits (ds.map some ++ rest) = (ds, rest) := by
  induction ds with
  | nil =>
    cases rest with
    | nil => rfl
    | cons c more =>
      cases c with
      | none => rfl
      | some c =>
        have hc : ¬(48 ≤ c.toNat ∧ c.toNat ≤ 57) := hrest c rfl
        simp only [List.map_nil, List.nil_append, takeDigits]
        rw [if_neg (by simpa using hc)]
  | cons c ds ih =>
    obtain ⟨hc, hds⟩ := List.forall_mem_cons.1 hds
    simp only [List.map_cons, List.cons_append, takeDigits]
    have hin : (decide (48 ≤ c.toNat) && decide (c.toNat ≤ 57)) = true := by
      simpa [IsDigit] using hc
    rw [if_pos hin, ih hds]

/-- Digits do not go on with a text that begins with none. -/
theorem head?_digits (hds : Numeral.Digits ds) (c : Char) (rest : Marked) :
    (ds.map some ++ rest).head? = some (some c) → IsDigit c := by
  intro h
  cases ds with
  | nil => exact absurd rfl hds.1
  | cons d more =>
    simp only [List.map_cons, List.cons_append, List.head?_cons, Option.some.injEq] at h
    exact hds.2 c (h ▸ List.mem_cons_self)

theorem readExponentDigits?_digits (hds : Numeral.Digits ds) (ha : Apart rest) :
    readExponentDigits? (ds.map some ++ rest) = some (some (false, ds), rest) := by
  have htake := takeDigits_append hds.2 fun c hc => (ha c hc).1
  obtain ⟨hne, hall⟩ := hds
  cases ds with
  | nil => exact absurd rfl hne
  | cons d more =>
    have hd := hall d List.mem_cons_self
    have hplus : d ≠ '+' := hd.ne (by decide)
    have hminus : d ≠ '-' := hd.ne (by decide)
    rw [List.map_cons, List.cons_append] at htake ⊢
    simp [readExponentDigits?, hplus, hminus, htake]

theorem readExponent?_chars (he : ∀ e ∈ n.exponent, Numeral.Digits e.2) (ha : Apart rest) :
    readExponent? ((Numeral.exponentChars n.exponent).map some ++ rest) = some (n.exponent, rest) := by
  cases hn : n.exponent with
  | none =>
    simp only [Numeral.exponentChars, List.map_nil, List.nil_append]
    unfold readExponent?
    split
    · exact absurd rfl (ha 'e' rfl).2.2.1
    · exact absurd rfl (ha 'E' rfl).2.2.2
    · rfl
  | some e =>
    obtain ⟨negative, ds⟩ := e
    have hds : Numeral.Digits ds := he (negative, ds) (by rw [hn]; rfl)
    cases negative with
    | false => exact readExponentDigits?_digits hds ha
    | true =>
      have htake := takeDigits_append hds.2 fun c hc => (ha c hc).1
      have hempty : ds.isEmpty = false := by simpa using hds.1
      simp [Numeral.exponentChars, readExponent?, readExponentDigits?, htake, hempty]

theorem readFraction?_chars (hf : ∀ ds ∈ n.fraction, Numeral.Digits ds) (ha : Apart rest) :
    readFraction? ((Numeral.fractionChars n.fraction).map some
        ++ ((Numeral.exponentChars n.exponent).map some ++ rest))
      = some (n.fraction, (Numeral.exponentChars n.exponent).map some ++ rest) := by
  have hbehind : ∀ c, ((Numeral.exponentChars n.exponent).map some ++ rest).head? = some (some c) →
      ¬IsDigit c ∧ c ≠ '.' := by
    intro c hc
    cases hn : n.exponent with
    | none =>
      rw [hn] at hc
      exact ⟨(ha c hc).1, (ha c hc).2.1⟩
    | some e =>
      obtain ⟨negative, ds⟩ := e
      rw [hn] at hc
      obtain rfl : 'e' = c := by cases negative <;> simpa [Numeral.exponentChars] using hc
      decide
  generalize (Numeral.exponentChars n.exponent).map some ++ rest = behind at hbehind
  cases hn : n.fraction with
  | none =>
    simp only [Numeral.fractionChars, List.map_nil, List.nil_append]
    unfold readFraction?
    split
    · exact absurd rfl (hbehind '.' rfl).2
    · rfl
  | some ds =>
    have hds : Numeral.Digits ds := hf ds (by rw [hn]; rfl)
    have htake := takeDigits_append hds.2 fun c hc => (hbehind c hc).1
    have hempty : ds.isEmpty = false := by simpa using hds.1
    simp [Numeral.fractionChars, readFraction?, htake, hempty]

theorem readMagnitude?_chars (hn : n.Grammatical) (ha : Apart rest) :
    readMagnitude? n.negative (n.whole.map some ++ ((Numeral.fractionChars n.fraction).map some
        ++ ((Numeral.exponentChars n.exponent).map some ++ rest))) = some (n, rest) := by
  have hbehind : ∀ c, ((Numeral.fractionChars n.fraction).map some
      ++ ((Numeral.exponentChars n.exponent).map some ++ rest)).head? = some (some c) →
      ¬IsDigit c := by
    intro c hc
    cases hf : n.fraction with
    | some ds =>
      rw [hf] at hc
      obtain rfl : '.' = c := by simpa [Numeral.fractionChars] using hc
      decide
    | none =>
      cases he : n.exponent with
      | none =>
        rw [hf, he] at hc
        exact (ha c hc).1
      | some e =>
        obtain ⟨negative, ds⟩ := e
        rw [hf, he] at hc
        obtain rfl : 'e' = c := by
          cases negative <;> simpa [Numeral.fractionChars, Numeral.exponentChars] using hc
        decide
  have htake := takeDigits_append hn.whole.2 hbehind
  have hempty : n.whole.isEmpty = false := by simpa using hn.whole.1
  have hlead : ¬(n.whole.head? = some '0' ∧ 1 < n.whole.length) := by
    rintro ⟨hzero, hlong⟩
    have := hn.lead hzero
    omega
  unfold readMagnitude?
  rw [htake]
  simp only [hempty, Bool.false_or]
  rw [if_neg (by simpa using hlead), readFraction?_chars hn.fraction ha, Option.bind_some,
    readExponent?_chars hn.exponent ha]
  rfl

/-- **A numeral is read back**, if what stands behind it does not go on with it. -/
theorem readNumeral?_chars (hn : n.Grammatical) (ha : Apart rest) :
    readNumeral? (n.chars.map some ++ rest) = some (n, rest) := by
  have hread := readMagnitude?_chars hn ha
  have hhead := head?_digits hn.whole
  unfold Numeral.chars
  simp only [List.map_append, List.append_assoc]
  generalize (Numeral.fractionChars n.fraction).map some
    ++ ((Numeral.exponentChars n.exponent).map some ++ rest) = behind at hread
  cases hneg : n.negative with
  | true =>
    rw [hneg] at hread
    exact hread
  | false =>
    rw [hneg] at hread
    show readNumeral? (n.whole.map some ++ behind) = _
    unfold readNumeral?
    split
    · next hminus =>
      have := hhead '-' behind (by rw [hminus]; rfl)
      exact absurd this (by decide)
    · exact hread

end SandboxPool.Json
