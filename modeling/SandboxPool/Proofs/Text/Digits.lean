import SandboxPool.Json.Reader
import SandboxPool.Json.Printer

/-!
# Digits

* What `digitList` writes are decimal digits without a leading zero, and `readDigits?` gets the number
  back.
* A hexadecimal digit stands for the number that it was written for.
-/

namespace SandboxPool.Text

/-- A decimal digit. -/
def IsDigit (c : Char) : Prop := 48 ≤ c.toNat ∧ c.toNat ≤ 57

instance (c : Char) : Decidable (IsDigit c) := inferInstanceAs (Decidable (_ ∧ _))

variable {c : Char} {cs : List Char} {n : Nat}

theorem IsDigit.iff_isDigit : IsDigit c ↔ c.isDigit = true := by
  simp [IsDigit, Char.isDigit, UInt32.le_iff_toNat_le]

/-- A digit is not the character, if that is not one. -/
theorem IsDigit.ne {d : Char} (h : IsDigit c) (hd : ¬IsDigit d) : c ≠ d := fun he => hd (he ▸ h)

theorem isDigit_of_mem_digitList (h : c ∈ Decimal.digitList n) : IsDigit c :=
  IsDigit.iff_isDigit.2 (Nat.isDigit_of_mem_toDigits (by decide) (by decide) h)

theorem digitList_ne_nil : Decimal.digitList n ≠ [] := Nat.toDigits_ne_nil

/-- Digits are read as the number that they stand for. -/
theorem readDigits?_eq (acc : Nat) (h : ∀ c ∈ cs, IsDigit c) :
    readDigits? acc cs = some (Nat.ofDigitChars 10 cs acc) := by
  induction cs generalizing acc with
  | nil => rfl
  | cons c rest ih =>
    obtain ⟨hc, hrest⟩ := List.forall_mem_cons.1 h
    have hvalue : digitValue? c = some (c.toNat - 48) := by
      simp [digitValue?, hc.1, hc.2]
    rw [readDigits?, hvalue, Option.bind_some, ih _ hrest, Nat.ofDigitChars_cons, Nat.mul_comm]
    rfl

theorem readDigits?_digitList : readDigits? 0 (Decimal.digitList n) = some n := by
  rw [readDigits?_eq 0 fun c hc => isDigit_of_mem_digitList hc]
  exact congrArg some Nat.ofDigitChars_ten_toDigits

theorem digitList_inj {m : Nat} : Decimal.digitList m = Decimal.digitList n ↔ m = n := by
  constructor
  · intro h
    have hread := congrArg (readDigits? 0) h
    rw [readDigits?_digitList, readDigits?_digitList] at hread
    exact Option.some.inj hread
  · rintro rfl
    rfl

/-- Only zero is written with a zero in front. -/
theorem head?_digitList (h : n ≠ 0) : (Decimal.digitList n).head? ≠ some '0' := by
  induction n using Nat.strongRecOn with
  | ind n ih =>
    unfold Decimal.digitList
    rw [Nat.toDigits_eq_if (by decide)]
    split
    · next hlt => simpa using h
    · next hge =>
      have hdiv : n / 10 ≠ 0 := by omega
      rw [List.head?_append, Option.or_of_isSome (by simp)]
      exact ih (n / 10) (by omega) hdiv

theorem hexValue?_lowerHexDigit (h : n < 16) : hexValue? (Json.lowerHexDigit n) = some n := by
  have hall : ∀ m < 16, hexValue? (Json.lowerHexDigit m) = some m := by decide
  exact hall n h

end SandboxPool.Text
