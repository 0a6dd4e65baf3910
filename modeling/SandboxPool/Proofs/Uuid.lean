import SandboxPool.Uuid
import SandboxPool.Proofs.Text.Digits
import Mathlib.Algebra.Group.Nat.Defs

/-!
# Identifiers read back

An identifier is read back from its text (`Uuid.parse?_text`), so no two identifiers have the same text
(`Uuid.text_inj`).
-/

namespace SandboxPool.Uuid

open Json (lowerHexDigit)

variable {u : Uuid} {ds : List Char} {k n acc : Nat}

theorem length_hexDigits : (hexDigits k n).length = k := by
  induction k generalizing n with
  | zero => rfl
  | succ k ih => rw [hexDigits, List.length_append, ih, List.length_singleton]

theorem exists_of_mem_hexDigits {c : Char} (h : c ∈ hexDigits k n) : ∃ d < 16, c = lowerHexDigit d := by
  induction k generalizing n with
  | zero => exact absurd h List.not_mem_nil
  | succ k ih =>
    rcases List.mem_append.1 h with h | h
    · exact ih h
    · exact ⟨n % 16, Nat.mod_lt _ (by decide), List.mem_singleton.1 h⟩

theorem hexNumber?_append (cs : List Char) (c : Char) :
    hexNumber? acc (cs ++ [c])
      = (hexNumber? acc cs).bind fun m => (Text.hexValue? c).map fun d => m * 16 + d := by
  induction cs generalizing acc with
  | nil =>
    simp only [List.nil_append, hexNumber?, Option.bind_some]
    cases Text.hexValue? c <;> rfl
  | cons c' cs ih =>
    simp only [List.cons_append, hexNumber?]
    cases Text.hexValue? c' with
    | none => rfl
    | some d => exact ih

/-- The digits of a number are read as that number, as far as they go. -/
theorem hexNumber?_hexDigits : hexNumber? 0 (hexDigits k n) = some (n % 16 ^ k) := by
  induction k generalizing n with
  | zero => rw [hexDigits, hexNumber?, Nat.pow_zero, Nat.mod_one]
  | succ k ih =>
    have hsplit : n % 16 ^ (k + 1) = n / 16 % 16 ^ k * 16 + n % 16 := by
      rw [Nat.pow_succ', Nat.mod_mul]
      omega
    rw [hexDigits, hexNumber?_append, ih, Text.hexValue?_lowerHexDigit (Nat.mod_lt _ (by decide)), hsplit]
    rfl

theorem ofPlain?_digits (u : Uuid) : ofPlain? u.digits = some u := by
  have hlt : u.value.toNat % 16 ^ 32 = u.value.toNat := Nat.mod_eq_of_lt u.value.isLt
  rw [ofPlain?, digits, if_pos length_hexDigits, hexNumber?_hexDigits, hlt, Option.map_some,
    BitVec.ofNat_toNat, BitVec.setWidth_eq]

/-- Digits in groups are read as the digits. -/
theorem ofGroups?_append {a b c d e : List Char} (ha : a.length = 8) (hb : b.length = 4)
    (hc : c.length = 4) (hd : d.length = 4) (he : e.length = 12) :
    ofGroups? (a ++ '-' :: b ++ '-' :: c ++ '-' :: d ++ '-' :: e) = ofPlain? (a ++ b ++ c ++ d ++ e) := by
  simp [ofGroups?, List.drop_append, List.drop_of_length_le, ha, hb, hc, hd, he]

/-- A list is made of its groups. -/
theorem append_groups (ds : List Char) :
    ds.take 8 ++ (ds.drop 8).take 4 ++ (ds.drop 12).take 4 ++ (ds.drop 16).take 4 ++ ds.drop 20 = ds := by
  have h12 := List.take_append_drop 4 (ds.drop 8)
  have h16 := List.take_append_drop 4 (ds.drop 12)
  have h20 := List.take_append_drop 4 (ds.drop 16)
  rw [List.drop_drop] at h12 h16 h20
  rw [List.append_assoc, List.append_assoc, List.append_assoc, h20, h16, h12, List.take_append_drop]

theorem ofGroups?_text (u : Uuid) : ofGroups? u.text.toList = some u := by
  have hlength : u.digits.length = 32 := length_hexDigits
  rw [text, String.toList_ofList, ofGroups?_append (by simp [hlength]) (by simp [hlength])
    (by simp [hlength]) (by simp [hlength]) (by simp [hlength]), append_groups, ofPlain?_digits]

/-- The text of an identifier begins with a digit. -/
theorem head?_text (u : Uuid) : ∃ d < 16, u.text.toList.head? = some (lowerHexDigit d) := by
  have hlength : u.digits.length = 32 := length_hexDigits
  obtain ⟨c, cs, hcs⟩ := List.exists_cons_of_length_pos (l := u.digits) (by omega)
  obtain ⟨d, hd, rfl⟩ := exists_of_mem_hexDigits (hcs ▸ List.mem_cons_self : c ∈ u.digits)
  refine ⟨d, hd, ?_⟩
  rw [text, String.toList_ofList, hcs]
  rfl

/-- **An identifier is read back from its text.** -/
theorem parse?_text (u : Uuid) : parse? u.text = some u := by
  have hgroups := u.ofGroups?_text
  have hlength : u.text.toList.length ≠ 32 := by
    have hdigits : u.digits.length = 32 := length_hexDigits
    simp [text, hdigits]
  have hdigit : ∀ d < 16, lowerHexDigit d ≠ '\x7b' ∧ lowerHexDigit d ≠ 'u' := by decide
  obtain ⟨d, hd, hhead⟩ := u.head?_text
  obtain ⟨more, hcs⟩ := List.head?_eq_some_iff.1 hhead
  rw [hcs] at hgroups hlength
  rw [parse?, hcs]
  split
  · next he => exact absurd (List.cons.inj he).1 (hdigit d hd).1
  · next he => exact absurd (List.cons.inj he).1 (hdigit d hd).2
  · rw [if_neg hlength, hgroups]

theorem text_inj {v : Uuid} : u.text = v.text ↔ u = v := by
  refine ⟨fun h => Option.some.inj ?_, fun h => h ▸ rfl⟩
  rw [← u.parse?_text, h, v.parse?_text]

end SandboxPool.Uuid
