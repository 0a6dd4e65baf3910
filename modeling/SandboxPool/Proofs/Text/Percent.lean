import SandboxPool.Text.Percent
import Mathlib.Data.List.Basic

/-!
# Forms read back

What is written as a form is read back as one (`formDecode_formEncode`), so no two texts have the same form
(`formEncode_inj`). Read as a segment of a path it comes to almost the same bytes: a space comes back as a
plus sign (`percentDecode_formEncode`).
-/

namespace SandboxPool.Text

/-- The bytes of a text. -/
def bytes (s : String) : List UInt8 := s.toUTF8.data.toList

/-- The characters with another one in the place of each plus sign. -/
def replacePlus (space : Char) (cs : List Char) : List Char :=
  cs.map fun c => if c = '+' then space else c

/-- The bytes that a form stands for: a plus sign is a space. -/
def formDecode (cs : List Char) : List UInt8 := percentDecode (replacePlus ' ' cs)

/-! ## Bytes of texts -/

theorem bytes_eq_flatMap (s : String) : bytes s = s.toList.flatMap String.utf8EncodeChar := by
  rw [bytes, String.toUTF8, ← String.utf8Encode_toList, List.utf8Encode, List.data_toByteArray]

theorem bytes_inj {s t : String} (h : bytes s = bytes t) : s = t := by
  refine String.toByteArray_inj.1 ?_
  have hdata : s.toUTF8.data = t.toUTF8.data := Array.toList_inj.1 h
  exact ByteArray.ext hdata

/-- The bytes of a character that is not ASCII are above those that are. -/
theorem le_of_mem_utf8EncodeChar {c : Char} {b : UInt8} (hc : 127 < c.val.toNat)
    (hb : b ∈ String.utf8EncodeChar c) : 128 ≤ b.toNat := by
  have hmark : ∀ {n : Nat}, 128 ≤ n → n < 256 → b = UInt8.ofNat n → 128 ≤ b.toNat := by
    rintro n hle hlt rfl
    rwa [UInt8.toNat_ofNat', Nat.mod_eq_of_lt hlt]
  simp only [String.utf8EncodeChar, if_neg (Nat.not_le.2 hc)] at hb
  split at hb
  · rcases List.mem_cons.1 hb with hb | hb
    · exact hmark (by omega) (by omega) hb
    · exact hmark (by omega) (by omega) (List.mem_singleton.1 hb)
  · split at hb <;> simp only [List.mem_cons, List.not_mem_nil, or_false] at hb
    · rcases hb with hb | hb | hb <;> exact hmark (by omega) (by omega) hb
    · rcases hb with hb | hb | hb | hb <;> exact hmark (by omega) (by omega) hb

/-- Only a space has the byte of a space. -/
theorem space_mem_utf8EncodeChar {c : Char} : 32 ∈ String.utf8EncodeChar c ↔ c = ' ' := by
  refine ⟨fun h => ?_, fun h => by subst h; decide⟩
  rcases Nat.lt_or_ge 127 c.val.toNat with hc | hc
  · exact absurd (le_of_mem_utf8EncodeChar hc h) (by decide)
  · simp only [String.utf8EncodeChar, if_pos hc, List.mem_singleton] at h
    have hval := congrArg UInt8.toNat h
    rw [UInt8.toNat_ofNat', Nat.mod_eq_of_lt (by omega)] at hval
    exact Char.ext (UInt32.toNat_inj.1 hval.symm)

theorem space_mem_bytes {s : String} : 32 ∈ bytes s ↔ ' ' ∈ s.toList := by
  rw [bytes_eq_flatMap, List.mem_flatMap]
  refine ⟨fun ⟨c, hc, h⟩ => ?_, fun h => ⟨' ', h, space_mem_utf8EncodeChar.2 rfl⟩⟩
  rwa [← space_mem_utf8EncodeChar.1 h]

/-! ## Forms of bytes -/

theorem hexValue?_upperHexDigit {n : Nat} (hn : n < 16) : hexValue? (upperHexDigit n) = some n := by
  revert n
  decide

/-- A digit is ASCII, and neither a sign of its own in an address nor one in a form. -/
theorem upperHexDigit_plain {n : Nat} (hn : n < 16) : (upperHexDigit n).toNat < 128 ∧
    upperHexDigit n ≠ '/' ∧ upperHexDigit n ≠ '?' ∧ upperHexDigit n ≠ '#' ∧ upperHexDigit n ≠ '+' := by
  revert n
  decide

/-- A byte that stands for itself is a letter, a digit or one of four marks. -/
theorem toNat_of_isFormPlain {b : UInt8} (h : isFormPlain b = true) :
    48 ≤ b.toNat ∧ b.toNat ≤ 57 ∨ 65 ≤ b.toNat ∧ b.toNat ≤ 90 ∨ 97 ≤ b.toNat ∧ b.toNat ≤ 122 ∨
      b.toNat = 42 ∨ b.toNat = 45 ∨ b.toNat = 46 ∨ b.toNat = 95 := by
  simpa [isFormPlain, UInt8.le_iff_toNat_le, ← UInt8.toNat_inj, or_assoc] using h

theorem toNat_ofNat_byte (b : UInt8) : (Char.ofNat b.toNat).toNat = b.toNat := by
  have hb : b.toNat < 256 := b.toNat_lt
  rw [Char.ofNat, dif_pos (.inl (by omega))]
  rfl

/-- A byte that stands for itself is not the other character. -/
theorem ofNat_ne_of_isFormPlain {b : UInt8} {c : Char} (h : isFormPlain b = true)
    (hc : isFormPlain (UInt8.ofNat c.toNat) = false) : Char.ofNat b.toNat ≠ c := by
  rintro rfl
  rw [toNat_ofNat_byte, UInt8.ofNat_toNat, h] at hc
  cases hc

/-- The form of a byte is ASCII and has no sign of its own in an address. -/
theorem of_mem_formEncodeByte {b : UInt8} {c : Char} (h : c ∈ formEncodeByte b) :
    c.toNat < 128 ∧ c ≠ '/' ∧ c ≠ '?' ∧ c ≠ '#' := by
  have hb : b.toNat < 256 := b.toNat_lt
  unfold formEncodeByte at h
  split at h
  · next hplain =>
    obtain rfl := List.mem_singleton.1 h
    refine ⟨?_, ?_, ?_, ?_⟩
    · have hbound := toNat_of_isFormPlain hplain
      rw [toNat_ofNat_byte]
      omega
    all_goals exact ofNat_ne_of_isFormPlain hplain (by decide)
  · split at h
    · obtain rfl := List.mem_singleton.1 h
      decide
    · have hdigit : ∀ n < 16, c = upperHexDigit n →
          c.toNat < 128 ∧ c ≠ '/' ∧ c ≠ '?' ∧ c ≠ '#' := by
        rintro n hn rfl
        obtain ⟨hascii, hslash, hquery, hnumber, -⟩ := upperHexDigit_plain hn
        exact ⟨hascii, hslash, hquery, hnumber⟩
      simp only [List.mem_cons, List.not_mem_nil, or_false] at h
      rcases h with rfl | h | h
      · decide
      · exact hdigit _ (by omega) h
      · exact hdigit _ (by omega) h

/-! ## Reading a form -/

theorem percentDecode_cons {c : Char} (hc : c ≠ '%') (rest : List Char) :
    percentDecode (c :: rest) = UInt8.ofNat c.toNat :: percentDecode rest := by
  rw [percentDecode]
  rintro a b rest' rfl
  exact fun _ => hc rfl

/-- The form of one byte is read as that byte. For a space it is read as what stands in the place of a plus
sign. -/
theorem percentDecode_formEncodeByte {space : Char} (hs : space ≠ '%') (b : UInt8)
    (rest : List Char) :
    percentDecode (replacePlus space (formEncodeByte b) ++ rest)
      = (if b = 32 then UInt8.ofNat space.toNat else b) :: percentDecode rest := by
  have hb : b.toNat < 256 := b.toNat_lt
  unfold formEncodeByte
  split
  · next hplain =>
    have hkeeps : replacePlus space [Char.ofNat b.toNat] = [Char.ofNat b.toNat] := by
      simp [replacePlus, ofNat_ne_of_isFormPlain hplain (c := '+') (by decide)]
    have hspace : b ≠ 32 := by
      rintro rfl
      cases hplain
    rw [hkeeps, List.singleton_append,
      percentDecode_cons (ofNat_ne_of_isFormPlain hplain (by decide)), toNat_ofNat_byte,
      UInt8.ofNat_toNat, if_neg hspace]
  · split
    · next hspace =>
      have hspace : b = 32 := by simpa using hspace
      rw [if_pos hspace]
      exact percentDecode_cons hs rest
    · next hspace =>
      have hspace : b ≠ 32 := by simpa using hspace
      have hkeeps : replacePlus space ['%', upperHexDigit (b.toNat / 16), upperHexDigit (b.toNat % 16)]
          = ['%', upperHexDigit (b.toNat / 16), upperHexDigit (b.toNat % 16)] := by
        have hhigh := (upperHexDigit_plain (n := b.toNat / 16) (by omega)).2.2.2.2
        have hlow := (upperHexDigit_plain (n := b.toNat % 16) (by omega)).2.2.2.2
        simp [replacePlus, hhigh, hlow]
      have hvalue : UInt8.ofNat (b.toNat / 16 * 16 + b.toNat % 16) = b := by
        rw [Nat.div_add_mod', UInt8.ofNat_toNat]
      rw [hkeeps, if_neg hspace]
      simp only [List.cons_append, List.nil_append, percentDecode,
        hexValue?_upperHexDigit (show b.toNat / 16 < 16 by omega),
        hexValue?_upperHexDigit (show b.toNat % 16 < 16 by omega), hvalue]

/-- A form is read byte by byte. -/
theorem percentDecode_replacePlus {space : Char} (hs : space ≠ '%') (bs : List UInt8) :
    percentDecode (replacePlus space (formEncodeBytes bs))
      = bs.map fun b => if b = 32 then UInt8.ofNat space.toNat else b := by
  induction bs with
  | nil => rfl
  | cons b bs ih =>
    have hsplit : replacePlus space (formEncodeBytes (b :: bs))
        = replacePlus space (formEncodeByte b) ++ replacePlus space (formEncodeBytes bs) := by
      simp [formEncodeBytes, replacePlus]
    rw [hsplit, percentDecode_formEncodeByte hs, ih, List.map_cons]

variable {s t : String}

/-- The characters of a form. -/
theorem toList_formEncode (s : String) : (formEncode s).toList = formEncodeBytes (bytes s) :=
  String.toList_ofList

/-- **A form is read back.** -/
theorem formDecode_formEncode (s : String) : formDecode (formEncode s).toList = bytes s := by
  have hsame : (fun b : UInt8 => if b = 32 then UInt8.ofNat ' '.toNat else b) = id := by
    funext b
    by_cases h : b = 32
    · subst h
      rfl
    · exact if_neg h
  rw [formDecode, toList_formEncode, percentDecode_replacePlus (by decide), hsame, List.map_id]

/-- No two texts have the same form. -/
theorem formEncode_inj (h : formEncode s = formEncode t) : s = t := by
  refine bytes_inj ?_
  rw [← formDecode_formEncode s, h, formDecode_formEncode]

/-- **As a segment of a path, a form is read with a plus sign for each space.** -/
theorem percentDecode_formEncode (s : String) :
    percentDecode (formEncode s).toList = (bytes s).map fun b => if b = 32 then 43 else b := by
  have hplus : replacePlus '+' (formEncodeBytes (bytes s)) = formEncodeBytes (bytes s) := by
    refine (List.map_congr_left (g := id) fun c _ => ?_).trans (List.map_id _)
    by_cases h : c = '+'
    · rw [if_pos h, h]
      rfl
    · exact if_neg h
  rw [toList_formEncode, ← hplus, percentDecode_replacePlus (by decide)]
  rfl

/-- As a segment of a path, a form is read back exactly if there is no space. -/
theorem percentDecode_formEncode_eq_iff :
    percentDecode (formEncode s).toList = bytes s ↔ ' ' ∉ s.toList := by
  rw [percentDecode_formEncode, ← space_mem_bytes]
  constructor
  · intro h hspace
    rw [← h] at hspace
    obtain ⟨b, -, hb⟩ := List.mem_map.1 hspace
    by_cases hb32 : b = 32
    · rw [if_pos hb32] at hb
      cases hb
    · exact hb32 ((if_neg hb32).symm.trans hb)
  · intro h
    refine (List.map_congr_left (g := id) fun b hb => if_neg ?_).trans (List.map_id _)
    rintro rfl
    exact h hb

end SandboxPool.Text
