import SandboxPool.Proofs.Text.Digits

/-!
# Quoted texts

A quoted text holds no control character (`printable_quote`), and reading it gives the text back
(`readQuoted?_quote`).
-/

namespace SandboxPool.Json

variable {c : Char} {rest : Marked}

/-- A control character has a code below that of the space. -/
def Printable (c : Char) : Prop := 0x20 ≤ c.toNat

instance (c : Char) : Decidable (Printable c) := inferInstanceAs (Decidable (_ ≤ _))

theorem printable_lowerHexDigit {n : Nat} (h : n < 16) : Printable (lowerHexDigit n) := by
  have hall : ∀ m < 16, Printable (lowerHexDigit m) := by decide
  exact hall n h

/-- The ways in which a character is written: with a backslash before a character of its own, as its code,
or as it is. -/
theorem escapeChar_cases (c : Char) :
    (∃ d, escapeChar c = ['\\', d] ∧ d ≠ 'u' ∧ Printable d ∧ simpleEscape? d = some c) ∨
    (c.toNat < 0x20 ∧ escapeChar c =
      ['\\', 'u', '0', '0', lowerHexDigit (c.toNat / 16), lowerHexDigit (c.toNat % 16)]) ∨
    (escapeChar c = [c] ∧ Printable c ∧ c ≠ '\"' ∧ c ≠ '\\') := by
  have eq_of_toNat : ∀ {d : Char}, c.toNat = d.toNat → c = d := fun h => Char.toNat_inj.1 h
  unfold escapeChar
  split
  · next h =>
    obtain rfl : c = '\"' := eq_of_toNat h
    exact .inl ⟨_, rfl, by decide, by decide, by decide⟩
  split
  · next h =>
    obtain rfl : c = '\\' := eq_of_toNat h
    exact .inl ⟨_, rfl, by decide, by decide, by decide⟩
  split
  · next h =>
    obtain rfl : c = Char.ofNat 8 := eq_of_toNat h
    exact .inl ⟨_, rfl, by decide, by decide, by decide⟩
  split
  · next h =>
    obtain rfl : c = Char.ofNat 12 := eq_of_toNat h
    exact .inl ⟨_, rfl, by decide, by decide, by decide⟩
  split
  · next h =>
    obtain rfl : c = '\n' := eq_of_toNat h
    exact .inl ⟨_, rfl, by decide, by decide, by decide⟩
  split
  · next h =>
    obtain rfl : c = '\r' := eq_of_toNat h
    exact .inl ⟨_, rfl, by decide, by decide, by decide⟩
  split
  · next h =>
    obtain rfl : c = '\t' := eq_of_toNat h
    exact .inl ⟨_, rfl, by decide, by decide, by decide⟩
  split
  · next h => exact .inr (.inl ⟨h, rfl⟩)
  · next hquote hslash _ _ _ _ _ hcontrol =>
    refine .inr (.inr ⟨rfl, Nat.le_of_not_lt hcontrol, ?_, ?_⟩)
    · rintro rfl
      exact hquote rfl
    · rintro rfl
      exact hslash rfl

/-! ## What is written -/

theorem printable_escapeChar {d : Char} (h : d ∈ escapeChar c) : Printable d := by
  rcases escapeChar_cases c with ⟨e, he, -, hp, -⟩ | ⟨hlt, he⟩ | ⟨he, hp, -, -⟩
  · rw [he] at h
    simp only [List.mem_cons, List.not_mem_nil, or_false] at h
    rcases h with rfl | rfl
    · decide
    · exact hp
  · rw [he] at h
    simp only [List.mem_cons, List.not_mem_nil, or_false] at h
    have hhigh := printable_lowerHexDigit (n := c.toNat / 16) (by omega)
    have hlow := printable_lowerHexDigit (n := c.toNat % 16) (by omega)
    rcases h with rfl | rfl | rfl | rfl | rfl | rfl
    · decide
    · decide
    · decide
    · decide
    · exact hhigh
    · exact hlow
  · rw [he] at h
    rwa [List.mem_singleton.1 h]

/-- No character of a quoted text is a control character, whatever the text holds. -/
theorem printable_quote {s : String} {d : Char} (h : d ∈ quote s) : Printable d := by
  unfold quote at h
  rcases List.mem_cons.1 h with rfl | h
  · decide
  rcases List.mem_append.1 h with h | h
  · obtain ⟨c, -, hd⟩ := List.mem_flatMap.1 h
    exact printable_escapeChar hd
  · obtain rfl := List.mem_singleton.1 h
    decide

/-! ## Reading it back -/

/-- A control character is read back from its code. -/
theorem readUnicode?_code (h : c.toNat < 0x20) (rest : Marked) :
    readUnicode? (some '0' :: some '0' :: some (lowerHexDigit (c.toNat / 16)) ::
      some (lowerHexDigit (c.toNat % 16)) :: rest) = some (some c, rest) := by
  have hzero : Text.hexValue? '0' = some 0 := by decide
  have hhigh := Text.hexValue?_lowerHexDigit (n := c.toNat / 16) (by omega)
  have hlow := Text.hexValue?_lowerHexDigit (n := c.toNat % 16) (by omega)
  have hcode : ((0 * 16 + 0) * 16 + c.toNat / 16) * 16 + c.toNat % 16 = c.toNat := by omega
  have hpair : ¬0xD800 ≤ c.toNat := by omega
  have hhalf : ¬0xDC00 ≤ c.toNat := by omega
  simp only [readUnicode?, readHex4?, hzero, hhigh, hlow, hcode, Option.map_some, hpair, hhalf,
    decide_false, Bool.false_and, Bool.false_eq_true, if_false, Char.ofNat_toNat]

/-- One character is read back from what is written for it, and that begins with no quote. -/
theorem readChar?_escapeChar (c : Char) (rest : Marked) :
    readChar? ((escapeChar c).map some ++ rest) = some (some c, rest) ∧
      ∃ d more, escapeChar c = d :: more ∧ d ≠ '\"' := by
  rcases escapeChar_cases c with ⟨d, he, hne, -, hd⟩ | ⟨hlt, he⟩ | ⟨he, hp, hquote, hslash⟩
  · refine ⟨?_, _, _, he, by decide⟩
    rw [he]
    show readChar? (some '\\' :: some d :: rest) = _
    rw [readChar?, hd]
    · rfl
    · exact hne
  · refine ⟨?_, _, _, he, by decide⟩
    rw [he]
    exact readUnicode?_code hlt rest
  · refine ⟨?_, _, _, he, hquote⟩
    rw [he]
    show readChar? (some c :: rest) = _
    have hcontrol : ¬c.toNat < 0x20 := Nat.not_lt.2 hp
    unfold readChar?
    split <;> simp_all

/-- The characters up to the closing quote are read back, behind those that were read before. -/
theorem readQuoted?_escaped (s acc : List Char) {fuel : Nat} (hf : s.length < fuel) (rest : Marked) :
    readQuoted? fuel (some acc) ((s.flatMap escapeChar).map some ++ some '\"' :: rest)
      = some (some (String.ofList (acc.reverse ++ s)), rest) := by
  induction s generalizing acc fuel with
  | nil =>
    cases fuel with
    | zero => cases hf
    | succ fuel => simp [readQuoted?]
  | cons c s ih =>
    cases fuel with
    | zero => cases hf
    | succ fuel =>
      have hlt : s.length < fuel := Nat.lt_of_succ_lt_succ hf
      obtain ⟨hread, d, more, he, hne⟩ :=
        readChar?_escapeChar c ((s.flatMap escapeChar).map some ++ some '\"' :: rest)
      have hstep : readQuoted? (fuel + 1) (some acc)
          ((escapeChar c).map some ++ ((s.flatMap escapeChar).map some ++ some '\"' :: rest))
          = readQuoted? fuel (some (c :: acc))
              ((s.flatMap escapeChar).map some ++ some '\"' :: rest) := by
        rw [he, List.map_cons, List.cons_append] at hread ⊢
        rw [readQuoted?, hread]
        · rfl
        · intro more heq
          simp only [List.cons.injEq, Option.some.injEq] at heq
          exact hne heq.1
      rw [List.flatMap_cons, List.map_append, List.append_assoc, hstep, ih _ hlt]
      simp

/-- A quoted text is read back, whatever stands behind it. -/
theorem readQuoted?_quote (s : String) (rest : Marked) :
    ∃ more, quote s = '\"' :: more ∧
      readQuoted? ((more.map some ++ rest).length + 1) (some []) (more.map some ++ rest)
        = some (some s, rest) := by
  refine ⟨s.toList.flatMap escapeChar ++ ['\"'], rfl, ?_⟩
  have hlen : s.toList.length ≤ (s.toList.flatMap escapeChar).length := by
    induction s.toList with
    | nil => exact Nat.le_refl _
    | cons c cs ih =>
      obtain ⟨-, d, more, he, -⟩ := readChar?_escapeChar c []
      rw [List.flatMap_cons, List.length_append, he, List.length_cons, List.length_cons]
      omega
  have hfuel : s.toList.length
      < ((s.toList.flatMap escapeChar ++ ['\"']).map some ++ rest).length + 1 := by
    simp only [List.length_append, List.length_map]
    omega
  have hread := readQuoted?_escaped s.toList [] hfuel rest
  rw [List.map_append, List.append_assoc] at hread ⊢
  simpa using hread

end SandboxPool.Json
