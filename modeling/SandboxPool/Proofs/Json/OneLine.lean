import SandboxPool.Proofs.Json.Numbers
import SandboxPool.Proofs.Json.Quoted

/-!
# Values on one line

A value that is written without blanks holds no control character, whatever texts are in it
(`Value.printable_render`). So it stands on one line.
-/

namespace SandboxPool.Json

open Text (IsDigit)

variable {c : Char}

theorem printable_of_isDigit (h : IsDigit c) : Printable c := Nat.le_trans (by decide) h.1

theorem Numeral.Digits.printable {ds : List Char} (h : Numeral.Digits ds) (hc : c ∈ ds) : Printable c :=
  printable_of_isDigit (h.2 c hc)

theorem Numeral.Grammatical.printable {n : Numeral} (hn : n.Grammatical) (hc : c ∈ n.chars) :
    Printable c := by
  obtain ⟨negative, whole, fraction, exponent⟩ := n
  have hfraction : c ∈ fractionChars fraction → Printable c := by
    intro hc
    cases fraction with
    | none => exact absurd hc List.not_mem_nil
    | some ds =>
      rcases List.mem_cons.1 hc with rfl | hc
      · decide
      · exact (hn.fraction ds rfl).printable hc
  have hexponent : c ∈ exponentChars exponent → Printable c := by
    intro hc
    match exponent, hn.exponent with
    | none, _ => exact absurd hc List.not_mem_nil
    | some (false, ds), hds =>
      rcases List.mem_cons.1 hc with rfl | hc
      · decide
      · exact (hds (false, ds) rfl).printable hc
    | some (true, ds), hds =>
      rcases List.mem_cons.1 hc with rfl | hc
      · decide
      rcases List.mem_cons.1 hc with rfl | hc
      · decide
      · exact (hds (true, ds) rfl).printable hc
  simp only [chars, List.mem_append] at hc
  rcases hc with hc | hc | hc | hc
  · cases negative with
    | false => exact absurd hc List.not_mem_nil
    | true =>
      obtain rfl := List.mem_singleton.1 hc
      decide
  · exact hn.whole.printable hc
  · exact hfraction hc
  · exact hexponent hc

theorem Number.printable_text (n : Number) (hc : c ∈ n.text) : Printable c :=
  n.grammatical_numeral.printable (n.text_eq ▸ hc)

/-- A part of a value behind a bracket or a comma, and what follows it. -/
theorem printable_part {d : Char} {cs rest : List Char} (hd : Printable d) (hcs : ∀ c ∈ cs, Printable c)
    (hrest : ∀ c ∈ rest, Printable c) : ∀ c ∈ d :: cs ++ rest, Printable c := by
  intro c hc
  rcases List.mem_append.1 hc with hc | hc
  · rcases List.mem_cons.1 hc with rfl | hc
    · exact hd
    · exact hcs c hc
  · exact hrest c hc

theorem printable_field (name : String) {cs : List Char} (hcs : ∀ c ∈ cs, Printable c) :
    ∀ c ∈ quote name ++ ':' :: cs, Printable c := by
  intro c hc
  rcases List.mem_append.1 hc with hc | hc
  · exact printable_quote hc
  rcases List.mem_cons.1 hc with rfl | hc
  · decide
  · exact hcs c hc

theorem printable_word {cs : List Char} (h : cs.all (fun c => Printable c) = true) :
    ∀ c ∈ cs, Printable c := by
  simpa using h

mutual

/-- **No control character stands in a value that was written without blanks.** -/
theorem Value.printable_render : ∀ v : Value, ∀ c ∈ v.render, Printable c
  | .null | .bool true | .bool false | .array [] | .object [] => printable_word (by decide)
  | .number n => fun _ hc => n.printable_text hc
  | .string s => fun _ hc => printable_quote hc
  | .array (v :: vs) => by
    rw [Value.render]
    exact printable_part (by decide) v.printable_render (printable_renderElements vs)
  | .object ((name, v) :: fs) => by
    rw [Value.render]
    exact printable_part (by decide) (printable_field name v.printable_render) (printable_renderFields fs)

theorem printable_renderElements : ∀ vs : List Value, ∀ c ∈ renderElements vs, Printable c
  | [] => printable_word (by decide)
  | v :: vs => by
    rw [renderElements]
    exact printable_part (by decide) v.printable_render (printable_renderElements vs)

theorem printable_renderFields : ∀ fs : List (String × Value), ∀ c ∈ renderFields fs, Printable c
  | [] => printable_word (by decide)
  | (name, v) :: fs => by
    rw [renderFields]
    exact printable_part (by decide) (printable_field name v.printable_render) (printable_renderFields fs)

end

theorem Value.printable_compact (v : Value) : ∀ c ∈ v.compact.toList, Printable c := by
  rw [Value.compact, String.toList_ofList]
  exact v.printable_render

end SandboxPool.Json
