import SandboxPool.Json.Printer

/-!
# Layouts

The two ways of writing a value are one, in which only the blanks differ: `Value.spell` is given what stands
before each element, and what stands behind the name of a field.
-/

namespace SandboxPool.Json

/-- The blanks of a written value: before an element or a closing bracket, by how deep it is, and behind the
name of a field. -/
structure Layout where
  gap : Nat → List Char
  behindName : List Char

namespace Layout

/-- No blanks. -/
def compact : Layout := ⟨fun _ => [], []⟩

/-- Every element on a line of its own. -/
def lines : Layout := ⟨newLine, [' ']⟩

/-- There are only spaces and line breaks between the parts of a value. -/
def Blank (l : Layout) : Prop :=
  (∀ level, ∀ c ∈ l.gap level, c = ' ' ∨ c = '\n') ∧ ∀ c ∈ l.behindName, c = ' ' ∨ c = '\n'

theorem blank_compact : compact.Blank :=
  ⟨fun _ _ h => absurd h List.not_mem_nil, fun _ h => absurd h List.not_mem_nil⟩

theorem blank_lines : lines.Blank := by
  refine ⟨fun level c hc => ?_, fun c hc => .inl (List.mem_singleton.1 hc)⟩
  rcases List.mem_cons.1 hc with rfl | hc
  · exact .inr rfl
  · exact .inl (List.eq_of_mem_replicate hc)

end Layout

mutual

/-- The characters of a value in a layout. -/
def Value.spell (l : Layout) (level : Nat) : Value → List Char
  | .array [] => ['[', ']']
  | .array (v :: rest) =>
    '[' :: l.gap (level + 1) ++ (v.spell l (level + 1) ++ spellElements l level rest)
  | .object [] => ['\x7b', '\x7d']
  | .object ((name, v) :: rest) =>
    '\x7b' :: l.gap (level + 1) ++ (quote name ++ ':' :: l.behindName
      ++ (v.spell l (level + 1) ++ spellFields l level rest))
  | v => v.render

/-- The later elements of an array and the closing bracket. -/
def spellElements (l : Layout) (level : Nat) : List Value → List Char
  | [] => l.gap level ++ [']']
  | v :: rest =>
    ',' :: l.gap (level + 1) ++ (v.spell l (level + 1) ++ spellElements l level rest)

/-- The later fields of an object and the closing brace. -/
def spellFields (l : Layout) (level : Nat) : List (String × Value) → List Char
  | [] => l.gap level ++ ['\x7d']
  | (name, v) :: rest =>
    ',' :: l.gap (level + 1) ++ (quote name ++ ':' :: l.behindName
      ++ (v.spell l (level + 1) ++ spellFields l level rest))

end

mutual

theorem Value.spell_compact (level : Nat) : ∀ v : Value, v.spell .compact level = v.render
  | .null | .bool _ | .number _ | .string _ | .array [] | .object [] => rfl
  | .array (v :: rest) => by
    have hv := Value.spell_compact (level + 1) v
    have hrest := spellElements_compact level rest
    rw [Value.spell, hv, hrest, Value.render]
    rfl
  | .object ((name, v) :: rest) => by
    have hv := Value.spell_compact (level + 1) v
    have hrest := spellFields_compact level rest
    rw [Value.spell, hv, hrest, Value.render]
    simp [Layout.compact]

theorem spellElements_compact (level : Nat) :
    ∀ vs : List Value, spellElements .compact level vs = renderElements vs
  | [] => rfl
  | v :: rest => by
    have hv := Value.spell_compact (level + 1) v
    have hrest := spellElements_compact level rest
    rw [spellElements, hv, hrest, renderElements]
    rfl

theorem spellFields_compact (level : Nat) :
    ∀ fs : List (String × Value), spellFields .compact level fs = renderFields fs
  | [] => rfl
  | (name, v) :: rest => by
    have hv := Value.spell_compact (level + 1) v
    have hrest := spellFields_compact level rest
    rw [spellFields, hv, hrest, renderFields]
    simp [Layout.compact]

end

mutual

theorem Value.spell_lines (level : Nat) : ∀ v : Value, v.spell .lines level = v.renderPretty level
  | .null | .bool _ | .number _ | .string _ | .array [] | .object [] => rfl
  | .array (v :: rest) => by
    have hv := Value.spell_lines (level + 1) v
    have hrest := spellElements_lines level rest
    rw [Value.spell, hv, hrest, Value.renderPretty]
    simp [Layout.lines]
  | .object ((name, v) :: rest) => by
    have hv := Value.spell_lines (level + 1) v
    have hrest := spellFields_lines level rest
    rw [Value.spell, hv, hrest, Value.renderPretty]
    simp [Layout.lines]

theorem spellElements_lines (level : Nat) :
    ∀ vs : List Value, spellElements .lines level vs = prettyElements level vs
  | [] => rfl
  | v :: rest => by
    have hv := Value.spell_lines (level + 1) v
    have hrest := spellElements_lines level rest
    rw [spellElements, hv, hrest, prettyElements]
    simp [Layout.lines]

theorem spellFields_lines (level : Nat) :
    ∀ fs : List (String × Value), spellFields .lines level fs = prettyFields level fs
  | [] => rfl
  | (name, v) :: rest => by
    have hv := Value.spell_lines (level + 1) v
    have hrest := spellFields_lines level rest
    rw [spellFields, hv, hrest, prettyFields]
    simp [Layout.lines]

end

end SandboxPool.Json
