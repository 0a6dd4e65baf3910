import SandboxPool.Proofs.Json.Layout
import SandboxPool.Proofs.Json.Numbers
import SandboxPool.Proofs.Json.Quoted

/-!
# Reading what was written

`Value.tree` is a value as it stands in a text. Reading a text that was written in any layout gives that
tree (`readText?_spell`), so in particular the text of `Value.compact` and of `Value.pretty`. No two values
share a tree (`Value.tree_inj`), and so no two share a text (`Value.compact_inj`).
-/

namespace SandboxPool.Json

open Text (IsDigit)

mutual

/-- A value as it stands in a text. -/
def Value.tree : Value → Tree
  | .null => .null
  | .bool b => .bool b
  | .number n => .number n.numeral
  | .string s => .string (some s)
  | .array vs => .array (treeAll vs)
  | .object fs => .object (treeEach fs)

/-- `Value.tree` of every element. -/
def treeAll : List Value → List Tree
  | [] => []
  | v :: rest => v.tree :: treeAll rest

/-- `Value.tree` of the value of every field. -/
def treeEach : List (String × Value) → List (Option String × Tree)
  | [] => []
  | (name, v) :: rest => (some name, v.tree) :: treeEach rest

end

theorem treeAll_eq (vs : List Value) : treeAll vs = vs.map Value.tree := by
  induction vs with
  | nil => rfl
  | cons v rest ih => rw [treeAll, ih, List.map_cons]

theorem treeEach_eq (fs : List (String × Value)) :
    treeEach fs = fs.map fun f => (some f.1, f.2.tree) := by
  induction fs with
  | nil => rfl
  | cons f rest ih => rw [treeEach, ih, List.map_cons]

/-! ## Trees tell values apart -/

mutual

theorem Value.eq_of_tree : ∀ {v w : Value}, v.tree = w.tree → v = w
  | .null, w, h => by cases w <;> simp_all [Value.tree]
  | .bool b, w, h => by cases w <;> simp_all [Value.tree]
  | .number n, w, h => by cases w <;> simp_all [Value.tree, Number.numeral_inj]
  | .string s, w, h => by cases w <;> simp_all [Value.tree]
  | .array vs, .array ws, h => by
    have hall : treeAll vs = treeAll ws := by simpa [Value.tree] using h
    rw [eq_of_treeAll hall]
  | .object fs, .object gs, h => by
    have heach : treeEach fs = treeEach gs := by simpa [Value.tree] using h
    rw [eq_of_treeEach heach]

theorem eq_of_treeAll : ∀ {vs ws : List Value}, treeAll vs = treeAll ws → vs = ws
  | [], ws, h => by cases ws <;> simp_all [treeAll]
  | v :: vs, [], h => by simp [treeAll] at h
  | v :: vs, w :: ws, h => by
    obtain ⟨hv, hvs⟩ : v.tree = w.tree ∧ treeAll vs = treeAll ws := by simpa [treeAll] using h
    rw [Value.eq_of_tree hv, eq_of_treeAll hvs]

theorem eq_of_treeEach : ∀ {fs gs : List (String × Value)}, treeEach fs = treeEach gs → fs = gs
  | [], gs, h => by cases gs <;> simp_all [treeEach]
  | (name, v) :: fs, [], h => by simp [treeEach] at h
  | (name, v) :: fs, (name', w) :: gs, h => by
    obtain ⟨⟨hname, hv⟩, hfs⟩ : (name = name' ∧ v.tree = w.tree) ∧ treeEach fs = treeEach gs := by
      simpa [treeEach] using h
    rw [hname, Value.eq_of_tree hv, eq_of_treeEach hfs]

end

theorem Value.tree_inj {v w : Value} : v.tree = w.tree ↔ v = w :=
  ⟨Value.eq_of_tree, fun h => h ▸ rfl⟩

/-! ## Between the parts of a value -/

variable {c : Char} {cs blanks : List Char} {rest more : Marked} {l : Layout} {level fuel : Nat}

/-- A value may begin with the character: it is neither a blank nor a closing bracket. -/
def Opens (c : Char) : Prop := c ∉ [' ', '\t', '\n', '\r', ']', '\x7d']

instance (c : Char) : Decidable (Opens c) := inferInstanceAs (Decidable (¬_))

theorem Opens.of_isDigit (h : IsDigit c) : Opens c := by
  intro hm
  simp only [List.mem_cons, List.not_mem_nil, or_false] at hm
  rcases hm with rfl | rfl | rfl | rfl | rfl | rfl <;> exact absurd h (by decide)

theorem skipBlank_opens (h : Opens c) (rest : Marked) : skipBlank (some c :: rest) = some c :: rest := by
  simp only [Opens, List.mem_cons, List.not_mem_nil, or_false, not_or] at h
  obtain ⟨hspace, htab, hline, hreturn, -⟩ := h
  simp [skipBlank, hspace, htab, hline, hreturn]

theorem skipBlank_blanks (h : ∀ c ∈ blanks, c = ' ' ∨ c = '\n') (rest : Marked) :
    skipBlank (blanks.map some ++ rest) = skipBlank rest := by
  induction blanks with
  | nil => rfl
  | cons c blanks ih =>
    obtain ⟨hc, hblanks⟩ := List.forall_mem_cons.1 h
    rw [← ih hblanks]
    rcases hc with rfl | rfl <;> rfl

theorem apart_nil : Apart [] := fun _ h => by cases h

theorem apart_cons (h : ¬IsDigit c ∧ c ≠ '.' ∧ c ≠ 'e' ∧ c ≠ 'E') : Apart (some c :: rest) := by
  rintro d hd
  obtain rfl := Option.some.inj (Option.some.inj hd)
  exact h

theorem apart_blanks (h : ∀ c ∈ blanks, c = ' ' ∨ c = '\n') (ha : Apart rest) :
    Apart (blanks.map some ++ rest) := by
  cases blanks with
  | nil => exact ha
  | cons c blanks =>
    refine apart_cons ?_
    rcases h c List.mem_cons_self with rfl | rfl <;> decide

theorem apart_spellElements (hl : l.Blank) (vs : List Value) :
    Apart ((spellElements l level vs).map some ++ rest) := by
  cases vs with
  | nil =>
    rw [spellElements, List.map_append, List.append_assoc]
    exact apart_blanks (hl.1 level) (apart_cons (by decide))
  | cons v vs => exact apart_cons (by decide)

theorem apart_spellFields (hl : l.Blank) (fs : List (String × Value)) :
    Apart ((spellFields l level fs).map some ++ rest) := by
  cases fs with
  | nil =>
    rw [spellFields, List.map_append, List.append_assoc]
    exact apart_blanks (hl.1 level) (apart_cons (by decide))
  | cons f fs => exact apart_cons (by decide)

/-- What a number begins with. -/
theorem Number.exists_head (n : Number) :
    ∃ c more, n.numeral.chars = c :: more ∧ (c = '-' ∨ IsDigit c) := by
  have hwhole := n.grammatical_numeral.whole
  unfold Numeral.chars
  cases n.numeral.negative with
  | true => exact ⟨_, _, rfl, .inl rfl⟩
  | false =>
    obtain ⟨d, more, hd⟩ := List.exists_cons_of_ne_nil hwhole.1
    refine ⟨d, _, by rw [hd]; rfl, .inr (hwhole.2 d ?_)⟩
    rw [hd]
    exact List.mem_cons_self

/-- The characters begin as a value may begin. -/
def Opening (cs : List Char) : Prop := ∃ c more, cs = c :: more ∧ Opens c

theorem Value.opening_spell (l : Layout) (level : Nat) (v : Value) : Opening (v.spell l level) := by
  cases v with
  | null => exact ⟨_, _, rfl, by decide⟩
  | bool b => cases b <;> exact ⟨_, _, rfl, by decide⟩
  | string s => exact ⟨_, _, rfl, by decide⟩
  | array vs => cases vs <;> exact ⟨_, _, rfl, by decide⟩
  | object fs => cases fs <;> exact ⟨_, _, rfl, by decide⟩
  | number n =>
    obtain ⟨c, more, he, hc⟩ := n.exists_head
    refine ⟨c, more, by rw [← he, ← n.text_eq]; rfl, ?_⟩
    rcases hc with rfl | hc
    · decide
    · exact .of_isDigit hc

theorem opening_quote (s : String) (more : List Char) : Opening (quote s ++ more) :=
  ⟨'\"', _, rfl, by decide⟩

/-- Blanks before a value are left out, and no more than these. -/
theorem skipBlank_opening (h : ∀ c ∈ blanks, c = ' ' ∨ c = '\n') (ho : Opening cs) (rest : Marked) :
    skipBlank (blanks.map some ++ (cs.map some ++ rest)) = cs.map some ++ rest := by
  obtain ⟨c, more, rfl, hc⟩ := ho
  rw [skipBlank_blanks h]
  exact skipBlank_opens hc _

/-! ## One value -/

/-- The characters are read as a tree, whatever stands behind them that does not go on with a number. -/
def Reads (cs : List Char) (t : Tree) : Prop :=
  ∀ fuel rest, cs.length ≤ fuel → Apart rest → readTree? fuel (cs.map some ++ rest) = some (t, rest)

theorem readTree?_number (hc : c = '-' ∨ IsDigit c) (fuel : Nat) (rest : Marked) :
    readTree? (fuel + 1) (some c :: rest)
      = (readNumeral? (some c :: rest)).map fun (n, left) => (.number n, left) := by
  have hne : ∀ d : Char, ¬IsDigit d → d ≠ '-' → c ≠ d := by
    intro d hd hminus
    rcases hc with rfl | hc
    · exact hminus.symm
    · exact hc.ne hd
  have hn := hne 'n' (by decide) (by decide)
  have ht := hne 't' (by decide) (by decide)
  have hf := hne 'f' (by decide) (by decide)
  have hquote := hne '\"' (by decide) (by decide)
  have hbracket := hne '[' (by decide) (by decide)
  have hbrace := hne '\x7b' (by decide) (by decide)
  simp [readTree?, hn, ht, hf, hquote, hbracket, hbrace]

theorem Number.reads (n : Number) : Reads n.text (.number n.numeral) := by
  intro fuel rest hfuel ha
  obtain ⟨c, more, he, hc⟩ := n.exists_head
  rw [n.text_eq] at hfuel ⊢
  have hread := readNumeral?_chars n.grammatical_numeral ha
  rw [he] at hfuel hread ⊢
  cases fuel with
  | zero => exact absurd hfuel (by simp)
  | succ fuel =>
    rw [List.map_cons, List.cons_append] at hread ⊢
    rw [readTree?_number hc, hread]
    rfl

theorem reads_quote (s : String) : Reads (quote s) (.string (some s)) := by
  intro fuel rest hfuel _
  obtain ⟨more, he, hread⟩ := readQuoted?_quote s rest
  rw [he] at hfuel ⊢
  cases fuel with
  | zero => exact absurd hfuel (by simp)
  | succ fuel =>
    rw [List.map_cons, List.cons_append, readTree?, hread]
    rfl

/-- A word without parts is read with whatever stands behind it. -/
theorem reads_of_succ {t : Tree} (h : cs ≠ [])
    (hread : ∀ fuel rest, readTree? (fuel + 1) (cs.map some ++ rest) = some (t, rest)) : Reads cs t := by
  intro fuel rest hfuel _
  cases fuel with
  | zero => exact absurd (List.length_eq_zero_iff.1 (Nat.le_zero.1 hfuel)) h
  | succ fuel => exact hread fuel rest

/-! ## Elements and fields -/

section Parts

variable {t : Tree} {left : Marked}

/-- The elements of an array are read, from the first one on. -/
theorem readTree?_array (h : ∀ c ∈ blanks, c = ' ' ∨ c = '\n') (ho : Opening cs) (fuel : Nat)
    (rest : Marked) :
    readTree? (fuel + 1) (some '[' :: (blanks.map some ++ (cs.map some ++ rest)))
      = (readElements? fuel [] (cs.map some ++ rest)).map fun (ts, left) => (.array ts, left) := by
  have hskip := skipBlank_opening h ho rest
  obtain ⟨c, more, rfl, hc⟩ := ho
  have hclose : c ≠ ']' := by
    rintro rfl
    exact absurd hc (by decide)
  simp only [List.map_cons, List.cons_append] at hskip ⊢
  simp [readTree?, hskip, hclose]

/-- The fields of an object are read, from the first one on. -/
theorem readTree?_object (h : ∀ c ∈ blanks, c = ' ' ∨ c = '\n') (ho : Opening cs) (fuel : Nat)
    (rest : Marked) :
    readTree? (fuel + 1) (some '\x7b' :: (blanks.map some ++ (cs.map some ++ rest)))
      = (readFields? fuel [] (cs.map some ++ rest)).map fun (fs, left) => (.object fs, left) := by
  have hskip := skipBlank_opening h ho rest
  obtain ⟨c, more, rfl, hc⟩ := ho
  have hclose : c ≠ '\x7d' := by
    rintro rfl
    exact absurd hc (by decide)
  simp only [List.map_cons, List.cons_append] at hskip ⊢
  simp [readTree?, hskip, hclose]

/-- The last element is read. -/
theorem readElements?_last (hcs : Reads cs t) (hfuel : cs.length ≤ fuel) (ha : Apart rest)
    (hskip : skipBlank rest = some ']' :: left) (acc : List Tree) :
    readElements? (fuel + 1) acc (cs.map some ++ rest) = some ((t :: acc).reverse, left) := by
  rw [readElements?, hcs fuel rest hfuel ha]
  simp [hskip]

/-- An element is read before another one. -/
theorem readElements?_next (hcs : Reads cs t) (hfuel : cs.length ≤ fuel) (acc : List Tree) (more : Marked) :
    readElements? (fuel + 1) acc (cs.map some ++ some ',' :: more)
      = readElements? fuel (t :: acc) (skipBlank more) := by
  rw [readElements?, hcs fuel _ hfuel (apart_cons (by decide))]
  simp [skipBlank]

/-- The last field is read. -/
theorem readFields?_last (name : String) (hcs : Reads cs t) (hfuel : cs.length ≤ fuel) (ha : Apart rest)
    (hskip : skipBlank more = cs.map some ++ rest) (hend : skipBlank rest = some '\x7d' :: left)
    (acc : List (Option String × Tree)) :
    readFields? (fuel + 1) acc ((quote name).map some ++ some ':' :: more)
      = some (((some name, t) :: acc).reverse, left) := by
  obtain ⟨inner, he, hread⟩ := readQuoted?_quote name (some ':' :: more)
  rw [he, List.map_cons, List.cons_append, readFields?, hread]
  simp [skipBlank, hskip, hcs fuel rest hfuel ha, hend]

/-- A field is read before another one. -/
theorem readFields?_next (name : String) (hcs : Reads cs t) (hfuel : cs.length ≤ fuel) (later : Marked)
    (hskip : skipBlank more = cs.map some ++ some ',' :: later) (acc : List (Option String × Tree)) :
    readFields? (fuel + 1) acc ((quote name).map some ++ some ':' :: more)
      = readFields? fuel ((some name, t) :: acc) (skipBlank later) := by
  obtain ⟨inner, he, hread⟩ := readQuoted?_quote name (some ':' :: more)
  rw [he, List.map_cons, List.cons_append, readFields?, hread]
  have happart : Apart (some ',' :: later) := apart_cons (by decide)
  simp [skipBlank, hskip, hcs fuel _ hfuel happart]

end Parts

mutual

/-- **A value is read back from what was written**, in any layout. -/
theorem Value.reads_spell (hl : l.Blank) (level : Nat) : ∀ v : Value, Reads (v.spell l level) v.tree
  | .null | .bool true | .bool false | .array [] | .object [] =>
    reads_of_succ (List.cons_ne_nil _ _) fun _ _ => rfl
  | .number n => n.reads
  | .string s => reads_quote s
  | .array (v :: vs) => by
    intro fuel rest hfuel _
    rw [Value.spell] at hfuel ⊢
    cases fuel with
    | zero => exact absurd hfuel (by simp)
    | succ fuel =>
      have hread := readElements?_spell hl level vs (v.reads_spell hl (level + 1)) [] fuel rest (by
        simp only [List.length_cons, List.length_append] at hfuel ⊢
        omega)
      have hopen := readTree?_array (hl.1 (level + 1)) (v.opening_spell l (level + 1)) fuel
        ((spellElements l level vs).map some ++ rest)
      simp only [List.map_append, List.append_assoc] at hread
      simp only [List.map_cons, List.map_append, List.cons_append, List.append_assoc]
      rw [hopen, hread]
      rfl
  | .object ((name, v) :: fs) => by
    intro fuel rest hfuel _
    rw [Value.spell] at hfuel ⊢
    cases fuel with
    | zero => exact absurd hfuel (by simp)
    | succ fuel =>
      have hread := readFields?_spell hl level fs name (v.reads_spell hl (level + 1))
        (v.opening_spell l (level + 1)) [] fuel rest (by
          simp only [List.length_cons, List.length_append] at hfuel ⊢
          omega)
      have hopen := readTree?_object (hl.1 (level + 1)) (opening_quote name []) fuel
        ((':' :: l.behindName ++ (v.spell l (level + 1) ++ spellFields l level fs)).map some ++ rest)
      simp only [List.map_cons, List.map_append, List.cons_append, List.append_assoc,
        List.append_nil] at hread hopen ⊢
      rw [hopen, hread]
      rfl

/-- The elements of an array are read back, behind those that were read before. -/
theorem readElements?_spell (hl : l.Blank) (level : Nat) : ∀ (vs : List Value) {cs : List Char} {t : Tree},
    Reads cs t → ∀ (acc : List Tree) (fuel : Nat) (rest : Marked),
    (cs ++ spellElements l level vs).length ≤ fuel →
    readElements? fuel acc ((cs ++ spellElements l level vs).map some ++ rest)
      = some (acc.reverse ++ t :: treeAll vs, rest)
  | [], cs, t, hcs, acc, fuel, rest, hfuel => by
    cases fuel with
    | zero => exact absurd hfuel (by simp [spellElements])
    | succ fuel =>
      simp only [spellElements, List.length_append, List.length_cons] at hfuel
      have hend : skipBlank ((spellElements l level []).map some ++ rest) = some ']' :: rest := by
        rw [spellElements, List.map_append, List.append_assoc, skipBlank_blanks (hl.1 level)]
        rfl
      have hcs' : cs.length ≤ fuel := by omega
      rw [List.map_append, List.append_assoc, readElements?_last hcs hcs' (apart_spellElements hl []) hend]
      simp [treeAll]
  | v :: vs, cs, t, hcs, acc, fuel, rest, hfuel => by
    cases fuel with
    | zero => exact absurd hfuel (by simp [spellElements])
    | succ fuel =>
      simp only [spellElements, List.length_append, List.length_cons] at hfuel
      have hread := readElements?_spell hl level vs (v.reads_spell hl (level + 1)) (t :: acc) fuel rest (by
        simp only [List.length_append]
        omega)
      have hskip := skipBlank_opening (hl.1 (level + 1)) (v.opening_spell l (level + 1))
        ((spellElements l level vs).map some ++ rest)
      simp only [spellElements, List.map_append, List.map_cons, List.cons_append,
        List.append_assoc] at hread ⊢
      rw [readElements?_next hcs (by omega), hskip, hread]
      simp [treeAll]

/-- The fields of an object are read back, behind those that were read before. -/
theorem readFields?_spell (hl : l.Blank) (level : Nat) : ∀ (fs : List (String × Value)) (name : String)
    {cs : List Char} {t : Tree}, Reads cs t → Opening cs →
    ∀ (acc : List (Option String × Tree)) (fuel : Nat) (rest : Marked),
    (quote name ++ ':' :: l.behindName ++ (cs ++ spellFields l level fs)).length ≤ fuel →
    readFields? fuel acc
        ((quote name ++ ':' :: l.behindName ++ (cs ++ spellFields l level fs)).map some ++ rest)
      = some (acc.reverse ++ (some name, t) :: treeEach fs, rest)
  | [], name, cs, t, hcs, ho, acc, fuel, rest, hfuel => by
    cases fuel with
    | zero => exact absurd hfuel (by simp [spellFields])
    | succ fuel =>
      simp only [spellFields, List.length_append, List.length_cons] at hfuel
      have hend : skipBlank ((spellFields l level []).map some ++ rest) = some '\x7d' :: rest := by
        rw [spellFields, List.map_append, List.append_assoc, skipBlank_blanks (hl.1 level)]
        rfl
      have hcs' : cs.length ≤ fuel := by omega
      have hlast := readFields?_last name hcs hcs' (apart_spellFields hl [])
        (skipBlank_opening hl.2 ho _) hend acc
      simp only [List.map_append, List.map_cons, List.cons_append, List.append_assoc] at hlast ⊢
      rw [hlast]
      simp [treeEach]
  | (next, v) :: fs, name, cs, t, hcs, ho, acc, fuel, rest, hfuel => by
    cases fuel with
    | zero => exact absurd hfuel (by simp [spellFields])
    | succ fuel =>
      simp only [spellFields, List.length_append, List.length_cons] at hfuel
      have hread := readFields?_spell hl level fs next (v.reads_spell hl (level + 1))
        (v.opening_spell l (level + 1)) ((some name, t) :: acc) fuel rest (by
          simp only [List.length_append, List.length_cons]
          omega)
      have hcs' : cs.length ≤ fuel := by omega
      have hnext := readFields?_next name hcs hcs'
        ((l.gap (level + 1)).map some ++ ((quote next).map some
          ++ ((':' :: l.behindName ++ (v.spell l (level + 1) ++ spellFields l level fs)).map some ++ rest)))
        (skipBlank_opening hl.2 ho _) acc
      have hblank := skipBlank_opening (hl.1 (level + 1)) (opening_quote next [])
        ((':' :: l.behindName ++ (v.spell l (level + 1) ++ spellFields l level fs)).map some ++ rest)
      simp only [spellFields, List.map_append, List.map_cons, List.cons_append, List.append_assoc,
        List.append_nil] at hnext hread hblank ⊢
      rw [hnext, hblank, hread]
      simp [treeEach]

end

/-! ## Whole texts -/

/-- **What was written is read back**, in any layout. -/
theorem readText?_spell (hl : l.Blank) (level : Nat) (v : Value) :
    readText? (String.ofList (v.spell l level)) = some v.tree := by
  have hskip := skipBlank_opening (List.forall_mem_nil _) (v.opening_spell l level) []
  have hread := v.reads_spell hl level ((v.spell l level).length + 1) [] (Nat.le_succ _) apart_nil
  simp only [List.map_nil, List.nil_append, List.append_nil] at hskip hread
  simp [readText?, marked, read?, hskip, hread, skipBlank]

theorem Value.readText?_compact (v : Value) : readText? v.compact = some v.tree := by
  rw [Value.compact, ← v.spell_compact 0]
  exact readText?_spell Layout.blank_compact 0 v

theorem Value.readText?_pretty (v : Value) : readText? v.pretty = some v.tree := by
  rw [Value.pretty, ← v.spell_lines 0]
  exact readText?_spell Layout.blank_lines 0 v

/-- Two values have the same text only if they are the same. -/
theorem Value.compact_inj {v w : Value} : v.compact = w.compact ↔ v = w := by
  refine ⟨fun h => Value.tree_inj.1 (Option.some.inj ?_), fun h => h ▸ rfl⟩
  rw [← v.readText?_compact, h, w.readText?_compact]

end SandboxPool.Json
