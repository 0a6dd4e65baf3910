import SandboxPool.Proofs.Json.ReadBack
import Mathlib.Data.String.Basic

/-!
# Values that a reader keeps whole

A value that is kept whole is canonical, its whole numbers fit 64 bits, and it is nested no deeper than the
reader goes (`Tree.value?_kept`). Conversely such a value is kept as it is when it is read back, unless it
holds a double (`Value.Stable.value?_tree`).
-/

namespace SandboxPool.Json

/-- The number is whole. -/
def Number.IsWhole : Number → Prop
  | .whole _ => True
  | .double _ => False

/-- A whole number fits 64 bits, with or without a sign. -/
def Number.Fits : Number → Prop
  | .whole i => -Int.ofNat maxNegative ≤ i ∧ i ≤ Int.ofNat Text.max64
  | .double _ => True

mutual

/-- Every number in the value has the property. -/
def Value.Numbers (p : Number → Prop) : Value → Prop
  | .number n => p n
  | .array vs => allNumbers p vs
  | .object fs => eachNumbers p fs
  | _ => True

/-- `Value.Numbers` for every element. -/
def allNumbers (p : Number → Prop) : List Value → Prop
  | [] => True
  | v :: rest => v.Numbers p ∧ allNumbers p rest

/-- `Value.Numbers` for the value of every field. -/
def eachNumbers (p : Number → Prop) : List (String × Value) → Prop
  | [] => True
  | (_, v) :: rest => v.Numbers p ∧ eachNumbers p rest

end

mutual

/-- The number of nested arrays and objects of the value. -/
def Value.depth : Value → Nat
  | .array vs => depthAll vs + 1
  | .object fs => depthEach fs + 1
  | _ => 0

/-- The largest `Value.depth` of the elements. -/
def depthAll : List Value → Nat
  | [] => 0
  | v :: rest => max v.depth (depthAll rest)

/-- The largest `Value.depth` of the values of the fields. -/
def depthEach : List (String × Value) → Nat
  | [] => 0
  | (_, v) :: rest => max v.depth (depthEach rest)

end

/-- The value holds no double. -/
def Value.FloatFree (v : Value) : Prop := v.Numbers Number.IsWhole

/-- What an opaque value always is: it keeps its fields in ascending order, without repetition, and has no
room for a whole number beyond 64 bits. -/
structure Value.Proper (v : Value) : Prop where
  canonical : v.Canonical
  fits : v.Numbers Number.Fits

variable {fs : List (String × Value)} {name : String} {v : Value} {room : Nat}

theorem eachCanonical_iff : eachCanonical fs ↔ ∀ f ∈ fs, f.2.Canonical := by
  induction fs with
  | nil => simp [eachCanonical]
  | cons f rest ih => simp [eachCanonical, ih]

theorem eachNumbers_iff {p : Number → Prop} : eachNumbers p fs ↔ ∀ f ∈ fs, f.2.Numbers p := by
  induction fs with
  | nil => simp [eachNumbers]
  | cons f rest ih => simp [eachNumbers, ih]

theorem depthEach_le_iff : depthEach fs ≤ room ↔ ∀ f ∈ fs, f.2.depth ≤ room := by
  induction fs with
  | nil => simp [depthEach]
  | cons f rest ih => simp [depthEach, ih]

/-! ## Fields in order -/

theorem mem_insertField {f : String × Value} (h : f ∈ insertField name v fs) : f = (name, v) ∨ f ∈ fs := by
  induction fs with
  | nil => exact .inl (List.mem_singleton.1 h)
  | cons g rest ih =>
    simp only [insertField] at h
    split at h
    · exact List.mem_cons.1 h
    split at h
    · exact (List.mem_cons.1 h).imp_right (List.mem_cons_of_mem _)
    · rcases List.mem_cons.1 h with rfl | h
      · exact .inr List.mem_cons_self
      · exact (ih h).imp_right (List.mem_cons_of_mem _)

theorem ascending_insertField (h : ascending fs) : ascending (insertField name v fs) := by
  induction fs with
  | nil => exact List.pairwise_singleton _ _
  | cons g rest ih =>
    obtain ⟨hg, hrest⟩ := List.pairwise_cons.1 h
    simp only [insertField]
    split
    · next hlt =>
      refine List.pairwise_cons.2 ⟨fun f hf => ?_, h⟩
      rcases List.mem_cons.1 hf with rfl | hf
      · exact hlt
      · exact lt_trans hlt (hg f hf)
    split
    · next heq => exact List.pairwise_cons.2 ⟨fun f hf => heq ▸ hg f hf, hrest⟩
    · next hlt hne =>
      refine List.pairwise_cons.2 ⟨fun f hf => ?_, ih hrest⟩
      rcases mem_insertField hf with rfl | hf
      · exact lt_of_le_of_ne (not_lt.1 hlt) (Ne.symm hne)
      · exact hg f hf

/-- A field whose name is above all others comes last. -/
theorem insertField_last (h : ∀ f ∈ fs, f.1 < name) : insertField name v fs = fs ++ [(name, v)] := by
  induction fs with
  | nil => rfl
  | cons g rest ih =>
    obtain ⟨hg, hrest⟩ := List.forall_mem_cons.1 h
    rw [insertField, if_neg hg.asymm, if_neg hg.ne', ih hrest, List.cons_append]

/-- What holds of every field holds of every sorted one. -/
theorem forall_mem_sortFields {p : String × Value → Prop} (h : ∀ f ∈ fs, p f) :
    ∀ f ∈ sortFields fs, p f := by
  suffices ∀ acc : List (String × Value), (∀ f ∈ acc, p f) →
      ∀ f ∈ fs.foldl (fun sorted f => insertField f.1 f.2 sorted) acc, p f from
    this [] (List.forall_mem_nil _)
  induction fs with
  | nil => exact fun _ hacc => hacc
  | cons g rest ih =>
    intro acc hacc
    obtain ⟨hg, hrest⟩ := List.forall_mem_cons.1 h
    refine ih hrest _ fun f hf => ?_
    rcases mem_insertField hf with rfl | hf
    · exact hg
    · exact hacc f hf

theorem ascending_sortFields (fs : List (String × Value)) : ascending (sortFields fs) := by
  suffices ∀ acc, ascending acc →
      ascending (fs.foldl (fun sorted f => insertField f.1 f.2 sorted) acc) from this [] List.Pairwise.nil
  induction fs with
  | nil => exact fun _ hacc => hacc
  | cons g rest ih => exact fun acc hacc => ih _ (ascending_insertField hacc)

/-- Fields in order stay as they are. -/
theorem sortFields_of_ascending (h : ascending fs) : sortFields fs = fs := by
  suffices ∀ acc, ascending (acc ++ fs) →
      fs.foldl (fun sorted f => insertField f.1 f.2 sorted) acc = acc ++ fs from this [] h
  clear h
  induction fs with
  | nil => exact fun acc _ => (List.append_nil acc).symm
  | cons g rest ih =>
    intro acc hacc
    have hlast : ∀ f ∈ acc, f.1 < g.1 := fun f hf =>
      (List.pairwise_append.1 hacc).2.2 f hf g List.mem_cons_self
    rw [List.append_cons] at hacc ⊢
    rw [List.foldl_cons, insertField_last hlast]
    exact ih _ hacc

/-! ## Numbers -/

theorem Number.fits_natCast {n : Nat} (h : n ≤ Text.max64) : (Number.whole n).Fits := by
  simp only [Fits, Int.ofNat_eq_natCast]
  omega

/-- A number that a numeral stands for fits its type. -/
theorem Numeral.fits_of_number? {n : Numeral} {k : Number} (h : n.number? = some k) : k.Fits := by
  simp only [number?] at h
  split at h
  · next hn =>
    obtain rfl := Option.some.inj h
    simp only [Bool.and_eq_true, decide_eq_true_eq, Bool.or_eq_true, Bool.not_eq_true'] at hn
    obtain ⟨⟨-, hmax⟩, hsign⟩ := hn
    simp only [Number.Fits, maxNegative, Text.max64] at hmax hsign ⊢
    cases hneg : n.negative with
    | true =>
      simp only [hneg, reduceIte, Int.ofNat_eq_natCast] at hsign ⊢
      simp only [Bool.true_eq_false, false_or] at hsign
      omega
    | false =>
      simp only [Bool.false_eq_true, reduceIte, Int.ofNat_eq_natCast]
      omega
  · obtain ⟨f, -, rfl⟩ := Option.map_eq_some_iff.1 h
    trivial

/-- A whole number is what its numeral stands for. -/
theorem Number.number?_numeral {n : Number} (hwhole : n.IsWhole) (hfits : n.Fits) :
    n.numeral.number? = some n := by
  cases n with
  | double bits => exact hwhole.elim
  | whole i =>
    simp only [Fits, maxNegative, Text.max64, Int.ofNat_eq_natCast] at hfits
    have hread : (Text.readDigits? 0 (whole i).numeral.whole).getD 0 = i.natAbs := by
      rw [show (whole i).numeral.whole = Decimal.digitList i.natAbs from rfl, Text.readDigits?_digitList]
      rfl
    have hneg : (whole i).numeral.negative = decide (i < 0) := rfl
    have hplain : (whole i).numeral.fraction = none ∧ (whole i).numeral.exponent = none := ⟨rfl, rfl⟩
    simp only [Numeral.number?, hread, hneg, hplain.1, hplain.2, Text.max64, maxNegative]
    have hsigned : (if decide (i < 0) = true then -Int.ofNat i.natAbs else Int.ofNat i.natAbs) = i := by
      simp only [decide_eq_true_eq, Int.ofNat_eq_natCast]
      split <;> omega
    rw [hsigned, if_pos]
    simp only [Option.isNone_none, Bool.true_and, Bool.and_eq_true, Bool.or_eq_true, Bool.not_eq_true',
      decide_eq_true_eq, decide_eq_false_iff_not]
    omega

/-! ## Whole values -/

/-- What a reader that goes `room` deep makes of a text. -/
structure Value.Kept (room : Nat) (v : Value) : Prop extends v.Proper where
  depth : v.depth ≤ room

/-- What comes back as it was from a reader that goes `room` deep. -/
structure Value.Stable (room : Nat) (v : Value) : Prop extends v.Kept room where
  floatFree : v.FloatFree

mutual

/-- A value that is kept whole is canonical, with numbers that fit, and nested no deeper than the reader
goes. -/
theorem Tree.value?_kept {room : Nat} : ∀ {t : Tree} {v : Value}, t.value? room = some v → v.Kept room
  | .null, v, h => by
    obtain rfl := Option.some.inj h
    exact ⟨⟨trivial, trivial⟩, Nat.zero_le _⟩
  | .bool b, v, h => by
    obtain rfl := Option.some.inj h
    exact ⟨⟨trivial, trivial⟩, Nat.zero_le _⟩
  | .number n, v, h => by
    obtain ⟨k, hk, rfl⟩ := Option.map_eq_some_iff.1 h
    exact ⟨⟨trivial, n.fits_of_number? hk⟩, Nat.zero_le _⟩
  | .string s, v, h => by
    obtain ⟨s, -, rfl⟩ := Option.map_eq_some_iff.1 h
    exact ⟨⟨trivial, trivial⟩, Nat.zero_le _⟩
  | .array ts, v, h => by
    simp only [Tree.value?] at h
    split at h
    · cases h
    next hroom =>
    obtain ⟨vs, hvs, rfl⟩ := Option.map_eq_some_iff.1 h
    obtain ⟨hcanonical, hfits, hdepth⟩ := valueAll?_kept hvs
    refine ⟨⟨hcanonical, hfits⟩, ?_⟩
    rw [Value.depth]
    omega
  | .object ts, v, h => by
    simp only [Tree.value?] at h
    split at h
    · cases h
    next hroom =>
    obtain ⟨fs, hfs, rfl⟩ := Option.map_eq_some_iff.1 h
    have hkept := forall_mem_sortFields (valueEach?_kept hfs)
    have hdepth := depthEach_le_iff.2 fun f hf => (hkept f hf).depth
    refine ⟨⟨⟨ascending_sortFields fs, eachCanonical_iff.2 fun f hf => (hkept f hf).canonical⟩,
      eachNumbers_iff.2 fun f hf => (hkept f hf).fits⟩, ?_⟩
    rw [Value.depth]
    omega

theorem valueAll?_kept {room : Nat} : ∀ {ts : List Tree} {vs : List Value}, valueAll? room ts = some vs →
    allCanonical vs ∧ allNumbers Number.Fits vs ∧ depthAll vs ≤ room
  | [], vs, h => by
    obtain rfl := Option.some.inj h
    exact ⟨trivial, trivial, Nat.zero_le _⟩
  | t :: ts, vs, h => by
    simp only [valueAll?, Option.bind_eq_some_iff, Option.map_eq_some_iff] at h
    obtain ⟨v, hv, rest, hrest, rfl⟩ := h
    have hv := Tree.value?_kept hv
    have hrest := valueAll?_kept hrest
    exact ⟨⟨hv.canonical, hrest.1⟩, ⟨hv.fits, hrest.2.1⟩, max_le hv.depth hrest.2.2⟩

theorem valueEach?_kept {room : Nat} : ∀ {ts : List (Option String × Tree)} {fs : List (String × Value)},
    valueEach? room ts = some fs → ∀ f ∈ fs, f.2.Kept room
  | [], fs, h => by
    obtain rfl := Option.some.inj h
    exact List.forall_mem_nil _
  | (name, t) :: ts, fs, h => by
    simp only [valueEach?, Option.bind_eq_some_iff, Option.map_eq_some_iff] at h
    obtain ⟨_, -, v, hv, rest, hrest, rfl⟩ := h
    exact List.forall_mem_cons.2 ⟨Tree.value?_kept hv, valueEach?_kept hrest⟩

end

mutual

/-- A value without doubles is read back with its fields in order. -/
theorem Value.value?_tree {room : Nat} : ∀ {v : Value}, v.Numbers Number.Fits → v.FloatFree →
    v.depth ≤ room → v.tree.value? room = some v.sort
  | .null, _, _, _ => rfl
  | .bool b, _, _, _ => rfl
  | .number n, hfits, hfree, _ => by
    rw [Value.tree, Tree.value?, n.number?_numeral hfree hfits]
    rfl
  | .string s, _, _, _ => rfl
  | .array vs, hfits, hfree, hdepth => by
    rw [Value.depth] at hdepth
    have hroom : room ≠ 0 := by omega
    rw [Value.tree, Tree.value?, if_neg hroom, valueAll?_treeAll hfits hfree (Nat.le_sub_one_of_lt hdepth)]
    rfl
  | .object fs, hfits, hfree, hdepth => by
    rw [Value.depth] at hdepth
    have hroom : room ≠ 0 := by omega
    rw [Value.tree, Tree.value?, if_neg hroom, valueEach?_treeEach hfits hfree (Nat.le_sub_one_of_lt hdepth)]
    rfl

theorem valueAll?_treeAll {room : Nat} : ∀ {vs : List Value}, allNumbers Number.Fits vs →
    allNumbers Number.IsWhole vs → depthAll vs ≤ room → valueAll? room (treeAll vs) = some (sortAll vs)
  | [], _, _, _ => rfl
  | v :: vs, hfits, hfree, hdepth => by
    rw [depthAll, max_le_iff] at hdepth
    have hv := Value.value?_tree hfits.1 hfree.1 hdepth.1
    have hvs := valueAll?_treeAll hfits.2 hfree.2 hdepth.2
    rw [treeAll, valueAll?, hv, hvs]
    rfl

theorem valueEach?_treeEach {room : Nat} : ∀ {fs : List (String × Value)}, eachNumbers Number.Fits fs →
    eachNumbers Number.IsWhole fs → depthEach fs ≤ room → valueEach? room (treeEach fs) = some (sortEach fs)
  | [], _, _, _ => rfl
  | (name, v) :: fs, hfits, hfree, hdepth => by
    rw [depthEach, max_le_iff] at hdepth
    have hv := Value.value?_tree hfits.1 hfree.1 hdepth.1
    have hfs := valueEach?_treeEach hfits.2 hfree.2 hdepth.2
    rw [treeEach, valueEach?, Option.bind_some, hv, hfs]
    rfl

end

mutual

/-- A canonical value has its fields in order. -/
theorem Value.sort_of_canonical : ∀ {v : Value}, v.Canonical → v.sort = v
  | .null, _ | .bool _, _ | .number _, _ | .string _, _ => rfl
  | .array vs, h => by rw [Value.sort, sortAll_of_canonical h]
  | .object fs, h => by rw [Value.sort, sortEach_of_canonical h.2, sortFields_of_ascending h.1]

theorem sortAll_of_canonical : ∀ {vs : List Value}, allCanonical vs → sortAll vs = vs
  | [], _ => rfl
  | v :: vs, h => by rw [sortAll, Value.sort_of_canonical h.1, sortAll_of_canonical h.2]

theorem sortEach_of_canonical : ∀ {fs : List (String × Value)}, eachCanonical fs → sortEach fs = fs
  | [], _ => rfl
  | (name, v) :: fs, h => by rw [sortEach, Value.sort_of_canonical h.1, sortEach_of_canonical h.2]

end

/-- **What was kept once is kept as it is** when it is read back, unless it holds a double. -/
theorem Value.Stable.value?_tree (h : v.Stable room) : v.tree.value? room = some v := by
  rw [Value.value?_tree h.fits h.floatFree h.depth, sort_of_canonical h.canonical]

/-- Only null is read as null. -/
theorem Tree.eq_null_of_value? {t : Tree} (h : t.value? room = some .null) : t = .null := by
  cases t with
  | null => rfl
  | bool b => cases h
  | number n => simp [Tree.value?] at h
  | string s => simp [Tree.value?] at h
  | array ts => simp [Tree.value?] at h
  | object ts => simp [Tree.value?] at h

end SandboxPool.Json
