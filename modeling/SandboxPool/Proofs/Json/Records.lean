import SandboxPool.Json.Decode
import SandboxPool.Proofs.Json.Values

/-!
# Records read back

What the decoders make of the tree of a value that was written: `record` finds every field under its name
(`record_object`), `list` the elements (`list_array`), and the others the value itself. The lemmas on what was
read say the same backwards: a list that was read was read element by element (`exists_of_mem_list`).
-/

namespace SandboxPool.Json

variable {α : Type} {d : Decoder α} {room : Nat} {t : Tree} {v : Value} {fs : List (String × Value)}
  {name : String} {names : List String} {m : Members} {i : Nat}

/-- What was written and is read back as it should, in either form. -/
theorem decodeText_written {v : Value} {x : α} (h : d maxDepth v.tree = some x) :
    decodeText d v.compact = some x ∧ decodeText d v.pretty = some x := by
  simp [decodeText, v.readText?_compact, v.readText?_pretty, h]

/-! ## Single values -/

@[simp] theorem bool_tree (b : Bool) : bool room (Value.bool b).tree = some b := rfl

@[simp] theorem string_tree (s : String) : string room (Value.string s).tree = some s := rfl

theorem natural64_tree (room : Nat) {n : Nat} (h : n ≤ Text.max64) :
    natural64 room (Value.nat n).tree = some n := by
  have hwhole : (Number.whole n).IsWhole := trivial
  simp only [Value.nat, Value.tree, natural64, natural, Number.number?_numeral hwhole (Number.fits_natCast h)]
  exact if_pos h

theorem nullable_of_ne_null (h : t ≠ .null) : nullable d room t = (d room t).map some := by
  cases t with
  | null => exact absurd rfl h
  | _ => rfl

theorem nullable_tree (h : v ≠ .null) : nullable d room v.tree = (d room v.tree).map some :=
  nullable_of_ne_null fun ht => h (Value.tree_inj.1 (ht.trans rfl))

theorem sound_tree (hfits : v.Numbers Number.Fits) (hfree : v.FloatFree) (hdepth : v.depth ≤ room) :
    v.tree.sound room = true := by
  rw [Tree.sound, Value.value?_tree hfits hfree hdepth]
  rfl

theorem buffered_tree (hfits : v.Numbers Number.Fits) (hfree : v.FloatFree) (hdepth : v.depth ≤ room) :
    buffered d room v.tree = d room v.tree :=
  if_pos (sound_tree hfits hfree hdepth)

/-! ## Lists -/

theorem list_array {xs : List α} {write : α → Value} (hroom : room ≠ 0)
    (h : ∀ x ∈ xs, d (room - 1) (write x).tree = some x) :
    list d room (Value.array (xs.map write)).tree = some xs := by
  rw [Value.tree, treeAll_eq, list, if_neg hroom]
  induction xs with
  | nil => rfl
  | cons x xs ih =>
    obtain ⟨hx, hxs⟩ := List.forall_mem_cons.1 h
    rw [List.map_cons, List.map_cons, List.mapM_cons, hx, ih hxs]
    rfl

/-- Every element of a list was read from an element of the text. -/
theorem exists_of_mem_list {xs : List α} (h : list d room t = some xs) {x : α} (hx : x ∈ xs) :
    ∃ u, d (room - 1) u = some x := by
  cases t with
  | array ts =>
    rw [list] at h
    split at h
    · cases h
    induction ts generalizing xs with
    | nil =>
      obtain rfl : xs = [] := by simpa using h.symm
      exact absurd hx List.not_mem_nil
    | cons u ts ih =>
      simp only [List.mapM_cons, Option.bind_eq_bind, Option.bind_eq_some_iff, Option.pure_def,
        Option.some.injEq] at h
      obtain ⟨y, hy, ys, hys, rfl⟩ := h
      rcases List.mem_cons.1 hx with rfl | hx
      · exact ⟨u, hy⟩
      · exact ih hx hys
  | _ => cases h

/-! ## Records -/

/-- The one member of a name is the field of that name. -/
theorem member?_treeEach (h : (fs.map Prod.fst).Nodup) (name : String) :
    member? (treeEach fs) name = some (((Value.object fs).field? name).map Value.tree) := by
  have hfilter : (treeEach fs).filter (·.1 == some name)
      = (fs.filter (·.1 == name)).map fun f => (some f.1, f.2.tree) := by
    rw [treeEach_eq, List.filter_map]
    congr 2
  rw [member?, hfilter, Value.field?]
  cases hfind : fs.find? (·.1 == name) with
  | none =>
    have hnone : fs.filter (·.1 == name) = [] := List.filter_eq_nil_iff.2 (List.find?_eq_none.1 hfind)
    rw [hnone]
    rfl
  | some f =>
    obtain ⟨hname, before, behind, rfl, hbefore⟩ := List.find?_eq_some_iff_append.1 hfind
    have hbehind : ∀ g ∈ behind, ¬(g.1 == name) = true := by
      intro g hg
      simp only [List.map_append, List.map_cons] at h
      have hne := (List.nodup_cons.1 (List.nodup_append.1 h).2.1).1
      simp only [beq_iff_eq] at hname ⊢
      rintro rfl
      exact hne (hname ▸ List.mem_map_of_mem hg)
    have hone : (before ++ f :: behind).filter (·.1 == name) = [f] := by
      rw [List.filter_append, List.filter_eq_nil_iff.2 fun g hg => by simpa using hbefore g hg,
        List.nil_append, List.filter_cons, if_pos hname, List.filter_eq_nil_iff.2 hbehind]
    rw [hone]
    rfl

/-- A record that was written is read with every member under its name. -/
theorem record_object (hnames : (fs.map Prod.fst).Nodup) (hroom : room ≠ 0) (names : List String) :
    record names room (Value.object fs).tree
      = some ⟨true, room - 1, names.map fun name => ((Value.object fs).field? name).map Value.tree⟩ := by
  have hlegible : (treeEach fs).any (·.1.isNone) = false := by
    rw [treeEach_eq, List.any_map, List.any_eq_false]
    exact fun _ _ => Bool.false_ne_true
  have hmembers : names.mapM (member? (treeEach fs))
      = some (names.map fun name => ((Value.object fs).field? name).map Value.tree) := by
    rw [funext (member?_treeEach hnames)]
    exact List.mapM_pure
  rw [Value.tree, record, hlegible, Bool.or_false, if_neg (by simpa using hroom), hmembers]
  rfl

/-- The members of a record are one level deeper. -/
theorem room_of_record (h : record names room t = some m) : m.room = room - 1 ∧ room ≠ 0 := by
  cases t with
  | object fields =>
    rw [record] at h
    split at h
    · cases h
    · next hroom =>
      obtain ⟨values, -, rfl⟩ := Option.map_eq_some_iff.1 h
      simp only [Bool.or_eq_true, decide_eq_true_eq, not_or] at hroom
      exact ⟨rfl, hroom.1⟩
  | array elements =>
    rw [record] at h
    split at h
    · cases h
    · next hroom =>
      obtain rfl := Option.some.inj h
      simp only [Bool.or_eq_true, decide_eq_true_eq, not_or] at hroom
      exact ⟨rfl, hroom.1⟩
  | _ => cases h

/-- A member that was read though it may be left out was given, or is the default. -/
theorem Members.exists_of_defaulted {default x : α} (h : m.defaulted i d default = some x) :
    x = default ∨ ∃ u, d m.room u = some x := by
  rw [defaulted] at h
  split at h
  · exact .inr ⟨_, h⟩
  · exact .inl (Option.some.inj h).symm

theorem Members.exists_of_required {x : α} (h : m.required i d = some x) : ∃ u, d m.room u = some x := by
  obtain ⟨u, -, hu⟩ := Option.bind_eq_some_iff.1 h
  exact ⟨u, hu⟩

/-- A value that may be null and was kept is not null. -/
theorem kept_of_nullable (h : nullable anyValue room t = some (some v)) : v.Kept room ∧ v ≠ .null := by
  have ht : t ≠ .null := by
    rintro rfl
    cases h
  rw [nullable_of_ne_null ht] at h
  obtain ⟨w, hw, rfl⟩ : ∃ w, anyValue room t = some w ∧ w = v := by simpa using h
  exact ⟨Tree.value?_kept hw, fun hnull => ht (Tree.eq_null_of_value? (hnull ▸ hw))⟩

end SandboxPool.Json
