import SandboxPool.Plan
import SandboxPool.Proofs.Json.Records

/-!
# Plans as JSON

A plan without doubles is read back as it was written exactly if none of its hints is null or nested deeper
than the reader goes (`Plan.decode_json_iff`). A plan that was read has no such hint, so it can be written and
read again (`Plan.plan_json_roundtrip`).
-/

namespace SandboxPool

open Json (Members)

variable {room : Nat} {t : Json.Tree} {g : ParallelGroup} {lane : Lane} {p : Plan}

/-- The merge hints of the groups. -/
def Plan.hints (p : Plan) : List Json.Value := p.lanes.filterMap Lane.merge

/-! ## Reading what was written -/

theorem list_textsJson (texts : List String) (hroom : room ≠ 0) :
    Json.list Json.string room (textsJson texts).tree = some texts :=
  Json.list_array hroom fun _ _ => rfl

theorem ParallelGroup.decode_json (hroom : 1 < room)
    (h : ∀ hint ∈ g.merge, hint.Stable (room - 1) ∧ hint ≠ .null) : decode room g.json.tree = some g := by
  obtain ⟨blocks, merge⟩ := g
  have hroom' : room ≠ 0 := by omega
  have hblocks := list_textsJson blocks (Nat.sub_ne_zero_of_lt hroom)
  cases merge with
  | none =>
    rw [decode, json, Json.record_object (by simp [optionalField]) hroom']
    simp [Members.required, Members.at?, Members.defaulted, Json.Value.field?, hblocks, optionalField]
  | some hint =>
    obtain ⟨hstable, hnull⟩ := h hint rfl
    have hhint : Json.nullable Json.anyValue (room - 1) hint.tree = some (some hint) := by
      rw [Json.nullable_tree hnull, Json.anyValue, hstable.value?_tree]
      rfl
    rw [decode, json, Json.record_object (by simp [optionalField]) hroom']
    simp [Members.required, Members.at?, Members.defaulted, Json.Value.field?, hblocks, hhint, optionalField]

theorem allNumbers_texts (q : Json.Number → Prop) (texts : List String) :
    Json.allNumbers q (texts.map .string) := by
  induction texts with
  | nil => trivial
  | cons s rest ih => exact ⟨trivial, ih⟩

theorem depth_texts (texts : List String) : Json.depthAll (texts.map .string) = 0 := by
  induction texts with
  | nil => rfl
  | cons s rest ih => simp [Json.depthAll, Json.Value.depth, ih]

/-- The numbers of a group are those of its hint. -/
theorem ParallelGroup.numbers_json {q : Json.Number → Prop} (h : ∀ hint ∈ g.merge, hint.Numbers q) :
    g.json.Numbers q := by
  obtain ⟨blocks, merge⟩ := g
  refine ⟨allNumbers_texts q blocks, ?_⟩
  cases merge with
  | none => trivial
  | some hint => exact ⟨h hint rfl, trivial⟩

theorem ParallelGroup.depth_json (hroom : 1 < room) (h : ∀ hint ∈ g.merge, hint.depth ≤ room - 1) :
    g.json.depth ≤ room := by
  obtain ⟨blocks, merge⟩ := g
  have hblocks := depth_texts blocks
  cases merge with
  | none =>
    simp only [json, optionalField, textsJson, Json.Value.depth, Json.depthEach, hblocks]
    omega
  | some hint =>
    have hhint := h hint rfl
    simp only [json, optionalField, textsJson, Json.Value.depth, Json.depthEach, hblocks]
    omega

theorem Lane.decode_json (hroom : 1 < room)
    (h : ∀ hint ∈ lane.merge, hint.Stable (room - 1) ∧ hint ≠ .null) : decode room lane.json.tree = some lane := by
  cases lane with
  | block id => rfl
  | group g =>
    have hgroup := ParallelGroup.decode_json hroom h
    rw [decode, json, Json.buffered_tree (g.numbers_json fun hint hh => (h hint hh).1.fits)
      (g.numbers_json fun hint hh => (h hint hh).1.floatFree)
      (g.depth_json hroom fun hint hh => (h hint hh).1.depth), hgroup]
    rfl

theorem Parallelism.decode_json (m : Parallelism) : decode room m.json.tree = some m := by
  cases m <;> rfl

theorem FailureMode.decode_json (m : FailureMode) : decode room m.json.tree = some m := by
  cases m <;> rfl

theorem Plan.decode_json (hroom : 3 < room) (h : ∀ hint ∈ p.hints, hint.Stable (room - 3) ∧ hint ≠ .null) :
    decode room p.json.tree = some p := by
  have hlanes : Json.list Lane.decode (room - 1) (Json.Value.array (p.lanes.map Lane.json)).tree
      = some p.lanes := by
    refine Json.list_array (by omega) fun lane hlane => Lane.decode_json (by omega) fun hint hh => ?_
    exact h hint (List.mem_filterMap.2 ⟨lane, hlane, hh⟩)
  rw [decode, json, Json.record_object (by simp) (by omega)]
  simp [Members.required, Members.at?, Members.defaulted, Json.Value.field?, hlanes,
    p.parallelism.decode_json, p.failureMode.decode_json]

/-! ## What was read -/

theorem ParallelGroup.merge_of_decode (h : decode room t = some g) :
    ∀ hint ∈ g.merge, hint.Kept (room - 1) ∧ hint ≠ .null := by
  intro hint hh
  simp only [decode, Option.bind_eq_bind, Option.bind_eq_some_iff, Option.pure_def, Option.some.injEq] at h
  obtain ⟨m, hm, blocks, -, merge, hmerge, rfl⟩ := h
  obtain rfl : merge = some hint := hh
  rcases Members.exists_of_defaulted hmerge with hnone | ⟨u, hu⟩
  · cases hnone
  · rw [(Json.room_of_record hm).1] at hu
    exact Json.kept_of_nullable hu

theorem Lane.merge_of_decode (h : decode room t = some lane) :
    ∀ hint ∈ lane.merge, hint.Kept (room - 1) ∧ hint ≠ .null := by
  simp only [decode, Json.buffered] at h
  split at h
  · split at h
    · obtain rfl := Option.some.inj h
      intro _ hh
      cases hh
    · obtain ⟨g, hg, rfl⟩ := Option.map_eq_some_iff.1 h
      exact ParallelGroup.merge_of_decode hg
  · cases h

theorem Plan.hints_of_decode (h : decode room t = some p) :
    ∀ hint ∈ p.hints, hint.Kept (room - 3) ∧ hint ≠ .null := by
  intro hint hh
  simp only [decode, Option.bind_eq_bind, Option.bind_eq_some_iff, Option.pure_def, Option.some.injEq] at h
  obtain ⟨m, hm, lanes, hlanes, parallelism, -, failureMode, -, rfl⟩ := h
  obtain ⟨lane, hlane, hmerge⟩ := List.mem_filterMap.1 hh
  obtain ⟨u, hu⟩ := Members.exists_of_required hlanes
  obtain ⟨w, hw⟩ := Json.exists_of_mem_list hu hlane
  rw [(Json.room_of_record hm).1] at hw
  exact Lane.merge_of_decode hw hint hmerge

/-! ## There and back -/

/-- A plan of proper hints without doubles comes back exactly if the reader goes deep enough for them and none
of them is null. -/
theorem Plan.decode_json_iff (hroom : 3 < room) (h : ∀ hint ∈ p.hints, hint.Proper ∧ hint.FloatFree) :
    decode room p.json.tree = some p ↔ ∀ hint ∈ p.hints, hint.depth + 3 ≤ room ∧ hint ≠ .null := by
  constructor
  · intro hread hint hh
    obtain ⟨hkept, hnull⟩ := Plan.hints_of_decode hread hint hh
    exact ⟨Nat.add_le_of_le_sub (Nat.le_of_lt hroom) hkept.depth, hnull⟩
  · intro hhints
    refine Plan.decode_json hroom fun hint hh => ?_
    obtain ⟨hproper, hfree⟩ := h hint hh
    obtain ⟨hdepth, hnull⟩ := hhints hint hh
    exact ⟨⟨⟨hproper, Nat.le_sub_of_add_le hdepth⟩, hfree⟩, hnull⟩

/-- **Plans come back from JSON as they were.** A plan whose hints are proper values other than null, without
doubles and nested no deeper than the reader goes, is read back from its text, in either form. And whatever
text a plan was read from, none of its hints is null, so it is read back as well if they hold no double. -/
theorem Plan.plan_json_roundtrip :
    (∀ p : Plan, (∀ hint ∈ p.hints, hint.Proper ∧ hint.FloatFree ∧ hint.depth + 3 ≤ Json.maxDepth
        ∧ hint ≠ .null) →
      Json.decodeText Plan.decode p.json.compact = some p
        ∧ Json.decodeText Plan.decode p.json.pretty = some p)
    ∧ ∀ (text : String) (p : Plan), Json.decodeText Plan.decode text = some p →
      (∀ hint ∈ p.hints, hint ≠ .null)
        ∧ ((∀ hint ∈ p.hints, hint.FloatFree) →
          Json.decodeText Plan.decode p.json.compact = some p
            ∧ Json.decodeText Plan.decode p.json.pretty = some p) := by
  have hroom : 3 < Json.maxDepth := by decide
  constructor
  · intro p h
    refine Json.decodeText_written ((Plan.decode_json_iff hroom fun hint hh => ?_).2 fun hint hh => ?_)
    · obtain ⟨hproper, hfree, -⟩ := h hint hh
      exact ⟨hproper, hfree⟩
    · obtain ⟨-, -, hdepth, hnull⟩ := h hint hh
      exact ⟨hdepth, hnull⟩
  · intro text p h
    obtain ⟨t, -, ht⟩ := Option.bind_eq_some_iff.1 h
    have hread := Plan.hints_of_decode ht
    refine ⟨fun hint hh => (hread hint hh).2, fun hfree => ?_⟩
    refine Json.decodeText_written (Plan.decode_json hroom fun hint hh => ?_)
    obtain ⟨hkept, hnull⟩ := hread hint hh
    exact ⟨⟨hkept, hfree hint hh⟩, hnull⟩

/-- A plan of a single block, a group that names a block twice and has a hint, and a group of no blocks. -/
def Plan.mixed : Plan :=
  { lanes := [.block "fetch",
      .group ⟨["a", "a"], some (.object [("keys", .array [.null, .number (.whole (-3))])])⟩,
      .group ⟨[], none⟩] }

/-- The same plan in arrays, with a field that nobody asks for and a hint of null. -/
def Plan.mixedText : String :=
  "[[\"fetch\", [[\"a\", \"a\"], \x7b\"keys\": [null, -3]\x7d],"
    ++ " \x7b\"x\": 1.5, \"blockIds\": [], \"mergeStrategy\": null\x7d]]"

theorem Plan.plan_json_roundtrip_mixed :
    ((∀ hint ∈ Plan.mixed.hints, hint.Proper ∧ hint.FloatFree ∧ hint.depth + 3 ≤ Json.maxDepth
        ∧ hint ≠ .null)
      ∧ Json.decodeText Plan.decode Plan.mixed.json.compact = some Plan.mixed
      ∧ Json.decodeText Plan.decode Plan.mixed.json.pretty = some Plan.mixed)
    ∧ Json.decodeText Plan.decode Plan.mixedText = some Plan.mixed
      ∧ (∀ hint ∈ Plan.mixed.hints, hint ≠ .null)
      ∧ (∀ hint ∈ Plan.mixed.hints, hint.FloatFree)
      ∧ Json.decodeText Plan.decode Plan.mixed.json.compact = some Plan.mixed
      ∧ Json.decodeText Plan.decode Plan.mixed.json.pretty = some Plan.mixed := by
  have hhints : ∀ hint ∈ Plan.mixed.hints, hint.Proper ∧ hint.FloatFree ∧ hint.depth + 3 ≤ Json.maxDepth
      ∧ hint ≠ .null := by
    intro hint hh
    obtain rfl := List.mem_singleton.1 hh
    have hcanonical : Json.ascending [("keys", .array [.null, .number (.whole (-3))])] :=
      List.pairwise_singleton _ _
    have hfits : (Json.Number.whole (-3)).Fits := by
      simp only [Json.Number.Fits]
      decide
    exact ⟨⟨⟨hcanonical, ⟨trivial, trivial, trivial⟩, trivial⟩, ⟨trivial, hfits, trivial⟩, trivial⟩,
      ⟨⟨trivial, trivial, trivial⟩, trivial⟩, by decide, by intro hnull; cases hnull⟩
  have hread : Json.readText? Plan.mixedText = some (.array [.array [.string (some "fetch"),
      .array [.array [.string (some "a"), .string (some "a")],
        .object [(some "keys", .array [.null, .number ⟨true, ['3'], none, none⟩])]],
      .object [(some "x", .number ⟨false, ['1'], some ['5'], none⟩), (some "blockIds", .array []),
        (some "mergeStrategy", .null)]]]) := by
    cbv
  have htext : Json.decodeText Plan.decode Plan.mixedText = some Plan.mixed := by
    rw [Json.decodeText, hread]
    rfl
  obtain ⟨hnull, hback⟩ := Plan.plan_json_roundtrip.2 Plan.mixedText Plan.mixed htext
  have hfree : ∀ hint ∈ Plan.mixed.hints, hint.FloatFree := fun hint hh => (hhints hint hh).2.1
  exact ⟨⟨hhints, Plan.plan_json_roundtrip.1 Plan.mixed hhints⟩, htext, hnull, hfree, hback hfree⟩

end SandboxPool
