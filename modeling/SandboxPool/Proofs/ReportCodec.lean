import SandboxPool.Report
import SandboxPool.Proofs.Json.Records
import SandboxPool.Proofs.Uuid

/-!
# Reports as JSON

A report is read back from its text as it was, whatever its outputs are, as long as they hold no double and
are nested no deeper than the reader goes (`Report.report_json_roundtrip`).
-/

namespace SandboxPool

open Json (Members)

variable {room : Nat} {b : BlockResult} {s : Status} {r : Report}

namespace BlockResult

theorem decode_json (hroom : room ≠ 0) (houtput : b.output.Stable (room - 1))
    (hduration : b.durationMs ≤ Text.max64) : decode room b.json.tree = some b := by
  obtain ⟨block, success, output, error, durationMs⟩ := b
  have hvalue : Json.anyValue (room - 1) output.tree = some output := houtput.value?_tree
  have hcount := Json.natural64_tree (room - 1) hduration
  cases error with
  | none =>
    rw [decode, json, Json.record_object (by simp [optionalField]) hroom]
    simp [Members.required, Members.at?, Members.defaulted, Json.Value.field?, optionalField, hvalue, hcount]
  | some e =>
    have herror : Json.nullable Json.string (room - 1) (Json.Value.string e).tree = some (some e) := rfl
    rw [decode, json, Json.record_object (by simp [optionalField]) hroom]
    simp [Members.required, Members.at?, Members.defaulted, Json.Value.field?, optionalField, hvalue, hcount,
      herror]

end BlockResult

namespace Status

/-- The lane that a status names. -/
def lane? : Status → Option Nat
  | completed => none
  | halted lane _ => some lane
  | aborted lane => some lane

theorem sound_json (hroom : room ≠ 0) (h : ∀ lane ∈ s.lane?, lane ≤ Text.max64) :
    s.json.tree.sound room = true := by
  have hdepth : s.json.depth ≤ room := by
    have hone : s.json.depth = 1 := by cases s <;> rfl
    omega
  cases s with
  | completed => exact Json.sound_tree ⟨trivial, trivial⟩ ⟨trivial, trivial⟩ hdepth
  | halted lane block =>
    exact Json.sound_tree ⟨trivial, Json.Number.fits_natCast (h lane rfl), trivial, trivial⟩
      ⟨trivial, trivial, trivial, trivial⟩ hdepth
  | aborted lane =>
    exact Json.sound_tree ⟨trivial, Json.Number.fits_natCast (h lane rfl), trivial⟩
      ⟨trivial, trivial, trivial⟩ hdepth

/-- Behind its tag, a status is read from its other fields. -/
theorem decode_tagged {name : String} {fields : List (String × Json.Value)} (tag : Tag)
    (hroom : room ≠ 0) (hnames : ((("status", .string name) :: fields).map Prod.fst).Nodup)
    (hsound : (Json.Value.object (("status", .string name) :: fields)).tree.sound room)
    (htag : Tag.decode (room - 1) (Json.Value.string name).tree = some tag) :
    decode room (Json.Value.object (("status", .string name) :: fields)).tree
      = ofTag tag room (Json.Value.object fields).tree := by
  have hothers : (Json.treeEach fields).filter (fun f => f.1 != some "status") = Json.treeEach fields := by
    rw [Json.treeEach_eq, List.filter_eq_self]
    intro f hf
    obtain ⟨g, hg, rfl⟩ := List.mem_map.1 hf
    have hne : g.1 ≠ "status" := by
      intro he
      have hmem : g.1 ∈ fields.map Prod.fst := List.mem_map_of_mem hg
      exact (List.nodup_cons.1 hnames).1 (he ▸ hmem)
    simpa using hne
  have hrecord := Json.record_object hnames hroom ["status"]
  rw [decode, Json.buffered, if_pos hsound]
  simp only [Json.Value.tree, Json.treeEach] at hrecord htag ⊢
  rw [hrecord]
  simp [Members.required, Members.at?, Json.Value.field?, htag, hothers, Json.Value.tree]

theorem decode_json (hroom : room ≠ 0) (h : ∀ lane ∈ s.lane?, lane ≤ Text.max64) :
    decode room s.json.tree = some s := by
  have hsound := sound_json hroom h
  cases s with
  | completed =>
    rw [json, decode_tagged .completed hroom (by simp) hsound rfl]
    rfl
  | halted lane block =>
    have hcount := Json.natural64_tree (room - 1) (h lane rfl)
    rw [json, decode_tagged .halted hroom (by simp) hsound rfl, ofTag,
      Json.record_object (by simp) hroom]
    simp [Members.required, Members.at?, Json.Value.field?, hcount]
  | aborted lane =>
    have hcount := Json.natural64_tree (room - 1) (h lane rfl)
    rw [json, decode_tagged .aborted hroom (by simp) hsound rfl, ofTag,
      Json.record_object (by simp) hroom]
    simp [Members.required, Members.at?, Json.Value.field?, hcount]

end Status

namespace Report

/-- The outputs of the blocks. -/
def outputs (r : Report) : List Json.Value := r.results.map (·.output)

/-- The numbers that a report counts with. -/
def counters (r : Report) : List Nat :=
  r.lanesCompleted :: r.status.lane?.toList ++ r.results.map (·.durationMs)

theorem decodeId_text (u : Uuid) : decodeId room (Json.Value.string u.text).tree = some u := by
  rw [decodeId, Json.string_tree, Option.bind_some, u.parse?_text]

theorem decode_json (hroom : 3 < room) (hcounters : ∀ n ∈ r.counters, n ≤ Text.max64)
    (houtputs : ∀ output ∈ r.outputs, output.Stable (room - 3)) : decode room r.json.tree = some r := by
  have hresults : Json.list BlockResult.decode (room - 1)
      (Json.Value.array (r.results.map BlockResult.json)).tree = some r.results := by
    refine Json.list_array (by omega) fun b hb => BlockResult.decode_json (by omega) ?_ ?_
    · exact houtputs _ (List.mem_map_of_mem hb)
    · exact hcounters _ (List.mem_append_right _ (List.mem_map_of_mem hb))
  have hstatus : Status.decode (room - 1) r.status.json.tree = some r.status := by
    refine Status.decode_json (by omega) fun lane hlane => hcounters lane ?_
    exact List.mem_append_left _ (List.mem_cons_of_mem _ (Option.mem_toList.2 hlane))
  have hlanes := Json.natural64_tree (room - 1) (hcounters r.lanesCompleted (by simp [counters]))
  rw [decode, json, Json.record_object (by simp) (by omega)]
  simp [Members.required, Members.at?, Json.Value.field?, hresults, hstatus, hlanes, decodeId_text]

/-- **Reports come back from JSON as they were**, in either form, and so do the answers that are read off
them. -/
theorem report_json_roundtrip (r : Report) (hcounters : ∀ n ∈ r.counters, n ≤ Text.max64)
    (houtputs : ∀ output ∈ r.outputs, output.Proper ∧ output.FloatFree
      ∧ output.depth + 3 ≤ Json.maxDepth) :
    ∀ text ∈ [r.json.compact, r.json.pretty], ∃ r', Json.decodeText decode text = some r' ∧ r' = r
      ∧ r'.isSuccess = r.isSuccess ∧ r'.failed = r.failed
      ∧ ∀ block, r'.resultFor? block = r.resultFor? block := by
  have hback := Json.decodeText_written (decode_json (by decide) hcounters fun output ho => by
    obtain ⟨hproper, hfree, hdepth⟩ := houtputs output ho
    exact ⟨⟨hproper, Nat.le_sub_of_add_le hdepth⟩, hfree⟩)
  intro text htext
  refine ⟨r, ?_, rfl, rfl, rfl, fun _ => rfl⟩
  simp only [List.mem_cons, List.not_mem_nil, or_false] at htext
  rcases htext with rfl | rfl
  · exact hback.1
  · exact hback.2

/-- A report of a plan that a failure stopped, with the largest counters. -/
def stopped : Report :=
  { executionId := ⟨0x0123456789abcdef0123456789abcdef#128⟩
    results := [⟨"a", true, .array [.null, .object [("key", .number (.whole (-1)))]], none, 0⟩,
      ⟨"a", false, .null, some "line\nbreak", Text.max64⟩]
    status := .halted Text.max64 "a"
    lanesCompleted := Text.max64 }

theorem report_json_roundtrip_stopped :
    (∀ n ∈ stopped.counters, n ≤ Text.max64)
      ∧ (∀ output ∈ stopped.outputs, output.Proper ∧ output.FloatFree ∧ output.depth + 3 ≤ Json.maxDepth)
      ∧ ∀ text ∈ [stopped.json.compact, stopped.json.pretty],
        ∃ r', Json.decodeText decode text = some r' ∧ r' = stopped
          ∧ r'.isSuccess = stopped.isSuccess ∧ r'.failed = stopped.failed
          ∧ ∀ block, r'.resultFor? block = stopped.resultFor? block := by
  have hcounters : ∀ n ∈ stopped.counters, n ≤ Text.max64 := by decide
  have houtputs : ∀ output ∈ stopped.outputs,
      output.Proper ∧ output.FloatFree ∧ output.depth + 3 ≤ Json.maxDepth := by
    intro output ho
    simp only [outputs, stopped, List.map_cons, List.map_nil, List.mem_cons, List.not_mem_nil, or_false] at ho
    rcases ho with rfl | rfl
    · have hascending : Json.ascending [("key", .number (.whole (-1)))] := List.pairwise_singleton _ _
      have hfits : (Json.Number.whole (-1)).Fits := by
        simp only [Json.Number.Fits]
        decide
      exact ⟨⟨⟨trivial, ⟨hascending, trivial, trivial⟩, trivial⟩, ⟨trivial, ⟨hfits, trivial⟩, trivial⟩⟩,
        ⟨trivial, ⟨trivial, trivial⟩, trivial⟩, by decide⟩
    · exact ⟨⟨trivial, trivial⟩, trivial, by decide⟩
  exact ⟨hcounters, houtputs, report_json_roundtrip stopped hcounters houtputs⟩

end Report

end SandboxPool
