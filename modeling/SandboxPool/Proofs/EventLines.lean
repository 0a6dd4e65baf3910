import SandboxPool.Event
import SandboxPool.Proofs.Json.OneLine
import SandboxPool.Proofs.Json.ReadBack
import SandboxPool.Proofs.Uuid

/-!
# Events on lines

Every event is written on one line, without a control character, and no two events are written alike
(`Event.line_faithful`).
-/

namespace SandboxPool

theorem textsJson_inj {texts texts' : List String} : textsJson texts = textsJson texts' ↔ texts = texts' := by
  rw [textsJson, textsJson, Json.Value.array.injEq]
  exact List.map_inj_right fun _ _ => Json.Value.string.inj

theorem natJson_inj {m n : Nat} : Json.Value.nat m = Json.Value.nat n ↔ m = n := by
  simp [Json.Value.nat]

/-- Whether an optional field was written shows in the name that follows. -/
theorem optionalField_append_inj {name next : String} (hne : name ≠ next) {o o' : Option Json.Value}
    {v v' : Json.Value} {rest rest' : List (String × Json.Value)} :
    optionalField name o ++ (next, v) :: rest = optionalField name o' ++ (next, v') :: rest'
      ↔ o = o' ∧ v = v' ∧ rest = rest' := by
  cases o <;> cases o' <;> simp [optionalField, hne, hne.symm]

theorem State.json_inj {s s' : State} : s.json = s'.json ↔ s = s' := by
  cases s <;> cases s' <;> simp [State.json, State.name]

/-! ## The status with its fields in order -/

namespace Status

theorem sort_halted (lane : Nat) (block : String) : (halted lane block).json.sort
    = .object [("blockId", .string block), ("lane", .nat lane), ("status", .string "halted")] := by
  have hlane : "lane" < "status" := by decide
  have hblock : "blockId" < "lane" := by decide
  rw [json, Json.Value.sort, Json.sortEach, Json.sortEach, Json.sortEach, Json.sortEach, Json.sortFields,
    List.foldl, List.foldl, List.foldl, List.foldl, Json.insertField, Json.insertField, if_pos hlane,
    Json.insertField, if_pos hblock]
  simp only [Json.Value.nat, Json.Value.sort]

theorem sort_aborted (lane : Nat) : (aborted lane).json.sort
    = .object [("lane", .nat lane), ("status", .string "aborted")] := by
  have hlane : "lane" < "status" := by decide
  rw [json, Json.Value.sort, Json.sortEach, Json.sortEach, Json.sortEach, Json.sortFields,
    List.foldl, List.foldl, List.foldl, Json.insertField, Json.insertField, if_pos hlane]
  simp only [Json.Value.nat, Json.Value.sort]

theorem sort_json_inj {s s' : Status} : s.json.sort = s'.json.sort ↔ s = s' := by
  have hcompleted : completed.json.sort = .object [("status", .string "completed")] := rfl
  cases s <;> cases s' <;> simp [hcompleted, sort_halted, sort_aborted, natJson_inj, and_comm]

end Status

namespace Event

/-- The fields of a channel tell the event. -/
theorem eq_of_fields {e e' : Event} (hchannel : e.channel = e'.channel) (hfields : e.fields = e'.fields) :
    e = e' := by
  cases e with
  | executionStarted id lanes =>
    cases e' with
    | executionStarted id' lanes' =>
      obtain ⟨rfl, rfl⟩ : id = id' ∧ lanes = lanes' := by
        simpa [fields, Uuid.text_inj, natJson_inj] using hfields
      rfl
    | _ => exact absurd hchannel (by simp [channel])
  | laneStarted lane blocks parallel merge =>
    cases e' with
    | laneStarted lane' blocks' parallel' merge' =>
      have hnext : "mergeStrategy" ≠ "parallel" := by decide
      obtain ⟨rfl, rfl, rfl, rfl⟩ : blocks = blocks' ∧ lane = lane' ∧ merge = merge'
          ∧ parallel = parallel' := by
        simpa [fields, textsJson_inj, natJson_inj, optionalField_append_inj hnext] using hfields
      rfl
    | _ => exact absurd hchannel (by simp [channel])
  | laneCompleted lane succeeded failed =>
    cases e' with
    | laneCompleted lane' succeeded' failed' =>
      obtain ⟨rfl, rfl, rfl⟩ : failed = failed' ∧ lane = lane' ∧ succeeded = succeeded' := by
        simpa [fields, natJson_inj] using hfields
      rfl
    | _ => exact absurd hchannel (by simp [channel])
  | blockError lane block error =>
    cases e' with
    | blockError lane' block' error' =>
      obtain ⟨rfl, rfl, rfl⟩ : block = block' ∧ error = error' ∧ lane = lane' := by
        simpa [fields, natJson_inj] using hfields
      rfl
    | _ => exact absurd hchannel (by simp [channel])
  | aborted lane results =>
    cases e' with
    | aborted lane' results' =>
      obtain ⟨rfl, rfl⟩ : lane = lane' ∧ results = results' := by
        simpa [fields, natJson_inj] using hfields
      rfl
    | _ => exact absurd hchannel (by simp [channel])
  | executionCompleted id status results =>
    cases e' with
    | executionCompleted id' status' results' =>
      obtain ⟨rfl, rfl, rfl⟩ : id = id' ∧ results = results' ∧ status = status' := by
        simpa [fields, Uuid.text_inj, natJson_inj, Status.sort_json_inj] using hfields
      rfl
    | _ => exact absurd hchannel (by simp [channel])
  | transition id source target block =>
    cases e' with
    | transition id' source' target' block' =>
      have hnext : "blockId" ≠ "from" := by decide
      have hblock : block.map Json.Value.string = block'.map Json.Value.string ↔ block = block' :=
        (Option.map_injective fun _ _ => Json.Value.string.inj).eq_iff
      obtain ⟨rfl, rfl, rfl, rfl⟩ : block = block' ∧ source = source' ∧ id = id' ∧ target = target' := by
        simpa [fields, State.json_inj, optionalField_append_inj hnext, hblock] using hfields
      rfl
    | _ => exact absurd hchannel (by simp [channel])

/-- **An event is written on one line, and its line tells it from every other event.** No control character
stands in the line, and so no line break, whatever texts and values the event holds. -/
theorem line_faithful :
    (∀ e : Event, ∀ c ∈ e.line.toList, 0x20 ≤ c.toNat) ∧ Function.Injective Event.line := by
  refine ⟨fun e c hc => Json.Value.printable_compact _ c hc, fun e e' h => ?_⟩
  have hvalue := Json.Value.compact_inj.1 h
  obtain ⟨hchannel, hfields⟩ : e.channel = e'.channel ∧ e.fields = e'.fields := by
    simpa [payload] using hvalue
  exact eq_of_fields hchannel hfields

/-- A line break in an error is written as two characters. -/
example : (blockError 0 "a" "line\nbreak").line
    = "\x7b\"channel\":\"block:error\",\"payload\":\x7b\"blockId\":\"a\","
      ++ "\"error\":\"line\\nbreak\",\"lane\":0,\"type\":\"blockError\"\x7d\x7d" := by
  rfl

end Event

end SandboxPool
