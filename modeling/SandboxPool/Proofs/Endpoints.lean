import SandboxPool.BlockService
import SandboxPool.Proofs.Text.Percent

/-!
# Where a block is run

The name of a block is one segment of the path of its endpoint, written as a form. No sign in it ends the
segment, and no two blocks have the same endpoint. A service that reads the segment as a form gets the
name; one that reads it as a path gets it with a plus sign for each space, and so exactly if there is none
(`endpoint_addresses`, `endpoint_reads_plus`).
-/

namespace SandboxPool

variable {address block other : String}

theorem endpoint_inj (h : endpoint address block = endpoint address other) : block = other := by
  refine Text.formEncode_inj (String.toList_inj.1 ?_)
  have hlist := congrArg String.toList h
  simp only [endpoint, String.toList_append] at hlist
  exact List.append_cancel_left (List.append_cancel_right hlist)

/-- Only one segment stands between the two ends of an endpoint. -/
theorem segment_eq {seg : List Char}
    (h : endpoint address block = address ++ "/blocks/" ++ String.ofList seg ++ "/run") :
    seg = (Text.formEncode block).toList := by
  have hlist := congrArg String.toList h
  simp only [endpoint, String.toList_append, String.toList_ofList] at hlist
  exact (List.append_cancel_left (List.append_cancel_right hlist)).symm

/-- **What the endpoint of a block addresses.** For every sandbox and every name of a block: the name is
one segment of the path, of ASCII characters none of which ends it. Read as a path it comes to the bytes of
the name with a plus sign for each space, so to those of the name exactly if that has no space; read as a
form it comes to the name itself. So blocks with different names have different endpoints. -/
theorem endpoint_addresses (sandbox : Snapshot) (block : String) :
    ∃ seg : List Char,
      endpoint sandbox.address block
        = sandbox.address ++ "/blocks/" ++ String.ofList seg ++ "/run" ∧
      (∀ c ∈ seg, c.toNat < 128 ∧ c ≠ '/' ∧ c ≠ '?' ∧ c ≠ '#') ∧
      Text.percentDecode seg = (Text.bytes block).map (fun b => if b = 32 then 43 else b) ∧
      (Text.percentDecode seg = Text.bytes block ↔ ' ' ∉ block.toList) ∧
      Text.formDecode seg = Text.bytes block ∧
      ∀ other, endpoint sandbox.address other = endpoint sandbox.address block ↔ other = block := by
  refine ⟨(Text.formEncode block).toList, ?_, fun c hc => ?_, Text.percentDecode_formEncode block,
    Text.percentDecode_formEncode_eq_iff, Text.formDecode_formEncode block,
    fun other => ⟨endpoint_inj, fun h => h ▸ rfl⟩⟩
  · rw [String.ofList_toList]
    rfl
  · rw [Text.toList_formEncode] at hc
    obtain ⟨b, -, hb⟩ := List.mem_flatMap.1 hc
    exact Text.of_mem_formEncodeByte hb

/-- A service that reads the segment of the block `a b` as a path gets the name of another block. -/
theorem endpoint_reads_plus :
    let address := addressOf 40001
    ¬ ∃ seg : List Char,
      endpoint address "a b" = address ++ "/blocks/" ++ String.ofList seg ++ "/run" ∧
      (∀ c ∈ seg, c ≠ '/' ∧ c ≠ '?' ∧ c ≠ '#') ∧ Text.percentDecode seg = Text.bytes "a b" := by
  rintro address ⟨seg, hseg, -, hread⟩
  rw [segment_eq hseg] at hread
  exact Text.percentDecode_formEncode_eq_iff.1 hread (by decide)

end SandboxPool
