import SandboxPool.Plan
import SandboxPool.Text.Quoted
import SandboxPool.Uuid

/-!
# Outcomes, results and reports

A runner gives an `Outcome` of a block, the executor makes a `BlockResult` of it, and a `Report`
collects the results of a plan.

* A result carries an error exactly when it is a failure (`ofOutcome_wellFormed`,
  `failed_wellFormed`).
* `Report.isSuccess` holds when all lanes ran and no block failed.
-/

namespace SandboxPool

/-- What a runner says about a block. -/
structure Outcome where
  success : Bool
  output : Json.Value := .null
  error : Option String := none
  durationMs : Nat := 0
  deriving Repr, BEq, Inhabited

namespace Outcome

def ok (output : Json.Value) (durationMs : Nat) : Outcome := ⟨true, output, none, durationMs⟩

def failed (error : String) (durationMs : Nat) : Outcome := ⟨false, .null, some error, durationMs⟩

def json (o : Outcome) : Json.Value :=
  .object [("success", .bool o.success), ("output", o.output), ("error", .optString o.error),
    ("durationMs", .nat o.durationMs)]

/-- Reads an outcome; only its success has to be given. -/
def decode : Json.Decoder Outcome := fun room t => do
  let m ← Json.record ["success", "output", "error", "durationMs"] room t
  return {
    success := ← m.required 0 Json.bool
    output := ← m.defaulted 1 Json.anyValue .null
    error := ← m.defaulted 2 (Json.nullable Json.string) none
    durationMs := ← m.defaulted 3 Json.natural64 0 }

end Outcome

/-- What a report says about a block. -/
structure BlockResult where
  block : String
  success : Bool
  output : Json.Value := .null
  error : Option String := none
  durationMs : Nat
  deriving Repr, BEq, Inhabited

namespace BlockResult

def failed (block error : String) (durationMs : Nat) : BlockResult :=
  ⟨block, false, .null, some error, durationMs⟩

/-- The error of a failure whose runner gave none. -/
def unexplained : String := "block reported failure"

/-- The result of an outcome: a success has no error, a failure always one. -/
def ofOutcome (block : String) (o : Outcome) : BlockResult :=
  ⟨block, o.success, o.output, if o.success then none else some (o.error.getD unexplained),
    o.durationMs⟩

/-- An error is there exactly for a failure. -/
def WellFormed (r : BlockResult) : Prop := r.error.isSome = !r.success

theorem ofOutcome_wellFormed (block : String) (o : Outcome) : (ofOutcome block o).WellFormed := by
  cases h : o.success <;> simp [WellFormed, ofOutcome, h]

theorem failed_wellFormed (block error : String) (durationMs : Nat) :
    (failed block error durationMs).WellFormed := rfl

def json (r : BlockResult) : Json.Value :=
  .object ([("blockId", .string r.block), ("success", .bool r.success), ("output", r.output)]
    ++ optionalField "error" (r.error.map .string) ++ [("durationMs", .nat r.durationMs)])

def decode : Json.Decoder BlockResult := fun room t => do
  let m ← Json.record ["blockId", "success", "output", "error", "durationMs"] room t
  return {
    block := ← m.required 0 Json.string
    success := ← m.required 1 Json.bool
    output := ← m.defaulted 2 Json.anyValue .null
    error := ← m.defaulted 3 (Json.nullable Json.string) none
    durationMs := ← m.required 4 Json.natural64 }

end BlockResult

/-- How an execution ended. -/
inductive Status where
  | completed
  /-- A failure of the block stopped the plan behind the lane. -/
  | halted (lane : Nat) (block : String)
  /-- The execution was aborted before or in the lane. -/
  | aborted (lane : Nat)
  deriving Repr, DecidableEq, Inhabited

namespace Status

def json : Status → Json.Value
  | completed => .object [("status", .string "completed")]
  | halted lane block =>
    .object [("status", .string "halted"), ("lane", .nat lane), ("blockId", .string block)]
  | aborted lane => .object [("status", .string "aborted"), ("lane", .nat lane)]

def text : Status → String
  | completed => "Completed"
  | halted lane block =>
    "Halted \x7b lane: " ++ toString lane ++ ", block_id: " ++ Text.quoted block
      ++ " \x7d"
  | aborted lane => "Aborted \x7b lane: " ++ toString lane ++ " \x7d"

/-- The members of a status behind its tag. -/
inductive Tag where
  | completed
  | halted
  | aborted

/-- Reads the tag of a status. -/
def Tag.decode : Json.Decoder Tag :=
  Json.choice [("completed", .completed), ("halted", .halted), ("aborted", .aborted)]

/-- Reads what follows the tag of a status. An array has nothing left over behind its members. -/
def ofTag (tag : Tag) (room : Nat) (t : Json.Tree) : Option Status :=
  match tag with
  | .completed =>
    match t with
    | .object _ => some completed
    | t => (Json.record [] room t).map fun _ => completed
  | .halted => do
    let m ← Json.record ["lane", "blockId"] room t
    return halted (← m.required 0 Json.natural64) (← m.required 1 Json.string)
  | .aborted => do
    let m ← Json.record ["lane"] room t
    return aborted (← m.required 0 Json.natural64)

/-- Reads a status, all of which has to be sound. Its tag is the member `status` of an object, or
the first element of an array. -/
def decode : Json.Decoder Status := Json.buffered fun room t =>
  match t with
  | .object fields => do
    let m ← Json.record ["status"] room t
    let tag ← m.required 0 Tag.decode
    ofTag tag room (.object (fields.filter fun f => f.1 != some "status"))
  | .array (first :: rest) => do
    let tag ← Tag.decode (room - 1) first
    ofTag tag room (.array rest)
  | _ => none

end Status

/-- The report of an execution. -/
structure Report where
  executionId : Uuid
  /-- The results in the order of the lanes. -/
  results : List BlockResult
  status : Status
  /-- The number of lanes that ran to their end. -/
  lanesCompleted : Nat
  deriving Repr, BEq, Inhabited

namespace Report

def resultFor? (r : Report) (block : String) : Option BlockResult :=
  r.results.find? fun b => b.block == block

def failed (r : Report) : List BlockResult := r.results.filter fun b => !b.success

/-- Every lane ran and no block failed. -/
def isSuccess (r : Report) : Bool := r.status == .completed && r.results.all (·.success)

def json (r : Report) : Json.Value :=
  .object [("executionId", .string r.executionId.text),
    ("results", .array (r.results.map BlockResult.json)), ("status", r.status.json),
    ("lanesCompleted", .nat r.lanesCompleted)]

def decodeId : Json.Decoder Uuid := fun room t => (Json.string room t).bind Uuid.parse?

def decode : Json.Decoder Report := fun room t => do
  let m ← Json.record ["executionId", "results", "status", "lanesCompleted"] room t
  return {
    executionId := ← m.required 0 decodeId
    results := ← m.required 1 (Json.list BlockResult.decode)
    status := ← m.required 2 Status.decode
    lanesCompleted := ← m.required 3 Json.natural64 }

end Report

end SandboxPool
