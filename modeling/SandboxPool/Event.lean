import SandboxPool.Report
import SandboxPool.Snapshot

/-!
# Events

The pool and the executor tell what happens as events. Each kind of event has a channel, and
`Event.line` writes an event on one line.
-/

namespace SandboxPool

/-- Something that happened. -/
inductive Event where
  | executionStarted (executionId : Uuid) (lanes : Nat)
  | laneStarted (lane : Nat) (blocks : List String) (parallel : Bool) (merge : Option Json.Value)
  /-- Every block of a lane has ended. -/
  | laneCompleted (lane succeeded failed : Nat)
  | blockError (lane : Nat) (block error : String)
  /-- An abort stopped the execution before or in the lane. -/
  | aborted (lane results : Nat)
  | executionCompleted (executionId : Uuid) (status : Status) (results : Nat)
  /-- A sandbox went from one state to another; the block is the one bound to it afterwards. -/
  | transition (id : String) (source target : State) (block : Option String)
  deriving Repr, BEq, Inhabited

namespace Event

def channel : Event → String
  | executionStarted .. => "execution:start"
  | laneStarted .. => "lane:start"
  | laneCompleted .. => "lane:complete"
  | blockError .. => "block:error"
  | aborted .. => "execution:aborted"
  | executionCompleted .. => "execution:complete"
  | transition .. => "sandbox:transition"

/-- The fields of an event in the order of their names. -/
def fields : Event → List (String × Json.Value)
  | executionStarted id lanes =>
    [("executionId", .string id.text), ("lanes", .nat lanes), ("type", .string "executionStarted")]
  | laneStarted lane blocks parallel merge =>
    [("blockIds", textsJson blocks), ("lane", .nat lane)] ++ optionalField "mergeStrategy" merge
      ++ [("parallel", .bool parallel), ("type", .string "laneStarted")]
  | laneCompleted lane succeeded failed =>
    [("failed", .nat failed), ("lane", .nat lane), ("succeeded", .nat succeeded),
      ("type", .string "laneCompleted")]
  | blockError lane block error =>
    [("blockId", .string block), ("error", .string error), ("lane", .nat lane),
      ("type", .string "blockError")]
  | aborted lane results =>
    [("lane", .nat lane), ("results", .nat results), ("type", .string "aborted")]
  | executionCompleted id status results =>
    [("executionId", .string id.text), ("results", .nat results), ("status", status.json.sort),
      ("type", .string "executionCompleted")]
  | transition id source target block =>
    optionalField "blockId" (block.map .string)
      ++ [("from", source.json), ("id", .string id), ("to", target.json),
        ("type", .string "sandboxTransition")]

def payload (e : Event) : Json.Value := .object e.fields

/-- An event with its channel on one line. -/
def line (e : Event) : String :=
  (Json.Value.object [("channel", .string e.channel), ("payload", e.payload)]).compact

end Event

end SandboxPool
