import SandboxPool.Lifecycle
import SandboxPool.Text.Integer
import SandboxPool.Time.Timestamp

/-!
# Snapshots of sandboxes

A `Snapshot` is what a pool shows of a sandbox at one moment. `addressOf` is where the service of a
sandbox answers.
-/

namespace SandboxPool

/-- Where the service behind a host port answers. -/
def addressOf (port : UInt16) : String := "http://localhost:" ++ toString port.toNat

/-- A sandbox at one moment. -/
structure Snapshot where
  id : String
  state : State
  /-- The block that the sandbox runs. -/
  block : Option String
  port : UInt16
  address : String
  createdAt : Time.Timestamp
  dormantSince : Option Time.Timestamp
  /-- When the sandbox will be terminated, if it is paused. -/
  deadline : Option Time.Timestamp
  /-- How many blocks share the sandbox. -/
  binders : Nat
  deriving Repr, DecidableEq, Inhabited

def timeJson (t : Time.Timestamp) : Json.Value := .string t.text

def decodeTime : Json.Decoder Time.Timestamp := fun room t =>
  (Json.string room t).bind Time.Timestamp.parse?

def optionalTime : Option Time.Timestamp → Json.Value
  | some t => timeJson t
  | none => .null

namespace Snapshot

def json (s : Snapshot) : Json.Value :=
  .object [("id", .string s.id), ("state", s.state.json), ("blockId", .optString s.block),
    ("port", .nat s.port.toNat), ("address", .string s.address), ("createdAt", timeJson s.createdAt),
    ("dormantSince", optionalTime s.dormantSince),
    ("dormancyDeadline", optionalTime s.deadline), ("acquireCount", .nat s.binders)]

def decode : Json.Decoder Snapshot := fun room t => do
  let m ← Json.record ["id", "state", "blockId", "port", "address", "createdAt", "dormantSince",
    "dormancyDeadline", "acquireCount"] room t
  return {
    id := ← m.required 0 Json.string
    state := ← m.required 1 State.decode
    block := ← m.optional 2 Json.string
    port := ← m.required 3 Json.natural16
    address := ← m.required 4 Json.string
    createdAt := ← m.required 5 decodeTime
    dormantSince := ← m.optional 6 decodeTime
    deadline := ← m.optional 7 decodeTime
    binders := ← m.required 8 Json.natural64 }

end Snapshot

end SandboxPool
