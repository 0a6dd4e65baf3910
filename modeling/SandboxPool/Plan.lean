import SandboxPool.Config

/-!
# Plans

A plan is a list of lanes that run one after the other. A lane is a single block, or a group of
blocks that run at the same time.

* `Plan.check` refuses blocks without a name and groups without blocks.
* `Plan.json` and `Plan.decode` write and read plans. A lane is read as a block if it is a text, and
  as a group if not.
-/

namespace SandboxPool

/-- What a failed block means for the lanes behind its own. -/
inductive FailureMode where
  /-- They do not run. -/
  | strict
  /-- They run all the same. -/
  | lenient
  deriving Repr, DecidableEq, Inhabited

def FailureMode.name : FailureMode → String
  | strict => "strict"
  | lenient => "lenient"

def FailureMode.json (m : FailureMode) : Json.Value := .string m.name

def FailureMode.decode : Json.Decoder FailureMode :=
  Json.choice [(FailureMode.strict.name, .strict), (FailureMode.lenient.name, .lenient)]

/-- Blocks that run at the same time, with a hint on how their outputs are merged. -/
structure ParallelGroup where
  blocks : List String
  merge : Option Json.Value := none
  deriving Repr, BEq, Inhabited

/-- A field that is written only if it has a value. -/
def optionalField (name : String) : Option Json.Value → List (String × Json.Value)
  | some v => [(name, v)]
  | none => []

def textsJson (texts : List String) : Json.Value := .array (texts.map .string)

def ParallelGroup.json (g : ParallelGroup) : Json.Value :=
  .object (("blockIds", textsJson g.blocks) :: optionalField "mergeStrategy" g.merge)

/-- Reads a group. A hint of null is no hint. -/
def ParallelGroup.decode : Json.Decoder ParallelGroup := fun room t => do
  let m ← Json.record ["blockIds", "mergeStrategy"] room t
  return {
    blocks := ← m.required 0 (Json.list Json.string)
    merge := ← m.defaulted 1 (Json.nullable Json.anyValue) none }

/-- One step of a plan. -/
inductive Lane where
  | block (id : String)
  | group (g : ParallelGroup)
  deriving Repr, BEq, Inhabited

namespace Lane

def blocks : Lane → List String
  | block id => [id]
  | group g => g.blocks

def isGroup : Lane → Bool
  | block _ => false
  | group _ => true

def merge : Lane → Option Json.Value
  | block _ => none
  | group g => g.merge

def json : Lane → Json.Value
  | block id => .string id
  | group g => g.json

/-- Reads a lane, all of which has to be sound. -/
def decode : Json.Decoder Lane := Json.buffered fun room t =>
  match Json.string room t with
  | some id => some (block id)
  | none => (ParallelGroup.decode room t).map group

end Lane

/-- Lanes in order, and how they are run. -/
structure Plan where
  lanes : List Lane := []
  parallelism : Parallelism := .multi
  failureMode : FailureMode := .lenient
  deriving Repr, BEq, Inhabited

/-- Why a lane cannot be run. -/
inductive LaneFault where
  | unnamedBlock
  | emptyGroup
  deriving Repr, DecidableEq, Inhabited

def LaneFault.message : LaneFault → String
  | unnamedBlock => "empty block id"
  | emptyGroup => "parallel group has no blocks"

/-- The fault of a lane. -/
def Lane.fault? : Lane → Option LaneFault
  | block id => if Text.allBlank id then some .unnamedBlock else none
  | group g =>
    if g.blocks.isEmpty then some .emptyGroup
    else if g.blocks.any Text.allBlank then some .unnamedBlock
    else none

namespace Plan

/-- Adds a lane of one block. -/
def sequential (p : Plan) (id : String) : Plan := { p with lanes := p.lanes ++ [.block id] }

/-- Adds a lane of blocks that run at the same time. -/
def parallel (p : Plan) (ids : List String) : Plan :=
  { p with lanes := p.lanes ++ [.group ⟨ids, none⟩] }

def blockCount (p : Plan) : Nat := (p.lanes.flatMap Lane.blocks).length

/-- The first lane with a fault, counted from `index` on. -/
def faultFrom? (index : Nat) : List Lane → Option (Nat × LaneFault)
  | [] => none
  | lane :: rest =>
    match lane.fault? with
    | some f => some (index, f)
    | none => faultFrom? (index + 1) rest

/-- Passes if every lane can be run. -/
def check (p : Plan) : Except PoolError Unit :=
  match faultFrom? 0 p.lanes with
  | some (index, f) => .error (.invalidPlan ("lane " ++ toString index ++ ": " ++ f.message))
  | none => .ok ()

def json (p : Plan) : Json.Value :=
  .object [("lanes", .array (p.lanes.map Lane.json)), ("parallelismModel", p.parallelism.json),
    ("failureMode", p.failureMode.json)]

/-- Reads a plan; only its lanes have to be given. -/
def decode : Json.Decoder Plan := fun room t => do
  let m ← Json.record ["lanes", "parallelismModel", "failureMode"] room t
  return {
    lanes := ← m.required 0 (Json.list Lane.decode)
    parallelism := ← m.defaulted 1 Parallelism.decode .multi
    failureMode := ← m.defaulted 2 FailureMode.decode .lenient }

end Plan

end SandboxPool
