import SandboxPool.Container.Spec
import SandboxPool.Pool.Record
import SandboxPool.Pool.Stats

/-!
# The state of a pool

A `Pool` holds the records of its sandboxes, oldest first, the host ports, and what is under way:
the number of starts that are reserved and have no record yet, and a claim on each sandbox that
somebody wakes or terminates.

* `Pool.occupancy` counts the live sandboxes and the reserved starts; `Pool.reserve?` adds one as
  long as that stays within a bound (`occupancy_reserve`).
* `Pool.spec` is what a sandbox is created from.
-/

namespace SandboxPool

/-- Why a sandbox is not at the disposal of others. -/
inductive Claim where
  | waking
  | terminating
  deriving Repr, DecidableEq, Inhabited

/-- Whether the service of the image runs in a sandbox, or a command that does nothing. -/
inductive SpawnKind where
  | service
  | shared
  deriving Repr, DecidableEq, Inhabited

/-- The state of a pool. -/
structure Pool where
  config : Config
  records : List Record
  ports : PortAllocator
  /-- Starts that are reserved and have no record yet. -/
  pending : Nat
  claims : List (String × Claim)
  stats : Stats
  /-- The generation of the next pause. Every pause adds one to it, so that the bound of 64 bits is out
  of reach here too. -/
  generation : Nat
  /-- Somebody starts or looks for the one sandbox that is shared. -/
  gateHeld : Bool
  /-- From here on identifiers are drawn. -/
  seed : BitVec 128
  drawn : Nat

namespace Pool

def ofConfig (config : Config) (seed : BitVec 128) : Pool :=
  ⟨config, [], .ofRange config.ports, 0, [], {}, 0, false, seed, 0⟩

/-- A pool without sandboxes, if the configuration has no fault. -/
def create (config : Config) (seed : BitVec 128) : Except PoolError Pool :=
  match config.check with
  | .ok () => .ok (ofConfig config seed)
  | .error e => .error e

/-- A pool over a daemon of some name, in one line. -/
def describe (p : Pool) (backend : String) : String :=
  "SandboxPool \x7b backend: \"" ++ backend ++ "\", max_sandboxes: "
    ++ toString p.config.effectiveMax ++ ", parallelism: " ++ p.config.parallelism.label ++ " \x7d"

/-! ## Records and claims -/

/-- The record of a sandbox. -/
def find? (p : Pool) (id : String) : Option Record := p.records.find? (·.id == id)

def get? (p : Pool) (id : String) : Option Snapshot := (p.find? id).map (·.snapshot)

/-- What is shown of all sandboxes, oldest first. -/
def snapshots (p : Pool) : List Snapshot := p.records.map (·.snapshot)

/-- Puts a record in the place of the one with its identity. -/
def put (p : Pool) (r : Record) : Pool :=
  { p with records := p.records.map fun old => if old.id == r.id then r else old }

/-- Adds the record of a new sandbox. A record with its identity gives way. -/
def insert (p : Pool) (r : Record) : Pool :=
  { p with records := p.records.filter (·.id != r.id) ++ [r] }

/-- The claim on a sandbox. -/
def claim? (p : Pool) (id : String) : Option Claim := (p.claims.find? (·.1 == id)).map (·.2)

/-- Claims a sandbox, whoever had a claim on it before. -/
def setClaim (p : Pool) (id : String) (c : Claim) : Pool :=
  { p with claims := (id, c) :: p.claims.filter (·.1 != id) }

def dropClaim (p : Pool) (id : String) : Pool :=
  { p with claims := p.claims.filter (·.1 != id) }

/-- The records that nobody has a claim on. -/
def unclaimed (p : Pool) : List Record := p.records.filter fun r => (p.claim? r.id).isNone

/-- The records of the sandboxes that are not terminated. -/
def liveRecords (p : Pool) : List Record := p.records.filter (·.live)

/-! ## The cap -/

def liveCount (p : Pool) : Nat := p.liveRecords.length

/-- The live sandboxes and the reserved starts. -/
def occupancy (p : Pool) : Nat := p.liveCount + p.pending

def reserve (p : Pool) (n : Nat) : Pool := { p with pending := p.pending + n }

/-- Reserves a start if the occupancy is below a bound. -/
def reserve? (p : Pool) (max : Nat) : Option Pool :=
  if p.occupancy < max then some (p.reserve 1) else none

/-- A reserved start has its record, or has failed before. -/
def unreserve (p : Pool) : Pool := { p with pending := p.pending - 1 }

def count (p : Pool) (f : Stats → Stats) : Pool := { p with stats := f p.stats }

theorem occupancy_reserve (p : Pool) (n : Nat) : (p.reserve n).occupancy = p.occupancy + n := by
  simp [occupancy, reserve, liveCount, liveRecords, Nat.add_assoc]

/-! ## Identifiers and containers -/

/-- Draws an identifier. -/
def draw (p : Pool) : Uuid × Pool :=
  (⟨p.seed + BitVec.ofNat 128 p.drawn⟩, { p with drawn := p.drawn + 1 })

def kind (p : Pool) : SpawnKind :=
  match p.config.parallelism with
  | .multi => .service
  | .single => .shared

/-- The variable that tells a sandbox the port of its service. -/
def portVariable (port : UInt16) : String := "SKIFF_PORT=" ++ toString port.toNat

/-- What a sandbox is created from. -/
def spec (p : Pool) (kind : SpawnKind) (id : Uuid) (port : UInt16) : ContainerSpec :=
  let named : ContainerSpec := { image := p.config.image, name := some ("skiff-" ++ id.plain) }
  let published := (named.publish p.config.containerPort port).owned
  let spec := p.config.env.foldl .addEnv (published.addEnv (portVariable p.config.containerPort))
  match kind with
  | .service => spec
  | .shared => spec.idle

end Pool

end SandboxPool
