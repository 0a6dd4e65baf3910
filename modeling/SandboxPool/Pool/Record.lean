import SandboxPool.Event

/-!
# Records of sandboxes

A pool keeps a `Record` of every sandbox that it ever created. `Record.move` takes a record to
another state, if that state may follow; a terminated sandbox stays as it is.
-/

namespace SandboxPool

/-- A point in time, in nanoseconds since the start of 1970. -/
abbrev Instant := Nat

/-- The end that is set for a paused sandbox. Each pause has a generation of its own. -/
structure Timer where
  deadline : Instant
  generation : Nat
  deriving Repr, DecidableEq, Inhabited

/-- What a pool knows of a sandbox. -/
structure Record where
  id : String
  state : State
  /-- The block that the sandbox runs. -/
  block : Option String
  port : UInt16
  createdAt : Instant
  /-- When the sandbox was paused, if it is. -/
  dormantSince : Option Instant
  timer : Option Timer
  /-- How many blocks share the sandbox. -/
  binders : Nat
  /-- Somebody wakes or terminates the sandbox. -/
  busy : Bool
  deriving Repr, DecidableEq, Inhabited

namespace Record

/-- The record of a sandbox whose container was just created. -/
def new (id : String) (port : UInt16) (now : Instant) : Record :=
  ⟨id, .starting, none, port, now, none, none, 0, false⟩

def live (r : Record) : Bool := !r.state.terminal

/-- The sandbox is in a state and nobody wakes or terminates it. -/
def selectable (r : Record) (s : State) : Bool := r.state == s && !r.busy

/-- The record in another state, if that state may follow. -/
def move (r : Record) (target : State) : Except PoolError Record :=
  match r.state.check target with
  | .error e => .error e
  | .ok () => .ok (if r.state.terminal then r else { r with state := target })

def snapshot (r : Record) : Snapshot where
  id := r.id
  state := r.state
  block := r.block
  port := r.port
  address := addressOf r.port
  createdAt := .ofNanos r.createdAt
  dormantSince := r.dormantSince.map .ofNanos
  deadline := r.timer.map fun t => .ofNanos t.deadline
  binders := r.binders

/-- The event of a record that came from a state. -/
def arrived (r : Record) (source : State) : Event := .transition r.id source r.state r.block

theorem live_new (id : String) (port : UInt16) (now : Instant) : (new id port now).live = true := rfl

theorem move_eq_ok_iff {r r' : Record} {target : State} :
    r.move target = .ok r' ↔
      r.state.admits target ∧ r' = if r.state.terminal then r else { r with state := target } := by
  unfold move State.check
  by_cases h : r.state.admits target = true
  · simp only [h, ↓reduceIte, Except.ok.injEq, true_and]
    exact eq_comm
  · simp [h]

end Record

end SandboxPool
