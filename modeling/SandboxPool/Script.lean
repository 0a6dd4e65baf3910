import SandboxPool.Simulation

/-!
# Scripted worlds

A `Script` plays the daemon and the runner. For each operation of the daemon it holds the faults of
the next calls and how long a call takes, and for each block what its next runs do.

* A call takes its fault when it is made, and finds out what it returns when it ends.
* New containers are named by the script, or counted.
-/

namespace SandboxPool

inductive Fault where
  | error (e : DaemonError)
  /-- The call times out at its own port. -/
  | timedOut
  deriving Repr, DecidableEq, Inhabited

/-- The error of a fault in a call. -/
def Fault.of (f : Fault) (call : Call) : DaemonError :=
  match f, call with
  | .error e, _ => e
  | .timedOut, .health port _ timeout => .healthTimeout port timeout
  | .timedOut, .create spec => .healthTimeout ((spec.port.map (·.hostPort)).getD 0) ⟨0⟩
  | .timedOut, _ => .healthTimeout 0 ⟨0⟩

/-- What a run of a block does. -/
structure RunScript where
  /-- It asks for an abort when it starts. -/
  abortsFirst : Bool := false
  delayMs : Nat := 1
  /-- It asks for an abort when it ends. -/
  abortsLast : Bool := false
  terminates : Bool := false
  /-- How it ends: with an outcome that names the block unless the script says otherwise. -/
  ending : Option RunEnd := none
  deriving Repr, BEq, Inhabited

/-- The outcome of a run of which the script says nothing. -/
def RunScript.plainOutcome (block : String) : Outcome := .ok (.object [("block", .string block)]) 1

/-- A script for the daemon and the runner. -/
structure Script where
  faults : List (Operation × List (Option Fault)) := []
  /-- The milliseconds that a call takes. -/
  latency : List (Operation × Nat) := []
  /-- The names of the next containers. -/
  ids : List String := []
  created : Nat := 0
  /-- The containers that are listed; none if the list cannot be read. -/
  containers : Option (List ContainerSummary) := some []
  runs : List (String × List RunScript) := []
  deriving Inhabited

namespace Script

/-- What a call or a run took from the script when it was made. -/
inductive Ticket where
  | call (fault : Option DaemonError)
  | run (r : RunScript)

/-- Takes the first of the entries that belong to a key. -/
def pop {κ α : Type} [BEq κ] (key : κ) : List (κ × List α) → Option α × List (κ × List α)
  | [] => (none, [])
  | (k, entries) :: rest =>
    if k == key then
      match entries with
      | [] => (none, (k, []) :: rest)
      | e :: es => (some e, (k, es) :: rest)
    else
      let (e, rest) := pop key rest
      (e, (k, entries) :: rest)

def delay (s : Script) (o : Operation) : Nat :=
  (((s.latency.find? (·.1 == o)).map (·.2)).getD 0) * 1000000

def take (s : Script) : Ask → Opened Script Ticket
  | .daemon call =>
    let (entry, faults) := pop call.operation s.faults
    ⟨{ s with faults := faults }, s.delay call.operation,
      .call ((entry.join).map fun f => f.of call), false⟩
  | .run _ block =>
    let (entry, runs) := pop block s.runs
    let r := entry.getD {}
    ⟨{ s with runs := runs }, r.delayMs * 1000000, .run r, r.abortsFirst⟩

def nextId (s : Script) : String × Script :=
  let counted := { s with created := s.created + 1 }
  match s.ids with
  | [] => ("c" ++ toString counted.created, counted)
  | id :: rest => (id, { counted with ids := rest })

def listed (s : Script) (f : ContainerFilter) : Except DaemonError (List ContainerSummary) :=
  match s.containers with
  | some cs => .ok (cs.filter fun c => f.accepts c.labels)
  | none => .error (.json "the list is malformed")

/-- What a call that does not fail returns. -/
def succeed (s : Script) : Call → Script × Reply
  | .create _ =>
    let (id, s) := s.nextId
    (s, .created (.ok id))
  | .list f => (s, .listed (s.listed f))
  | _ => (s, .acted (.ok ()))

/-- What a call that fails returns. -/
def fail (e : DaemonError) : Call → Reply
  | .create _ => .created (.error e)
  | .list _ => .listed (.error e)
  | _ => .acted (.error e)

def reply (s : Script) : Ask → Ticket → Closed Script
  | .daemon call, .call (some e) => ⟨s, fail e call, false⟩
  | .daemon call, _ =>
    let (s, r) := s.succeed call
    ⟨s, r, false⟩
  | .run _ block, .run r =>
    ⟨s, .ran ⟨r.terminates, r.ending.getD (.outcome (RunScript.plainOutcome block))⟩, r.abortsLast⟩
  | .run _ block, _ => ⟨s, .ran ⟨false, .outcome (RunScript.plainOutcome block)⟩, false⟩

def rules : Rules Script Ticket := ⟨take, reply⟩

end Script

end SandboxPool
