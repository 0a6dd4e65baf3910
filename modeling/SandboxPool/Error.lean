import SandboxPool.Lifecycle
import SandboxPool.Ports
import SandboxPool.Time.Duration

/-!
# What can go wrong

* `DaemonError`: a call to the container daemon or to a sandbox failed.
* `PoolError`: an operation of the pool or an execution failed.

The words for each are in `DaemonError.message` and `PoolError.message`.
-/

namespace SandboxPool

/-- Why a call to the container daemon failed. -/
inductive DaemonError where
  /-- The daemon answered with a status other than success. -/
  | api (status : Nat) (reason : String)
  | notFound (id : String)
  /-- Nothing answers at the daemon's socket. -/
  | connection (reason : String)
  /-- A sandbox did not become healthy in time. -/
  | healthTimeout (port : UInt16) (timeout : Duration)
  /-- The exchange broke off. -/
  | http (reason : String)
  /-- The request cannot be written. -/
  | request (reason : String)
  /-- The answer cannot be read. -/
  | json (reason : String)
  /-- A file or a socket failed. -/
  | io (reason : String)
  deriving Repr, DecidableEq, Inhabited

def DaemonError.message : DaemonError → String
  | .api status reason => "runtime API error (" ++ toString status ++ "): " ++ reason
  | .notFound id => "container not found: " ++ id
  | .connection reason => "connection failed: " ++ reason
  | .healthTimeout port timeout =>
    "health check on port " ++ toString port.toNat ++ " timed out after " ++ timeout.text
  | .http reason => "HTTP error: " ++ reason
  | .request reason => "invalid request: " ++ reason
  | .json reason => "JSON error: " ++ reason
  | .io reason => "I/O error: " ++ reason

/-- The container is already gone. -/
def DaemonError.isNotFound : DaemonError → Bool
  | .notFound _ => true
  | _ => false

/-- What the daemon is asked for. -/
inductive Operation where
  | create
  | start
  | pause
  | unpause
  | stop
  | remove
  | list
  | health
  deriving Repr, DecidableEq, Inhabited

namespace Operation

def all : List Operation := [create, start, pause, unpause, stop, remove, list, health]

def name : Operation → String
  | create => "create"
  | start => "start"
  | pause => "pause"
  | unpause => "unpause"
  | stop => "stop"
  | remove => "remove"
  | list => "list"
  | health => "health_check"

def ofName? (s : String) : Option Operation := all.find? (·.name == s)

end Operation

/-- Why an operation of the pool failed. -/
inductive PoolError where
  /-- Every port of the range is in use. -/
  | portsExhausted (range : PortRange)
  /-- A paused sandbox did not come back. -/
  | wakeFailed (id reason : String)
  | daemon (operation : Operation) (cause : DaemonError)
  /-- Nothing can be reused, and the cap is reached. -/
  | noSandboxAvailable (max : Nat)
  /-- The second state may not follow the first. -/
  | invalidTransition (source target : State)
  | notFound (id : String)
  /-- The configuration contradicts itself. -/
  | invalidConfig (reason : String)
  | invalidPlan (reason : String)
  deriving Repr, DecidableEq, Inhabited

def PoolError.message : PoolError → String
  | .portsExhausted range => "ports exhausted: no free port in range " ++ range.text
  | .wakeFailed id reason => "failed to wake sandbox " ++ id ++ ": " ++ reason
  | .daemon operation cause =>
    "runtime operation '" ++ operation.name ++ "' failed: " ++ cause.message
  | .noSandboxAvailable max => "no sandbox available (max " ++ toString max ++ " sandboxes)"
  | .invalidTransition source target =>
    "invalid transition " ++ source.name ++ " -> " ++ target.name ++ " (allowed from " ++ source.name
      ++ ": " ++ ", ".intercalate (source.successors.map State.name) ++ ")"
  | .notFound id => "sandbox not found: " ++ id
  | .invalidConfig reason => "invalid configuration: " ++ reason
  | .invalidPlan reason => "invalid plan: " ++ reason

/-- Passes if the second state may follow the first. -/
def State.check (source target : State) : Except PoolError Unit :=
  if source.admits target then .ok () else .error (.invalidTransition source target)

theorem State.check_eq_ok_iff {source target : State} :
    source.check target = .ok () ↔ source.admits target := by
  unfold State.check
  split <;> simp_all

end SandboxPool
