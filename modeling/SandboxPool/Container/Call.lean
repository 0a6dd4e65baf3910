import SandboxPool.Container.Spec
import SandboxPool.Error

/-!
# Calls to the container daemon

A `Call` is one thing that the daemon is asked for.
-/

namespace SandboxPool

/-- What is done to a container. -/
inductive Action where
  | start
  | pause
  | unpause
  | stop
  /-- A forced removal also removes a running container. -/
  | remove (force : Bool)
  deriving Repr, DecidableEq, Inhabited

def Action.operation : Action → Operation
  | start => .start
  | pause => .pause
  | unpause => .unpause
  | stop => .stop
  | remove _ => .remove

/-- What the daemon is asked for. -/
inductive Call where
  | create (spec : ContainerSpec)
  | act (action : Action) (id : String)
  | list (filter : ContainerFilter)
  /-- Probe the service on a host port until it is healthy. -/
  | health (port : UInt16) (interval timeout : Duration)
  deriving Repr, DecidableEq, Inhabited

def Call.operation : Call → Operation
  | create _ => .create
  | act action _ => action.operation
  | list _ => .list
  | health .. => .health

end SandboxPool
