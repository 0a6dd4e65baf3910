import SandboxPool.Pool.Spawn
import SandboxPool.Pool.Team

/-!
# Operations on many sandboxes

* A prewarm starts several sandboxes at once, as many as the cap allows, and waits for all of them.
* A teardown terminates every live sandbox at once.
* A cleanup removes the containers that carry the owner label and that the pool does not know.
-/

namespace SandboxPool

/-! ## Prewarm -/

namespace Prewarm

inductive Point where
  | gate
  | reserve
  | gather
  | leave (result : Except PoolError Nat)
  deriving Repr

/-- What a prewarm comes to: how many sandboxes it started. -/
abbrev Result := Except PoolError Nat

abbrev Run := Team Unit Spawn.Point Spawn.Result Point Result

def start (config : Config) : Run :=
  .start (match config.parallelism with
    | .multi => .reserve
    | .single => .gate)

/-- Ends with a result, and leaves the gate if there is one. -/
def leave (result : Result) (p : Pool) : Scope (Next Point Result) :=
  match p.config.parallelism with
  | .multi => ⟨p, [], .done result⟩
  | .single => ⟨{ p with gateHeld := false }, [], .done result⟩

/-- How many sandboxes can be started within the cap. -/
def room (count : Nat) (p : Pool) : Nat := min count (p.config.effectiveMax - p.occupancy)

/-- Reserves the starts and hires a spawn for each. -/
def reserve (count : Nat) (p : Pool) : Scope (List (Unit × Spawn.Point) × Next Point Result) :=
  let n := room count p
  if n = 0 then ⟨p, [], [], .goto (.leave (.ok 0))⟩
  else ⟨p.reserve n, [], List.replicate n ((), .allocate), .goto .gather⟩

/-- The first error in the order of the serial numbers. -/
def firstError (ended : List (Ended Unit Spawn.Result)) : Option PoolError :=
  (ended.mergeSort fun a b => a.serial ≤ b.serial).findSome? fun e =>
    match e.result with
    | .ok (.error error) => some error
    | _ => none

/-- What a prewarm comes to: the first error, or the number of sandboxes. -/
def result (ended : List (Ended Unit Spawn.Result)) : Result :=
  match firstError ended with
  | some error => .error error
  | none => .ok ended.length

def conduct (config : Config) (count : Nat) :
    Conduct Unit Spawn.Point Spawn.Result Point Result where
  member _ := Spawn.demand config
    ⟨match config.parallelism with
      | .multi => .service
      | .single => .shared, none⟩
  leader
    | .gate => .demand (.gate (.goto .reserve))
    | .reserve => .hire fun _ p => reserve count p
    | .gather => .join fun _ ended => .goto (.leave (result ended))
    | .leave r => .demand (.scope fun _ p => leave r p)

end Prewarm

/-! ## Teardown -/

namespace Teardown

inductive Point where
  | collect
  | gather
  deriving Repr, DecidableEq

/-- A teardown on its way. The members are the identities of sandboxes. -/
abbrev Run := Team String Termination.Point Termination.Result Point Unit

def start : Run := .start .collect

/-- Hires a termination for every live sandbox. -/
def collect (p : Pool) : Scope (List (String × Termination.Point) × Next Point Unit) :=
  match p.liveRecords with
  | [] => ⟨p, [], [], .done ()⟩
  | live => ⟨p, [], live.map fun r => (r.id, .claim), .goto .gather⟩

def conduct : Conduct String Termination.Point Termination.Result Point Unit where
  member := Termination.demand
  leader
    | .collect => .hire fun _ p => collect p
    | .gather => .join fun _ _ => .done ()

end Teardown

/-! ## Cleanup -/

namespace Reclaim

inductive Point where
  | stop
  | remove
  deriving Repr, DecidableEq, Inhabited

/-- What a removal of a container wants at each point. Its result says whether the container is
gone; whether it could be stopped does not matter. -/
def demand (id : String) : Point → Demand (Next Point Bool)
  | .stop => .act .stop id fun _ => .goto .remove
  | .remove => .act (.remove true) id fun
    | .ok () => .done true
    | .error _ => .done false

end Reclaim

namespace Cleanup

inductive Point where
  | list
  | compare (containers : List ContainerSummary)
  | gather
  deriving Repr, DecidableEq

/-- A cleanup on its way. The members are the identities of containers. -/
abbrev Run := Team String Reclaim.Point Bool Point Nat

def start : Run := .start .list

/-- The containers that are no live sandbox of the pool. -/
def orphans (containers : List ContainerSummary) (p : Pool) : List String :=
  (containers.map (·.id)).filter fun id => !p.liveRecords.any (·.id == id)

/-- Hires a removal for every orphan. -/
def compare (containers : List ContainerSummary) (p : Pool) :
    Scope (List (String × Reclaim.Point) × Next Point Nat) :=
  match orphans containers p with
  | [] => ⟨p, [], [], .done 0⟩
  | ids => ⟨p, [], ids.map fun id => (id, .stop), .goto .gather⟩

def removed (ended : List (Ended String Bool)) : Nat :=
  ended.countP fun e =>
    match e.result with
    | .ok gone => gone
    | .error _ => false

def conduct : Conduct String Reclaim.Point Bool Point Nat where
  member := Reclaim.demand
  leader
    | .list => .demand (.list .owned fun
      | .ok containers => .goto (.compare containers)
      | .error _ => .done 0)
    | .compare containers => .hire fun _ p => compare containers p
    | .gather => .join fun _ ended => .done (removed ended)

end Cleanup

end SandboxPool
