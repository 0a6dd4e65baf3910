import SandboxPool.Pool.Process

/-!
# Terminating a sandbox

A termination claims the sandbox, stops and removes its container, and settles: the port is free
again and the record is terminated. Whether stopping and removing succeeds does not matter, since
the container may be gone already.

* A termination that is asked for starts at `claim` and does nothing if there is one already.
* A termination whose time has come starts at `expire` and does nothing unless the sandbox is in
  the very pause that the time was set for.
-/

namespace SandboxPool

/-- Calls off the end that is set for a paused sandbox. -/
def Record.calm (r : Record) : Record × List Effect :=
  ({ r with timer := none },
    match r.timer with
    | some t => [.disarm t.generation]
    | none => [])

namespace Termination

inductive Point where
  | claim
  | expire (generation : Nat)
  | stop (port : UInt16)
  | remove (port : UInt16)
  | settle (port : UInt16)
  deriving Repr, DecidableEq, Inhabited

abbrev Result := Except PoolError Unit

/-- Claims the sandbox, unless it is terminated or claimed for that. -/
def claim (id : String) (p : Pool) : Scope (Next Point Result) :=
  match p.find? id with
  | none => ⟨p, [], .done (.error (.notFound id))⟩
  | some r =>
    if !r.live || p.claim? id == some .terminating then ⟨p, [], .done (.ok ())⟩
    else
      let (calmed, effects) := r.calm
      ⟨(p.put { calmed with busy := true }).setClaim id .terminating, effects, .goto (.stop r.port)⟩

/-- Claims the sandbox if it is in the pause of a generation and nobody has a claim on it. -/
def expire (id : String) (generation : Nat) (p : Pool) : Scope (Next Point Result) :=
  match p.find? id with
  | none => ⟨p, [], .done (.ok ())⟩
  | some r =>
    if r.state != .dormant || (p.claim? id).isSome
        || r.timer.map (·.generation) != some generation then
      ⟨p, [], .done (.ok ())⟩
    else
      ⟨(p.put { r with timer := none, busy := true }).setClaim id .terminating, [],
        .goto (.stop r.port)⟩

/-- Frees the port, gives up the claim and terminates the record. -/
def settle (id : String) (port : UInt16) (p : Pool) : Scope (Next Point Result) :=
  let freed := { p with ports := p.ports.release port }.dropClaim id
  match freed.find? id with
  | none => ⟨freed, [], .done (.error (.notFound id))⟩
  | some r =>
    let cleared := { r with block := none, binders := 0, dormantSince := none, busy := false }
    match cleared.move .terminated with
    | .error e => ⟨freed.put cleared, [], .done (.error e)⟩
    | .ok ended =>
      ⟨(freed.put ended).count fun s => { s with terminated := s.terminated + 1 },
        [.emit (ended.arrived r.state)], .done (.ok ())⟩

/-- What a termination of a sandbox wants at each point. -/
def demand (id : String) : Point → Demand (Next Point Result)
  | .claim => .scope fun _ p => claim id p
  | .expire generation => .scope fun _ p => expire id generation p
  | .stop port => .act .stop id fun _ => .goto (.remove port)
  | .remove port => .act (.remove true) id fun _ => .goto (.settle port)
  | .settle port => .scope fun _ p => settle id port p

end Termination

end SandboxPool
