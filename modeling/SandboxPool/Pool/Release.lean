import SandboxPool.Pool.Termination

/-!
# Releasing a sandbox

Where every block has a sandbox of its own, a released sandbox is paused and parked, and an end is
set for it. A sandbox that cannot be paused is terminated. Where blocks share a sandbox, there is
only one block less that shares it.
-/

namespace SandboxPool.Release

inductive Point where
  | check
  | pause
  | discard (cause : DaemonError) (t : Termination.Point)
  | park
  | drop
  deriving Repr, DecidableEq, Inhabited

abbrev Result := Except PoolError Unit

def start (config : Config) : Point :=
  match config.parallelism with
  | .multi => .check
  | .single => .drop

/-- Passes on a sandbox that may be paused; one that is being terminated is left alone. -/
def check (id : String) (p : Pool) : Scope (Next Point Result) :=
  match p.find? id with
  | none => ⟨p, [], .done (.error (.notFound id))⟩
  | some r =>
    if p.claim? id == some .terminating then ⟨p, [], .done (.ok ())⟩
    else match r.state.check .dormant with
      | .error e => ⟨p, [], .done (.error e)⟩
      | .ok () => ⟨p, [], .goto .pause⟩

/-- The longest time, in nanoseconds, that the calendar can add to a date. -/
def longestStay : Nat := 9223372036854775807 * 1000000

/-- The time, in nanoseconds, that is shown for a time that the calendar cannot add: 365 days. -/
def shownStay : Nat := 31536000 * Time.nanosPerSecond

/-- What breaks off a release whose end is beyond the calendar. -/
def beyondCalendar : String := "`DateTime + TimeDelta` overflowed"

/-- The end that is shown for a sandbox paused now. -/
def deadline (dormancy : Duration) (now : Instant) : Instant :=
  now + if longestStay < dormancy.nanos then shownStay else dormancy.nanos

/-- Parks the sandbox, unless it was terminated or claimed meanwhile. -/
def park (id : String) (c : Context) (p : Pool) : Scope (Next Point Result) :=
  match p.find? id with
  | none => ⟨p, [], .done (.error (.notFound id))⟩
  | some r =>
    if r.state != .running || (p.claim? id).isSome then ⟨p, [], .done (.ok ())⟩
    else
      let (calmed, effects) := r.calm
      let dormant := { calmed with state := .dormant, block := none, dormantSince := some c.now }
      let next := { p with generation := p.generation + 1 }
      let armed := effects ++ [.arm id p.generation (c.now + p.config.dormancy.nanos)]
      let shown := deadline p.config.dormancy c.now
      if Time.calendarEnd ≤ shown then ⟨next.put dormant, armed, .panic beyondCalendar⟩
      else
        ⟨next.put { dormant with timer := some ⟨shown, p.generation⟩ },
          armed ++ [.emit (dormant.arrived r.state)], .done (.ok ())⟩

/-- Takes one block from those that share the sandbox. -/
def drop (id : String) (p : Pool) : Scope (Next Point Result) :=
  match p.find? id with
  | none => ⟨p, [], .done (.error (.notFound id))⟩
  | some r =>
    if !r.live then ⟨p, [], .done (.ok ())⟩
    else
      let binders := r.binders - 1
      ⟨p.put { r with binders := binders, block := if binders = 0 then none else r.block }, [],
        .done (.ok ())⟩

/-- What a release of a sandbox wants at each point. -/
def demand (id : String) : Point → Demand (Next Point Result)
  | .check => .scope fun _ p => check id p
  | .pause => .act .pause id fun
    | .ok () => .goto .park
    | .error cause => .goto (.discard cause .claim)
  | .discard cause t =>
    (Termination.demand id t).map
      (.into (.discard cause) fun _ => .done (.error (.daemon .pause cause)))
  | .park => .scope fun c p => park id c p
  | .drop => .scope fun _ p => drop id p

end SandboxPool.Release
