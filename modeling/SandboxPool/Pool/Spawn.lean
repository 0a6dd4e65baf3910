import SandboxPool.Pool.Termination

/-!
# Starting a sandbox

A spawn has a reserved start. It takes a port, creates the container, registers the record, starts
the container, waits until its service is healthy, and publishes the sandbox as idle.

* A spawn that fails to create the container gives back the port and the reserved start.
* A spawn that fails later discards the sandbox by terminating it.
* A spawn for a block binds the sandbox to it in the same scope in which it becomes idle, so that
  nobody else can take it.
-/

namespace SandboxPool.Spawn

/-- What is started: the kind of sandbox, and the block that it is for. -/
structure Job where
  kind : SpawnKind
  block : Option String
  deriving Repr, DecidableEq, Inhabited

inductive Point where
  | allocate
  | create (spec : ContainerSpec) (port : UInt16)
  | giveBack (port : UInt16) (cause : DaemonError)
  | register (id : String) (port : UInt16)
  | start (id : String) (port : UInt16)
  | probe (id : String) (port : UInt16)
  | discard (id : String) (error : PoolError) (t : Termination.Point)
  | publish (id : String)
  deriving Repr, DecidableEq, Inhabited

abbrev Result := Except PoolError Snapshot

/-- Takes a port and the name of the container. -/
def allocate (job : Job) (p : Pool) : Scope (Next Point Result) :=
  match p.ports.allocate? with
  | none => ⟨p.unreserve, [], .done (.error (.portsExhausted p.ports.range))⟩
  | some (port, ports) =>
    let (id, drawn) := { p with ports := ports }.draw
    ⟨drawn, [], .goto (.create (drawn.spec job.kind id port) port)⟩

/-- Gives back the port and the reserved start. -/
def giveBack (port : UInt16) (cause : DaemonError) (p : Pool) : Scope (Next Point Result) :=
  ⟨{ p with ports := p.ports.release port }.unreserve, [], .done (.error (.daemon .create cause))⟩

/-- Adds the record in place of the reserved start. -/
def register (id : String) (port : UInt16) (c : Context) (p : Pool) : Scope (Next Point Result) :=
  ⟨p.unreserve.insert (.new id port c.now), [], .goto (.start id port)⟩

/-- Binds an idle sandbox to a block: what becomes of the pool, and the event. -/
def bind (block : String) (r : Record) (p : Pool) : Except PoolError (Record × Pool × Event) :=
  match r.move .running with
  | .error e => .error e
  | .ok running =>
    let bound := { running with block := some block }
    .ok (bound, p.put bound, bound.arrived r.state)

/-- Makes the sandbox idle and binds it to the block of the job. -/
def publish (job : Job) (id : String) (p : Pool) : Scope (Next Point Result) :=
  match p.find? id with
  | none => ⟨p, [], .done (.error (.notFound id))⟩
  | some r =>
    match r.move .idle with
    | .error e => ⟨p, [], .done (.error e)⟩
    | .ok idle =>
      let counted := (p.put idle).count fun s => { s with spawned := s.spawned + 1 }
      let event := Effect.emit (idle.arrived r.state)
      match job.block with
      | none => ⟨counted, [event], .done (.ok idle.snapshot)⟩
      | some block =>
        match bind block idle counted with
        | .error e => ⟨counted, [event], .done (.error e)⟩
        | .ok (bound, q, next) => ⟨q, [event, .emit next], .done (.ok bound.snapshot)⟩

/-- What a spawn wants at each point. -/
def demand (config : Config) (job : Job) : Point → Demand (Next Point Result)
  | .allocate => .scope fun _ p => allocate job p
  | .create spec port => .create spec fun
    | .ok id => .goto (.register id port)
    | .error cause => .goto (.giveBack port cause)
  | .giveBack port cause => .scope fun _ p => giveBack port cause p
  | .register id port => .scope fun c p => register id port c p
  | .start id port => .act .start id fun
    | .ok () =>
      match job.kind with
      | .service => .goto (.probe id port)
      | .shared => .goto (.publish id)
    | .error cause => .goto (.discard id (.daemon .start cause) .claim)
  | .probe id port => .health port config.probeInterval config.probeTimeout fun
    | .ok () => .goto (.publish id)
    | .error cause => .goto (.discard id (.daemon .health cause) .claim)
  | .discard id error t =>
    (Termination.demand id t).map (.into (.discard id error) fun _ => .done (.error error))
  | .publish id => .scope fun _ p => publish job id p

end SandboxPool.Spawn
