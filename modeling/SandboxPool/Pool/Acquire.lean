import SandboxPool.Pool.Spawn

/-!
# Acquiring a sandbox for a block

Where every block has a sandbox of its own, an acquisition picks an idle sandbox, else wakes a
paused one, else starts a new one within the cap. A sandbox that does not wake is terminated before
a new one is started in its place.

Where blocks share a sandbox, an acquisition enters the gate, joins the sandbox that is there or
starts it, and leaves the gate.
-/

namespace SandboxPool.Acquire

/-- The points of an acquisition. -/
inductive Point where
  | pick
  | unpause (id : String) (port : UInt16)
  | probe (id : String) (port : UInt16)
  | rebind (id : String)
  | failed (error : PoolError)
  | retire (id : String) (error : PoolError) (t : Termination.Point)
  | replace (error : PoolError)
  | cold (s : Spawn.Point)
  | gate
  | find
  | reserve
  | shared (s : Spawn.Point)
  | join (id : String)
  | leave (error : PoolError)
  deriving Repr, DecidableEq, Inhabited

abbrev Result := Except PoolError Snapshot

def start (config : Config) : Point :=
  match config.parallelism with
  | .multi => .pick
  | .single => .gate

/-- An unclaimed record of some kind: the first that is met. -/
def candidate? (kind : Record → Bool) (c : Context) (p : Pool) : Option Record :=
  (c.leeway.order p.unclaimed).find? kind

section Candidate

variable {kind : Record → Bool} {c : Context} {p : Pool} {r : Record}

theorem candidate?_eq_none : candidate? kind c p = none ↔ ∀ r ∈ p.unclaimed, kind r = false := by
  simp [candidate?]

theorem mem_of_candidate? (h : candidate? kind c p = some r) :
    r ∈ p.records ∧ p.claim? r.id = none ∧ kind r = true := by
  have hr : r ∈ p.unclaimed := Leeway.mem_order.1 (List.mem_of_find?_eq_some h)
  obtain ⟨hr, hc⟩ := List.mem_filter.1 hr
  exact ⟨hr, by simpa using hc, List.find?_some h⟩

/-- A sandbox that is picked is in the state asked for, and nobody has a claim on it. -/
theorem mem_of_selectable {st : State} (h : candidate? (·.selectable st) c p = some r) :
    r ∈ p.records ∧ p.claim? r.id = none ∧ r.state = st := by
  obtain ⟨hr, hc, hs⟩ := mem_of_candidate? h
  simp only [Record.selectable, Bool.and_eq_true, beq_iff_eq] at hs
  exact ⟨hr, hc, hs.1⟩

/-- Any unclaimed record of the kind may be the one that is met first. -/
theorem candidate?_prefer (hr : r ∈ p.unclaimed) (hk : kind r = true) :
    candidate? kind { c with leeway := c.leeway.prefer r } p = some r := by
  simp [candidate?, Leeway.prefer, hr, hk]

end Candidate

/-! ## A sandbox for each block -/

/-- Goes on to a new sandbox if a start can be reserved, else ends with an error. -/
def coldOr (error : PoolError) (p : Pool) : Scope (Next Point Result) :=
  match p.reserve? p.config.effectiveMax with
  | none => ⟨p, [], .done (.error error)⟩
  | some q =>
    ⟨q.count fun s => { s with coldStarts := s.coldStarts + 1 }, [], .goto (.cold .allocate)⟩

/-- Binds an idle sandbox to the block. -/
def take (block : String) (r : Record) (p : Pool) : Scope (Next Point Result) :=
  match Spawn.bind block r p with
  | .error e => ⟨p, [], .done (.error e)⟩
  | .ok (bound, q, event) =>
    ⟨q.count fun s => { s with idleHits := s.idleHits + 1 }, [.emit event],
      .done (.ok bound.snapshot)⟩

/-- Claims a paused sandbox and calls off its end. -/
def claim (r : Record) (p : Pool) : Scope (Next Point Result) :=
  let (calmed, effects) := r.calm
  ⟨(p.put { calmed with busy := true, dormantSince := none }).setClaim r.id .waking, effects,
    .goto (.unpause r.id r.port)⟩

/-- Picks an idle sandbox, a paused one, or the start of a new one. -/
def pick (block : String) (c : Context) (p : Pool) : Scope (Next Point Result) :=
  match candidate? (·.selectable .idle) c p, candidate? (·.selectable .dormant) c p with
  | some r, _ => take block r p
  | none, some r => claim r p
  | none, none => coldOr (.noSandboxAvailable p.config.effectiveMax) p

/-- The error of a sandbox that was terminated while it was woken. -/
def overtaken (id : String) : PoolError := .wakeFailed id "terminated during wake"

/-- Binds a woken sandbox to the block, if the claim on it still stands. -/
def rebind (block id : String) (p : Pool) : Scope (Next Point Result) :=
  if p.claim? id != some .waking then ⟨p, [], .goto (.failed (overtaken id))⟩
  else
    let free := p.dropClaim id
    match free.find? id with
    | none => ⟨free, [], .goto (.failed (.notFound id))⟩
    | some r =>
      let calm := { r with busy := false }
      match calm.move .idle with
      | .error e => ⟨free.put calm, [], .goto (.failed e)⟩
      | .ok idle =>
        let event := Effect.emit (idle.arrived r.state)
        match Spawn.bind block idle (free.put idle) with
        | .error e => ⟨free.put idle, [event], .goto (.failed e)⟩
        | .ok (bound, q, next) =>
          ⟨q.count fun s => { s with wakes := s.wakes + 1 }, [event, .emit next],
            .done (.ok bound.snapshot)⟩

/-- Counts a sandbox that did not wake, which is then terminated. -/
def failed (error : PoolError) (p : Pool) : Scope (Next Point Result) :=
  ⟨p.count fun s => { s with wakeFailures := s.wakeFailures + 1 }, [],
    match error with
    | .wakeFailed id _ => .goto (.retire id error .claim)
    | _ => .goto (.replace error)⟩

/-! ## One sandbox for all blocks -/

def leave (result : Result) (p : Pool) (effects : List Effect) : Scope (Next Point Result) :=
  ⟨{ p with gateHeld := false }, effects, .done result⟩

def find (c : Context) (p : Pool) : Scope (Next Point Result) :=
  match candidate? (·.live) c p with
  | some r => ⟨p, [], .goto (.join r.id)⟩
  | none => ⟨p, [], .goto .reserve⟩

def reserve (p : Pool) : Scope (Next Point Result) :=
  match p.reserve? 1 with
  | none => leave (.error (.noSandboxAvailable 1)) p []
  | some q =>
    ⟨q.count fun s => { s with coldStarts := s.coldStarts + 1 }, [], .goto (.shared .allocate)⟩

/-- Adds the block to those that share the sandbox, which runs from the first of them on. -/
def join (block id : String) (p : Pool) : Scope (Next Point Result) :=
  match p.find? id with
  | none => leave (.error (.notFound id)) p []
  | some r =>
    let bound := { r with block := some block, binders := r.binders + 1 }
    if r.state = .idle then
      let running := { bound with state := .running }
      leave (.ok running.snapshot) (p.put running) [.emit (running.arrived .idle)]
    else
      leave (.ok bound.snapshot)
        ((p.put bound).count fun s => { s with idleHits := s.idleHits + 1 }) []

/-- What an acquisition for a block wants at each point. -/
def demand (config : Config) (block : String) : Point → Demand (Next Point Result)
  | .pick => .scope fun c p => pick block c p
  | .unpause id port => .act .unpause id fun
    | .ok () => .goto (.probe id port)
    | .error cause => .goto (.failed (.wakeFailed id ("unpause failed: " ++ cause.message)))
  | .probe id port => .health port config.probeInterval config.probeTimeout fun
    | .ok () => .goto (.rebind id)
    | .error cause => .goto (.failed (.wakeFailed id ("health check failed: " ++ cause.message)))
  | .rebind id => .scope fun _ p => rebind block id p
  | .failed error => .scope fun _ p => failed error p
  | .retire id error t =>
    (Termination.demand id t).map (.into (.retire id error) fun _ => .goto (.replace error))
  | .replace error => .scope fun _ p => coldOr error p
  | .cold s => (Spawn.demand config ⟨.service, some block⟩ s).map (.into .cold .done)
  | .gate => .gate (.goto .find)
  | .find => .scope fun c p => find c p
  | .reserve => .scope fun _ p => reserve p
  | .shared s => (Spawn.demand config ⟨.shared, none⟩ s).map (.into .shared fun
    | .ok sandbox => .goto (.join sandbox.id)
    | .error e => .goto (.leave e))
  | .join id => .scope fun _ p => join block id p
  | .leave error => .scope fun _ p => leave (.error error) p []

end SandboxPool.Acquire
