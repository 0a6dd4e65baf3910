import SandboxPool.Pool.Process

/-!
# Teams

Some operations start others and wait for all of them. A `Team` is a leading process with members
that it started. Every member has a serial number; place 0 of a team is the leader, and place
`n + 1` the member with number `n`.

* The leader may hire members in a scope, and may wait until all have ended (`Intent`).
* `Team.step` and `Team.reply` are the steps of one place. A member that ends is put behind those
  that ended before.
-/

namespace SandboxPool

/-- A member on its way. -/
structure Member (κ σ α : Type) where
  serial : Nat
  task : κ
  strand : Strand σ α

/-- A member that has ended: with a result, or with the message with which it broke off. -/
structure Ended (κ α : Type) where
  serial : Nat
  task : κ
  result : Except String α

/-- What the leader of a team wants at a point. -/
inductive Intent (κ σ α τ β : Type) where
  /-- What any process may want. -/
  | demand (d : Demand (Next τ β))
  /-- Start members in a scope. -/
  | hire (body : Context → Pool → Scope (List (κ × σ) × Next τ β))
  /-- Wait until all members have ended, and go on with what they came to. -/
  | join (next : Context → List (Ended κ α) → Next τ β)

/-- A leading process and the members that it started. -/
structure Team (κ σ α τ β : Type) where
  leader : Strand τ β
  active : List (Member κ σ α)
  /-- Those that have ended, in that order. -/
  ended : List (Ended κ α)
  hired : Nat

/-- What the processes of a team want at each point. -/
structure Conduct (κ σ α τ β : Type) where
  member : κ → σ → Demand (Next σ α)
  leader : τ → Intent κ σ α τ β

namespace Team

variable {κ σ α τ β : Type}

def start (point : τ) : Team κ σ α τ β := ⟨.ready point, [], [], 0⟩

/-- New members, with serial numbers from `n` on. -/
def enrol (n : Nat) : List (κ × σ) → List (Member κ σ α)
  | [] => []
  | (task, point) :: rest => ⟨n, task, .ready point⟩ :: enrol (n + 1) rest

def member? (t : Team κ σ α τ β) (serial : Nat) : Option (Member κ σ α) :=
  t.active.find? (·.serial == serial)

/-- What a strand has come to, if it has ended. -/
def outcome? : Strand σ α → Option (Except String α)
  | .done a => some (.ok a)
  | .panicked message => some (.error message)
  | _ => none

/-- A member got to where its strand is now. -/
def update (t : Team κ σ α τ β) (m : Member κ σ α) (strand : Strand σ α) : Team κ σ α τ β :=
  match outcome? strand with
  | some result =>
    { t with
      active := t.active.filter (·.serial != m.serial)
      ended := t.ended ++ [⟨m.serial, m.task, result⟩] }
  | none =>
    { t with
      active := t.active.map fun old =>
        if old.serial == m.serial then { old with strand := strand } else old }

def lead (intent : Intent κ σ α τ β) (point : τ) (c : Context) (p : Pool) (t : Team κ σ α τ β) :
    Option (Scope (Team κ σ α τ β)) :=
  match intent with
  | .demand d =>
    (Strand.step (fun _ => d) c p (.ready point)).map (.map fun s => { t with leader := s })
  | .hire body =>
    some ((body c p).map fun (tasks, next) =>
      { t with
        leader := .ofNext next
        active := t.active ++ enrol t.hired tasks
        hired := t.hired + tasks.length })
  | .join next =>
    if t.active.isEmpty then some ⟨p, [], { t with leader := .ofNext (next c t.ended), ended := [] }⟩
    else none

/-- A step of a place. -/
def step (conduct : Conduct κ σ α τ β) (c : Context) (p : Pool) (t : Team κ σ α τ β) :
    Nat → Option (Scope (Team κ σ α τ β))
  | 0 =>
    match t.leader with
    | .ready point => t.lead (conduct.leader point) point c p
    | _ => none
  | n + 1 =>
    (t.member? n).bind fun m =>
      (m.strand.step (conduct.member m.task) c p).map (.map (t.update m))

/-- A place gets its reply. -/
def reply (conduct : Conduct κ σ α τ β) (r : Reply) (t : Team κ σ α τ β) :
    Nat → Option (Team κ σ α τ β)
  | 0 =>
    match t.leader with
    | .waiting point =>
      match conduct.leader point with
      | .demand d => (d.answer? r).map fun next => { t with leader := .ofNext next }
      | _ => none
    | _ => none
  | n + 1 =>
    (t.member? n).bind fun m => (m.strand.reply (conduct.member m.task) r).map (t.update m)

/-- What a place asks for or waits for. -/
def ask? (conduct : Conduct κ σ α τ β) (t : Team κ σ α τ β) : Nat → Option Ask
  | 0 =>
    match t.leader with
    | .ready point | .waiting point =>
      match conduct.leader point with
      | .demand d => d.ask?
      | _ => none
    | _ => none
  | n + 1 => (t.member? n).bind fun m => m.strand.ask? (conduct.member m.task)

/-- A place is before the gate. -/
def atGate (conduct : Conduct κ σ α τ β) (t : Team κ σ α τ β) : Nat → Bool
  | 0 =>
    match t.leader with
    | .ready point =>
      match conduct.leader point with
      | .demand d => d.isGate
      | _ => false
    | _ => false
  | n + 1 => (t.member? n).any fun m => m.strand.atGate (conduct.member m.task)

def places (t : Team κ σ α τ β) : List Nat := t.active.map (·.serial + 1)

end Team

end SandboxPool
