import SandboxPool.Machine

/-!
# Simulated time

A `Simulation` is a machine in a world that answers what it asks for. Time does not pass while
anything can be done: it jumps to the next instant at which something is due.

* A process goes on until it has to wait.
* What can be done at one instant is done in rounds. A round gives each errand its turn, in the
  order in which they are numbered, and then does what goes on beside the errands, in the order in
  which it began to wait. An errand that can go on only after its turn waits for the next round.
* Members that an operation waits for at once go on inside it, one after the other; the blocks of a
  group go on beside it.
* The gate lets in those who wait for it in the order in which they came.
-/

namespace SandboxPool

/-- How the world takes up what is asked for: it has the reply ready after a delay in nanoseconds.
It may ask for an abort. -/
structure Opened (ω τ : Type) where
  world : ω
  delay : Nat
  ticket : τ
  aborts : Bool

/-- How the world replies. It may ask for an abort. -/
structure Closed (ω : Type) where
  world : ω
  reply : Reply
  aborts : Bool

/-- The rules of a world. -/
structure Rules (ω τ : Type) where
  take : ω → Ask → Opened ω τ
  reply : ω → Ask → τ → Closed ω

/-- What is wanted of a simulation. -/
inductive Errand (ω : Type) where
  /-- Order an operation, which may depend on the pool. -/
  | order (o : Pool → Order)
  | look (id : Pool → String)
  | abort
  | change (f : ω → ω)
  | sleep (nanos : Nat)

/-- What comes of an errand. -/
inductive Answer where
  | ended (a : Activity)
  | seen (s : Option Snapshot)
  | done

/-- Something to be done. -/
inductive Item (ω τ : Type) where
  /-- A place of an operation goes on. -/
  | run (activity place : Nat)
  /-- A place of an operation gets its reply. -/
  | wake (activity place : Nat) (ticket : τ)
  /-- An end set for a paused sandbox is waited for. -/
  | alarm (generation : Nat)
  /-- An errand starts after a delay in nanoseconds. -/
  | errand (tag delay : Nat) (e : Errand ω)
  | answer (tag : Nat)

/-- The turn of an errand, and within it of a place of its operation. -/
structure Turn where
  tag : Nat
  place : Nat
  deriving Repr, DecidableEq, Inhabited

/-- One turn comes before another in a round. What goes on beside the errands has no turn and comes
last. -/
def Turn.before : Option Turn → Option Turn → Bool
  | some a, some b => a.tag < b.tag || a.tag == b.tag && a.place < b.place
  | some _, none => true
  | none, _ => false

theorem Turn.before_irrefl (t : Option Turn) : Turn.before t t = false := by
  cases t <;> simp [Turn.before]

/-- A machine in a world. -/
structure Simulation (ω τ : Type) where
  machine : Machine
  world : ω
  /-- What is left of the round, in order. -/
  ready : List (Item ω τ)
  /-- What the errands do in the next round. -/
  waiting : List (Item ω τ)
  turn : Option Turn
  /-- What is due later, in the order in which it began to wait. -/
  asleep : List (Instant × Item ω τ)
  /-- The places before the gate, in the order in which they came. -/
  gate : List (Nat × Nat)
  /-- The errands that wait for an operation, with the number of the operation. -/
  errands : List (Nat × Nat)
  answers : List (Nat × Answer)
  /-- What could be seen, latest first. -/
  notes : List Note

namespace Simulation

variable {ω τ : Type}

/-- A pool in a world, where nothing has happened yet. -/
def ofPool (p : Pool) (now : Instant) (world : ω) : Simulation ω τ :=
  ⟨.ofPool p now, world, [], [], none, [], [], [], [], []⟩

/-- The members that an operation does not wait for at once: the blocks of a group. -/
def beside : Activity → Nat → Bool
  | .execute _ t, n + 1 =>
    match t.member? n with
    | some ⟨_, _, .ready (.run ..)⟩ => true
    | some ⟨_, _, .waiting (.run ..)⟩ => true
    | _ => false
  | _, _ => false

/-- The turn of a place of an operation, if an errand waits for it at once. -/
def placeTurn (s : Simulation ω τ) (n place : Nat) : Option Turn :=
  if (s.machine.activity? n).any (beside · place) then none
  else (s.errands.find? (·.2 == n)).map fun e => ⟨e.1, place⟩

def turnOf (s : Simulation ω τ) : Item ω τ → Option Turn
  | .run n place => s.placeTurn n place
  | .wake n place _ => s.placeTurn n place
  | .errand tag _ _ => some ⟨tag, 0⟩
  | .answer tag => some ⟨tag, 0⟩
  | .alarm _ => none

def first (s : Simulation ω τ) (items : List (Item ω τ)) : Simulation ω τ :=
  { s with ready := items ++ s.ready }

/-- Puts an item where its turn comes. -/
def place (s : Simulation ω τ) (item : Item ω τ) (items : List (Item ω τ)) : List (Item ω τ) :=
  let sooner (i : Item ω τ) : Bool := !Turn.before (s.turnOf item) (s.turnOf i)
  items.takeWhile sooner ++ item :: items.dropWhile sooner

/-- Nothing is lost or added when an item is put in its place. -/
theorem place_perm (s : Simulation ω τ) (item : Item ω τ) (items : List (Item ω τ)) :
    (s.place item items).Perm (item :: items) := by
  unfold place
  refine List.perm_middle.trans (List.Perm.cons item ?_)
  rw [List.takeWhile_append_dropWhile]

/-- An item can be done from now on: when its turn comes, which may be in the next round. -/
def enqueue (s : Simulation ω τ) (item : Item ω τ) : Simulation ω τ :=
  if (s.turnOf item).isNone || Turn.before s.turn (s.turnOf item) then
    { s with ready := s.place item s.ready }
  else { s with waiting := s.place item s.waiting }

def round (s : Simulation ω τ) (items : List (Item ω τ)) : Simulation ω τ :=
  items.foldl (fun s item => { s with ready := s.place item s.ready }) s

def last (s : Simulation ω τ) (items : List (Item ω τ)) : Simulation ω τ := items.foldl enqueue s

def later (s : Simulation ω τ) (due : Instant) (item : Item ω τ) : Simulation ω τ :=
  { s with asleep := s.asleep ++ [(due, item)] }

def answer (s : Simulation ω τ) (tag : Nat) (a : Answer) : Simulation ω τ :=
  { s with answers := s.answers ++ [(tag, a)] }

def answer? (s : Simulation ω τ) (tag : Nat) : Option Answer :=
  (s.answers.find? (·.1 == tag)).map (·.2)

def abortIf (s : Simulation ω τ) (wanted : Bool) : Simulation ω τ :=
  if wanted then
    match s.machine.next .abort with
    | some (m, _) => { s with machine := m }
    | none => s
  else s

/-- Asks the world for something. -/
def ask (rules : Rules ω τ) (n place : Nat) (a : Ask) (s : Simulation ω τ) : Simulation ω τ :=
  let opened := rules.take s.world a
  let taken := { s with world := opened.world }.abortIf opened.aborts
  let wake := Item.wake n place opened.ticket
  if opened.delay = 0 then taken.first [wake]
  else taken.later (taken.machine.now + opened.delay) wake

/-- Lets the next one in, if the gate was opened. -/
def letIn (before : Pool) (s : Simulation ω τ) : Simulation ω τ :=
  if before.gateHeld && !s.machine.pool.gateHeld then
    match s.gate with
    | [] => s
    | (n, place) :: rest =>
      match s.machine.next (.step n place) with
      | some (m, _) => { s with machine := m, gate := rest }.last [.run n place]
      | none => { s with gate := rest }
  else s

/-- Hands over the result of an operation that has ended; one that nobody waits for is forgotten. -/
def harvest (n : Nat) (s : Simulation ω τ) : Simulation ω τ :=
  match s.machine.activity? n with
  | some a =>
    if a.ended then
      let gone := { s with machine := s.machine.dismiss n }
      match s.errands.find? (·.2 == n) with
      | some (tag, _) => gone.answer tag (.ended a)
      | none => gone
    else s
  | none => s

/-- Goes on behind a move of a place, where `old` is the operation before it. -/
def follow (rules : Rules ω τ) (n place : Nat) (old : Activity) (before : Machine)
    (notes : List Note) (s : Simulation ω τ) : Simulation ω τ :=
  match s.machine.activity? n with
  | none => s
  | some new =>
    let armed := s.machine.alarms.filter fun a => before.pool.generation ≤ a.generation
    let s := s.last (armed.map fun a => .alarm a.generation)
    let s := s.letIn before.pool
    let asked := notes.findSome? fun
      | .asked a => some a
      | _ => none
    match asked with
    | some a => s.ask rules n place a
    | none =>
      let hired := new.places.filter fun q => !old.places.contains q
      let (outside, inside) := hired.partition (beside new)
      let s := s.last (outside.map (.run n))
      let s := s.first (inside.map (.run n) ++ [.run n place])
      let s :=
        if old.places.contains place && !new.places.contains place then
          if beside old place then s.last [.run n 0] else s.first [.run n 0]
        else s
      s.harvest n

/-- A place of an operation takes a step, if it can. -/
def run (rules : Rules ω τ) (n place : Nat) (s : Simulation ω τ) : Simulation ω τ :=
  match s.machine.activity? n with
  | none => s
  | some old =>
    match s.machine.next (.step n place) with
    | some (m, notes) =>
      { s with machine := m, notes := notes.reverse ++ s.notes }.follow rules n place old s.machine notes
    | none =>
      if old.atGate s.machine.pool.config place && !s.gate.contains (n, place) then
        { s with gate := s.gate ++ [(n, place)] }
      else s

/-- A place of an operation gets its reply. -/
def wake (rules : Rules ω τ) (n place : Nat) (ticket : τ) (s : Simulation ω τ) :
    Simulation ω τ :=
  match s.machine.activity? n with
  | none => s
  | some old =>
    match old.ask? s.machine.pool.config place with
    | none => s
    | some a =>
      let closed := rules.reply s.world a ticket
      let s := { s with world := closed.world }.abortIf closed.aborts
      match s.machine.next (.reply n place closed.reply) with
      | some (m, notes) => { s with machine := m }.follow rules n place old s.machine notes
      | none => s

/-- An end set for a paused sandbox has come, or is waited for. -/
def alarm (rules : Rules ω τ) (generation : Nat) (s : Simulation ω τ) : Simulation ω τ :=
  match s.machine.alarms.find? (·.generation == generation) with
  | none => s
  | some a =>
    if a.due ≤ s.machine.now then
      match s.machine.next (.fire generation) with
      | some (m, notes) =>
        { s with machine := m, notes := notes.reverse ++ s.notes }.follow rules s.machine.started 0
          (.terminate a.id (.ready (.expire generation))) s.machine notes
      | none => s
    else s.later a.due (.alarm generation)

def errand (tag : Nat) (s : Simulation ω τ) : Errand ω → Simulation ω τ
  | .order o =>
    match s.machine.next (.order (o s.machine.pool)) with
    | some (m, _) =>
      { s with machine := m, errands := s.errands ++ [(tag, s.machine.started)] }.first
        [.run s.machine.started 0]
    | none => s
  | .look id => s.answer tag (.seen (s.machine.pool.get? (id s.machine.pool)))
  | .abort => (s.abortIf true).answer tag .done
  | .change f => { s with world := f s.world }.answer tag .done
  | .sleep nanos =>
    if nanos = 0 then s.answer tag .done else s.later (s.machine.now + nanos) (.answer tag)

def perform (rules : Rules ω τ) (s : Simulation ω τ) : Item ω τ → Simulation ω τ
  | .run n place => s.run rules n place
  | .wake n place ticket => s.wake rules n place ticket
  | .alarm generation => s.alarm rules generation
  | .errand tag delay e =>
    if delay = 0 then s.errand tag e else s.later (s.machine.now + delay) (.errand tag 0 e)
  | .answer tag => s.answer tag .done

/-- Does what can be done now, at most so many things. -/
def drain (rules : Rules ω τ) : Nat → Simulation ω τ → Simulation ω τ
  | 0, s => s
  | fuel + 1, s =>
    match s.ready, s.waiting with
    | item :: rest, _ =>
      drain rules fuel ({ s with ready := rest, turn := s.turnOf item }.perform rules item)
    | [], [] => { s with turn := none }
    | [], waiting => drain rules fuel { s with ready := waiting, waiting := [] }

def nextDue (s : Simulation ω τ) : Option Instant := (s.asleep.map (·.1)).min?

/-- Lets time pass until an instant, at which what is due can be done. -/
def reach (due : Instant) (s : Simulation ω τ) : Simulation ω τ :=
  let (current, later) := s.asleep.partition fun w => w.1 ≤ due
  let items : List (Item ω τ) := current.map Prod.snd
  match s.machine.next (.advance (due - s.machine.now)) with
  | some (m, _) => { s with machine := m, asleep := later }.round items
  | none => s

/-- More things than any simulation does in one go. -/
def limit : Nat := 1000000000

/-- Goes on, from one due instant to the next, until all errands have their answers. -/
def complete (rules : Rules ω τ) (tags : List Nat) : Nat → Simulation ω τ → Simulation ω τ
  | 0, s => s
  | fuel + 1, s =>
    let idle := s.drain rules limit
    if tags.all fun tag => (idle.answer? tag).isSome then idle
    else match idle.nextDue with
      | none => idle
      | some due => complete rules tags fuel (idle.reach due)

/-- Errands with their delays, numbered from `tag` on. -/
def launched (tag : Nat) : List (Nat × Errand ω) → List (Item ω τ)
  | [] => []
  | (delay, e) :: rest => .errand tag delay e :: launched (tag + 1) rest

/-- Runs errands that start after delays in nanoseconds, until all are done and nothing more can be
done at that instant. An errand is known by its place in the list. -/
def runErrands (rules : Rules ω τ) (errands : List (Nat × Errand ω)) (s : Simulation ω τ) :
    Simulation ω τ :=
  let fresh := { s with errands := [], answers := [], notes := [] }
  (fresh.round (launched 0 errands)).complete rules (List.range errands.length) limit

def log (s : Simulation ω τ) : List Note := s.notes.reverse

end Simulation

end SandboxPool
