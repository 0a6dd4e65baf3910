import SandboxPool.Execution.Basic

/-!
# A pool at work

A `Machine` is a pool with the operations under way, the clock, the ends that are set for paused
sandboxes, and the wish for an abort. It moves in single steps (`Move`), in any order: that is all
that can happen to a pool, however its operations interleave.

* `Machine.next` is what a move leads to, or nothing if it cannot happen.
* `Machine.run` follows a list of moves and notes what could be seen.
-/

namespace SandboxPool

/-- What a caller can order. -/
inductive Order where
  | acquire (block : String)
  | release (id : String)
  | terminate (id : String)
  | prewarm (count : Nat)
  | teardown
  | cleanup
  | execute (plan : Plan)
  deriving Repr, BEq, Inhabited

/-- An operation under way. -/
inductive Activity where
  | acquire (block : String) (s : Strand Acquire.Point Acquire.Result)
  | release (id : String) (s : Strand Release.Point Release.Result)
  | terminate (id : String) (s : Strand Termination.Point Termination.Result)
  | prewarm (count : Nat) (t : Prewarm.Run)
  | teardown (t : Teardown.Run)
  | cleanup (t : Cleanup.Run)
  | execute (plan : Plan) (t : Execution.Run)

namespace Activity

def ofOrder (config : Config) : Order → Activity
  | .acquire block => acquire block (.ready (Acquire.start config))
  | .release id => release id (.ready (Release.start config))
  | .terminate id => terminate id (.ready .claim)
  | .prewarm count => prewarm count (Prewarm.start config)
  | .teardown => teardown Teardown.start
  | .cleanup => cleanup Cleanup.start
  | .execute plan => execute plan Execution.start

/-- A single process has no other place than 0. -/
def only {β : Type} (place : Nat) (x : Option β) : Option β := if place = 0 then x else none

def step (config : Config) (c : Context) (p : Pool) (place : Nat) :
    Activity → Option (Scope Activity)
  | acquire block s =>
    only place ((s.step (Acquire.demand config block) c p).map (.map (acquire block)))
  | release id s => only place ((s.step (Release.demand id) c p).map (.map (release id)))
  | terminate id s => only place ((s.step (Termination.demand id) c p).map (.map (terminate id)))
  | prewarm count t => (t.step (Prewarm.conduct config count) c p place).map (.map (prewarm count))
  | teardown t => (t.step Teardown.conduct c p place).map (.map teardown)
  | cleanup t => (t.step Cleanup.conduct c p place).map (.map cleanup)
  | execute plan t => (t.step (Execution.conduct config plan) c p place).map (.map (execute plan))

def reply (config : Config) (r : Reply) (place : Nat) : Activity → Option Activity
  | acquire block s => only place ((s.reply (Acquire.demand config block) r).map (acquire block))
  | release id s => only place ((s.reply (Release.demand id) r).map (release id))
  | terminate id s => only place ((s.reply (Termination.demand id) r).map (terminate id))
  | prewarm count t => (t.reply (Prewarm.conduct config count) r place).map (prewarm count)
  | teardown t => (t.reply Teardown.conduct r place).map teardown
  | cleanup t => (t.reply Cleanup.conduct r place).map cleanup
  | execute plan t => (t.reply (Execution.conduct config plan) r place).map (execute plan)

def ask? (config : Config) (place : Nat) : Activity → Option Ask
  | acquire block s => only place (s.ask? (Acquire.demand config block))
  | release id s => only place (s.ask? (Release.demand id))
  | terminate id s => only place (s.ask? (Termination.demand id))
  | prewarm count t => t.ask? (Prewarm.conduct config count) place
  | teardown t => t.ask? Teardown.conduct place
  | cleanup t => t.ask? Cleanup.conduct place
  | execute plan t => t.ask? (Execution.conduct config plan) place

def places : Activity → List Nat
  | acquire .. | release .. | terminate .. => []
  | prewarm _ t => t.places
  | teardown t => t.places
  | cleanup t => t.places
  | execute _ t => t.places

def atGate (config : Config) (place : Nat) : Activity → Bool
  | acquire block s => place == 0 && s.atGate (Acquire.demand config block)
  | release .. | terminate .. | teardown .. | cleanup .. => false
  | prewarm count t => t.atGate (Prewarm.conduct config count) place
  | execute plan t => t.atGate (Execution.conduct config plan) place

def ended : Activity → Bool
  | acquire _ s => s.ended
  | release _ s => s.ended
  | terminate _ s => s.ended
  | prewarm _ t => t.leader.ended
  | teardown t => t.leader.ended
  | cleanup t => t.leader.ended
  | execute _ t => t.leader.ended

end Activity

/-- An end that is set for a paused sandbox. -/
structure Alarm where
  id : String
  generation : Nat
  due : Instant
  deriving Repr, DecidableEq, Inhabited

/-- A pool at work. -/
structure Machine where
  pool : Pool
  now : Instant
  aborted : Bool
  /-- The operations in the order in which they started, each with its number. -/
  activities : List (Nat × Activity)
  started : Nat
  alarms : List Alarm
  leeway : Leeway

/-- One thing that can happen. -/
inductive Move where
  | order (o : Order)
  /-- A place of an operation takes a step. -/
  | step (activity place : Nat)
  /-- A place of an operation gets its reply. -/
  | reply (activity place : Nat) (r : Reply)
  /-- The time of a paused sandbox has come. -/
  | fire (generation : Nat)
  | abort
  | advance (nanos : Nat)
  /-- The order of the records and the words for lost tasks are others from now on. -/
  | vary (leeway : Leeway)

/-- What can be seen of a move. -/
inductive Note where
  | event (e : Event)
  | asked (a : Ask)
  deriving Repr, BEq, Inhabited

namespace Machine

/-- A pool that does nothing yet. Its leeway is the usual one until a move varies it. -/
def ofPool (p : Pool) (now : Instant) : Machine := ⟨p, now, false, [], 0, [], .usual⟩

/-- The executor of a pool over a daemon of some name, in one line. -/
def describe (m : Machine) (backend : String) : String :=
  "LaneExecutor \x7b pool: " ++ m.pool.describe backend ++ ", aborted: " ++ toString m.aborted
    ++ " \x7d"

/-- What atomic scopes can see. -/
def context (m : Machine) : Context := ⟨m.now, m.aborted, m.leeway⟩

/-- The operation with a number. -/
def activity? (m : Machine) (n : Nat) : Option Activity :=
  (m.activities.find? (·.1 == n)).map (·.2)

/-- An operation got to where it is now. -/
def put (m : Machine) (n : Nat) (a : Activity) : Machine :=
  { m with activities := m.activities.map fun old => if old.1 == n then (n, a) else old }

/-- What an effect does to the machine. -/
def apply (m : Machine) : Effect → Machine
  | .emit _ => m
  | .arm id generation due => { m with alarms := m.alarms ++ [⟨id, generation, due⟩] }
  | .disarm generation => { m with alarms := m.alarms.filter (·.generation != generation) }

def events (effects : List Effect) : List Note :=
  effects.filterMap fun
    | .emit e => some (.event e)
    | _ => none

/-- The machine behind a scope of an operation. -/
def settle (m : Machine) (n : Nat) (s : Scope Activity) : Machine :=
  s.effects.foldl apply ({ m with pool := s.pool }.put n s.result)

/-- A step of a place of an operation. -/
def stepAt (m : Machine) (n place : Nat) : Option (Machine × List Note) :=
  (m.activity? n).bind fun a =>
    (a.step m.pool.config m.context m.pool place).map fun s =>
      (m.settle n s,
        ((a.ask? m.pool.config place).map Note.asked).toList ++ events s.effects)

def start (m : Machine) (a : Activity) : Machine :=
  { m with activities := m.activities ++ [(m.started, a)], started := m.started + 1 }

/-- The termination of a paused sandbox whose time has come takes its first step. -/
def expire (m : Machine) (alarm : Alarm) : Option (Machine × List Note) :=
  let calm := { m with alarms := m.alarms.filter (·.generation != alarm.generation) }
  (calm.start (.terminate alarm.id (.ready (.expire alarm.generation)))).stepAt m.started 0

/-- What a move leads to, with what can be seen of it. -/
def next (m : Machine) : Move → Option (Machine × List Note)
  | .order o => some (m.start (.ofOrder m.pool.config o), [])
  | .step n place => m.stepAt n place
  | .reply n place r =>
    (m.activity? n).bind fun a =>
      (a.reply m.pool.config r place).map fun b => (m.put n b, [])
  | .fire generation =>
    (m.alarms.find? (·.generation == generation)).bind fun alarm =>
      if alarm.due ≤ m.now then m.expire alarm else none
  | .abort => some ({ m with aborted := true }, [])
  | .advance nanos => some ({ m with now := m.now + nanos }, [])
  | .vary leeway => some ({ m with leeway := leeway }, [])

/-- Follows moves, as long as each of them can happen. -/
def run (m : Machine) : List Move → Option (Machine × List Note)
  | [] => some (m, [])
  | move :: rest =>
    (m.next move).bind fun (m', notes) =>
      (m'.run rest).map fun (last, more) => (last, notes ++ more)

/-- No operation is under way. -/
def quiet (m : Machine) : Bool := m.activities.all (·.2.ended)

/-- Forgets an operation that has ended. -/
def dismiss (m : Machine) (n : Nat) : Machine :=
  { m with activities := m.activities.filter (·.1 != n) }

theorem next_abort (m : Machine) : m.next .abort = some ({ m with aborted := true }, []) := rfl

end Machine

end SandboxPool
