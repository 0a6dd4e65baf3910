import SandboxPool.Execution.BlockRun
import SandboxPool.Pool.Batch

/-!
# Executing a plan

An execution runs the lanes of a plan one after the other. A single block runs in the execution
itself; the blocks of a group are members of a team, and their results come in the order in which
they ended.

* Before each lane, before each member and behind each lane the execution asks whether somebody
  wants an abort. An aborted execution tears the pool down.
* A failed block halts a strict plan behind its lane.
* A member that broke off still owes a result: `settleAccounts` gives one to each block that has
  none.
-/

namespace SandboxPool.Execution

/-- What a member of an execution does: it runs a block, or it terminates a sandbox in the
teardown. -/
inductive Duty where
  | run (block : String) (p : BlockRun.Point)
  | terminate (id : String) (t : Termination.Point)
  deriving Repr, Inhabited

inductive Yield where
  | ran (r : BlockResult)
  | terminated
  deriving Repr, Inhabited

/-- How far an execution has come: the lanes that are left, the index of the first of them, the
results so far and the number of lanes that ran to their end. -/
structure Progress where
  id : Uuid
  mode : FailureMode
  rest : List Lane
  index : Nat
  results : List BlockResult
  completed : Nat
  deriving Repr, BEq, Inhabited

/-- The points of an execution. -/
inductive Point where
  | begin
  | lane (s : Progress)
  | solo (s : Progress) (block : String) (p : BlockRun.Point)
  | dispatch (s : Progress) (sent waiting : List String)
  | gather (s : Progress) (sent : List String) (interrupted : Bool)
  | settle (s : Progress) (ran : List BlockResult) (interrupted : Bool)
  | abort (s : Progress) (index : Nat)
  | teardown (s : Progress) (index : Nat)
  | cleared (s : Progress) (index : Nat)
  | finish (s : Progress) (status : Status)
  deriving Repr, Inhabited

/-- What an execution comes to. A plan may be refused. -/
abbrev Result := Except PoolError Report

/-- An execution on its way. The members are named by their block or sandbox. -/
abbrev Run := Team String Duty Yield Point Result

def start : Run := .start .begin

def mismatch (plan pool : Parallelism) : PoolError :=
  .invalidPlan ("plan expects " ++ plan.name ++ " but the pool runs " ++ pool.name)

/-- Passes if the plan can be run by the pool. -/
def check (plan : Plan) (config : Config) : Except PoolError Unit :=
  match plan.check with
  | .error e => .error e
  | .ok () =>
    if plan.parallelism = config.parallelism then .ok ()
    else .error (mismatch plan.parallelism config.parallelism)

/-- Refuses the plan, or draws an identifier and begins. -/
def begin (plan : Plan) (p : Pool) : Scope (Next Point Result) :=
  match check plan p.config with
  | .error e => ⟨p, [], .done (.error e)⟩
  | .ok () =>
    let (id, q) := p.draw
    ⟨q, [.emit (.executionStarted id plan.lanes.length)],
      .goto (.lane ⟨id, plan.failureMode, plan.lanes, 0, [], 0⟩)⟩

/-- Begins the next lane, unless there is none or an abort is wanted. -/
def lane (s : Progress) (c : Context) (p : Pool) : Scope (Next Point Result) :=
  match s.rest with
  | [] => ⟨p, [], .goto (.finish s .completed)⟩
  | lane :: _ =>
    if c.aborted then ⟨p, [], .goto (.abort s s.index)⟩
    else
      ⟨p, [.emit (.laneStarted s.index lane.blocks lane.isGroup lane.merge)],
        match lane with
        | .block id => .goto (.solo s id .begin)
        | .group g => .goto (.dispatch s [] g.blocks)⟩

/-- Hires the next block of a group, unless there is none or an abort is wanted. -/
def dispatch (s : Progress) (sent waiting : List String) (c : Context) (p : Pool) :
    Scope (List (String × Duty) × Next Point Result) :=
  match waiting with
  | [] => ⟨p, [], [], .goto (.gather s sent false)⟩
  | block :: rest =>
    if c.aborted then ⟨p, [], [], .goto (.gather s sent true)⟩
    else ⟨p, [], [(block, .run block .begin)], .goto (.dispatch s (sent ++ [block]) rest)⟩

/-- The results of the members that gave one, in the order in which they ended. -/
def yielded (ended : List (Ended String Yield)) : List BlockResult :=
  ended.filterMap fun e =>
    match e.result with
    | .ok (.ran r) => some r
    | _ => none

/-- The errors of the members that broke off, in the order in which they ended. -/
def losses (lost : Nat → String → String) (ended : List (Ended String Yield)) : List String :=
  ended.filterMap fun e =>
    match e.result with
    | .error message => some (lost e.serial message)
    | .ok _ => none

/-- The results of a group, in which every block that has none gets the error of a member that
broke off. -/
def settleAccounts (lost : Nat → String → String) (sent : List String)
    (ended : List (Ended String Yield)) : List BlockResult :=
  let ran := yielded ended
  let missing := ran.foldl (fun left r => left.erase r.block) sent
  ran ++ (missing.zip (losses lost ended)).map fun (block, error) => .failed block error 0

def errorEvent (index : Nat) (r : BlockResult) : Effect :=
  .emit (.blockError index r.block (r.error.getD ""))

/-- Ends a lane: the plan goes on with the next one, is aborted or is halted. -/
def settle (s : Progress) (ran : List BlockResult) (interrupted : Bool) (c : Context) (p : Pool) :
    Scope (Next Point Result) :=
  let failures := ran.filter fun r => !r.success
  let errors := failures.map (errorEvent s.index)
  let collected := { s with results := s.results ++ ran }
  if interrupted then ⟨p, errors, .goto (.abort collected s.index)⟩
  else
    let events := errors ++
      [.emit (.laneCompleted s.index (ran.length - failures.length) failures.length)]
    let done := { collected with
      rest := s.rest.drop 1, index := s.index + 1, completed := s.completed + 1 }
    if c.aborted then ⟨p, events, .goto (.abort done (s.index + 1))⟩
    else match s.mode, failures with
      | .strict, r :: _ => ⟨p, events, .goto (.finish done (.halted s.index r.block))⟩
      | _, _ => ⟨p, events, .goto (.lane done)⟩

/-- Hires the terminations of a teardown. -/
def teardown (s : Progress) (index : Nat) (p : Pool) :
    Scope (List (String × Duty) × Next Point Result) :=
  match p.liveRecords with
  | [] => ⟨p, [], [], .goto (.finish s (.aborted index))⟩
  | live => ⟨p, [], live.map fun r => (r.id, .terminate r.id .claim), .goto (.cleared s index)⟩

def report (s : Progress) (status : Status) : Report := ⟨s.id, s.results, status, s.completed⟩

def finish (s : Progress) (status : Status) (p : Pool) : Scope (Next Point Result) :=
  ⟨p, [.emit (.executionCompleted s.id status s.results.length)], .done (.ok (report s status))⟩

def member (config : Config) : Duty → Demand (Next Duty Yield)
  | .run block b =>
    (BlockRun.demand config block b).map (.into (.run block) fun r => .done (.ran r))
  | .terminate id t =>
    (Termination.demand id t).map (.into (.terminate id) fun _ => .done .terminated)

/-- What the execution itself wants at each point. -/
def leader (config : Config) (plan : Plan) : Point → Intent String Duty Yield Point Result
  | .begin => .demand (.scope fun _ p => begin plan p)
  | .lane s => .demand (.scope fun c p => lane s c p)
  | .solo s block b => .demand ((BlockRun.demand config block b).map
    (.into (.solo s block) fun r => .goto (.settle s [r] false)))
  | .dispatch s sent waiting => .hire fun c p => dispatch s sent waiting c p
  | .gather s sent interrupted =>
    .join fun c ended =>
      .goto (.settle s (settleAccounts c.leeway.lost sent ended) interrupted)
  | .settle s ran interrupted => .demand (.scope fun c p => settle s ran interrupted c p)
  | .abort s index => .demand (.scope fun _ p =>
    ⟨p, [.emit (.aborted index s.results.length)], .goto (.teardown s index)⟩)
  | .teardown s index => .hire fun _ p => teardown s index p
  | .cleared s index => .join fun _ _ => .goto (.finish s (.aborted index))
  | .finish s status => .demand (.scope fun _ p => finish s status p)

def conduct (config : Config) (plan : Plan) : Conduct String Duty Yield Point Result where
  member _ := member config
  leader := leader config plan

end SandboxPool.Execution
