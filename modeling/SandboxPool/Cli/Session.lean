import SandboxPool.Cli.Arguments
import SandboxPool.BlockService
import SandboxPool.Docker.Answer
import SandboxPool.Docker.Request
import SandboxPool.Health
import SandboxPool.Simulation

/-!
# Sessions of the command line

A session carries out one command. It reads files, talks to the daemon and to the services of its
sandboxes (`Surroundings`), prints, and ends well or with a `Failure`.

* `Session.carryOut` is what a command does.
* A run checks its settings and reads its files before it talks to the daemon. It removes what
  earlier runs left behind, starts sandboxes ahead if that is wanted, executes the plan, and tears
  the pool down, whatever came of the plan.
-/

namespace SandboxPool.Cli

/-- What a session finds around it. -/
structure Surroundings where
  file : String → Option String
  /-- There is something at a path. -/
  existing : String → Bool
  /-- The answer of the daemon at a socket to the request of a number, if it can be reached. -/
  daemon : String → Nat → Option Http.Response
  /-- What becomes of the exchange of a number with the service behind a port. -/
  service : UInt16 → Nat → Exchange
  /-- The probe of a number of the service behind a port. -/
  probe : UInt16 → Nat → Probe
  now : Instant
  seed : BitVec 128

/-- Why a session does not end well. -/
inductive Failure where
  /-- There is no such level for the log. -/
  | logLevel
  | settings (e : SettingsError)
  /-- A file cannot be read; it is named after what it should hold. -/
  | unreadable (what path : String)
  /-- A file does not hold what it should. -/
  | malformed (what path : String)
  | unreachable (socket : String)
  | daemon (e : DaemonError)
  | pool (e : PoolError)
  /-- Not every block of the plan succeeded, or not every lane ran. -/
  | incomplete (status : Status)
  /-- The executor broke off. -/
  | panicked (message : String)
  deriving Repr, DecidableEq, Inhabited

namespace Failure

def message : Failure → String
  | logLevel => "invalid filter directive"
  | settings e => e.message
  | unreadable what path => "reading " ++ what ++ " " ++ path
  | malformed what path => "parsing " ++ what ++ " " ++ path
  | unreachable socket => "docker daemon not reachable at " ++ socket
  | daemon e => e.message
  | pool e => e.message
  | incomplete status => "plan did not complete successfully: " ++ status.text
  | panicked message => message

def exitCode : Failure → Nat
  | panicked _ => 101
  | _ => 1

end Failure

inductive Printed where
  | line (s : String)
  | event (e : Event)
  | report (r : Report)
  deriving Repr, BEq, Inhabited

def Printed.text : Printed → String
  | line s => s ++ "\n"
  | event e => e.line ++ "\n"
  | report r => r.json.pretty ++ "\n"

/-- What was sent so far, latest first. -/
structure Traffic where
  toDaemon : List Http.Request := []
  toServices : List Http.Request := []
  deriving Repr, BEq, Inhabited

/-! ## The world of a pool -/

/-- The reply to a call, from the answer of the daemon. -/
def replyOf (call : Call) (r : Http.Response) : Reply :=
  match call with
  | .create spec => .created (Docker.created spec r)
  | .act action id => .acted (Docker.acted action id r)
  | .list _ => .listed (Docker.listed r)
  | .health .. => .acted (.ok ())

/-- The reply to a call that came to nothing. -/
def failedReply (call : Call) (e : DaemonError) : Reply :=
  match call with
  | .create _ => .created (.error e)
  | .list _ => .listed (.error e)
  | _ => .acted (.error e)

/-- The nanoseconds of an exchange with the daemon. -/
def exchangeTime : Nat := 1000000

/-- Sends a request to the daemon. -/
def send (around : Surroundings) (socket : String) (request : Option Http.Request) (t : Traffic) :
    Traffic × Except DaemonError Http.Response :=
  match request with
  | none => (t, .error (.request "the address cannot be written"))
  | some r =>
    match around.daemon socket t.toDaemon.length with
    | none => (t, .error (Docker.unreachable socket))
    | some response => ({ t with toDaemon := r :: t.toDaemon }, .ok response)

def runEnd (r : Except RunError Outcome) : RunEnd :=
  match r with
  | .ok o => .outcome o
  | .error e => .failed e.message

/-- Takes up what a pool asks for. The reply is settled when it is asked for. -/
def take (around : Surroundings) (s : Settings) (inputs : List (String × Json.Value)) (t : Traffic) :
    Ask → Opened Traffic Reply
  | .daemon (.health port interval timeout) =>
    let verdict := waitHealthy interval timeout (around.probe port)
    ⟨t, verdict.elapsed, .acted (verdict.result port timeout), false⟩
  | .daemon call =>
    let (t, response) := send around s.socket (Docker.callRequest? s.socket call) t
    match response with
    | .ok r => ⟨t, exchangeTime, replyOf call r, false⟩
    | .error e => ⟨t, exchangeTime, failedReply call e, false⟩
  | .run sandbox block =>
    let input := ((inputs.find? (·.1 == block)).map (·.2)).getD .null
    let exchange := around.service sandbox.port t.toServices.length
    let request := runRequest block sandbox.id input
    let timeout := Duration.ofMillis s.blockTimeoutMs
    ⟨if exchange.connected then { t with toServices := request :: t.toServices } else t,
      exchange.nanos timeout,
      .ran ⟨false, runEnd (runOutcome sandbox.address block timeout exchange)⟩, false⟩

def rules (around : Surroundings) (s : Settings) (inputs : List (String × Json.Value)) :
    Rules Traffic Reply :=
  ⟨take around s inputs, fun t _ r => ⟨t, r, false⟩⟩

/-! ## Commands -/

/-- What became of a command. -/
structure Session where
  printed : List Printed
  traffic : Traffic
  failure : Option Failure
  deriving Repr, BEq, Inhabited

namespace Session

/-- Ends before anything was sent. -/
def refused (f : Failure) : Session := ⟨[], {}, some f⟩

def connect (around : Surroundings) (s : Settings) : Traffic × Except Failure Unit :=
  let (t, response) := send around s.socket (Docker.pingRequest? s.socket) {}
  match response.bind Docker.pinged with
  | .ok () => (t, .ok ())
  | .error _ => (t, .error (.unreachable s.socket))

/-- The rest of a session behind a successful ping. -/
def connected (around : Surroundings) (s : Settings) (rest : Traffic → Session) : Session :=
  match connect around s with
  | (t, .ok ()) => rest t
  | (t, .error f) => ⟨[], t, some f⟩

def column (width : Nat) (s : String) : String := s.pushn ' ' (width - s.length)

def row (id state image name : String) : Printed :=
  .line (column 14 id ++ " " ++ column 10 state ++ " " ++ column 30 image ++ " " ++ name)

/-- The first name of a container, without the slashes in front of it. -/
def shownName (c : ContainerSummary) : String :=
  String.ofList ((c.names.headD "").toList.dropWhile (· == '/'))

def table (containers : List ContainerSummary) : List Printed :=
  match containers with
  | [] => [.line "no skiff sandboxes"]
  | containers =>
    row "ID" "STATE" "IMAGE" "NAME"
      :: containers.map fun c => row (shortId c.id) c.state c.image (shownName c)

/-- Lists the sandboxes of all pools. -/
def status (around : Surroundings) (s : Settings) : Session :=
  connected around s fun t =>
    let call := Call.list .owned
    let (t, response) := send around s.socket (Docker.callRequest? s.socket call) t
    match response.bind Docker.listed with
    | .ok containers => ⟨table containers, t, none⟩
    | .error e => ⟨[], t, some (.daemon e)⟩

def check (around : Surroundings) (s : Settings) : Session :=
  match s.check around.existing with
  | .error e => refused (.settings e)
  | .ok () => connected around s fun t =>
    ⟨[.line ("ok: docker backend at " ++ s.socket ++ ", image " ++ s.image)], t, none⟩

abbrev Work := Simulation Traffic Reply

/-- A new pool that was pinged for. -/
def work (around : Surroundings) (config : Config) (t : Traffic) : Work :=
  .ofPool (.ofConfig config around.seed) around.now t

def order (around : Surroundings) (s : Settings) (inputs : List (String × Json.Value)) (o : Order)
    (w : Work) : Work :=
  w.runErrands (rules around s inputs) [(0, .order fun _ => o)]

def removed (w : Work) : Nat :=
  match w.answer? 0 with
  | some (.ended (.cleanup ⟨.done n, _, _, _⟩)) => n
  | _ => 0

def cleanup (around : Surroundings) (s : Settings) : Session :=
  connected around s fun t =>
    match s.poolConfig with
    | .error e => ⟨[], t, some (.settings e)⟩
    | .ok config =>
      let w := order around s [] .cleanup (work around config t)
      ⟨[.line ("removed " ++ toString (removed w) ++ " sandbox(es)")], w.world, none⟩

def eventsOf (w : Work) : List Printed :=
  w.log.filterMap fun
    | .event e => some (.event e)
    | .asked _ => none

/-- What came of the plan. -/
def finished (w : Work) : Except Failure Report :=
  match w.answer? 0 with
  | some (.ended (.execute _ ⟨.done (.ok report), _, _, _⟩)) => .ok report
  | some (.ended (.execute _ ⟨.done (.error e), _, _, _⟩)) => .error (.pool e)
  | some (.ended (.execute _ ⟨.panicked message, _, _, _⟩)) => .error (.panicked message)
  | _ => .error (.panicked "the execution did not end")

/-- Executes a plan with a pool of its own. -/
def execute (around : Surroundings) (s : Settings) (config : Config) (plan : Plan)
    (inputs : List (String × Json.Value)) (events : Bool) (t : Traffic) : Session :=
  let order := order around s inputs
  let cleaned := order .cleanup (work around config t)
  let warm := if 0 < s.prewarm then order (.prewarm s.prewarm) cleaned else cleaned
  let ran := order (.execute plan) warm
  let clear := order .teardown ran
  let before := eventsOf cleaned ++ (if 0 < s.prewarm then eventsOf warm else []) ++ eventsOf ran
  let shown (es : List Printed) : List Printed := if events then es else []
  match finished ran with
  | .error (.panicked message) => ⟨shown before, ran.world, some (.panicked message)⟩
  | .error f => ⟨shown (before ++ eventsOf clear), clear.world, some f⟩
  | .ok report =>
    ⟨shown (before ++ eventsOf clear) ++ [.report report], clear.world,
      if report.isSuccess then none else some (.incomplete report.status)⟩

/-- Reads a file that should hold something. -/
def readFile {α : Type} (around : Surroundings) (what path : String) (d : Json.Decoder α) :
    Except Failure α :=
  match around.file path with
  | none => .error (.unreadable what path)
  | some text =>
    match Json.decodeText d text with
    | some a => .ok a
    | none => .error (.malformed what path)

def readFiles (around : Surroundings) (plan : String) (inputs : Option String) :
    Except Failure (Plan × List (String × Json.Value)) :=
  match readFile around "plan" plan Plan.decode, inputs with
  | .error f, _ => .error f
  | .ok p, none => .ok (p, [])
  | .ok p, some path => (readFile around "inputs" path Json.valueMap).map fun m => (p, m)

/-- Runs a plan. -/
def run (around : Surroundings) (s : Settings) (plan : String) (inputs : Option String)
    (events : Bool) : Session :=
  match s.poolConfig with
  | .error e => refused (.settings e)
  | .ok config =>
    match readFiles around plan inputs with
    | .error f => refused f
    | .ok (plan, inputs) => connected around s (execute around s config plan inputs events)

/-- The levels of the log, which may also be given by their numbers. -/
def logLevels : List String :=
  ["off", "error", "warn", "info", "debug", "trace", "0", "1", "2", "3", "4", "5"]

/-- Carries out a command with the settings of an environment. -/
def carryOut (around : Surroundings) (env : Environment) (i : Invocation) : Session :=
  if !logLevels.contains (Text.lowerAscii (i.options.logLevel.getD "info")) then refused .logLevel
  else
    let s := (Settings.ofEnvironment env).override i.options
    match i.command with
    | .run plan inputs events => run around s plan inputs events
    | .cleanup => cleanup around s
    | .status => status around s
    | .check => check around s

def exitCode (s : Session) : Nat := (s.failure.map Failure.exitCode).getD 0

end Session

end SandboxPool.Cli
