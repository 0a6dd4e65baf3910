import SandboxPool.Config
import SandboxPool.Text.Integer
import SandboxPool.Text.Utf8

/-!
# Settings of the command line

Every setting has a default and a variable of the environment that overrides it.

* A variable that is not text does not count, and neither does a number that cannot be read.
* `Settings.poolConfig` gives the configuration of the pool, `Settings.check` asks for the socket
  of the daemon as well, and `Settings.warnings` lists what is worth saying before a run.
-/

namespace SandboxPool.Cli

/-- The variables of the environment, in bytes. -/
abbrev Environment := List (String × List UInt8)

def Environment.text? (env : Environment) (key : String) : Option String :=
  (List.find? (·.1 == key) env).bind fun v => Text.decode? v.2

/-- A variable whose value is a number up to a bound, with blanks around it. -/
def Environment.number? (env : Environment) (key : String) (bound : Nat) : Option Nat :=
  (env.text? key).bind fun s => Text.parseUnsigned? bound (Text.trim s)

def Environment.number16? (env : Environment) (key : String) : Option UInt16 :=
  (env.number? key Text.max16).map UInt16.ofNat

def Environment.number64? (env : Environment) (key : String) : Option Nat :=
  env.number? key Text.max64

/-- The socket of the daemon unless another one is set. -/
def standardSocket : String := "/var/run/docker.sock"

/-- The settings of the command line. -/
structure Settings where
  socket : String := standardSocket
  image : String := ""
  containerPort : UInt16 := 8080
  sandboxEnv : List String := []
  maxSandboxes : Nat := 4
  probeIntervalMs : Nat := 250
  probeTimeoutMs : Nat := 30000
  dormancyMs : Nat := 300000
  parallelism : Parallelism := .multi
  firstPort : UInt16 := 40000
  lastPort : UInt16 := 40099
  /-- How many sandboxes are started before a plan. -/
  prewarm : Nat := 0
  /-- How long one block may take. -/
  blockTimeoutMs : Nat := 300000
  deriving Repr, DecidableEq, Inhabited

/-- The parts between commas, without blanks around them; empty ones are left out. -/
def commaList (s : String) : List String :=
  ((splitCommas s.toList).map fun part => String.ofList (Text.trimList part)).filter (· != "")
where
  splitCommas : List Char → List (List Char)
    | [] => [[]]
    | ',' :: rest => [] :: splitCommas rest
    | c :: rest =>
      match splitCommas rest with
      | [] => [[c]]
      | part :: parts => (c :: part) :: parts

def Settings.variables : List String :=
  ["SKIFF_DOCKER_SOCKET", "SKIFF_IMAGE", "SKIFF_CONTAINER_PORT", "SKIFF_SANDBOX_ENV",
    "SKIFF_MAX_SANDBOXES", "SKIFF_HEALTH_CHECK_INTERVAL_MS", "SKIFF_HEALTH_CHECK_TIMEOUT_MS",
    "SKIFF_DORMANCY_TIMEOUT_MS", "SKIFF_PARALLELISM", "SKIFF_PORT_RANGE_START",
    "SKIFF_PORT_RANGE_END", "SKIFF_PREWARM", "SKIFF_BLOCK_TIMEOUT_MS"]

/-- The settings of an environment. -/
def Settings.ofEnvironment (env : Environment) : Settings :=
  let d : Settings := {}
  { socket := (env.text? "SKIFF_DOCKER_SOCKET").getD d.socket
    image := (env.text? "SKIFF_IMAGE").getD d.image
    containerPort := (env.number16? "SKIFF_CONTAINER_PORT").getD d.containerPort
    sandboxEnv := ((env.text? "SKIFF_SANDBOX_ENV").map commaList).getD d.sandboxEnv
    maxSandboxes := (env.number64? "SKIFF_MAX_SANDBOXES").getD d.maxSandboxes
    probeIntervalMs := (env.number64? "SKIFF_HEALTH_CHECK_INTERVAL_MS").getD d.probeIntervalMs
    probeTimeoutMs := (env.number64? "SKIFF_HEALTH_CHECK_TIMEOUT_MS").getD d.probeTimeoutMs
    dormancyMs := (env.number64? "SKIFF_DORMANCY_TIMEOUT_MS").getD d.dormancyMs
    parallelism := ((env.text? "SKIFF_PARALLELISM").map Parallelism.ofName).getD d.parallelism
    firstPort := (env.number16? "SKIFF_PORT_RANGE_START").getD d.firstPort
    lastPort := (env.number16? "SKIFF_PORT_RANGE_END").getD d.lastPort
    prewarm := (env.number64? "SKIFF_PREWARM").getD d.prewarm
    blockTimeoutMs := (env.number64? "SKIFF_BLOCK_TIMEOUT_MS").getD d.blockTimeoutMs }

/-- Why settings are refused. -/
inductive SettingsError where
  | missingImage
  | missingSocket (path : String)
  | invalidPortRange (range : PortRange)
  | pool (cause : PoolError)
  deriving Repr, DecidableEq, Inhabited

def SettingsError.message : SettingsError → String
  | .missingImage => "no sandbox image configured (set SKIFF_IMAGE or --image)"
  | .missingSocket path => "docker socket not found: " ++ path
  | .invalidPortRange range => "invalid port range " ++ range.text
  | .pool cause => cause.message

namespace Settings

def ports (s : Settings) : PortRange := ⟨s.firstPort, s.lastPort⟩

/-- The configuration of the pool, whatever it is worth. -/
def config (s : Settings) : Config where
  image := s.image
  containerPort := s.containerPort
  env := s.sandboxEnv
  maxSandboxes := s.maxSandboxes
  probeInterval := .ofMillis s.probeIntervalMs
  probeTimeout := .ofMillis s.probeTimeoutMs
  dormancy := .ofMillis s.dormancyMs
  parallelism := s.parallelism
  ports := s.ports

/-- The configuration of the pool, if it has no fault. -/
def poolConfig (s : Settings) : Except SettingsError Config :=
  if Text.allBlank s.image then .error .missingImage
  else if !s.ports.ordered then .error (.invalidPortRange s.ports)
  else match s.config.check with
    | .ok () => .ok s.config
    | .error e => .error (.pool e)

/-- Passes if the pool can be configured and the socket of the daemon exists. -/
def check (existing : String → Bool) (s : Settings) : Except SettingsError Unit :=
  match s.poolConfig with
  | .error e => .error e
  | .ok _ => if existing s.socket then .ok () else .error (.missingSocket s.socket)

/-- What is worth saying before a run. -/
inductive Warning where
  | problem (cause : SettingsError)
  | prewarmAboveCap
  | capIgnored
  deriving Repr, DecidableEq, Inhabited

def Warning.message : Warning → String
  | .problem _ => "Configuration problem"
  | .prewarmAboveCap => "Prewarm count exceeds the sandbox cap and will be clamped"
  | .capIgnored => "Single-sandbox mode ignores max_sandboxes"

/-- The warnings in their order. -/
def warnings (existing : String → Bool) (s : Settings) : List Warning :=
  (match s.check existing with
    | .error e => [.problem e]
    | .ok () => [])
  ++ (if s.maxSandboxes < s.prewarm then [.prewarmAboveCap] else [])
  ++ (if s.parallelism = .single && 1 < s.maxSandboxes then [.capIgnored] else [])

end Settings

end SandboxPool.Cli
