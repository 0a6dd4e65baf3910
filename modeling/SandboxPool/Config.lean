import SandboxPool.Error
import SandboxPool.Text.Blank

/-!
# The configuration of a pool

* `Parallelism` says whether blocks that run at the same time share one sandbox.
* `Config.check` accepts a configuration whose parts fit together; of several faults it reports
  the first of a fixed order (`Config.fault?`).
-/

namespace SandboxPool

/-- Whether blocks have a sandbox each or share one. -/
inductive Parallelism where
  | multi
  | single
  deriving Repr, DecidableEq, Inhabited

namespace Parallelism

def name : Parallelism → String
  | multi => "multi-sandbox"
  | single => "single-sandbox"

/-- The name of a model in a description of a pool. -/
def label : Parallelism → String
  | multi => "MultiSandbox"
  | single => "SingleSandbox"

/-- The model of a name or of its first word, in any case. -/
def parse? (s : String) : Option Parallelism :=
  let l := Text.lower s
  if l == "multi-sandbox" || l == "multi" then some multi
  else if l == "single-sandbox" || l == "single" then some single
  else none

def unknown (s : String) : String := "unknown parallelism model: " ++ Text.lower s

/-- The model of a name; sandboxes are not shared unless the name says so. -/
def ofName (s : String) : Parallelism := (parse? s).getD multi

def json (p : Parallelism) : Json.Value := .string p.name

/-- Reads a model from JSON, where its name is in full and in lower case. -/
def decode : Json.Decoder Parallelism := Json.choice [(multi.name, multi), (single.name, single)]

end Parallelism

/-- The configuration of a pool. -/
structure Config where
  image : String := ""
  /-- The port of the service inside a sandbox. -/
  containerPort : UInt16 := 8080
  /-- Further entries of the environment, each a name, an equals sign and a value. -/
  env : List String := []
  /-- How many sandboxes may live at once. -/
  maxSandboxes : Nat := 4
  /-- The time between two probes of a sandbox's health. -/
  probeInterval : Duration := .ofMillis 250
  /-- The time that a sandbox has to become healthy. -/
  probeTimeout : Duration := .ofMillis 30000
  /-- The time after which a paused sandbox is terminated. -/
  dormancy : Duration := .ofMillis 300000
  parallelism : Parallelism := .multi
  ports : PortRange := .standard
  deriving Repr, DecidableEq, Inhabited

/-- Why a configuration is refused. -/
inductive ConfigFault where
  | noImage
  | noSandboxes
  | noContainerPort
  | noProbeInterval
  | probeTimeoutBelowInterval
  | portsReversed (range : PortRange)
  | portZero
  | tooFewPorts (range : PortRange) (max : Nat)
  deriving Repr, DecidableEq, Inhabited

def ConfigFault.message : ConfigFault → String
  | .noImage => "image is required"
  | .noSandboxes => "max_sandboxes must be > 0"
  | .noContainerPort => "container_port must be > 0"
  | .noProbeInterval => "health_check_interval must be > 0"
  | .probeTimeoutBelowInterval => "health_check_timeout must be >= health_check_interval"
  | .portsReversed range =>
    "port range start " ++ toString range.start.toNat ++ " is above end "
      ++ toString range.finish.toNat
  | .portZero => "port range must not include 0"
  | .tooFewPorts range max =>
    "port range " ++ range.text ++ " holds " ++ toString range.size
      ++ " ports, fewer than max_sandboxes " ++ toString max

def ConfigFault.error (f : ConfigFault) : PoolError := .invalidConfig f.message

/-- Passes if the end of the range is not below its start. -/
def PortRange.check (r : PortRange) : Except ConfigFault Unit :=
  if r.ordered then .ok () else .error (.portsReversed r)

namespace Config

/-- How many sandboxes may live at once: one if they are shared. -/
def effectiveMax (c : Config) : Nat :=
  match c.parallelism with
  | .multi => c.maxSandboxes
  | .single => 1

/-- The first fault of a configuration. -/
def fault? (c : Config) : Option ConfigFault :=
  if Text.allBlank c.image then some .noImage
  else if c.maxSandboxes = 0 then some .noSandboxes
  else if c.containerPort = 0 then some .noContainerPort
  else if c.probeInterval.nanos = 0 then some .noProbeInterval
  else if c.probeTimeout.nanos < c.probeInterval.nanos then some .probeTimeoutBelowInterval
  else if !c.ports.ordered then some (.portsReversed c.ports)
  else if c.ports.start = 0 then some .portZero
  else if c.ports.size < c.effectiveMax then some (.tooFewPorts c.ports c.effectiveMax)
  else none

/-- Passes if the configuration has no fault. -/
def check (c : Config) : Except PoolError Unit :=
  match c.fault? with
  | some f => .error f.error
  | none => .ok ()

def Valid (c : Config) : Prop := c.fault? = none

theorem check_eq_ok_iff {c : Config} : c.check = .ok () ↔ c.Valid := by
  unfold check Valid
  split <;> simp_all

end Config

end SandboxPool
