import SandboxPool.Json.Decode
import SandboxPool.Text.Lower

/-!
# The life of a sandbox

A sandbox is started, becomes idle, runs blocks, is paused when it is released and is woken again,
until it is terminated from any of these states.

* `State.successors` lists the states that may follow a state; `State.admits` tests one.
* `terminated` is the only state that no other state follows (`terminal_iff`).
-/

namespace SandboxPool

/-- The state of a sandbox. -/
inductive State where
  | starting
  | idle
  | running
  | dormant
  | terminated
  deriving Repr, DecidableEq, Inhabited

namespace State

def all : List State := [starting, idle, running, dormant, terminated]

/-- The states that may follow. -/
def successors : State → List State
  | starting => [idle, terminated]
  | idle => [running, terminated]
  | running => [dormant, terminated]
  | dormant => [idle, terminated]
  | terminated => [terminated]

/-- The second state may follow the first. -/
def admits (source target : State) : Bool := source.successors.contains target

/-- Nothing happens to the sandbox any more. -/
def terminal (s : State) : Bool := s == terminated

def name : State → String
  | starting => "starting"
  | idle => "idle"
  | running => "running"
  | dormant => "dormant"
  | terminated => "terminated"

/-- The state of a name, whose ASCII letters may have either case. -/
def parse? (s : String) : Option State := all.find? fun state => state.name == Text.lowerAscii s

def unknown (s : String) : String := "unknown sandbox state: " ++ s

def json (s : State) : Json.Value := .string s.name

/-- Reads a state from JSON, where its name is in lower case. -/
def decode : Json.Decoder State := Json.choice (all.map fun s => (s.name, s))

theorem mem_all (s : State) : s ∈ all := by cases s <;> decide

theorem terminal_iff {s : State} : s.terminal ↔ ∀ t, s.admits t → t = s := by
  cases s <;> simp [terminal] <;> first | (intro t; cases t <;> decide) | exact ⟨terminated, by decide⟩

theorem parse?_name (s : State) : parse? s.name = some s := by cases s <;> decide

end State

end SandboxPool
