import SandboxPool.Cli.Help
import SandboxPool.Cli.Session

/-!
# The program

Reads the arguments, the environment and the files that the arguments name, carries out the command
and prints what came of it. There is no transport to a daemon in here, so that every command that
needs one ends where the daemon does not answer.
-/

namespace SandboxPool.Cli

/-- The variables of the environment that are set. -/
def readEnvironment : IO Environment :=
  Settings.variables.filterMapM fun name => do
    return (← IO.getEnv name).map fun v => (name, v.toUTF8.data.toList)

def readText (path : String) : IO (Option String) := do
  try return some (← IO.FS.readFile path)
  catch _ => return none

def isThere (path : String) : IO Bool := do
  try
    let _ ← IO.FS.realPath path
    return true
  catch _ => return false

/-- The files that a command reads. -/
def Command.files : Command → List String
  | .run plan inputs _ => plan :: inputs.toList
  | _ => []

/-- What a command finds around it, without a daemon. -/
def look (command : Command) (socket : String) : IO Surroundings := do
  let files ← command.files.mapM fun path => return (path, ← readText path)
  let there ← isThere socket
  let now ← IO.monoNanosNow
  let high ← IO.rand 0 Text.max64
  let low ← IO.rand 0 Text.max64
  return {
    file := fun path => ((files.find? (·.1 == path)).map (·.2)).join
    existing := fun path => path == socket && there
    daemon := fun _ _ => none
    service := fun _ _ => .failed unreachableReason
    probe := fun _ _ => ⟨false, 0⟩
    now := now
    seed := (Uuid.ofRandom (BitVec.ofNat 128 (high * (Text.max64 + 1) + low))).value }

/-- Says what the arguments ask for instead of a command. -/
def explain : Stop → IO UInt32
  | .help level => do
    IO.print (helpText level)
    return 0
  | .version => do
    IO.println versionLine
    return 0
  | .usage => do
    IO.eprint usageText
    return 2

def perform (i : Invocation) : IO UInt32 := do
  let env ← readEnvironment
  let settings := (Settings.ofEnvironment env).override i.options
  let session := Session.carryOut (← look i.command settings.socket) env i
  for p in session.printed do
    IO.print p.text
  match session.failure with
  | some f => IO.eprintln ("Error: " ++ f.message)
  | none => pure ()
  return session.exitCode.toUInt32

end SandboxPool.Cli

def main (args : List String) : IO UInt32 :=
  match SandboxPool.Cli.parse args with
  | .ok i => SandboxPool.Cli.perform i
  | .error stop => SandboxPool.Cli.explain stop
