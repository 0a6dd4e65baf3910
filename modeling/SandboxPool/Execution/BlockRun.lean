import SandboxPool.Pool.Acquire
import SandboxPool.Pool.Release

/-!
# Running one block

A block acquires a sandbox, is run in it, and releases it again, however the run ended. Its result
says what went wrong: an acquisition that failed, an error of the runner, or a runner that broke
off.
-/

namespace SandboxPool

namespace BlockRun

inductive Point where
  | begin
  | acquire (since : Instant) (a : Acquire.Point)
  | refuse (since : Instant) (error : PoolError)
  | run (since : Instant) (sandbox : Snapshot)
  | retire (since : Instant) (sandbox : Snapshot) (ending : RunEnd) (t : Termination.Point)
  | conclude (since : Instant) (sandbox : Snapshot) (ending : RunEnd)
  | release (result : BlockResult) (id : String) (r : Release.Point)
  deriving Repr, Inhabited

def elapsedMs (since now : Instant) : Nat := (now - since) / 1000000

/-- The error of a block that got no sandbox. -/
def refusal (e : PoolError) : String := "acquire failed: " ++ e.message

/-- The error of a block whose runner broke off. -/
def brokenOff : Option String → String
  | some message => "block runner panicked: " ++ message
  | none => "block runner panicked"

/-- The result of a block whose runner ended after so many milliseconds. -/
def concluded (block : String) (elapsed : Nat) : RunEnd → BlockResult
  | .outcome o => .ofOutcome block o
  | .failed error => .failed block error elapsed
  | .panicked message => .failed block (brokenOff message) elapsed

/-- What a block wants at each point. -/
def demand (config : Config) (block : String) : Point → Demand (Next Point BlockResult)
  | .begin => .scope fun c p => ⟨p, [], .goto (.acquire c.now (Acquire.start config))⟩
  | .acquire since a => (Acquire.demand config block a).map (.into (.acquire since) fun
    | .ok sandbox => .goto (.run since sandbox)
    | .error e => .goto (.refuse since e))
  | .refuse since e => .scope fun c p =>
    ⟨p, [], .done (.failed block (refusal e) (elapsedMs since c.now))⟩
  | .run since sandbox => .run sandbox block fun reply =>
    if reply.terminates then .goto (.retire since sandbox reply.ending .claim)
    else .goto (.conclude since sandbox reply.ending)
  | .retire since sandbox ending t =>
    (Termination.demand sandbox.id t).map
      (.into (.retire since sandbox ending) fun _ => .goto (.conclude since sandbox ending))
  | .conclude since sandbox ending => .scope fun c p =>
    ⟨p, [], .goto (.release (concluded block (elapsedMs since c.now) ending) sandbox.id
      (Release.start config))⟩
  | .release result id r =>
    (Release.demand id r).map (.into (.release result id) fun _ => .done result)

end BlockRun

end SandboxPool
