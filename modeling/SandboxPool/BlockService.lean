import SandboxPool.Http
import SandboxPool.Report
import SandboxPool.Snapshot
import SandboxPool.Text.Percent

/-!
# The service of a sandbox

The service behind the port of a sandbox runs blocks.

* `endpoint` is where a block is run, `runBody` is what is sent there.
* `RunError` says why a block could not be run, `runOutcome` reads what became of the exchange.
-/

namespace SandboxPool

def healthPath : String := "/health"

/-- Where a block is run, for a service at an address. The name of the block is one segment of the
path. -/
def endpoint (address block : String) : String :=
  address ++ "/blocks/" ++ Text.formEncode block ++ "/run"

def runBody (block sandbox : String) (input : Json.Value) : Json.Value :=
  .object [("blockId", .string block), ("sandboxId", .string sandbox), ("input", input)]

def runRequest (block sandbox : String) (input : Json.Value) : Http.Request :=
  ⟨.post, "/blocks/" ++ Text.formEncode block ++ "/run", some (runBody block sandbox input)⟩

/-- Why a block could not be run. -/
inductive RunError where
  | refused (status : Nat) (reason : String)
  /-- The service did not answer in time. -/
  | timedOut (timeout : Duration)
  /-- The answer cannot be read. -/
  | malformed
  /-- The exchange broke off. -/
  | broken (reason : String)
  /-- The address cannot be written. -/
  | badAddress
  deriving Repr, DecidableEq, Inhabited

def RunError.message : RunError → String
  | .refused status reason => "sandbox returned " ++ toString status ++ ": " ++ reason
  | .timedOut timeout => "block timed out after " ++ toString timeout.millis ++ "ms"
  | .malformed => "the answer is malformed"
  | .broken reason => reason
  | .badAddress => "uri too long"

/-- What became of an exchange with a service. -/
inductive Exchange where
  /-- The service answered after so many milliseconds. -/
  | answered (response : Http.Response) (elapsedMs : Nat)
  | failed (reason : String)
  | silent
  deriving Repr, DecidableEq, Inhabited

def Exchange.connected : Exchange → Bool
  | .failed _ => false
  | _ => true

/-- The nanoseconds of an exchange that has a limited time. -/
def Exchange.nanos (timeout : Duration) : Exchange → Nat
  | .answered _ elapsedMs => elapsedMs * 1000000
  | .failed _ => 0
  | .silent => timeout.nanos

/-- The outcome in an answer. An outcome that does not say how long the block took is given the
time of the exchange. -/
def readAnswer (r : Http.Response) (elapsedMs : Nat) : Except RunError Outcome :=
  if r.succeeded then
    match Json.decodeBytes Outcome.decode r.body with
    | some o => .ok (if o.durationMs = 0 then { o with durationMs := elapsedMs } else o)
    | none => .error .malformed
  else .error (.refused r.status r.text)

/-- The outcome of a block that has a limited time. No exchange is done in no time. -/
def runOutcome (address block : String) (timeout : Duration) (e : Exchange) :
    Except RunError Outcome :=
  if Http.Target.maxLength < (endpoint address block).utf8ByteSize then .error .badAddress
  else if timeout.nanos = 0 then .error (.timedOut timeout)
  else match e with
    | .answered r elapsedMs => readAnswer r elapsedMs
    | .failed reason => .error (.broken reason)
    | .silent => .error (.timedOut timeout)

def unreachableReason : String :=
  "error trying to connect: tcp connect error: Network is unreachable (os error 101)"

end SandboxPool
