import SandboxPool.Error

/-!
# Waiting for a healthy sandbox

The service of a sandbox is probed until it says that it is healthy. Whether time is up is asked
only when a probe has failed, so a probe that succeeds late still counts.

* `waitHealthy` is the wait on a clock that only probes and pauses move forward.
* `Verdict.result` says what the wait comes to.
-/

namespace SandboxPool

/-- One probe: whether the service says that it is healthy, and how many nanoseconds it takes to
say so. -/
structure Probe where
  healthy : Bool
  nanos : Nat
  deriving Repr, DecidableEq, Inhabited

/-- The nanoseconds that a single probe may take. -/
def probeLimit : Nat := 2000000000

/-- The probe as far as it is waited for: one that takes longer than the limit fails there. -/
def Probe.limited (p : Probe) : Probe := if probeLimit < p.nanos then ⟨false, probeLimit⟩ else p

/-- The end of a wait: whether the service became healthy, how many probes there were, and the
nanoseconds since the start. -/
structure Verdict where
  healthy : Bool
  probes : Nat
  elapsed : Nat
  deriving Repr, DecidableEq, Inhabited

/-- Goes on with probe number `n` at `elapsed`. Every round takes one off the fuel. -/
def waitFrom (pause timeout : Nat) (probe : Nat → Probe) : Nat → Nat → Nat → Verdict
  | 0, n, elapsed => ⟨false, n, elapsed⟩
  | fuel + 1, n, elapsed =>
    let p := (probe n).limited
    let now := elapsed + p.nanos
    if p.healthy then ⟨true, n + 1, now⟩
    else if timeout ≤ now then ⟨false, n + 1, now⟩
    else waitFrom pause timeout probe fuel (n + 1) (now + pause)

/-- Probes with pauses of an interval, which is at least one nanosecond. Each round moves the clock
forward, so there are no more rounds than nanoseconds in the timeout, and one. -/
def waitHealthy (interval timeout : Duration) (probe : Nat → Probe) : Verdict :=
  waitFrom (max interval.nanos 1) timeout.nanos probe (timeout.nanos + 1) 0 0

def Verdict.result (v : Verdict) (port : UInt16) (timeout : Duration) : Except DaemonError Unit :=
  if v.healthy then .ok () else .error (.healthTimeout port timeout)

end SandboxPool
