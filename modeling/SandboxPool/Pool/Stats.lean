/-!
# Statistics of a pool

Six counters, and the share of acquisitions that reused a sandbox.
-/

namespace SandboxPool

/-- What a pool counts. Each counter goes up by one at a time, from zero: the bound of `2 ^ 64` that a
counter of 64 bits has is out of reach, and natural numbers stand for such counters. -/
structure Stats where
  /-- Acquisitions served by an idle sandbox. -/
  idleHits : Nat := 0
  /-- Acquisitions served by waking a paused sandbox. -/
  wakes : Nat := 0
  wakeFailures : Nat := 0
  /-- Acquisitions that had to start a sandbox. -/
  coldStarts : Nat := 0
  /-- Sandboxes that became idle after their start. -/
  spawned : Nat := 0
  terminated : Nat := 0
  deriving Repr, DecidableEq, Inhabited

/-- The share of acquisitions served without starting a sandbox, in percent; nothing if there were
none. -/
def Stats.reuseRate (s : Stats) : Float :=
  let reused := (UInt64.ofNat (s.idleHits + s.wakes)).toFloat
  let total := reused + (UInt64.ofNat s.coldStarts).toFloat
  if total == 0.0 then 0.0 else reused / total * 100.0

end SandboxPool
