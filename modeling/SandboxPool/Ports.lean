import SandboxPool.Json.Value
import Std.Data.TreeSet.Basic

/-!
# Host ports

Every sandbox is published on a host port of its own, out of one range.

* `PortRange` is a non-empty range of ports when its end is not below its start.
* `PortAllocator.allocate?` hands out the first free port in cyclic order from a cursor, which
  then moves one further, so that a port just given back is not the next one handed out.
-/

namespace SandboxPool

/-- A range of ports, both ends included. -/
structure PortRange where
  start : UInt16
  finish : UInt16
  deriving Repr, DecidableEq, Inhabited

namespace PortRange

/-- The range that is used unless another one is configured. -/
def standard : PortRange := ⟨40000, 40099⟩

def ordered (r : PortRange) : Bool := r.start ≤ r.finish

/-- The number of ports of an ordered range. -/
def size (r : PortRange) : Nat := r.finish.toNat - r.start.toNat + 1

def isEmpty (r : PortRange) : Bool := r.finish < r.start

def contains (r : PortRange) (port : UInt16) : Bool := r.start ≤ port && port ≤ r.finish

/-- Both ends with a hyphen between. -/
def text (r : PortRange) : String := toString r.start.toNat ++ "-" ++ toString r.finish.toNat

def json (r : PortRange) : Json.Value :=
  .object [("start", .nat r.start.toNat), ("end", .nat r.finish.toNat)]

/-- The port at a distance from the start, counted around the range. -/
def around (r : PortRange) (distance : Nat) : UInt16 :=
  r.start + UInt16.ofNat (distance % r.size)

/-- The port behind a port, which is the start behind the end. -/
def next (r : PortRange) (port : UInt16) : UInt16 :=
  if port = r.finish then r.start else port + 1

end PortRange

/-- The ports that are in use and the place from which the next one is searched. -/
structure PortAllocator where
  range : PortRange
  cursor : UInt16
  used : Std.TreeSet UInt16 compare

namespace PortAllocator

/-- All ports of the range are free. -/
def ofRange (r : PortRange) : PortAllocator := ⟨r, r.start, ∅⟩

def inUse (a : PortAllocator) (port : UInt16) : Bool := a.used.contains port

/-- The number of ports that are not handed out. -/
def available (a : PortAllocator) : Nat := a.range.size - a.used.size

/-- The first free port among `count` ports around the range, from a distance on. -/
def scan (a : PortAllocator) : Nat → Nat → Option UInt16
  | 0, _ => none
  | count + 1, distance =>
    let candidate := a.range.around distance
    if a.inUse candidate then a.scan count (distance + 1) else some candidate

/-- Hands out the first free port from the cursor on; none when all are in use. -/
def allocate? (a : PortAllocator) : Option (UInt16 × PortAllocator) :=
  (a.scan a.range.size (a.cursor - a.range.start).toNat).map fun port =>
    (port, { a with cursor := a.range.next port, used := a.used.insert port })

/-- Takes a port back; a port that is not handed out changes nothing. -/
def release (a : PortAllocator) (port : UInt16) : PortAllocator :=
  { a with used := a.used.erase port }

end PortAllocator

end SandboxPool
