/-!
# Broadcast rings

A `Ring` keeps the last messages of a sender for any number of subscribers that read at their own
pace. It holds a power of two of them. A subscriber that fell behind what is kept is told once how
many messages it missed and goes on with the oldest one kept.
-/

namespace SandboxPool

/-- The smallest power of two that is at least `n`, from `p` on. -/
def powerAtLeast (n : Nat) : Nat → Nat → Nat
  | 0, p => p
  | fuel + 1, p => if n ≤ p then p else powerAtLeast n fuel (2 * p)

/-- The messages sent so far that are still kept, oldest first, and the place of each subscriber,
counted in messages sent. -/
structure Ring (α : Type) where
  capacity : Nat
  sent : Nat
  kept : List α
  places : List Nat

namespace Ring

/-- What a subscriber receives. -/
inductive Received (α : Type) where
  | nothing
  /-- So many messages were missed. -/
  | missed (count : Nat)
  | message (m : α)

variable {α : Type}

/-- An empty ring for at least so many messages, and at least one. -/
def ofCapacity (n : Nat) : Ring α := ⟨powerAtLeast n n 1, 0, [], []⟩

/-- A new subscriber, who will receive what is sent from now on, and its number. -/
def subscribe (r : Ring α) : Ring α × Nat :=
  ({ r with places := r.places ++ [r.sent] }, r.places.length)

def send (r : Ring α) (m : α) : Ring α :=
  let kept := r.kept ++ [m]
  { r with sent := r.sent + 1, kept := kept.drop (kept.length - r.capacity) }

/-- The number of the oldest message kept. -/
def oldest (r : Ring α) : Nat := r.sent - r.kept.length

def receive (r : Ring α) (subscriber : Nat) : Ring α × Received α :=
  match r.places[subscriber]? with
  | none => (r, .nothing)
  | some place =>
    if place < r.oldest then
      ({ r with places := r.places.set subscriber r.oldest }, .missed (r.oldest - place))
    else
      match r.kept[place - r.oldest]? with
      | none => (r, .nothing)
      | some m => ({ r with places := r.places.set subscriber (place + 1) }, .message m)

end Ring

end SandboxPool
