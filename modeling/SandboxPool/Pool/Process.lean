import SandboxPool.Container.Call
import SandboxPool.Pool.Basic

/-!
# Sequential processes

The operations of a pool run at the same time. Each of them is a process that is at one of finitely
many points and wants one thing there (`Demand`): change the pool in one atomic scope, enter the
gate, or ask the daemon or a runner for something and wait for the reply. Between these, other
processes take their steps.

* `Leeway` is what the program leaves open: an atomic scope sees it beside the clock (`Context`).
* `Strand` is a process on its way: ready, waiting for a reply, or at its end.
* `Strand.step` and `Strand.reply` are its two kinds of steps.
-/

namespace SandboxPool

/-- What the program leaves open. It keeps its records without an order, so that a search may meet
them in any, and the error of a task that broke off is worded by whoever ran the task. -/
structure Leeway where
  /-- The order in which records are looked through. -/
  order : List Record → List Record
  order_perm : ∀ l, (order l).Perm l
  /-- The error of the member with a number, which broke off with a message. -/
  lost : Nat → String → String

namespace Leeway

/-- Oldest records first, and tasks numbered from one. -/
def usual : Leeway where
  order := id
  order_perm := .refl
  lost serial message :=
    "task " ++ toString (serial + 1) ++ " panicked with message " ++ Text.quoted message

/-- The same, but one record is met before all others. -/
def prefer (l : Leeway) (r : Record) : Leeway where
  order rs := if r ∈ rs then r :: rs.erase r else rs
  order_perm rs := by
    split
    · next h => exact (List.perm_cons_erase h).symm
    · exact .refl rs
  lost := l.lost

@[simp]
theorem mem_order {l : Leeway} {r : Record} {rs : List Record} : r ∈ l.order rs ↔ r ∈ rs :=
  (l.order_perm rs).mem_iff

end Leeway

/-- What an atomic scope can see apart from the pool. -/
structure Context where
  now : Instant
  /-- Somebody asked for an abort. -/
  aborted : Bool
  leeway : Leeway

/-- What an atomic scope sets off. -/
inductive Effect where
  | emit (event : Event)
  /-- Terminate a paused sandbox when its time has come. -/
  | arm (id : String) (generation : Nat) (due : Instant)
  /-- Call that off. -/
  | disarm (generation : Nat)
  deriving Repr, BEq, Inhabited

/-- What comes out of an atomic scope. -/
structure Scope (β : Type) where
  pool : Pool
  effects : List Effect
  result : β

def Scope.map {β γ : Type} (f : β → γ) (s : Scope β) : Scope γ := ⟨s.pool, s.effects, f s.result⟩

/-- How a runner ended. -/
inductive RunEnd where
  | outcome (o : Outcome)
  | failed (error : String)
  /-- It broke off, with a message or without one. -/
  | panicked (message : Option String)
  deriving Repr, BEq, Inhabited

/-- What a runner does in the end: it may terminate its own sandbox first. -/
structure RunReply where
  terminates : Bool
  ending : RunEnd
  deriving Repr, BEq, Inhabited

/-- What is waited for outside the pool. -/
inductive Ask where
  | daemon (call : Call)
  | run (sandbox : Snapshot) (block : String)
  deriving Repr, DecidableEq, Inhabited

/-- A reply from outside the pool. -/
inductive Reply where
  | created (r : Except DaemonError String)
  | acted (r : Except DaemonError Unit)
  | listed (r : Except DaemonError (List ContainerSummary))
  | ran (r : RunReply)

/-- What a process wants at a point, and how it goes on with what it gets. -/
inductive Demand (β : Type) where
  /-- Change the pool. -/
  | scope (body : Context → Pool → Scope β)
  /-- Enter the gate. -/
  | gate (next : β)
  | create (spec : ContainerSpec) (next : Except DaemonError String → β)
  | act (action : Action) (id : String) (next : Except DaemonError Unit → β)
  /-- Probe a sandbox until it is healthy. -/
  | health (port : UInt16) (interval timeout : Duration) (next : Except DaemonError Unit → β)
  | list (filter : ContainerFilter) (next : Except DaemonError (List ContainerSummary) → β)
  | run (sandbox : Snapshot) (block : String) (next : RunReply → β)

namespace Demand

variable {β γ : Type}

/-- The same demand with another continuation. -/
def map (f : β → γ) : Demand β → Demand γ
  | scope body => scope fun c p => (body c p).map f
  | gate next => gate (f next)
  | create spec next => create spec fun r => f (next r)
  | act action id next => act action id fun r => f (next r)
  | health port interval timeout next => health port interval timeout fun r => f (next r)
  | list filter next => list filter fun r => f (next r)
  | run sandbox block next => run sandbox block fun r => f (next r)

/-- What is asked for outside the pool. -/
def ask? : Demand β → Option Ask
  | scope _ => none
  | gate _ => none
  | create spec _ => some (.daemon (.create spec))
  | act action id _ => some (.daemon (.act action id))
  | health port interval timeout _ => some (.daemon (.health port interval timeout))
  | list filter _ => some (.daemon (.list filter))
  | run sandbox block _ => some (.run sandbox block)

def isGate : Demand β → Bool
  | gate _ => true
  | _ => false

/-- How the process goes on with a reply, if the reply fits what was asked for. -/
def answer? : Demand β → Reply → Option β
  | create _ next, .created r => some (next r)
  | act _ _ next, .acted r => some (next r)
  | health _ _ _ next, .acted r => some (next r)
  | list _ next, .listed r => some (next r)
  | run _ _ next, .ran r => some (next r)
  | _, _ => none

end Demand

/-- Where a process goes: to another point, to its end, or it breaks off. -/
inductive Next (σ α : Type) where
  | goto (point : σ)
  | done (result : α)
  | panic (message : String)

/-- The same way for a process that contains this one: it goes on with the result. -/
def Next.into {σ α τ β : Type} (point : σ → τ) (result : α → Next τ β) : Next σ α → Next τ β
  | .goto p => .goto (point p)
  | .done a => result a
  | .panic message => .panic message

/-- A process on its way. -/
inductive Strand (σ α : Type) where
  /-- It is about to do what it wants at a point. -/
  | ready (point : σ)
  /-- It waits for the reply to what it asked for at a point. -/
  | waiting (point : σ)
  | done (result : α)
  | panicked (message : String)

namespace Strand

variable {σ α : Type}

/-- The process is where a step took it. -/
def ofNext : Next σ α → Strand σ α
  | .goto p => ready p
  | .done a => done a
  | .panic message => panicked message

def ended : Strand σ α → Bool
  | done _ => true
  | panicked _ => true
  | _ => false

/-- The process is before the gate. -/
def atGate (demand : σ → Demand (Next σ α)) : Strand σ α → Bool
  | ready p => (demand p).isGate
  | _ => false

/-- What the process asks for or waits for. -/
def ask? (demand : σ → Demand (Next σ α)) : Strand σ α → Option Ask
  | ready p => (demand p).ask?
  | waiting p => (demand p).ask?
  | _ => none

/-- A step of its own: a scope, the gate if it is open, or asking for something. -/
def step (demand : σ → Demand (Next σ α)) (c : Context) (p : Pool) :
    Strand σ α → Option (Scope (Strand σ α))
  | ready point =>
    match demand point with
    | .scope body => some ((body c p).map ofNext)
    | .gate next => if p.gateHeld then none else some ⟨{ p with gateHeld := true }, [], ofNext next⟩
    | _ => some ⟨p, [], waiting point⟩
  | _ => none

/-- The step of a process that gets its reply. -/
def reply (demand : σ → Demand (Next σ α)) (r : Reply) : Strand σ α → Option (Strand σ α)
  | waiting point => ((demand point).answer? r).map ofNext
  | _ => none

end Strand

end SandboxPool
