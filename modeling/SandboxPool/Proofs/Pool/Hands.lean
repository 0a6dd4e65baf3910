import SandboxPool.Proofs.Machine.History
import SandboxPool.Proofs.Pool.Records

/-!
# What processes have in hand

At each point a process has something in hand that it owes the pool: a reserved start, a port, a
container, a sandbox that it starts, wakes, terminates or uses. `Hand` lists these things, and the
functions `hand` say what each process has at each of its points.

An `Act` is what a turn does to the pool and to the things in hand, with what allows it. There is a
rule for each way in which something changes hands; all that is proved about the pool is proved of
these rules.
-/

namespace SandboxPool

/-- What a termination still has to do. -/
inductive Stage where
  | stop
  | remove
  | settle
  deriving DecidableEq

/-- A thing that a process has in hand. -/
inductive Hand where
  /-- A reserved start without a port. -/
  | reserved
  /-- A reserved start with a port, whose container is to be created, or is being created (`out`). -/
  | naming (spec : ContainerSpec) (port : UInt16) (out : Bool)
  /-- A reserved start with a port, whose container could not be created. -/
  | refused (port : UInt16)
  /-- A reserved start whose container exists. -/
  | made (id : String) (port : UInt16)
  /-- A sandbox that is started. -/
  | raising (id : String)
  /-- A paused sandbox that is woken. -/
  | waking (id : String)
  /-- A sandbox that is terminated. -/
  | ending (id : String) (port : UInt16) (stage : Stage)
  /-- A sandbox that a block runs in. -/
  | holding (id : String) (block : String)
  /-- A sandbox that a caller gives back. -/
  | returning (id : String)
  /-- A part in the one sandbox that is shared. -/
  | sharing
  deriving DecidableEq

namespace Hand

/-- A reserved start. -/
def reserves : Hand → Bool
  | reserved | naming .. | refused _ | made .. => true
  | _ => false

/-- The port that is taken and has no record yet. -/
def port? : Hand → Option UInt16
  | naming _ port _ | refused port | made _ port => some port
  | _ => none

/-- The container that has no record yet. -/
def made? : Hand → Option String
  | made id _ => some id
  | _ => none

/-- The container that the daemon is asked to create. -/
def creating? : Hand → Option ContainerSpec
  | naming spec _ true => some spec
  | _ => none

/-- The sandbox that is started. -/
def raising? : Hand → Option String
  | raising id => some id
  | _ => none

/-- The sandbox that is terminated, with its port. -/
def ending? : Hand → Option (String × UInt16)
  | ending id port _ => some (id, port)
  | _ => none

/-- The sandbox that a block runs in, with the block. -/
def holding? : Hand → Option (String × String)
  | holding id block => some (id, block)
  | _ => none

end Hand

/-- Neither a start nor a termination is due with the thing. -/
def Hand.idle : Hand → Bool
  | raising _ | waking _ | holding .. | returning _ | sharing => true
  | _ => false

/-- Those who may terminate a sandbox: somebody who was asked to, or who failed to start or to wake
it. -/
inductive Claimant (id : String) : List Hand → Prop where
  | plain : Claimant id []
  | spawn : Claimant id [.raising id]
  | wake : Claimant id [.waking id]

/-- Those who may give a sandbox back: the block that runs in it, or a caller. -/
inductive Giver (id : String) : List Hand → Prop where
  | block (block : String) : Giver id [.holding id block]
  | caller : Giver id [.returning id]

/-- The signal is neither about the creation of a container nor tells the end of one. -/
def Signal.aside : Signal → Bool
  | .sent (.daemon (.create _)) => false
  | .got (.daemon (.create _)) _ => false
  | .got (.daemon (.act .stop _)) _ => false
  | .got (.daemon (.act (.remove _) _)) _ => false
  | _ => true

/-! ## Acts -/

/-- A thing that an operation starts with. -/
def Hand.Entry (p : Pool) : Hand → Prop
  | returning _ => True
  | sharing => p.config.parallelism = .single
  | _ => False

theorem Hand.Entry.cases {p : Pool} {t : Hand} (h : t.Entry p) :
    (∃ id, t = .returning id) ∨ t = .sharing ∧ p.config.parallelism = .single := by
  cases t with
  | returning id => exact .inl ⟨id, rfl⟩
  | sharing => exact .inr ⟨rfl, h⟩
  | _ => exact absurd h id

theorem Hand.Entry.idle {p : Pool} {t : Hand} (h : t.Entry p) : t.idle = true := by
  rcases h.cases with ⟨id, rfl⟩ | ⟨rfl, -⟩ <;> rfl

theorem Claimant.idle {id : String} {l : List Hand} (h : Claimant id l) : ∀ t ∈ l, t.idle = true := by
  cases h <;> simp [Hand.idle]

theorem Giver.idle {id : String} {l : List Hand} (h : l = [] ∨ Giver id l) :
    ∀ t ∈ l, t.idle = true := by
  rcases h with rfl | h
  · simp
  · cases h <;> simp [Hand.idle]

/-- Where only starts or terminations count, idle things do not. -/
theorem Hand.filterMap_idle {β : Type} {f : Hand → Option β} (hf : ∀ t, t.idle = true → f t = none)
    {l : List Hand} (hl : ∀ t ∈ l, t.idle = true) : l.filterMap f = [] :=
  List.filterMap_eq_nil_iff.2 fun t ht => hf t (hl t ht)

theorem Hand.made?_idle {t : Hand} (h : t.idle = true) : t.made? = none := by
  cases t <;> first | rfl | cases h

theorem Hand.port?_idle {t : Hand} (h : t.idle = true) : t.port? = none := by
  cases t <;> first | rfl | cases h

theorem Hand.creating?_idle {t : Hand} (h : t.idle = true) : t.creating? = none := by
  cases t <;> first | rfl | cases h

theorem Hand.ending?_idle {t : Hand} (h : t.idle = true) : t.ending? = none := by
  cases t <;> first | rfl | cases h

/-- What a turn does to a pool and to things in hand. -/
inductive Act (p : Pool) : List Hand → Option Signal → Pool → List Hand → Prop where
  | aside (sig : Option Signal) (h : ∀ s, sig = some s → s.aside = true) : Act p [] sig p []
  | enter (l : List Hand) (h : ∀ t ∈ l, t.Entry p) : Act p [] none p l
  | reserve (n : Nat) (h : p.occupancy + n ≤ max 1 p.config.effectiveMax) :
      Act p [] none (p.reserve n) (List.replicate n .reserved)
  | exhausted (h : p.ports.allocate? = none) : Act p [.reserved] none p.unreserve []
  | allocate {spec : ContainerSpec} {port : UInt16} {ports : PortAllocator}
      (h : p.ports.allocate? = some (port, ports)) (hs : spec.hostPort? = some port) :
      Act p [.reserved] none { p with ports := ports } [.naming spec port false]
  | call (spec : ContainerSpec) (port : UInt16) :
      Act p [.naming spec port false] (some (.sent (.daemon (.create spec)))) p
        [.naming spec port true]
  | created (spec : ContainerSpec) (port : UInt16) (id : String) :
      Act p [.naming spec port true] (some (.got (.daemon (.create spec)) (.created (.ok id)))) p
        [.made id port]
  | refused (spec : ContainerSpec) (port : UInt16) (e : DaemonError) :
      Act p [.naming spec port true] (some (.got (.daemon (.create spec)) (.created (.error e)))) p
        [.refused port]
  | giveBack (port : UInt16) :
      Act p [.refused port] none { p with ports := p.ports.release port }.unreserve []
  | register (id : String) (port : UInt16) (now : Instant) :
      Act p [.made id port] none (p.unreserve.insert (.new id port now)) [.raising id]
  | publish {r : Record} (hr : r ∈ p.records) (hs : r.state.admits .idle = true) :
      Act p [.raising r.id] none (p.put { r with state := .idle }) []
  | deliver {r : Record} (block : String) (hr : r ∈ p.records) (hs : r.state.admits .idle = true) :
      Act p [.raising r.id] none (p.put { r with state := .running, block := some block })
        [.holding r.id block]
  | miss {id : String} (h : ∀ r, p.find? id = some r → r.state.admits .idle = false) :
      Act p [.raising id] none p []
  | take {r : Record} (block : String) (hr : r ∈ p.records) (hc : p.claim? r.id = none)
      (hs : r.state = .idle) :
      Act p [] none (p.put { r with state := .running, block := some block }) [.holding r.id block]
  | wake {r : Record} (hr : r ∈ p.records) (hc : p.claim? r.id = none) (hs : r.state = .dormant) :
      Act p [] none
        ((p.put { r with timer := none, busy := true, dormantSince := none }).setClaim r.id .waking)
        [.waking r.id]
  | rebind {r : Record} (block : String) (hr : r ∈ p.records) (hc : p.claim? r.id = some .waking)
      (hs : r.state.admits .idle = true) :
      Act p [.waking r.id] none
        ((p.dropClaim r.id).put { r with busy := false, state := .running, block := some block })
        [.holding r.id block]
  | lose {id : String} (hc : p.claim? id = some .waking) (h : p.find? id = none) :
      Act p [.waking id] none (p.dropClaim id) []
  | stray {r : Record} (hr : r ∈ p.records) (hc : p.claim? r.id = some .waking)
      (hs : r.state.admits .idle = false) :
      Act p [.waking r.id] none ((p.dropClaim r.id).put { r with busy := false }) []
  | decline {id : String} {before : List Hand} (hb : Claimant id before)
      (h : ∀ r, p.find? id = some r → r.live = false ∨ p.claim? id = some .terminating) :
      Act p before none p []
  | claim {r : Record} {before : List Hand} (hb : Claimant r.id before) (hr : r ∈ p.records)
      (hl : r.live = true) (hc : p.claim? r.id ≠ some .terminating) :
      Act p before none ((p.put { r with timer := none, busy := true }).setClaim r.id .terminating)
        [.ending r.id r.port .stop]
  | stopped (id : String) (port : UInt16) (r : Reply) :
      Act p [.ending id port .stop] (some (.got (.daemon (.act .stop id)) r)) p
        [.ending id port .remove]
  | removed (id : String) (port : UInt16) (r : Reply) :
      Act p [.ending id port .remove] (some (.got (.daemon (.act (.remove true) id)) r)) p
        [.ending id port .settle]
  | settle {r : Record} (port : UInt16) (hr : r ∈ p.records) {giver : List Hand}
      (hg : giver = [] ∨ Giver r.id giver) :
      Act p (.ending r.id port .settle :: giver) none
        (({ p with ports := p.ports.release port }.dropClaim r.id).put
          { r with
            state := .terminated, block := none, binders := 0, dormantSince := none, busy := false })
        []
  | vanish {id : String} (port : UInt16) (h : p.find? id = none) {giver : List Hand}
      (hg : giver = [] ∨ Giver id giver) :
      Act p (.ending id port .settle :: giver) none
        ({ p with ports := p.ports.release port }.dropClaim id) []
  | resign {id : String} {giver : List Hand} (hg : Giver id giver) : Act p giver none p []
  | park {r : Record} {giver : List Hand} (hg : Giver r.id giver) (hr : r ∈ p.records)
      (hc : p.claim? r.id = none) (hs : r.state = .running) (since : Option Instant)
      (timer : Option Timer) :
      Act p giver none
        (p.put { r with timer := timer, state := .dormant, block := none, dormantSince := since }) []
  | join {r : Record} (block : String) (hr : r ∈ p.records) :
      Act p [.sharing] none
        (p.put { r with
          block := some block, binders := r.binders + 1,
          state := if r.state = .idle then .running else r.state }) [.holding r.id block]
  | leave : Act p [.sharing] none p []
  | drop {r : Record} {giver : List Hand} (hg : Giver r.id giver) (hr : r ∈ p.records)
      (block : Option String) (binders : Nat) :
      Act p (.sharing :: giver) none (p.put { r with binders := binders, block := block }) []
  | skip {id : String} {giver : List Hand} (hg : Giver id giver) : Act p (.sharing :: giver) none p []

/-- No act changes the configuration. -/
theorem Act.config_eq {p q : Pool} {x y : List Hand} {sig : Option Signal} (h : Act p x sig q y) :
    q.config = p.config := by
  cases h <;> rfl

/-- An act of somebody who may have other things in hand, up to what the acts leave out. -/
def Moves (p : Pool) (before : List Hand) (sig : Option Signal) (p' : Pool) (after : List Hand) :
    Prop :=
  ∃ x y rest q, before.Perm (x ++ rest) ∧ after.Perm (y ++ rest) ∧ Act p x sig q y ∧ q.Alike p'

variable {p q p' : Pool} {before after x y : List Hand} {sig : Option Signal}

theorem Act.moves (h : Act p x sig q y) (ha : q.Alike p') : Moves p x sig p' y :=
  ⟨x, y, [], q, by simp, by simp, h, ha⟩

theorem Moves.config_eq (h : Moves p before sig p' after) : p'.config = p.config := by
  obtain ⟨x, y, rest, q, -, -, hact, hq⟩ := h
  exact hq.config.trans hact.config_eq

theorem Moves.frame (h : Moves p before sig p' after) (others : List Hand) :
    Moves p (before ++ others) sig p' (after ++ others) := by
  obtain ⟨x, y, rest, q, hb, ha, hact, hq⟩ := h
  refine ⟨x, y, rest ++ others, q, ?_, ?_, hact, hq⟩
  · rw [← List.append_assoc]
    exact hb.append_right others
  · rw [← List.append_assoc]
    exact ha.append_right others

/-- Nothing changes hands. -/
theorem Moves.aside (hs : ∀ s, sig = some s → s.aside = true) (ha : p.Alike p') (l : List Hand) :
    Moves p l sig p' l := ((Act.aside sig hs).moves ha).frame l

theorem Moves.aside_none (ha : p.Alike p') (l : List Hand) : Moves p l none p' l :=
  .aside (fun _ h => by cases h) ha l

/-- Nobody shares a sandbox where every block has one of its own. -/
theorem Act.sharing (h : Act p x sig q y) (hs : .sharing ∈ y) : p.config.parallelism = .single := by
  cases h with
  | enter l hl => exact hl _ hs
  | reserve n => cases List.eq_of_mem_replicate hs
  | _ => simp at hs

theorem Moves.not_sharing (hm : Moves p before sig p' after) (hp : p.config.parallelism = .multi)
    (h : .sharing ∉ before) : .sharing ∉ after := by
  obtain ⟨x, y, rest, q, hb, ha, hact, -⟩ := hm
  intro hs
  rcases List.mem_append.1 (ha.mem_iff.1 hs) with hs | hs
  · have hsingle := hact.sharing hs
    rw [hp] at hsingle
    cases hsingle
  · exact h (hb.mem_iff.2 (List.mem_append_right _ hs))

/-! ## What processes have in hand -/

/-- What a termination has in hand, where `before` is what its claimant has. -/
def Termination.hand (before : List Hand) (id : String) : Termination.Point → List Hand
  | .claim => before
  | .expire _ => []
  | .stop port => [.ending id port .stop]
  | .remove port => [.ending id port .remove]
  | .settle port => [.ending id port .settle]

/-- What a spawn has in hand. -/
def Spawn.hand (out : Bool) : Spawn.Point → List Hand
  | .allocate => [.reserved]
  | .create spec port => [.naming spec port out]
  | .giveBack port _ => [.refused port]
  | .register id port => [.made id port]
  | .start id _ | .probe id _ | .publish id => [.raising id]
  | .discard id _ t => Termination.hand [.raising id] id t

/-- What an acquisition has in hand. -/
def Acquire.hand (out : Bool) : Acquire.Point → List Hand
  | .pick | .replace _ => []
  | .unpause id _ | .probe id _ | .rebind id | .failed (.wakeFailed id _) => [.waking id]
  | .failed _ => []
  | .retire id _ t => Termination.hand [.waking id] id t
  | .cold s => Spawn.hand out s
  | .gate | .find | .reserve | .join _ | .leave _ => [.sharing]
  | .shared s => Spawn.hand out s ++ [.sharing]

/-- What a block has in hand behind its acquisition. -/
def gained (block : Option String) : Except PoolError Snapshot → List Hand
  | .ok s => (block.map (.holding s.id)).toList
  | .error _ => []

/-- What a release has in hand, where `giver` is what is given back. -/
def Release.hand (giver : List Hand) (id : String) : Release.Point → List Hand
  | .check | .pause | .park => giver
  | .discard _ t => Termination.hand [] id t ++ giver
  | .drop => .sharing :: giver

/-- What the run of a block has in hand. -/
def BlockRun.hand (block : String) (out : Bool) : BlockRun.Point → List Hand
  | .begin | .refuse .. => []
  | .acquire _ a => Acquire.hand out a
  | .run _ s | .conclude _ s _ => [.holding s.id block]
  | .retire _ s _ t => Termination.hand [] s.id t ++ [.holding s.id block]
  | .release _ id r => Release.hand [.holding id block] id r

/-- What a member of an execution has in hand. -/
def Execution.Duty.hand (out : Bool) : Execution.Duty → List Hand
  | .run block b => BlockRun.hand block out b
  | .terminate id t => Termination.hand [] id t

/-- What an execution itself has in hand. -/
def Execution.hand (out : Bool) : Execution.Point → List Hand
  | .solo _ block b => BlockRun.hand block out b
  | _ => []

/-- What a strand has in hand: at a point `f`, and `g` when it is done. -/
def Strand.hand {σ α : Type} (f : Bool → σ → List Hand) (g : α → List Hand) : Strand σ α → List Hand
  | .ready point => f false point
  | .waiting point => f true point
  | .done a => g a
  | .panicked _ => []

namespace Strand

variable {σ α : Type} {f : Bool → σ → List Hand} {g : α → List Hand} {s : Strand σ α}

theorem mem_hand {t : Hand} (h : t ∈ s.hand f g) :
    (∃ out point, t ∈ f out point) ∨ ∃ a, t ∈ g a := by
  cases s with
  | ready point => exact .inl ⟨false, point, h⟩
  | waiting point => exact .inl ⟨true, point, h⟩
  | done a => exact .inr ⟨a, h⟩
  | panicked message => cases h

/-- A strand that has ended has nothing in hand but what it has gained. -/
theorem hand_ended (hs : s.ended = true) : s.hand f (fun _ => []) = [] := by
  cases s with
  | done a => rfl
  | panicked message => rfl
  | ready point => cases hs
  | waiting point => cases hs

end Strand

/-- What a post has in hand. -/
def Post.hand : Post → List Hand
  | .acquire block s => s.hand Acquire.hand (gained (some block))
  | .release id s => s.hand (fun _ => Release.hand [.returning id] id) fun _ => []
  | .terminate id s => s.hand (fun _ => Termination.hand [] id) fun _ => []
  | .spawn s => s.hand Spawn.hand fun _ => []
  | .execute _ s => s.hand Execution.hand fun _ => []
  | .duty s => s.hand Execution.Duty.hand fun _ => []
  | .prewarm .. | .teardown _ | .cleanup _ | .reclaim .. => []

end SandboxPool
