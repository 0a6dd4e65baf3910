import SandboxPool.Proofs.Machine.Alarms

/-!
# Passages of records

What becomes of the state and of the blocks of a record in the turn of an innermost process, and which
events tell of it. Scopes change a record and publish its transitions in separate statements, now with
the block set before the transition and now behind it; a `Leaf.Passage` lists what there is in the end:
every way in which a record can change in one scope, together with the events of that scope.

`Leaf.passes` says that every turn is of this kind, as long as the calendar covers the ends that are
set: a release that breaks off behind the calendar parks its sandbox without an event.
-/

namespace SandboxPool

variable {config : Config} {c : Context} {p q : Pool} {out : Bool} {sig : Option Signal}
  {r r' : Record} {id block : String} {l : Leaf} {e : List Event}

namespace Leaf

/-- The sandbox that the leaf is about to share with one more block. -/
def joins? : Leaf → Option String
  | acquire _ (.join id) => some id
  | _ => none

/-- The sandbox that the leaf is about to share with one block less. -/
def drops? : Leaf → Option String
  | release id .drop => some id
  | _ => none

/-- The leaf is about to bind a sandbox to a block that has it for itself. -/
def binds : Leaf → Bool
  | spawn job (.publish _) => job.block.isSome
  | acquire _ .pick => true
  | acquire _ (.rebind _) => true
  | _ => false

/-- The sandbox that the leaf is about to make idle. -/
def rouses? : Leaf → Option String
  | spawn _ (.publish id) => some id
  | acquire _ (.rebind id) => some id
  | _ => none

/-- What a leaf makes of a record in a scope, and the events that tell of it. -/
inductive Passage (l : Leaf) (r : Record) : List Event → Record → Prop where
  /-- Neither its state nor its blocks change. -/
  | keep {r' : Record} (hid : r'.id = r.id) (hs : r'.state = r.state) (hb : r'.block = r.block)
      (hn : r'.binders = r.binders) : Passage l r [] r'
  /-- It becomes idle. -/
  | publish (ha : r.state.admits .idle = true) (hr : l.rouses? = some r.id) :
      Passage l r [{ r with state := .idle }.arrived r.state] { r with state := .idle }
  /-- It becomes idle, and runs a block at once. -/
  | bind {r' : Record} (hl : l.binds = true) (ha : r.state.admits .idle = true) (hid : r'.id = r.id)
      (hs : r'.state = .running) (hr : l.rouses? = some r.id) :
      Passage l r [{ r with state := .idle }.arrived r.state, r'.arrived .idle] r'
  /-- It is idle, and runs a block. -/
  | take {r' : Record} (hl : l.binds = true) (hi : r.state = .idle) (hid : r'.id = r.id)
      (hs : r'.state = .running) : Passage l r [r'.arrived .idle] r'
  /-- It is parked. -/
  | park {r' : Record} (hl : l = .release r.id .park) (hi : r.state = .running) (hid : r'.id = r.id)
      (hs : r'.state = .dormant) : Passage l r [r'.arrived .running] r'
  /-- It comes to its end. -/
  | settle {r' : Record} {port : UInt16} (hl : l = .termination r.id (.settle port))
      (hid : r'.id = r.id) (hs : r'.state = .terminated) (hb : r'.block = none)
      (hn : r'.binders = 0) : Passage l r [r'.arrived r.state] r'
  /-- It is idle, and runs the first of the blocks that share it. -/
  | enter (hl : l.joins? = some r.id) (hi : r.state = .idle) (block : String) :
      Passage l r [.transition r.id .idle .running (some block)]
        { r with block := some block, binders := r.binders + 1, state := .running }
  /-- One more block shares it. -/
  | join (hl : l.joins? = some r.id) (hi : r.state ≠ .idle) (block : String) :
      Passage l r [] { r with block := some block, binders := r.binders + 1 }
  /-- One block less shares it. -/
  | drop (hl : l.drops? = some r.id) (hlive : r.live = true) :
      Passage l r [] { r with
        binders := r.binders - 1, block := if r.binders - 1 = 0 then none else r.block }

/-- What the turn of a leaf makes of the records, and the events that it publishes. -/
inductive Passes (l : Leaf) (p : Pool) : Pool → List Event → Prop where
  /-- The records stay as they are, and no event is about a sandbox. -/
  | still {q : Pool} {e : List Event} (hq : q.records = p.records) (he : ∀ x ∈ e, x.ofSandbox = false) :
      Passes l p q e
  /-- A new sandbox gets its record. -/
  | enters {id : String} (hl : l.enters? = some id) (port : UInt16) (now : Instant) :
      Passes l p (p.unreserve.insert (.new id port now)) []
  /-- One record changes. -/
  | passes {q : Pool} {e : List Event} {r r' : Record} (hr : r ∈ p.records)
      (hq : q.records = (p.put r').records) (h : l.Passage r e r') : Passes l p q e

theorem passes_silent (hq : q.records = p.records) : l.Passes p q [] :=
  .still hq fun _ hx => by cases hx

theorem Passage.id_eq (h : l.Passage r e r') : r'.id = r.id := by
  cases h with
  | keep hid => exact hid
  | bind _ _ hid => exact hid
  | take _ _ hid => exact hid
  | park _ _ hid => exact hid
  | settle _ hid => exact hid
  | _ => rfl

end Leaf

/-! ## Scopes -/

section Scopes

variable {β : Type}

/-- A turn leaves the records as they are and publishes nothing, unless it is made in a scope. -/
theorem Demand.Turn.passes {d : Demand β} {s : Scope (Option Unit)} (h : d.bare.Turn c p out sig s)
    (hscope : ∀ body, d = .scope body → (∃ r, s = ⟨(body c p).pool, (body c p).effects, r⟩) →
      l.Passes p (body c p).pool (body c p).events) : l.Passes p s.pool s.events := by
  obtain ⟨s₀, h₀, rfl⟩ := Demand.turn_map h
  cases h₀ with
  | scope body => exact hscope body rfl ⟨_, rfl⟩
  | gate next h => exact Leaf.passes_silent rfl
  | send d a h => exact Leaf.passes_silent rfl
  | receive d a r b ha hb => exact Leaf.passes_silent rfl

theorem Termination.claim_passes (id : String) (p : Pool) :
    l.Passes p (claim id p).pool (claim id p).events := by
  unfold claim
  cases hf : p.find? id with
  | none => exact Leaf.passes_silent rfl
  | some r =>
    obtain ⟨hr, rfl⟩ := Pool.mem_of_find? hf
    simp only
    split
    · exact Leaf.passes_silent rfl
    · rw [Scope.events, Record.events_calm]
      exact .passes hr rfl (.keep rfl rfl rfl rfl)

theorem Termination.expire_passes (id : String) (g : Nat) (p : Pool) :
    l.Passes p (expire id g p).pool (expire id g p).events := by
  unfold expire
  cases hf : p.find? id with
  | none => exact Leaf.passes_silent rfl
  | some r =>
    obtain ⟨hr, rfl⟩ := Pool.mem_of_find? hf
    simp only
    split
    · exact Leaf.passes_silent rfl
    · exact .passes hr rfl (.keep rfl rfl rfl rfl)

theorem Termination.scope_passes {t : Point} {body : Context → Pool → Scope (Next Point Result)}
    (h : demand id t = .scope body) :
    (Leaf.termination id t).Passes p (body c p).pool (body c p).events := by
  cases t with
  | claim =>
    cases h
    exact claim_passes id p
  | expire g =>
    cases h
    exact expire_passes id g p
  | settle port =>
    cases h
    show Leaf.Passes _ p (settle id port p).pool (settle id port p).events
    cases hf : p.find? id with
    | none =>
      have hfind :
        (({ p with ports := p.ports.release port } : Pool).dropClaim id).find? id = none := hf
      simp only [settle, hfind]
      exact Leaf.passes_silent rfl
    | some r =>
      obtain ⟨hr, rfl⟩ := Pool.mem_of_find? hf
      rw [settle_eq hf]
      have hpassage : (Leaf.termination r.id (.settle port)).Passage r _ { r with
          state := .terminated, block := none, binders := 0, dormantSince := none, busy := false } :=
        .settle rfl rfl rfl rfl rfl
      exact .passes hr rfl hpassage
  | _ => cases h

theorem Spawn.publish_passes (job : Job) (id : String) (p : Pool) :
    (Leaf.spawn job (.publish id)).Passes p (publish job id p).pool (publish job id p).events := by
  unfold publish
  cases hf : p.find? id with
  | none => exact Leaf.passes_silent rfl
  | some r =>
    obtain ⟨hr, rfl⟩ := Pool.mem_of_find? hf
    cases ha : r.state.admits .idle with
    | false =>
      simp only [Record.move_of_not_admits ha]
      exact Leaf.passes_silent rfl
    | true =>
      simp only [Record.move_of_admits ha]
      cases hb : job.block with
      | none => exact .passes hr rfl (.publish ha rfl)
      | some block =>
        simp only [bind_idle (r := { r with state := .idle }) rfl]
        have hput : (p.put { r with state := .idle }).put
            { r with state := .running, block := some block }
            = p.put { r with state := .running, block := some block } := Pool.put_put p rfl
        have hbinds : (Leaf.spawn job (.publish r.id)).binds = true := by simp [Leaf.binds, hb]
        exact .passes hr (congrArg Pool.records hput :) (.bind hbinds ha rfl rfl rfl)

theorem Spawn.scope_passes {job : Job} {s : Point} {body : Context → Pool → Scope (Next Point Result)}
    (hs : s.leaf job = .spawn job s) (h : demand config job s = .scope body) :
    (Leaf.spawn job s).Passes p (body c p).pool (body c p).events := by
  cases s with
  | allocate =>
    cases h
    show Leaf.Passes _ p (allocate job p).pool (allocate job p).events
    unfold allocate
    split <;> exact Leaf.passes_silent rfl
  | giveBack port cause =>
    cases h
    exact Leaf.passes_silent rfl
  | register id port =>
    cases h
    exact .enters rfl port c.now
  | discard id error t => cases hs
  | publish id =>
    cases h
    exact publish_passes job id p
  | _ => cases h

theorem Acquire.coldOr_passes (error : PoolError) (p : Pool) :
    l.Passes p (coldOr error p).pool (coldOr error p).events := by
  unfold coldOr
  split
  · exact Leaf.passes_silent rfl
  · next q hq =>
    obtain ⟨-, rfl⟩ := Pool.reserve?_eq_some_iff.1 hq
    exact Leaf.passes_silent rfl

theorem Acquire.pick_passes (block : String) (c : Context) (p : Pool) :
    (Leaf.acquire block .pick).Passes p (pick block c p).pool (pick block c p).events := by
  unfold pick
  cases hi : candidate? (·.selectable .idle) c p with
  | some r =>
    obtain ⟨hr, -, hs⟩ := Acquire.mem_of_selectable hi
    simp only [take, Spawn.bind_idle hs]
    exact .passes hr rfl (.take rfl hs rfl rfl)
  | none =>
    cases hdorm : candidate? (·.selectable .dormant) c p with
    | some r =>
      obtain ⟨hr, -, -⟩ := Acquire.mem_of_selectable hdorm
      simp only [claim, Scope.events, Record.events_calm]
      exact .passes hr rfl (.keep rfl rfl rfl rfl)
    | none => exact coldOr_passes _ p

theorem Acquire.rebind_passes (block id : String) (p : Pool) :
    (Leaf.acquire block (.rebind id)).Passes p (rebind block id p).pool (rebind block id p).events := by
  unfold rebind
  split
  · exact Leaf.passes_silent rfl
  · have hfind : (p.dropClaim id).find? id = p.find? id := rfl
    simp only [hfind]
    cases hf : p.find? id with
    | none => exact Leaf.passes_silent rfl
    | some r =>
      obtain ⟨hr, rfl⟩ := Pool.mem_of_find? hf
      cases ha : r.state.admits .idle with
      | false =>
        simp only [Record.move_of_not_admits (r := { r with busy := false }) ha]
        exact .passes hr rfl (.keep rfl rfl rfl rfl)
      | true =>
        simp only [Record.move_of_admits (r := { r with busy := false }) ha]
        simp only [Spawn.bind_idle (r := { r with busy := false, state := .idle }) rfl]
        have hput : ((p.dropClaim r.id).put { r with busy := false, state := .idle }).put
            { r with busy := false, state := .running, block := some block }
            = (p.dropClaim r.id).put
              { r with busy := false, state := .running, block := some block } := Pool.put_put _ rfl
        exact .passes hr (congrArg Pool.records hput :) (.bind rfl ha rfl rfl rfl)

theorem Acquire.join_passes (block id : String) (p : Pool) :
    (Leaf.acquire block (.join id)).Passes p (join block id p).pool (join block id p).events := by
  unfold join leave
  cases hf : p.find? id with
  | none => exact Leaf.passes_silent rfl
  | some r =>
    obtain ⟨hr, rfl⟩ := Pool.mem_of_find? hf
    by_cases hs : r.state = .idle
    · simp only [hs, if_true]
      exact .passes hr rfl (.enter rfl hs block)
    · simp only [hs, if_false]
      exact .passes hr rfl (.join rfl hs block)

theorem Acquire.scope_passes {a : Point} {body : Context → Pool → Scope (Next Point Result)}
    (ha : a.leaf block = .acquire block a) (h : demand config block a = .scope body) :
    (Leaf.acquire block a).Passes p (body c p).pool (body c p).events := by
  cases a with
  | pick =>
    cases h
    exact pick_passes block c p
  | rebind id =>
    cases h
    exact rebind_passes block id p
  | failed error =>
    cases h
    exact Leaf.passes_silent rfl
  | retire id error t => cases ha
  | replace error =>
    cases h
    exact coldOr_passes error p
  | cold s => cases s <;> cases ha
  | find =>
    cases h
    show Leaf.Passes _ p (find c p).pool (find c p).events
    unfold find
    split <;> exact Leaf.passes_silent rfl
  | reserve =>
    cases h
    show Leaf.Passes _ p (reserve p).pool (reserve p).events
    unfold reserve
    split
    · exact Leaf.passes_silent rfl
    · next q hq =>
      obtain ⟨-, rfl⟩ := Pool.reserve?_eq_some_iff.1 hq
      exact Leaf.passes_silent rfl
  | shared s => cases s <;> cases ha
  | join id =>
    cases h
    exact join_passes block id p
  | leave error =>
    cases h
    exact Leaf.passes_silent rfl
  | _ => cases h

/-- A release that would park the sandbox beyond the calendar does not tell of it. -/
theorem Release.park_passes (id : String) (c : Context) (p : Pool)
    (hdated : Dated (park id c p).effects) :
    (Leaf.release id .park).Passes p (park id c p).pool (park id c p).events := by
  unfold park at hdated ⊢
  cases hf : p.find? id with
  | none => exact Leaf.passes_silent rfl
  | some r =>
    obtain ⟨hr, rfl⟩ := Pool.mem_of_find? hf
    simp only [hf] at hdated ⊢
    split
    · exact Leaf.passes_silent rfl
    · next hyes =>
      rw [if_neg hyes] at hdated
      simp only [Bool.or_eq_true, bne_iff_ne, ne_eq, not_or, Decidable.not_not] at hyes
      obtain ⟨hs, -⟩ := hyes
      split
      · next hbeyond =>
        rw [if_pos hbeyond] at hdated
        exact absurd hdated (Tick.not_dated_of_burst hbeyond)
      · have hpassage : (Leaf.release r.id .park).Passage r _ { r with
            timer := some ⟨deadline p.config.dormancy c.now, p.generation⟩, state := .dormant,
            block := none, dormantSince := some c.now } := .park rfl hs rfl rfl
        simp only [Scope.events, List.filterMap_append, Record.events_calm, hs]
        exact .passes hr rfl hpassage

theorem Release.scope_passes {point : Point} {body : Context → Pool → Scope (Next Point Result)}
    (hpoint : point.leaf id = .release id point) (h : demand id point = .scope body)
    (hdated : point = .park → Dated (body c p).effects) :
    (Leaf.release id point).Passes p (body c p).pool (body c p).events := by
  cases point with
  | check =>
    cases h
    show Leaf.Passes _ p (check id p).pool (check id p).events
    unfold check
    split
    · exact Leaf.passes_silent rfl
    · split
      · exact Leaf.passes_silent rfl
      · split <;> exact Leaf.passes_silent rfl
  | pause => cases h
  | discard cause t => cases hpoint
  | park =>
    cases h
    exact park_passes id c p (hdated rfl)
  | drop =>
    cases h
    show Leaf.Passes _ p (drop id p).pool (drop id p).events
    unfold drop
    cases hf : p.find? id with
    | none => exact Leaf.passes_silent rfl
    | some r =>
      obtain ⟨hr, rfl⟩ := Pool.mem_of_find? hf
      simp only
      split
      · exact Leaf.passes_silent rfl
      · next hlive => exact .passes hr rfl (.drop rfl (by simpa using hlive))

theorem BlockRun.scope_passes {b : Point} {body : Context → Pool → Scope (Next Point BlockResult)}
    (hb : b.leaf block = .run block b) (h : demand config block b = .scope body) :
    l.Passes p (body c p).pool (body c p).events := by
  cases b with
  | acquire since a => exact absurd hb (a.leaf_ne_run block)
  | run since sandbox => cases h
  | retire since sandbox ending t => cases hb
  | release ran id r => exact absurd hb (r.leaf_ne_run id)
  | _ =>
    cases h
    exact Leaf.passes_silent rfl

theorem Prewarm.passes {count : Nat} {point : Point} {s : Scope (Option Unit)}
    (h : ((conduct config count).leader point).bare.Turn c p out sig s) :
    l.Passes p s.pool s.events := by
  cases point with
  | gate =>
    obtain ⟨-, -, -, rfl⟩ := Demand.turn_gate h
    exact Leaf.passes_silent rfl
  | reserve =>
    obtain ⟨-, -, rfl⟩ := Demand.turn_scope h
    show Leaf.Passes _ p (reserve count p).pool (reserve count p).events
    unfold reserve
    simp only
    split <;> exact Leaf.passes_silent rfl
  | gather =>
    obtain ⟨-, -, rfl⟩ := Demand.turn_scope h
    exact Leaf.passes_silent rfl
  | leave r =>
    obtain ⟨-, -, rfl⟩ := Demand.turn_scope h
    show Leaf.Passes _ p (leave r p).pool (leave r p).events
    unfold leave
    split <;> exact Leaf.passes_silent rfl

theorem Teardown.passes {point : Point} {s : Scope (Option Unit)}
    (h : (conduct.leader point).bare.Turn c p out sig s) : l.Passes p s.pool s.events := by
  cases point with
  | collect =>
    obtain ⟨-, -, rfl⟩ := Demand.turn_scope h
    show Leaf.Passes _ p (collect p).pool (collect p).events
    unfold collect
    split <;> exact Leaf.passes_silent rfl
  | gather =>
    obtain ⟨-, -, rfl⟩ := Demand.turn_scope h
    exact Leaf.passes_silent rfl

theorem Cleanup.passes {point : Point} {s : Scope (Option Unit)}
    (h : (conduct.leader point).bare.Turn c p out sig s) : l.Passes p s.pool s.events := by
  cases point with
  | list => rcases Demand.turn_list h with ⟨-, -, rfl⟩ | ⟨r, -, -, rfl⟩ <;> exact Leaf.passes_silent rfl
  | compare containers =>
    obtain ⟨-, -, rfl⟩ := Demand.turn_scope h
    show Leaf.Passes _ p (compare containers p).pool (compare containers p).events
    unfold compare
    split <;> exact Leaf.passes_silent rfl
  | gather =>
    obtain ⟨-, -, rfl⟩ := Demand.turn_scope h
    exact Leaf.passes_silent rfl

/-- An execution itself leaves the records as they are. -/
theorem Execution.records_turn {plan : Plan} {point : Point} {s : Scope (Option Unit)}
    (hp : point.leaf plan = .execute plan point)
    (h : (leader config plan point).bare.Turn c p out sig s) : s.pool.records = p.records := by
  cases point with
  | begin =>
    obtain ⟨-, -, rfl⟩ := Demand.turn_scope h
    show (begin plan p).pool.records = p.records
    unfold begin
    split <;> rfl
  | lane progress =>
    obtain ⟨-, -, rfl⟩ := Demand.turn_scope h
    show (lane progress c p).pool.records = p.records
    unfold lane
    split
    · rfl
    · split <;> rfl
  | solo progress block b => exact absurd hp (b.leaf_ne_execute block)
  | dispatch progress sent waiting =>
    obtain ⟨-, -, rfl⟩ := Demand.turn_scope h
    show (dispatch progress sent waiting c p).pool.records = p.records
    unfold dispatch
    split
    · rfl
    · split <;> rfl
  | settle progress ran interrupted =>
    obtain ⟨-, -, rfl⟩ := Demand.turn_scope h
    show (settle progress ran interrupted c p).pool.records = p.records
    unfold settle
    simp only
    split
    · rfl
    · split
      · rfl
      · split <;> rfl
  | teardown progress index =>
    obtain ⟨-, -, rfl⟩ := Demand.turn_scope h
    show (teardown progress index p).pool.records = p.records
    unfold teardown
    split <;> rfl
  | _ =>
    obtain ⟨-, -, rfl⟩ := Demand.turn_scope h
    rfl

/-- **A turn of an innermost process changes one record at most**, and its events tell what becomes of
the state of that record and of its blocks. -/
theorem Leaf.passes {s : Scope (Option Unit)} (hl : l.Innermost)
    (h : (l.demand config).Turn c p out sig s)
    (hdated : ∀ id, l = .release id .park → Dated s.effects) : l.Passes p s.pool s.events := by
  cases l with
  | termination id t => exact Demand.Turn.passes h fun _ hbody _ => Termination.scope_passes hbody
  | spawn job s => exact Demand.Turn.passes h fun _ hbody _ => Spawn.scope_passes hl hbody
  | acquire block a => exact Demand.Turn.passes h fun _ hbody _ => Acquire.scope_passes hl hbody
  | release id r =>
    refine Demand.Turn.passes h fun body hbody hs => Release.scope_passes hl hbody fun he => ?_
    obtain ⟨result, rfl⟩ := hs
    exact hdated id (by rw [he])
  | run block b => exact Demand.Turn.passes h fun _ hbody _ => BlockRun.scope_passes hl hbody
  | prewarm count point => exact Prewarm.passes h
  | teardown point => exact Teardown.passes h
  | cleanup point => exact Cleanup.passes h
  | reclaim id point =>
    refine Demand.Turn.passes h fun body hbody _ => ?_
    cases point <;> cases hbody
  | execute plan point =>
    exact .still (Execution.records_turn hl h) fun e he => ((Execution.mild hl h).events e he).1

end Scopes

/-! ## Who binds a sandbox -/

section Models

variable {model : Parallelism}

theorem Acquire.multi_of_binds {a : Point} (ha : a.Fits model) (hb : (a.leaf block).binds = true) :
    model = .multi := by
  cases a with
  | pick => exact ha
  | rebind id => exact ha
  | cold s => exact ha
  | shared s => cases s <;> cases hb
  | _ => cases hb

theorem BlockRun.multi_of_binds {b : Point} (hb : b.Fits model) (hl : (b.leaf block).binds = true) :
    model = .multi := by
  cases b with
  | acquire since a => exact Acquire.multi_of_binds hb hl
  | release ran id r => cases r <;> cases hl
  | _ => cases hl

/-- A sandbox is bound to a block that has it for itself only where every block has one of its own. -/
theorem Post.Fits.multi_of_binds {x : Post} (hx : x.Fits model) (hl : x.leaf? config = some l)
    (hb : l.binds = true) : model = .multi := by
  cases x with
  | acquire block s =>
    obtain ⟨a, ha, rfl⟩ := Option.map_eq_some_iff.1 hl
    exact Acquire.multi_of_binds (Strand.Keeps.of_point? hx ha) hb
  | release id s =>
    obtain ⟨r, -, rfl⟩ := Option.map_eq_some_iff.1 hl
    cases r <;> cases hb
  | spawn s =>
    obtain ⟨t, -, rfl⟩ := Option.map_eq_some_iff.1 hl
    cases t <;> cases hb
  | execute plan s =>
    obtain ⟨point, hp, rfl⟩ := Option.map_eq_some_iff.1 hl
    have hfits := Strand.Keeps.of_point? hx hp
    cases point with
    | solo progress block b => exact BlockRun.multi_of_binds hfits hb
    | _ => cases hb
  | duty s =>
    obtain ⟨d, hd, rfl⟩ := Option.map_eq_some_iff.1 hl
    have hfits := Strand.Keeps.of_point? hx hd
    cases d with
    | run block b => exact BlockRun.multi_of_binds hfits hb
    | terminate id t => cases hb
  | _ =>
    obtain ⟨point, -, rfl⟩ := Option.map_eq_some_iff.1 hl
    cases hb

end Models

end SandboxPool
