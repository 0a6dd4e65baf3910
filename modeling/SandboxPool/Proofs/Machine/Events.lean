import SandboxPool.Proofs.Machine.Leaves

/-!
# What turns publish

Only a termination takes a sandbox to its end and counts it. Every other turn of an innermost process
leaves the count of terminated sandboxes as it is, publishes no transition to that state
(`Leaf.mild`), and puts no call to stop or to remove a sandbox (`Leaf.signal_aside`). The events of an
execution itself are about its lanes, those of all other processes are about sandboxes.
-/

namespace SandboxPool

variable {β γ : Type} {config : Config} {c : Context} {p : Pool} {out : Bool} {sig : Option Signal}
  {r r' : Record} {source target : State}

namespace Event

/-- The sandbox that the event takes to its end, with the state in which it was. -/
def ends? : Event → Option (String × State)
  | transition id source .terminated _ => some (id, source)
  | _ => none

/-- The event is about a sandbox. -/
def ofSandbox : Event → Bool
  | transition .. => true
  | _ => false

theorem ends?_of_not_ofSandbox {e : Event} (h : e.ofSandbox = false) : e.ends? = none := by
  cases e with
  | transition => cases h
  | _ => rfl

end Event

/-- The events that a scope publishes. -/
def Scope.events (s : Scope β) : List Event := s.effects.filterMap (·.event?)

theorem Record.ends?_arrived (h : r.state ≠ .terminated) : (r.arrived source).ends? = none := by
  unfold arrived Event.ends?
  split
  · next heq =>
    simp only [Event.transition.injEq] at heq
    exact absurd heq.2.2.1 h
  · rfl

theorem Record.state_of_move (h : r.move target = .ok r') : r'.state = target := by
  obtain ⟨hadmits, rfl⟩ := move_eq_ok_iff.1 h
  split
  · next hend =>
    rw [State.terminal_iff] at hend
    exact (hend target hadmits).symm
  · rfl

/-! ## Scopes that end no sandbox -/

/-- A scope leaves the count of terminated sandboxes and takes no sandbox to its end. Its events are
about sandboxes, or none of them is. -/
structure Scope.Mild (p : Pool) (about : Bool) (s : Scope β) : Prop where
  terminated : s.pool.stats.terminated = p.stats.terminated
  events : ∀ e ∈ s.events, e.ofSandbox = about ∧ e.ends? = none

namespace Scope

variable {about : Bool} {s : Scope β}

theorem Mild.map (h : s.Mild p about) (f : β → γ) : (s.map f).Mild p about :=
  ⟨h.terminated, h.events⟩

/-- A scope that publishes nothing. -/
theorem mild_silent {q : Pool} {x : β} (h : q.stats.terminated = p.stats.terminated) :
    (⟨q, [], x⟩ : Scope β).Mild p about := ⟨h, fun e he => by cases he⟩

/-- A scope that publishes the event of a record that goes on. -/
theorem mild_arrived {q : Pool} {x : β} (h : q.stats.terminated = p.stats.terminated)
    (hr : r.state ≠ .terminated) :
    (⟨q, [.emit (r.arrived source)], x⟩ : Scope β).Mild p true := by
  refine ⟨h, fun e he => ?_⟩
  obtain rfl := List.mem_singleton.1 he
  exact ⟨rfl, Record.ends?_arrived hr⟩

end Scope

theorem Spawn.bind_ok {block : String} {bound : Record} {q : Pool} {e : Event}
    (h : bind block r p = .ok (bound, q, e)) :
    q.stats = p.stats ∧ e.ofSandbox = true ∧ e.ends? = none := by
  unfold bind at h
  split at h
  · cases h
  · next running hmove =>
    cases h
    refine ⟨rfl, rfl, Record.ends?_arrived ?_⟩
    show running.state ≠ .terminated
    rw [Record.state_of_move hmove]
    simp

theorem Spawn.publish_mild (job : Job) (id : String) (p : Pool) :
    (publish job id p).Mild p true := by
  unfold publish
  split
  · exact Scope.mild_silent rfl
  · split
    · exact Scope.mild_silent rfl
    · next r _ _ idle hmove =>
      have hidle : idle.state ≠ .terminated := by
        rw [Record.state_of_move hmove]
        simp
      simp only
      split
      · exact Scope.mild_arrived rfl hidle
      · split
        · exact Scope.mild_arrived rfl hidle
        · next bound q next hbind =>
          obtain ⟨hstats, hnext⟩ := bind_ok hbind
          refine ⟨?_, fun e he => ?_⟩
          · show q.stats.terminated = _
            rw [hstats]
            rfl
          · rcases List.mem_cons.1 he with rfl | he
            · exact ⟨rfl, Record.ends?_arrived hidle⟩
            · obtain rfl := List.mem_singleton.1 he
              exact hnext

theorem Acquire.coldOr_mild (error : PoolError) (p : Pool) : (coldOr error p).Mild p true := by
  unfold coldOr
  split
  · exact Scope.mild_silent rfl
  · next q hq =>
    obtain ⟨-, rfl⟩ := Pool.reserve?_eq_some_iff.1 hq
    exact Scope.mild_silent rfl

theorem Record.events_calm (r : Record) : r.calm.2.filterMap (·.event?) = [] := by
  unfold calm
  cases r.timer <;> rfl

theorem Acquire.pick_mild (block : String) (c : Context) (p : Pool) :
    (pick block c p).Mild p true := by
  unfold pick
  split
  · unfold take
    split
    · exact Scope.mild_silent rfl
    · next bound q event hbind =>
      obtain ⟨hstats, hevent⟩ := Spawn.bind_ok hbind
      refine ⟨?_, fun e he => ?_⟩
      · show q.stats.terminated = _
        rw [hstats]
      · obtain rfl := List.mem_singleton.1 he
        exact hevent
  · next r _ =>
    refine ⟨rfl, fun e he => ?_⟩
    unfold claim Scope.events at he
    rw [Record.events_calm] at he
    cases he
  · exact coldOr_mild _ p

theorem Acquire.rebind_mild (block id : String) (p : Pool) : (rebind block id p).Mild p true := by
  unfold rebind
  split
  · exact Scope.mild_silent rfl
  · simp only
    split
    · exact Scope.mild_silent rfl
    · split
      · exact Scope.mild_silent rfl
      · next r _ _ idle hmove =>
        have hidle : idle.state ≠ .terminated := by
          rw [Record.state_of_move hmove]
          simp
        split
        · exact Scope.mild_arrived rfl hidle
        · next bound q next hbind =>
          obtain ⟨hstats, hnext⟩ := Spawn.bind_ok hbind
          refine ⟨?_, fun e he => ?_⟩
          · show q.stats.terminated = _
            rw [hstats]
            rfl
          · rcases List.mem_cons.1 he with rfl | he
            · exact ⟨rfl, Record.ends?_arrived hidle⟩
            · obtain rfl := List.mem_singleton.1 he
              exact hnext

theorem Acquire.join_mild (block id : String) (p : Pool) : (join block id p).Mild p true := by
  unfold join leave
  split
  · exact Scope.mild_silent rfl
  · simp only
    split
    · exact Scope.mild_arrived rfl (by simp)
    · exact Scope.mild_silent rfl

theorem Release.park_mild (id : String) (c : Context) (p : Pool) : (park id c p).Mild p true := by
  unfold park
  split
  · exact Scope.mild_silent rfl
  · next r _ =>
    split
    · exact Scope.mild_silent rfl
    · have hcalm := r.events_calm
      simp only
      split
      · refine ⟨rfl, fun e he => ?_⟩
        simp only [Scope.events, List.filterMap_append, hcalm, List.nil_append] at he
        cases he
      · refine ⟨rfl, fun e he => ?_⟩
        simp only [Scope.events, List.filterMap_append, hcalm, List.nil_append] at he
        obtain rfl := List.mem_singleton.1 he
        exact ⟨rfl, Record.ends?_arrived (by simp)⟩

/-! ## Processes that end no sandbox -/

/-- A turn is mild if the scope is in which it is made. -/
theorem Demand.Turn.mild {d : Demand β} {s : Scope (Option Unit)} {about : Bool}
    (h : d.bare.Turn c p out sig s) (hscope : ∀ body, d = .scope body → (body c p).Mild p about) :
    s.Mild p about := by
  obtain ⟨s₀, h₀, rfl⟩ := Demand.turn_map h
  cases h₀ with
  | scope body => exact ((hscope body rfl).map some).map _
  | gate next h => exact Scope.mild_silent rfl
  | send d a h => exact Scope.mild_silent rfl
  | receive d a r b ha hb => exact Scope.mild_silent rfl

/-- A spawn ends no sandbox, unless it discards one. -/
theorem Spawn.mild {job : Job} {s : Point} {body : Context → Pool → Scope (Next Point Result)}
    (hs : s.leaf job = .spawn job s) (h : demand config job s = .scope body) :
    (body c p).Mild p true := by
  cases s with
  | allocate =>
    cases h
    show (allocate job p).Mild p true
    unfold allocate
    split <;> exact Scope.mild_silent rfl
  | giveBack port cause =>
    cases h
    exact Scope.mild_silent rfl
  | register id port =>
    cases h
    exact Scope.mild_silent rfl
  | discard id error t => cases hs
  | publish id =>
    cases h
    exact publish_mild job id p
  | _ => cases h

/-- An acquisition by itself ends no sandbox. -/
theorem Acquire.mild {block : String} {a : Point}
    {body : Context → Pool → Scope (Next Point Result)} (ha : a.leaf block = .acquire block a)
    (h : demand config block a = .scope body) : (body c p).Mild p true := by
  cases a with
  | pick =>
    cases h
    exact pick_mild block c p
  | rebind id =>
    cases h
    exact rebind_mild block id p
  | failed error =>
    cases h
    exact Scope.mild_silent rfl
  | retire id error t => cases ha
  | replace error =>
    cases h
    exact coldOr_mild error p
  | cold s => cases s <;> cases ha
  | find =>
    cases h
    show (find c p).Mild p true
    unfold find
    split <;> exact Scope.mild_silent rfl
  | reserve =>
    cases h
    show (reserve p).Mild p true
    unfold reserve
    split
    · exact Scope.mild_silent rfl
    · next q hq =>
      obtain ⟨-, rfl⟩ := Pool.reserve?_eq_some_iff.1 hq
      exact Scope.mild_silent rfl
  | shared s => cases s <;> cases ha
  | join id =>
    cases h
    exact join_mild block id p
  | leave error =>
    cases h
    exact Scope.mild_silent rfl
  | _ => cases h

/-- A release ends no sandbox, unless it discards one. -/
theorem Release.mild {id : String} {r : Point} {body : Context → Pool → Scope (Next Point Result)}
    (hr : r.leaf id = .release id r) (h : demand id r = .scope body) :
    (body c p).Mild p true := by
  cases r with
  | check =>
    cases h
    show (check id p).Mild p true
    unfold check
    split
    · exact Scope.mild_silent rfl
    · split
      · exact Scope.mild_silent rfl
      · split <;> exact Scope.mild_silent rfl
  | pause => cases h
  | discard cause t => cases hr
  | park =>
    cases h
    exact park_mild id c p
  | drop =>
    cases h
    show (drop id p).Mild p true
    unfold drop
    split
    · exact Scope.mild_silent rfl
    · split <;> exact Scope.mild_silent rfl

/-- The run of a block by itself ends no sandbox. -/
theorem BlockRun.mild {block : String} {b : Point} {body : Context → Pool → Scope (Next Point BlockResult)}
    (hb : b.leaf block = .run block b) (h : demand config block b = .scope body) :
    (body c p).Mild p true := by
  cases b with
  | acquire since a => exact absurd hb (a.leaf_ne_run block)
  | run since sandbox => cases h
  | retire since sandbox ending t => cases hb
  | release ran id r => exact absurd hb (r.leaf_ne_run id)
  | _ =>
    cases h
    exact Scope.mild_silent rfl

/-- The leader of a prewarm ends no sandbox. -/
theorem Prewarm.mild {count : Nat} {point : Point} {s : Scope (Option Unit)}
    (h : ((conduct config count).leader point).bare.Turn c p out sig s) : s.Mild p true := by
  cases point with
  | gate =>
    obtain ⟨-, -, -, rfl⟩ := Demand.turn_gate h
    exact Scope.mild_silent rfl
  | reserve =>
    obtain ⟨-, -, rfl⟩ := Demand.turn_scope h
    refine Scope.Mild.map (Scope.Mild.map (s := reserve count p) ?_ _) _
    unfold reserve
    simp only
    split <;> exact Scope.mild_silent rfl
  | gather =>
    obtain ⟨-, -, rfl⟩ := Demand.turn_scope h
    exact Scope.mild_silent rfl
  | leave r =>
    obtain ⟨-, -, rfl⟩ := Demand.turn_scope h
    refine Scope.Mild.map (Scope.Mild.map (s := leave r p) ?_ _) _
    unfold leave
    split <;> exact Scope.mild_silent rfl

/-- The leader of a teardown ends no sandbox itself. -/
theorem Teardown.mild {point : Point} {s : Scope (Option Unit)}
    (h : (conduct.leader point).bare.Turn c p out sig s) : s.Mild p true := by
  cases point with
  | collect =>
    obtain ⟨-, -, rfl⟩ := Demand.turn_scope h
    refine Scope.Mild.map (Scope.Mild.map (s := collect p) ?_ _) _
    unfold collect
    split <;> exact Scope.mild_silent rfl
  | gather =>
    obtain ⟨-, -, rfl⟩ := Demand.turn_scope h
    exact Scope.mild_silent rfl

/-- The leader of a cleanup ends no sandbox. -/
theorem Cleanup.mild {point : Point} {s : Scope (Option Unit)}
    (h : (conduct.leader point).bare.Turn c p out sig s) : s.Mild p true := by
  cases point with
  | list =>
    rcases Demand.turn_list h with ⟨-, -, rfl⟩ | ⟨r, -, -, rfl⟩ <;> exact Scope.mild_silent rfl
  | compare containers =>
    obtain ⟨-, -, rfl⟩ := Demand.turn_scope h
    refine Scope.Mild.map (Scope.Mild.map (s := compare containers p) ?_ _) _
    unfold compare
    split <;> exact Scope.mild_silent rfl
  | gather =>
    obtain ⟨-, -, rfl⟩ := Demand.turn_scope h
    exact Scope.mild_silent rfl

namespace Execution

variable {s : Progress}

theorem lane_mild (s : Progress) (c : Context) (p : Pool) : (lane s c p).Mild p false := by
  unfold lane
  split
  · exact Scope.mild_silent rfl
  · next first _ _ =>
    split
    · exact Scope.mild_silent rfl
    · cases first <;>
        exact ⟨rfl, fun e he => by obtain rfl := List.mem_singleton.1 he; exact ⟨rfl, rfl⟩⟩

/-- The errors of failed blocks are events about a lane. -/
theorem events_errors (index : Nat) (failures : List BlockResult) :
    ∀ e ∈ (failures.map (errorEvent index)).filterMap (·.event?),
      e.ofSandbox = false ∧ e.ends? = none := by
  intro e he
  obtain ⟨effect, heffect, hevent⟩ := List.mem_filterMap.1 he
  obtain ⟨r, -, rfl⟩ := List.mem_map.1 heffect
  cases hevent
  exact ⟨rfl, rfl⟩

theorem settle_mild (s : Progress) (ran : List BlockResult) (interrupted : Bool) (c : Context)
    (p : Pool) :
    (settle s ran interrupted c p).Mild p false := by
  have herrors := events_errors s.index (ran.filter fun r => !r.success)
  have hmore : ∀ event : Event, event.ofSandbox = false → ∀ e : Event,
      e ∈ (((ran.filter fun r => !r.success).map (errorEvent s.index)) ++
        [Effect.emit event]).filterMap (·.event?) → e.ofSandbox = false ∧ e.ends? = none := by
    intro event hevent e he
    rw [List.filterMap_append] at he
    rcases List.mem_append.1 he with he | he
    · exact herrors e he
    · obtain rfl := List.mem_singleton.1 he
      exact ⟨hevent, Event.ends?_of_not_ofSandbox hevent⟩
  unfold settle
  simp only
  split
  · exact ⟨rfl, herrors⟩
  · split
    · exact ⟨rfl, hmore _ rfl⟩
    · split <;> exact ⟨rfl, hmore _ rfl⟩

/-- An execution itself ends no sandbox, and its events are about lanes. -/
theorem mild {plan : Plan} {point : Point} {s : Scope (Option Unit)}
    (hp : point.leaf plan = .execute plan point)
    (h : (leader config plan point).bare.Turn c p out sig s) : s.Mild p false := by
  have hone : ∀ {q : Pool} {e : Event} {x : Next Point Result},
      q.stats.terminated = p.stats.terminated → e.ofSandbox = false →
      (⟨q, [.emit e], x⟩ : Scope (Next Point Result)).Mild p false := by
    intro q e x hq he
    refine ⟨hq, fun e' he' => ?_⟩
    obtain rfl := List.mem_singleton.1 he'
    exact ⟨he, Event.ends?_of_not_ofSandbox he⟩
  cases point with
  | begin =>
    obtain ⟨-, -, rfl⟩ := Demand.turn_scope h
    refine Scope.Mild.map (Scope.Mild.map (s := begin plan p) ?_ _) _
    unfold begin
    split
    · exact Scope.mild_silent rfl
    · exact hone rfl rfl
  | lane progress =>
    obtain ⟨-, -, rfl⟩ := Demand.turn_scope h
    exact ((lane_mild progress c p).map _).map _
  | solo progress block b => exact absurd hp (b.leaf_ne_execute block)
  | dispatch progress sent waiting =>
    obtain ⟨-, -, rfl⟩ := Demand.turn_scope h
    refine Scope.Mild.map (Scope.Mild.map (s := dispatch progress sent waiting c p) ?_ _) _
    unfold dispatch
    split
    · exact Scope.mild_silent rfl
    · split <;> exact Scope.mild_silent rfl
  | settle progress ran interrupted =>
    obtain ⟨-, -, rfl⟩ := Demand.turn_scope h
    exact ((settle_mild progress ran interrupted c p).map _).map _
  | abort progress index =>
    obtain ⟨-, -, rfl⟩ := Demand.turn_scope h
    exact ((hone rfl rfl).map _).map _
  | teardown progress index =>
    obtain ⟨-, -, rfl⟩ := Demand.turn_scope h
    refine Scope.Mild.map (Scope.Mild.map (s := teardown progress index p) ?_ _) _
    unfold teardown
    split <;> exact Scope.mild_silent rfl
  | finish progress status =>
    obtain ⟨-, -, rfl⟩ := Demand.turn_scope h
    exact ((hone rfl rfl).map _).map _
  | _ =>
    obtain ⟨-, -, rfl⟩ := Demand.turn_scope h
    exact Scope.mild_silent rfl

end Execution

/-! ## Leaves -/

namespace Leaf

variable {l : Leaf} {s : Scope (Option Unit)}

/-- The leaf is innermost: it contains no other process. -/
def Innermost : Leaf → Prop
  | spawn job s => s.leaf job = spawn job s
  | acquire block a => a.leaf block = acquire block a
  | release id r => r.leaf id = release id r
  | run block b => b.leaf block = run block b
  | execute plan point => point.leaf plan = execute plan point
  | _ => True

theorem innermost_spawn (job : Spawn.Job) (s : Spawn.Point) : (s.leaf job).Innermost := by
  cases s <;> trivial

theorem innermost_acquire (block : String) (a : Acquire.Point) : (a.leaf block).Innermost := by
  cases a with
  | cold s => exact innermost_spawn _ s
  | shared s => exact innermost_spawn _ s
  | _ => trivial

theorem innermost_release (id : String) (r : Release.Point) : (r.leaf id).Innermost := by
  cases r <;> trivial

theorem innermost_run (block : String) (b : BlockRun.Point) : (b.leaf block).Innermost := by
  cases b with
  | acquire since a => exact innermost_acquire block a
  | release ran id r => exact innermost_release id r
  | _ => trivial

theorem innermost_duty (d : Execution.Duty) : d.leaf.Innermost := by
  cases d with
  | run block b => exact innermost_run block b
  | terminate id t => trivial

theorem innermost_execute (plan : Plan) (point : Execution.Point) : (point.leaf plan).Innermost := by
  cases point with
  | solo progress block b => exact innermost_run block b
  | _ => trivial

/-- The leaf of a post contains no other process. -/
theorem innermost_of_leaf? {x : Post} (h : x.leaf? config = some l) : l.Innermost := by
  cases x with
  | acquire block s =>
    obtain ⟨point, -, rfl⟩ := Option.map_eq_some_iff.1 h
    exact innermost_acquire block point
  | release id s =>
    obtain ⟨point, -, rfl⟩ := Option.map_eq_some_iff.1 h
    exact innermost_release id point
  | spawn s =>
    obtain ⟨point, -, rfl⟩ := Option.map_eq_some_iff.1 h
    exact innermost_spawn _ point
  | execute plan s =>
    obtain ⟨point, -, rfl⟩ := Option.map_eq_some_iff.1 h
    exact innermost_execute plan point
  | duty s =>
    obtain ⟨point, -, rfl⟩ := Option.map_eq_some_iff.1 h
    exact innermost_duty point
  | _ =>
    obtain ⟨point, -, rfl⟩ := Option.map_eq_some_iff.1 h
    trivial

/-- The leaf is not an execution itself. -/
def ofSandbox : Leaf → Bool
  | execute .. => false
  | _ => true

/-- **Only a termination takes a sandbox to its end.** -/
theorem mild (hl : l.Innermost) (hno : ∀ id t, l ≠ .termination id t)
    (h : (l.demand config).Turn c p out sig s) : s.Mild p l.ofSandbox := by
  cases l with
  | termination id t => exact absurd rfl (hno id t)
  | spawn job s => exact Demand.Turn.mild h fun _ => Spawn.mild hl
  | acquire block a => exact Demand.Turn.mild h fun _ => Acquire.mild hl
  | release id r => exact Demand.Turn.mild h fun _ => Release.mild hl
  | run block b => exact Demand.Turn.mild h fun _ => BlockRun.mild hl
  | prewarm count point => exact Prewarm.mild h
  | teardown point => exact Teardown.mild h
  | cleanup point => exact Cleanup.mild h
  | reclaim id point =>
    refine Demand.Turn.mild h fun body hbody => ?_
    cases point <;> cases hbody
  | execute plan point => exact Execution.mild hl h

end Leaf

/-! ## Calls that end a sandbox -/

/-- A call to stop or to remove a container. -/
def Ask.ends? : Ask → Option (String × Action)
  | .daemon (.act .stop id) => some (id, .stop)
  | .daemon (.act (.remove force) id) => some (id, .remove force)
  | _ => none

/-- A call to stop or to remove a container, and whether it has returned. -/
def Signal.ends? : Signal → Option (String × Action × Bool)
  | sent a => a.ends?.map fun (id, action) => (id, action, false)
  | got a _ => a.ends?.map fun (id, action) => (id, action, true)

/-- A turn signals at most what is asked for. -/
theorem Demand.Turn.ask {d : Demand β} {s : Scope (Option β)} (h : d.Turn c p out sig s)
    {signal : Signal} (hs : sig = some signal) :
    ∃ a, d.ask? = some a ∧ (signal = .sent a ∨ ∃ r, signal = .got a r) := by
  cases h with
  | scope body => cases hs
  | gate next h => cases hs
  | send d a h =>
    cases hs
    exact ⟨a, h, .inl rfl⟩
  | receive d a r b ha hb =>
    cases hs
    exact ⟨a, ha, .inr ⟨r, rfl⟩⟩

namespace Leaf

variable {l : Leaf} {s : Scope (Option Unit)}

/-- Nothing but a termination, and the removal of a container that no pool knows, asks to stop or to
remove a container. -/
theorem ask_ends (hl : l.Innermost) (hno : ∀ id t, l ≠ .termination id t)
    (hr : ∀ id point, l ≠ .reclaim id point) {a : Ask} (ha : (l.demand config).ask? = some a) :
    a.ends? = none := by
  cases l with
  | termination id t => exact absurd rfl (hno id t)
  | spawn job s =>
    cases s with
    | discard id error t => cases hl
    | _ => cases ha <;> rfl
  | acquire block a =>
    cases a with
    | retire id error t => cases hl
    | cold s => cases s <;> cases hl
    | shared s => cases s <;> cases hl
    | _ => cases ha <;> rfl
  | release id r =>
    cases r with
    | discard cause t => cases hl
    | _ => cases ha <;> rfl
  | run block b =>
    cases b with
    | acquire since a => exact absurd hl (a.leaf_ne_run block)
    | retire since sandbox ending t => cases hl
    | release ran id r => exact absurd hl (r.leaf_ne_run id)
    | _ => cases ha <;> rfl
  | prewarm count point => cases point <;> cases ha
  | teardown point => cases point <;> cases ha
  | cleanup point =>
    cases point with
    | list =>
      cases ha
      rfl
    | _ => cases ha
  | reclaim id point => exact absurd rfl (hr id point)
  | execute plan point =>
    cases point with
    | solo progress block b => exact absurd hl (b.leaf_ne_execute block)
    | _ => cases ha

/-- **Only a termination is signalled to stop or to remove a sandbox.** -/
theorem signal_ends (hl : l.Innermost) (hno : ∀ id t, l ≠ .termination id t)
    (h : (l.demand config).Turn c p out sig s) {signal : Signal} (hs : l.heard sig = some signal) :
    signal.ends? = none := by
  by_cases hr : ∃ id point, l = .reclaim id point
  · obtain ⟨id, point, rfl⟩ := hr
    cases hs
  · have hsig : sig = some signal := by
      cases l with
      | cleanup point => cases hs
      | reclaim id point => exact absurd ⟨id, point, rfl⟩ hr
      | _ => exact hs
    obtain ⟨a, ha, rfl | ⟨r, rfl⟩⟩ := h.ask hsig
    · have hnone := ask_ends hl hno (fun id point he => hr ⟨id, point, he⟩) ha
      simp only [Signal.ends?, hnone, Option.map_none]
    · have hnone := ask_ends hl hno (fun id point he => hr ⟨id, point, he⟩) ha
      simp only [Signal.ends?, hnone, Option.map_none]

end Leaf

end SandboxPool
