import SandboxPool.Proofs.Machine.Gate

/-!
# Ends that are set for paused sandboxes

A release that parks a sandbox sets an end for it, under a generation that no end had before. Whoever
claims a parked sandbox calls its end off, and the end itself claims the sandbox when its time has
come. `Tick` lists what a turn may do to the ends that are set: most turns do nothing to them.

`Leaf.tick` says that every turn of an innermost process is one of these.
-/

namespace SandboxPool

variable {config : Config} {c : Context} {p q : Pool} {out : Bool} {sig : Option Signal}
  {r r' : Record} {id block : String} {new : Option String} {e : List Effect}

/-! ## Effects on the ends that are set -/

namespace Effect

/-- The effect sets an end or calls one off. -/
def rings : Effect → Bool
  | emit _ => false
  | arm .. => true
  | disarm _ => true

/-- What an effect does to the ends that are set. -/
def ring (alarms : List Alarm) : Effect → List Alarm
  | emit _ => alarms
  | arm id generation due => alarms ++ [⟨id, generation, due⟩]
  | disarm generation => alarms.filter (·.generation != generation)

theorem ring_of_not_rings {x : Effect} (h : x.rings = false) (alarms : List Alarm) :
    ring alarms x = alarms := by
  cases x with
  | emit event => rfl
  | arm id generation due => cases h
  | disarm generation => cases h

theorem foldl_ring_of_not_rings (he : ∀ x ∈ e, x.rings = false) (alarms : List Alarm) :
    e.foldl ring alarms = alarms := by
  induction e with
  | nil => rfl
  | cons x rest ih =>
    rw [List.foldl_cons, ring_of_not_rings (he x (List.mem_cons_self ..))]
    exact ih fun y hy => he y (List.mem_cons_of_mem _ hy)

end Effect

namespace Record

/-- Whoever calls off the end of a record at most removes the generation that the record knows of. -/
theorem ring_calm (r : Record) (alarms : List Alarm) : r.calm.2.foldl Effect.ring alarms
    = alarms.filter fun a => r.timer.map (·.generation) != some a.generation := by
  unfold calm
  cases r.timer with
  | none => exact (List.filter_eq_self.2 fun a _ => rfl).symm
  | some t =>
    refine List.filter_congr fun a _ => ?_
    rw [Option.map_some, bne, bne, Option.some_beq_some, BEq.comm]

theorem mem_calm {x : Effect} (h : x ∈ r.calm.2) : ∃ t, r.timer = some t ∧ x = .disarm t.generation := by
  unfold calm at h
  cases ht : r.timer with
  | none => rw [ht] at h; cases h
  | some t =>
    rw [ht] at h
    exact ⟨t, rfl, List.mem_singleton.1 h⟩

end Record

/-! ## Ticks -/

namespace Pool

/-- The sandbox is parked: it is paused, and nobody has a claim on it. -/
def Parked (p : Pool) (r : Record) : Prop := r.state = .dormant ∧ p.claim? r.id = none

instance (p : Pool) (r : Record) : Decidable (p.Parked r) :=
  inferInstanceAs (Decidable (_ ∧ _))

/-- The records know of the same ends, and no sandbox is parked that was not. -/
structure Even (p q : Pool) : Prop where
  generation : q.generation = p.generation
  before : ∀ r ∈ q.records, ∃ r₀ ∈ p.records, r₀.id = r.id ∧ r₀.timer = r.timer
  behind : ∀ r ∈ p.records, ∃ r' ∈ q.records, r'.id = r.id ∧ r'.timer = r.timer
  parked : ∀ r ∈ q.records, q.Parked r → ∃ r₀ ∈ p.records, p.Parked r₀ ∧ r₀.id = r.id ∧
    r₀.timer = r.timer ∧ r₀.dormantSince = r.dormantSince

theorem even_of_records (hr : q.records = p.records) (hc : q.claims = p.claims)
    (hg : q.generation = p.generation) : p.Even q := by
  refine ⟨hg, fun r hrec => ⟨r, hr ▸ hrec, rfl, rfl⟩, fun r hrec => ⟨r, hr ▸ hrec, rfl, rfl⟩,
    fun r hrec hp => ⟨r, hr ▸ hrec, ⟨hp.1, ?_⟩, rfl, rfl, rfl⟩⟩
  have hclaim := hp.2
  unfold claim? at hclaim ⊢
  rwa [hc] at hclaim

/-- Whatever is in the pool behind a replacement is the new record, or was there. -/
theorem mem_put_or (h : r' ∈ (p.put r).records) : r' = r ∨ r' ∈ p.records ∧ r'.id ≠ r.id := by
  obtain ⟨old, hold, rfl⟩ := List.mem_map.1 h
  by_cases he : old.id = r.id
  · exact .inl (by simp [he])
  · exact .inr ⟨by simpa [he] using hold, by simp [he]⟩

/-- A record is replaced by one that knows of the same end, and no other sandbox is claimed or given
up. -/
theorem Distinct.even_put {s : Record} (hd : p.Distinct) (hr : r ∈ p.records)
    (hq : q.records = (p.put s).records) (hid : s.id = r.id) (ht : s.timer = r.timer)
    (hg : q.generation = p.generation) (hc : ∀ id, id ≠ r.id → q.claim? id = p.claim? id)
    (hp : q.Parked s → p.Parked r ∧ r.dormantSince = s.dormantSince) : p.Even q := by
  refine ⟨hg, fun x hx => ?_, fun x hx => ?_, fun x hx hpark => ?_⟩
  · rcases (mem_put hq hr hid).1 hx with rfl | ⟨hold, -⟩
    · exact ⟨r, hr, hid.symm, ht.symm⟩
    · exact ⟨x, hold, rfl, rfl⟩
  · by_cases he : x.id = r.id
    · obtain rfl := hd.eq_of_id hr hx he
      exact ⟨s, (mem_put hq hx hid).2 (.inl rfl), hid, ht⟩
    · exact ⟨x, (mem_put hq hr hid).2 (.inr ⟨hx, he⟩), rfl, rfl⟩
  · rcases (mem_put hq hr hid).1 hx with rfl | ⟨hold, hne⟩
    · exact ⟨r, hr, (hp hpark).1, hid.symm, ht.symm, (hp hpark).2⟩
    · exact ⟨x, hold, ⟨hpark.1, (hc _ hne).symm.trans hpark.2⟩, rfl, rfl, rfl⟩

/-- The record becomes one that is not paused. -/
theorem Distinct.even_rouse {s : Record} (hd : p.Distinct) (hr : r ∈ p.records)
    (hq : q.records = (p.put s).records) (hid : s.id = r.id) (ht : s.timer = r.timer)
    (hg : q.generation = p.generation) (hc : ∀ id, id ≠ r.id → q.claim? id = p.claim? id)
    (hs : s.state ≠ .dormant) : p.Even q :=
  hd.even_put hr hq hid ht hg hc fun hp => absurd hp.1 hs

/-- What a release leaves of the record of a sandbox that it parks, with the end that is set. -/
def parking (p : Pool) (r : Record) (now : Instant) (timer : Option Timer) : Pool :=
  { p with generation := p.generation + 1 }.put
    { r with timer := timer, state := .dormant, block := none, dormantSince := some now }

end Pool

/-- What a turn may do to the ends that are set: the pool behind it, and its effects. The sandbox that
gets its record in it is `new`. -/
inductive Tick (c : Context) (p : Pool) (new : Option String) : Pool → List Effect → Prop where
  /-- Nothing. -/
  | even {q : Pool} {e : List Effect} (h : p.Even q) (he : ∀ x ∈ e, x.rings = false) : Tick c p new q e
  /-- A new sandbox gets its record. -/
  | register {id : String} (port : UInt16) (now : Instant) (hnew : new = some id) :
      Tick c p new (p.unreserve.insert (.new id port now)) []
  /-- A sandbox is claimed, and its end is called off. -/
  | claim {r r' : Record} (claim : Claim) (hr : r ∈ p.records) (hid : r'.id = r.id)
      (ht : r'.timer = none) : Tick c p new ((p.put r').setClaim r.id claim) r.calm.2
  /-- The end of a parked sandbox has come. -/
  | expire {r : Record} {t : Timer} (hr : r ∈ p.records) (hp : p.Parked r) (ht : r.timer = some t) :
      Tick c p new ((p.put { r with timer := none, busy := true }).setClaim r.id .terminating) []
  /-- A sandbox is parked. -/
  | park {r : Record} (hr : r ∈ p.records) (hc : p.claim? r.id = none) (hs : r.state = .running)
      (hfit : Release.deadline p.config.dormancy c.now < Time.calendarEnd) :
      Tick c p new
        (p.parking r c.now (some ⟨Release.deadline p.config.dormancy c.now, p.generation⟩))
        (r.calm.2 ++ [.arm r.id p.generation (c.now + p.config.dormancy.nanos)]
          ++ [.emit (.transition r.id .running .dormant none)])
  /-- A sandbox would be parked beyond the calendar. -/
  | burst {r : Record} (hr : r ∈ p.records) (hc : p.claim? r.id = none) (hs : r.state = .running)
      (hbeyond : Time.calendarEnd ≤ Release.deadline p.config.dormancy c.now) :
      Tick c p new (p.parking r c.now none)
        (r.calm.2 ++ [.arm r.id p.generation (c.now + p.config.dormancy.nanos)])

/-- A scope that leaves the ends, and what decides them, as they are. -/
theorem tick_same (hr : q.records = p.records) (hc : q.claims = p.claims)
    (hg : q.generation = p.generation) (he : ∀ x ∈ e, x.rings = false) : Tick c p new q e :=
  .even (Pool.even_of_records hr hc hg) he

theorem tick_silent (hr : q.records = p.records) (hc : q.claims = p.claims)
    (hg : q.generation = p.generation) : Tick c p new q [] :=
  tick_same hr hc hg fun _ h => by cases h

theorem tick_refl : Tick c p new p [] := tick_silent rfl rfl rfl

/-- The sandbox that gets its record in the turn of a leaf. -/
def Leaf.enters? : Leaf → Option String
  | spawn _ (.register id _) => some id
  | _ => none

/-! ## Scopes -/

section Scopes

variable {β : Type}

theorem Demand.Turn.tick {d : Demand β} {s : Scope (Option Unit)} (h : d.bare.Turn c p out sig s)
    (hscope : ∀ body, d = .scope body → Tick c p new (body c p).pool (body c p).effects) :
    Tick c p new s.pool s.effects := by
  obtain ⟨s₀, h₀, rfl⟩ := Demand.turn_map h
  cases h₀ with
  | scope body => exact hscope body rfl
  | gate next h => exact tick_silent rfl rfl rfl
  | send d a h => exact tick_refl
  | receive d a r b ha hb => exact tick_refl

theorem Termination.claim_tick (id : String) (p : Pool) :
    Tick c p new (claim id p).pool (claim id p).effects := by
  unfold claim
  cases hf : p.find? id with
  | none => exact tick_refl
  | some r =>
    obtain ⟨hr, rfl⟩ := Pool.mem_of_find? hf
    simp only
    split
    · exact tick_refl
    · exact .claim .terminating hr rfl rfl

theorem Termination.expire_tick (id : String) (g : Nat) (p : Pool) :
    Tick c p new (expire id g p).pool (expire id g p).effects := by
  unfold expire
  cases hf : p.find? id with
  | none => exact tick_refl
  | some r =>
    obtain ⟨hr, rfl⟩ := Pool.mem_of_find? hf
    simp only
    split
    · exact tick_refl
    · next hyes =>
      simp only [Bool.or_eq_true, bne_iff_ne, ne_eq, not_or, Decidable.not_not, Bool.not_eq_true,
        Option.isSome_eq_false_iff, Option.isNone_iff_eq_none] at hyes
      obtain ⟨⟨hs, hc⟩, ht⟩ := hyes
      obtain ⟨t, ht, -⟩ := Option.map_eq_some_iff.1 ht
      exact .expire hr ⟨hs, hc⟩ ht

theorem Termination.tick (hd : p.Distinct) {t : Point}
    {body : Context → Pool → Scope (Next Point Result)} (h : demand id t = .scope body) :
    Tick c p new (body c p).pool (body c p).effects := by
  cases t with
  | claim =>
    cases h
    exact claim_tick id p
  | expire g =>
    cases h
    exact expire_tick id g p
  | settle port =>
    cases h
    show Tick c p new (settle id port p).pool (settle id port p).effects
    cases hf : p.find? id with
    | none =>
      have hfind :
        (({ p with ports := p.ports.release port } : Pool).dropClaim id).find? id = none := hf
      simp only [settle, hfind]
      have hrecords := Pool.find?_eq_none.1 hf
      refine .even ⟨rfl, fun r hr => ⟨r, hr, rfl, rfl⟩, fun r hr => ⟨r, hr, rfl, rfl⟩,
        fun r hr hp => ⟨r, hr, ⟨hp.1, ?_⟩, rfl, rfl, rfl⟩⟩ (fun _ he => by cases he)
      have hclaim := hp.2
      rw [Pool.claim?_dropClaim, if_neg (hrecords r hr)] at hclaim
      exact hclaim
    | some r =>
      obtain ⟨hr, rfl⟩ := Pool.mem_of_find? hf
      rw [settle_eq hf]
      refine .even (hd.even_rouse hr rfl rfl rfl rfl (fun id' hne => ?_) (by simp)) (by simp [Effect.rings])
      exact (Pool.claim?_dropClaim _ _ _).trans (if_neg hne)
  | _ => cases h

theorem Spawn.publish_tick (hd : p.Distinct) (job : Job) (id : String) :
    Tick c p new (publish job id p).pool (publish job id p).effects := by
  unfold publish
  cases hf : p.find? id with
  | none => exact tick_refl
  | some r =>
    obtain ⟨hr, rfl⟩ := Pool.mem_of_find? hf
    cases ha : r.state.admits .idle with
    | false =>
      simp only [Record.move_of_not_admits ha]
      exact tick_refl
    | true =>
      simp only [Record.move_of_admits ha]
      cases hb : job.block with
      | none =>
        exact .even (hd.even_rouse (s := { r with state := .idle }) hr rfl rfl rfl rfl
          (fun _ _ => rfl) (by simp)) (by simp [Effect.rings])
      | some block =>
        simp only [bind_idle (r := { r with state := .idle }) rfl]
        refine .even (hd.even_rouse (s := { r with state := .running, block := some block }) hr ?_ rfl
          rfl rfl (fun _ _ => rfl) (by simp)) (by simp [Effect.rings])
        have hput : (p.put { r with state := .idle }).put
            { r with state := .running, block := some block }
            = p.put { r with state := .running, block := some block } := Pool.put_put p rfl
        exact (congrArg Pool.records hput :)

theorem Spawn.tick (hd : p.Distinct) {job : Job} {s : Point}
    {body : Context → Pool → Scope (Next Point Result)} (hs : s.leaf job = .spawn job s)
    (h : demand config job s = .scope body) :
    Tick c p (Leaf.spawn job s).enters? (body c p).pool (body c p).effects := by
  cases s with
  | allocate =>
    cases h
    show Tick c p none (allocate job p).pool (allocate job p).effects
    unfold allocate
    split <;> exact tick_silent rfl rfl rfl
  | giveBack port cause =>
    cases h
    exact tick_silent rfl rfl rfl
  | register id port =>
    cases h
    exact .register port c.now rfl
  | discard id error t => cases hs
  | publish id =>
    cases h
    exact publish_tick hd job id
  | _ => cases h

theorem Acquire.coldOr_tick (error : PoolError) (p : Pool) :
    Tick c p new (coldOr error p).pool (coldOr error p).effects := by
  unfold coldOr
  split
  · exact tick_refl
  · next q hq =>
    obtain ⟨-, rfl⟩ := Pool.reserve?_eq_some_iff.1 hq
    exact tick_silent rfl rfl rfl

theorem Acquire.pick_tick (hd : p.Distinct) (block : String) :
    Tick c p new (pick block c p).pool (pick block c p).effects := by
  unfold pick
  cases hi : candidate? (·.selectable .idle) c p with
  | some r =>
    obtain ⟨hr, -, hs⟩ := Acquire.mem_of_selectable hi
    simp only [take, Spawn.bind_idle hs]
    exact .even (hd.even_rouse hr rfl rfl rfl rfl (fun _ _ => rfl) (by simp)) (by simp [Effect.rings])
  | none =>
    cases hdorm : candidate? (·.selectable .dormant) c p with
    | some r =>
      obtain ⟨hr, -, -⟩ := Acquire.mem_of_selectable hdorm
      exact .claim .waking hr rfl rfl
    | none => exact coldOr_tick _ p

theorem Acquire.rebind_tick (hd : p.Distinct) (block id : String) :
    Tick c p new (rebind block id p).pool (rebind block id p).effects := by
  have hother : ∀ id', id' ≠ id → (p.dropClaim id).claim? id' = p.claim? id' := fun id' hne =>
    (Pool.claim?_dropClaim p id id').trans (if_neg hne)
  unfold rebind
  split
  · exact tick_refl
  · have hfind : (p.dropClaim id).find? id = p.find? id := rfl
    simp only [hfind]
    cases hf : p.find? id with
    | none =>
      have hrecords := Pool.find?_eq_none.1 hf
      refine .even ⟨rfl, fun r hr => ⟨r, hr, rfl, rfl⟩, fun r hr => ⟨r, hr, rfl, rfl⟩,
        fun r hr hp => ⟨r, hr, ⟨hp.1, ?_⟩, rfl, rfl, rfl⟩⟩ (fun _ he => by cases he)
      rw [← hother r.id (hrecords r hr)]
      exact hp.2
    | some r =>
      obtain ⟨hr, rfl⟩ := Pool.mem_of_find? hf
      cases ha : r.state.admits .idle with
      | false =>
        simp only [Record.move_of_not_admits (r := { r with busy := false }) ha]
        refine .even (hd.even_rouse (s := { r with busy := false }) hr rfl rfl rfl rfl hother ?_)
          (fun _ he => by cases he)
        intro hs
        rw [show r.state = .dormant from hs] at ha
        cases ha
      | true =>
        simp only [Record.move_of_admits (r := { r with busy := false }) ha]
        simp only [Spawn.bind_idle (r := { r with busy := false, state := .idle }) rfl]
        refine .even (hd.even_rouse (s := { r with
          busy := false, state := .running, block := some block }) hr ?_ rfl rfl rfl hother (by simp))
          (by simp [Effect.rings])
        have hput : ((p.dropClaim r.id).put { r with busy := false, state := .idle }).put
            { r with busy := false, state := .running, block := some block }
            = (p.dropClaim r.id).put
              { r with busy := false, state := .running, block := some block } := Pool.put_put _ rfl
        exact (congrArg Pool.records hput :)

theorem Acquire.join_tick (hd : p.Distinct) (block id : String) :
    Tick c p new (join block id p).pool (join block id p).effects := by
  unfold join leave
  cases hf : p.find? id with
  | none => exact tick_silent rfl rfl rfl
  | some r =>
    obtain ⟨hr, rfl⟩ := Pool.mem_of_find? hf
    by_cases hs : r.state = .idle
    · simp only [hs, if_true]
      exact .even (hd.even_rouse (s := { r with
        block := some block, binders := r.binders + 1, state := .running }) hr rfl rfl rfl rfl
        (fun _ _ => rfl) (by simp)) (by simp [Effect.rings])
    · simp only [hs, if_false]
      exact .even (hd.even_put (s := { r with block := some block, binders := r.binders + 1 }) hr rfl
        rfl rfl rfl (fun _ _ => rfl) fun hp => ⟨hp, rfl⟩) (fun _ he => by cases he)

theorem Acquire.tick (hd : p.Distinct) {a : Point}
    {body : Context → Pool → Scope (Next Point Result)} (ha : a.leaf block = .acquire block a)
    (h : demand config block a = .scope body) : Tick c p new (body c p).pool (body c p).effects := by
  cases a with
  | pick =>
    cases h
    exact pick_tick hd block
  | rebind id =>
    cases h
    exact rebind_tick hd block id
  | failed error =>
    cases h
    exact tick_silent rfl rfl rfl
  | retire id error t => cases ha
  | replace error =>
    cases h
    exact coldOr_tick error p
  | cold s => cases s <;> cases ha
  | find =>
    cases h
    show Tick c p new (find c p).pool (find c p).effects
    unfold find
    split <;> exact tick_refl
  | reserve =>
    cases h
    show Tick c p new (reserve p).pool (reserve p).effects
    unfold reserve
    split
    · exact tick_silent rfl rfl rfl
    · next q hq =>
      obtain ⟨-, rfl⟩ := Pool.reserve?_eq_some_iff.1 hq
      exact tick_silent rfl rfl rfl
  | shared s => cases s <;> cases ha
  | join id =>
    cases h
    exact join_tick hd block id
  | leave error =>
    cases h
    exact tick_silent rfl rfl rfl
  | _ => cases h

theorem Release.park_tick (id : String) (c : Context) (p : Pool) :
    Tick c p new (park id c p).pool (park id c p).effects := by
  unfold park
  cases hf : p.find? id with
  | none => exact tick_refl
  | some r =>
    obtain ⟨hr, rfl⟩ := Pool.mem_of_find? hf
    simp only
    split
    · exact tick_refl
    · next hyes =>
      simp only [Bool.or_eq_true, bne_iff_ne, ne_eq, not_or, Decidable.not_not, Bool.not_eq_true,
        Option.isSome_eq_false_iff, Option.isNone_iff_eq_none] at hyes
      obtain ⟨hs, hc⟩ := hyes
      split
      · next hbeyond => exact .burst hr hc hs hbeyond
      · next hfit =>
        have htick : Tick c p new _ _ := .park hr hc hs (Nat.lt_of_not_le hfit)
        rw [← hs] at htick
        exact htick

theorem Release.tick (hd : p.Distinct) {point : Point}
    {body : Context → Pool → Scope (Next Point Result)} (hpoint : point.leaf id = .release id point)
    (h : demand id point = .scope body) : Tick c p new (body c p).pool (body c p).effects := by
  cases point with
  | check =>
    cases h
    show Tick c p new (check id p).pool (check id p).effects
    unfold check
    split
    · exact tick_refl
    · split
      · exact tick_refl
      · split <;> exact tick_refl
  | pause => cases h
  | discard cause t => cases hpoint
  | park =>
    cases h
    exact park_tick id c p
  | drop =>
    cases h
    show Tick c p new (drop id p).pool (drop id p).effects
    unfold drop
    cases hf : p.find? id with
    | none => exact tick_refl
    | some r =>
      obtain ⟨hr, rfl⟩ := Pool.mem_of_find? hf
      simp only
      split
      · exact tick_refl
      · exact .even (hd.even_put (s := { r with
          binders := r.binders - 1, block := if r.binders - 1 = 0 then none else r.block }) hr rfl rfl
          rfl rfl (fun _ _ => rfl) fun hp => ⟨hp, rfl⟩) (fun _ he => by cases he)

theorem BlockRun.tick {b : Point} {body : Context → Pool → Scope (Next Point BlockResult)}
    (hb : b.leaf block = .run block b) (h : demand config block b = .scope body) :
    Tick c p new (body c p).pool (body c p).effects := by
  cases b with
  | acquire since a => exact absurd hb (a.leaf_ne_run block)
  | run since sandbox => cases h
  | retire since sandbox ending t => cases hb
  | release ran id r => exact absurd hb (r.leaf_ne_run id)
  | _ =>
    cases h
    exact tick_refl

theorem Prewarm.tick {count : Nat} {point : Point} {s : Scope (Option Unit)}
    (h : ((conduct config count).leader point).bare.Turn c p out sig s) :
    Tick c p new s.pool s.effects := by
  cases point with
  | gate =>
    obtain ⟨-, -, -, rfl⟩ := Demand.turn_gate h
    exact tick_silent rfl rfl rfl
  | reserve =>
    obtain ⟨-, -, rfl⟩ := Demand.turn_scope h
    show Tick c p new (reserve count p).pool (reserve count p).effects
    unfold reserve
    simp only
    split <;> exact tick_silent rfl rfl rfl
  | gather =>
    obtain ⟨-, -, rfl⟩ := Demand.turn_scope h
    exact tick_refl
  | leave r =>
    obtain ⟨-, -, rfl⟩ := Demand.turn_scope h
    show Tick c p new (leave r p).pool (leave r p).effects
    unfold leave
    split <;> exact tick_silent rfl rfl rfl

theorem Teardown.tick {point : Point} {s : Scope (Option Unit)}
    (h : (conduct.leader point).bare.Turn c p out sig s) : Tick c p new s.pool s.effects := by
  cases point with
  | collect =>
    obtain ⟨-, -, rfl⟩ := Demand.turn_scope h
    show Tick c p new (collect p).pool (collect p).effects
    unfold collect
    split <;> exact tick_refl
  | gather =>
    obtain ⟨-, -, rfl⟩ := Demand.turn_scope h
    exact tick_refl

theorem Cleanup.tick {point : Point} {s : Scope (Option Unit)}
    (h : (conduct.leader point).bare.Turn c p out sig s) : Tick c p new s.pool s.effects := by
  cases point with
  | list => rcases Demand.turn_list h with ⟨-, -, rfl⟩ | ⟨r, -, -, rfl⟩ <;> exact tick_refl
  | compare containers =>
    obtain ⟨-, -, rfl⟩ := Demand.turn_scope h
    show Tick c p new (compare containers p).pool (compare containers p).effects
    unfold compare
    split <;> exact tick_refl
  | gather =>
    obtain ⟨-, -, rfl⟩ := Demand.turn_scope h
    exact tick_refl

theorem Execution.settle_tick (s : Progress) (ran : List BlockResult) (interrupted : Bool) (c : Context)
    (p : Pool) : Tick c p new (settle s ran interrupted c p).pool (settle s ran interrupted c p).effects := by
  have herrors : ∀ (index : Nat) (failures : List BlockResult) (events : List Event),
      ∀ x ∈ failures.map (errorEvent index) ++ events.map Effect.emit, x.rings = false := by
    intro index failures events x hx
    rcases List.mem_append.1 hx with hx | hx
    · obtain ⟨r, -, rfl⟩ := List.mem_map.1 hx
      rfl
    · obtain ⟨event, -, rfl⟩ := List.mem_map.1 hx
      rfl
  have hnone := fun index failures => herrors index failures []
  simp only [List.map_nil, List.append_nil] at hnone
  unfold settle
  simp only
  split
  · exact tick_same rfl rfl rfl (hnone _ _)
  · split
    · exact tick_same rfl rfl rfl (herrors _ _ [_])
    · split <;> exact tick_same rfl rfl rfl (herrors _ _ [_])

theorem Execution.tick {plan : Plan} {point : Point} {s : Scope (Option Unit)}
    (hp : point.leaf plan = .execute plan point)
    (h : (leader config plan point).bare.Turn c p out sig s) : Tick c p new s.pool s.effects := by
  cases point with
  | begin =>
    obtain ⟨-, -, rfl⟩ := Demand.turn_scope h
    show Tick c p new (begin plan p).pool (begin plan p).effects
    unfold begin
    split
    · exact tick_refl
    · exact tick_same rfl rfl rfl (by simp [Effect.rings])
  | lane progress =>
    obtain ⟨-, -, rfl⟩ := Demand.turn_scope h
    show Tick c p new (lane progress c p).pool (lane progress c p).effects
    unfold lane
    split
    · exact tick_refl
    · split
      · exact tick_refl
      · exact tick_same rfl rfl rfl (by simp [Effect.rings])
  | solo progress block b => exact absurd hp (b.leaf_ne_execute block)
  | dispatch progress sent waiting =>
    obtain ⟨-, -, rfl⟩ := Demand.turn_scope h
    show Tick c p new (dispatch progress sent waiting c p).pool (dispatch progress sent waiting c p).effects
    unfold dispatch
    split
    · exact tick_refl
    · split <;> exact tick_refl
  | settle progress ran interrupted =>
    obtain ⟨-, -, rfl⟩ := Demand.turn_scope h
    exact settle_tick progress ran interrupted c p
  | abort progress index =>
    obtain ⟨-, -, rfl⟩ := Demand.turn_scope h
    exact tick_same rfl rfl rfl (by simp [Scope.map, Effect.rings])
  | teardown progress index =>
    obtain ⟨-, -, rfl⟩ := Demand.turn_scope h
    show Tick c p new (teardown progress index p).pool (teardown progress index p).effects
    unfold teardown
    split <;> exact tick_refl
  | finish progress status =>
    obtain ⟨-, -, rfl⟩ := Demand.turn_scope h
    exact tick_same rfl rfl rfl (by simp [Scope.map, finish, Effect.rings])
  | _ =>
    obtain ⟨-, -, rfl⟩ := Demand.turn_scope h
    exact tick_refl

/-- **A turn of an innermost process is a tick.** -/
theorem Leaf.tick {l : Leaf} {s : Scope (Option Unit)} (hd : p.Distinct) (hl : l.Innermost)
    (h : (l.demand config).Turn c p out sig s) : Tick c p l.enters? s.pool s.effects := by
  cases l with
  | termination id t => exact Demand.Turn.tick h fun _ => Termination.tick hd
  | spawn job s => exact Demand.Turn.tick h fun _ => Spawn.tick hd hl
  | acquire block a => exact Demand.Turn.tick h fun _ => Acquire.tick hd hl
  | release id r => exact Demand.Turn.tick h fun _ => Release.tick hd hl
  | run block b => exact Demand.Turn.tick h fun _ => BlockRun.tick hl
  | prewarm count point => exact Prewarm.tick h
  | teardown point => exact Teardown.tick h
  | cleanup point => exact Cleanup.tick h
  | reclaim id point =>
    refine Demand.Turn.tick h fun body hbody => ?_
    cases point <;> cases hbody
  | execute plan point => exact Execution.tick hl h

end Scopes

end SandboxPool
