import SandboxPool.Proofs.Teardown
import SandboxPool.Proofs.Machine.Gate
import SandboxPool.Proofs.Pool.Claimants

/-!
# Nothing stays stuck

Whatever has failed on the way: as soon as no operation of a pool is under way, none of its starts,
claims and ports is left behind. This is so even while executions go on, as long as each of them is
between two operations of the pool, for instance while a runner works on a block.

* `Activity.underway`: the operation, or one that it has called, has not returned.
* What processes have in hand then are sandboxes that blocks run in, and nothing else
  (`Machine.Reaches.holding_of_calm`).
-/

namespace SandboxPool

/-! ## Operations that are under way -/

/-- The block has called an operation of the pool that has not returned. -/
def BlockRun.Point.underway : BlockRun.Point → Bool
  | .acquire .. | .retire .. | .release .. => true
  | .begin | .refuse .. | .run .. | .conclude .. => false

/-- The member of an execution has called an operation of the pool that has not returned. -/
def Execution.Duty.underway : Execution.Duty → Bool
  | .run _ b => b.underway
  | .terminate .. => true

/-- The execution itself has called an operation of the pool that has not returned. -/
def Execution.Point.underway : Execution.Point → Bool
  | .solo _ _ b => b.underway
  | .teardown .. | .cleared .. => true
  | _ => false

namespace Activity

/-- The operation has not returned. An execution is no operation of the pool, but it calls some. -/
def underway : Activity → Bool
  | execute _ t =>
    t.leader.point?.any (·.underway) || t.active.any fun x => x.strand.point?.any (·.underway)
  | a => !a.ended

end Activity

/-- No operation of the pool is under way, and no termination of a sandbox whose time has come. -/
def Machine.Calm (m : Machine) : Prop := ∀ a ∈ m.activities, a.2.underway = false

instance (m : Machine) : Decidable m.Calm := inferInstanceAs (Decidable (∀ a ∈ m.activities, _))

/-! ## What is in hand meanwhile -/

/-- A sandbox that a block runs in. -/
def Hand.held (t : Hand) : Prop := ∃ id block, t = .holding id block

section Hands

variable {t : Hand} {block : String} {out : Bool}

theorem BlockRun.held_of_hand {b : Point} (hb : b.underway = false) (h : t ∈ hand block out b) :
    t.held := by
  cases b with
  | begin => cases h
  | refuse since e => cases h
  | run since s => exact ⟨s.id, block, List.mem_singleton.1 h⟩
  | conclude since s ending => exact ⟨s.id, block, List.mem_singleton.1 h⟩
  | _ => cases hb

theorem Execution.Duty.held_of_hand {d : Duty} (hd : d.underway = false) (h : t ∈ d.hand out) :
    t.held := by
  cases d with
  | run block b => exact BlockRun.held_of_hand hd h
  | terminate id p => cases hd

theorem Execution.held_of_hand {p : Point} (hp : p.underway = false) (h : t ∈ hand out p) :
    t.held := by
  cases p with
  | solo s block b => exact BlockRun.held_of_hand hp h
  | _ => cases h

/-- What is known of a strand at its point is known of what it has in hand. -/
theorem Strand.held_of_hand {σ α : Type} {f : Bool → σ → List Hand} {underway : σ → Bool}
    {s : Strand σ α} (hs : s.point?.any underway = false)
    (hf : ∀ out p, underway p = false → t ∈ f out p → t.held)
    (h : t ∈ s.hand f fun _ => []) : t.held := by
  obtain ⟨out, p, hp, hmem⟩ := Strand.exists_of_mem_hand h fun _ => List.not_mem_nil
  rw [hp] at hs
  exact hf out p hs hmem

end Hands

/-- Members that a leader has gathered are not there any more when it has ended. -/
theorem Team.Gathered.active_nil {κ σ α τ β : Type} {waits : τ → Bool} {t : Team κ σ α τ β}
    (h : t.Gathered waits) (he : t.leader.ended = true) : t.active = [] := by
  refine h.active_eq_nil fun point hl => ?_
  rw [hl] at he
  cases he

/-- An operation that is not under way has nothing in hand but sandboxes that blocks run in. -/
theorem Activity.held_of_hand {a : Activity} (hw : a.Awaited) (hg : a.Gathered)
    (ha : a.underway = false) {x : Nat × Post} (hx : x ∈ a.posts) {t : Hand} (ht : t ∈ x.2.hand) :
    t.held := by
  have hended : ∀ {b : Bool}, (!b) = false → b = true := by simp
  cases a with
  | acquire block s =>
    obtain rfl := List.mem_singleton.1 hx
    cases s with
    | done r =>
      cases r with
      | error e => cases ht
      | ok sandbox => exact ⟨sandbox.id, block, List.mem_singleton.1 ht⟩
    | panicked message => cases ht
    | _ => cases ha
  | release id s =>
    obtain rfl := List.mem_singleton.1 hx
    simp only [Post.hand, Strand.hand_ended (hended ha)] at ht
    cases ht
  | terminate id s =>
    obtain rfl := List.mem_singleton.1 hx
    simp only [Post.hand, Strand.hand_ended (hended ha)] at ht
    cases ht
  | prewarm count t =>
    have hnone := Team.Gathered.active_nil hw (hended ha)
    simp only [posts, Team.posts, hnone, Team.stand, List.map_nil, List.mem_singleton] at hx
    rw [hx] at ht
    cases ht
  | teardown t =>
    have hnone := Team.Gathered.active_nil hg (hended ha)
    simp only [posts, Team.posts, hnone, Team.stand, List.map_nil, List.mem_singleton] at hx
    rw [hx] at ht
    cases ht
  | cleanup t =>
    rcases List.mem_cons.1 hx with rfl | hx
    · cases ht
    · obtain ⟨z, -, rfl⟩ := List.mem_map.1 hx
      cases ht
  | execute plan t =>
    obtain ⟨hleader, hmembers⟩ := Bool.or_eq_false_iff.1 ha
    rcases List.mem_cons.1 hx with rfl | hx
    · exact Strand.held_of_hand (f := Execution.hand) hleader
        (fun _ _ => Execution.held_of_hand) ht
    · obtain ⟨z, hz, rfl⟩ := List.mem_map.1 hx
      have hmember := List.any_eq_false.1 hmembers z hz
      exact Strand.held_of_hand (f := Execution.Duty.hand) (by simpa using hmember)
        (fun _ _ => Execution.Duty.held_of_hand) ht

/-- An operation that has ended is not under way. -/
theorem Activity.not_underway_of_ended {a : Activity} (hg : a.Gathered) (he : a.ended = true) :
    a.underway = false := by
  cases a with
  | execute plan t =>
    have hnone := Team.Gathered.active_nil hg he
    have hpoint : t.leader.point? = none := Strand.point?_of_ended he
    simp [underway, hpoint, hnone]
  | _ => simpa [underway] using he

/-! ## The machine -/

namespace Machine

variable {config : Config} {seed : BitVec 128} {pool : Pool} {now : Instant} {h : History}
  {m : Machine}

/-- Wherever a machine gets from a new pool, what is under way has a process behind it, as long as the
daemon gives out no identity twice. -/
theorem Reaches.tended (hp : Pool.create config seed = .ok pool)
    (hr : (ofPool pool now).Reaches h m) (hf : h.Fresh) : Tended h.created m.pool m.things := by
  induction hr with
  | start =>
    obtain ⟨-, rfl⟩ := create_eq_ok_iff.1 hp
    refine ⟨fun id hc => ?_, fun id hc => ?_, fun r hr => ?_, fun id hid => ?_⟩
    · cases hc
    · cases hc
    · cases hr
    · cases hid
  | next hr hn ih =>
    have hfresh := History.fresh_of_append hf
    rw [History.created_append]
    exact (ih hfresh).moves (hr.books hp hfresh).named (hr.alert hp)
      (next_things hr.ordered_ofPool hn)

theorem Reaches.gathered (hr : (ofPool pool now).Reaches h m) {n : Nat} {a : Activity}
    (ha : m.activity? n = some a) : a.Gathered :=
  hr.forall_activity Activity.gathered_ofOrder (fun _ _ => trivial) (fun _ hg ht => ht.gathered hg) ha

theorem Reaches.awaited (hr : (ofPool pool now).Reaches h m) {n : Nat} {a : Activity}
    (ha : m.activity? n = some a) : a.Awaited :=
  hr.forall_activity Activity.awaited_ofOrder (fun _ _ => trivial) (fun _ hw ht => ht.awaited hw) ha

/-- Nothing is under way when all operations have ended. -/
theorem Reaches.calm_of_quiet (hr : (ofPool pool now).Reaches h m) (hq : m.quiet = true) :
    m.Calm := by
  rintro ⟨n, a⟩ ha
  have hfound := activity?_of_mem hr.ordered_ofPool ha
  exact Activity.not_underway_of_ended (hr.gathered hfound) (List.all_eq_true.1 hq _ ha)

/-- When nothing is under way, nobody has anything in hand but sandboxes that blocks run in. -/
theorem Reaches.holding_of_calm (hr : (ofPool pool now).Reaches h m) (hc : m.Calm) :
    ∀ t ∈ m.things, t.held := by
  intro t ht
  obtain ⟨⟨k, t⟩, hmem, rfl⟩ := List.mem_map.1 ht
  obtain ⟨x, hx, ht⟩ := mem_hands.1 hmem
  obtain ⟨a, ha, hx⟩ := mem_posts.1 hx
  have hfound := activity?_of_mem hr.ordered_ofPool ha
  exact Activity.held_of_hand (hr.awaited hfound) (hr.gathered hfound) (hc _ ha) hx ht

/-- When nobody has anything in hand but sandboxes that blocks run in, every port is available or that
of a live sandbox. -/
theorem Reaches.size_of_held (hp : Pool.create config seed = .ok pool)
    (hr : (ofPool pool now).Reaches h m) (hf : h.Fresh) (hheld : ∀ t ∈ m.things, t.held) :
    m.pool.ports.available + m.pool.liveCount = config.ports.size := by
  have hbooks := hr.books hp hf
  have hnone : m.things.filterMap Hand.port? = [] := by
    refine List.filterMap_eq_nil_iff.2 fun t ht => ?_
    obtain ⟨id, block, rfl⟩ := hheld t ht
    rfl
  have hsize := hbooks.housed.holds.size_used
  have hrange := hbooks.housed.range
  have hocc := (hr.capped hp).occupancy
  have hbounds := (create_eq_ok_iff.1 hp).1.bounds
  rw [hnone, List.append_nil, ← Pool.liveCount_eq] at hsize
  unfold PortAllocator.available
  rw [hrange]
  omega

/-- When nobody has anything in hand but sandboxes that blocks run in, no start is reserved. -/
theorem Reaches.pending_of_held (hp : Pool.create config seed = .ok pool)
    (hr : (ofPool pool now).Reaches h m) (hheld : ∀ t ∈ m.things, t.held) : m.pool.pending = 0 := by
  rw [(hr.capped hp).pending, List.countP_eq_zero]
  intro t ht
  obtain ⟨id, block, rfl⟩ := hheld t ht
  simp [Hand.reserves]

/-- When nobody has anything in hand but sandboxes that blocks run in, no sandbox is claimed. -/
theorem Reaches.unclaimed_of_held (hp : Pool.create config seed = .ok pool)
    (hr : (ofPool pool now).Reaches h m) (hf : h.Fresh) (hheld : ∀ t ∈ m.things, t.held)
    (id : String) : m.pool.claim? id = none := by
  cases hclaim : m.pool.claim? id with
  | none => rfl
  | some c =>
    cases c with
    | waking =>
      obtain ⟨id', block, he⟩ := hheld _ ((hr.tended hp hf).waking id hclaim)
      cases he
    | terminating =>
      obtain ⟨x, hx, -⟩ := List.mem_map.1 ((hr.books hp hf).claimed.ending id hclaim)
      obtain ⟨t, ht, hending⟩ := List.mem_filterMap.1 hx
      obtain ⟨id', block, rfl⟩ := hheld t ht
      cases hending

/-- **Nothing stays stuck.** In every interleaving of operations on a new pool, and whatever the daemon
and the runners answer as long as no identity is given out twice: whenever no operation of the pool
and no termination of a sandbox whose time has come is under way, no start is reserved, no sandbox is
in its first state or busy, none is claimed, every container that was created has its record, and the
available ports together with the live sandboxes are as many as the range has ports. -/
theorem nothing_stuck {config : Config} {seed : BitVec 128} {pool : Pool} {now : Instant}
    {h : History} {m : Machine} (hp : Pool.create config seed = .ok pool)
    (hr : (ofPool pool now).Reaches h m) (hf : h.Fresh) (hc : m.Calm) :
    m.pool.pending = 0 ∧ (∀ r ∈ m.pool.records, r.state ≠ .starting ∧ r.busy = false) ∧
      m.pool.claims = [] ∧ (∀ id ∈ h.created, ∃ r ∈ m.pool.records, r.id = id) ∧
      m.pool.ports.available + m.pool.liveCount = config.ports.size := by
  have hcap := hr.capped hp
  have htended := hr.tended hp hf
  have hheld := hr.holding_of_calm hc
  have hnot : ∀ {t : Hand}, (∀ id block, t ≠ .holding id block) → t ∉ m.things := by
    intro t hno ht
    obtain ⟨id, block, rfl⟩ := hheld t ht
    exact hno id block rfl
  have hfree := hr.unclaimed_of_held hp hf hheld
  have hclaims : m.pool.claims = [] := by
    cases hl : m.pool.claims with
    | nil => rfl
    | cons x rest =>
      have hfirst := hfree x.1
      simp [Pool.claim?, hl] at hfirst
  refine ⟨hr.pending_of_held hp hheld, fun r hrec => ⟨fun hs => ?_, ?_⟩, hclaims, fun id hid => ?_,
    hr.size_of_held hp hf hheld⟩
  · rcases hr.raised hp r hrec hs with hdoomed | hraising
    · rcases (hcap.distinct.doomed_iff hrec).1 hdoomed with hend | hclaim
      · rw [Record.live_of_state hs rfl] at hend
        cases hend
      · rw [hfree] at hclaim
        cases hclaim
    · exact hnot (by simp) hraising
  · rw [htended.busy r hrec, hfree]
    rfl
  · rcases htended.kept id hid with hrec | ⟨port, hmade⟩
    · exact hrec
    · exact absurd hmade (hnot (by simp))

/-- A paused sandbox does not wake, and the new one in its place does not get healthy. Behind both
failures nothing is left, while a runner works in a third sandbox. -/
theorem nothing_stuck_failures :
    let config : Config := { image := "img", maxSandboxes := 2 }
    ∃ pool h m, Pool.create config 0 = .ok pool ∧ (ofPool pool 0).Reaches h m ∧ h.Fresh ∧ m.Calm ∧
      m.quiet = false ∧ m.pool.records.map (·.state) = [.terminated, .terminated, .running] ∧
      m.pool.pending = 0 ∧ m.pool.claims = [] ∧ (∃ r ∈ m.pool.records, r.id = "c2") ∧
      m.pool.ports.available + m.pool.liveCount = 100 := by
  intro config
  let failure : DaemonError := .api 500 "no"
  let moves : List Move := [.order (.acquire "a"), .step 0 0, .step 0 0, .step 0 0,
    .reply 0 0 (.created (.ok "c1")), .step 0 0, .step 0 0, .reply 0 0 (.acted (.ok ())), .step 0 0,
    .reply 0 0 (.acted (.ok ())), .step 0 0,
    .order (.release "c1"), .step 1 0, .step 1 0, .reply 1 0 (.acted (.ok ())), .step 1 0,
    .order (.acquire "b"), .step 2 0, .step 2 0, .reply 2 0 (.acted (.error failure)), .step 2 0,
    .step 2 0, .step 2 0, .reply 2 0 (.acted (.ok ())), .step 2 0, .reply 2 0 (.acted (.ok ())),
    .step 2 0, .step 2 0, .step 2 0, .step 2 0, .reply 2 0 (.created (.ok "c2")), .step 2 0,
    .step 2 0, .reply 2 0 (.acted (.ok ())), .step 2 0, .reply 2 0 (.acted (.error failure)),
    .step 2 0, .step 2 0, .reply 2 0 (.acted (.error failure)), .step 2 0,
    .reply 2 0 (.acted (.error failure)), .step 2 0,
    .order (.execute { lanes := [.block "x"] }), .step 3 0, .step 3 0, .step 3 0, .step 3 0,
    .step 3 0, .step 3 0, .reply 3 0 (.created (.ok "c3")), .step 3 0, .step 3 0,
    .reply 3 0 (.acted (.ok ())), .step 3 0, .reply 3 0 (.acted (.ok ())), .step 3 0, .step 3 0]
  have hp : Pool.create config 0 = .ok (.ofConfig config 0) :=
    create_eq_ok_iff.2 ⟨by decide +kernel, rfl⟩
  have hrun : ((ofPool (.ofConfig config 0) 0).trace moves).any (fun x =>
      x.1.Fresh ∧ x.2.Calm ∧ x.2.quiet = false ∧ "c2" ∈ x.1.created ∧
        x.2.pool.records.map (·.state) = [.terminated, .terminated, .running]) = true := by
    decide +kernel
  obtain ⟨x, ht, hx⟩ := (Option.any_eq_true _ _).1 hrun
  obtain ⟨hf, hc, hbusy, hid, hstates⟩ := of_decide_eq_true hx
  have hr := reaches_of_trace ht
  obtain ⟨hpending, -, hclaims, hrecords, hports⟩ := nothing_stuck hp hr hf hc
  have hsize : config.ports.size = 100 := by decide +kernel
  rw [hsize] at hports
  exact ⟨_, x.1, x.2, hp, hr, hf, hc, hbusy, hstates, hpending, hclaims, hrecords _ hid, hports⟩

end Machine

end SandboxPool
