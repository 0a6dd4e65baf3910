import SandboxPool.Proofs.Execution.Bystanders
import SandboxPool.Proofs.Execution.Clearing
import SandboxPool.Proofs.ReportAccounts

/-!
# Executions leak no sandbox

Whatever becomes of the blocks of an execution, each gives its sandbox back: when the runner reports a
failure, breaks off or panics, when the sandbox has gone meanwhile, when it cannot be paused, and when the
execution is aborted. So an execution that starts on a pool where nobody holds a sandbox leaves such a
pool (`Machine.leaks_no_sandbox`), as long as nobody else acquires sandboxes or releases them. An aborted
execution leaves an empty one, unless somebody else starts or terminates sandboxes during its teardown,
which waits for neither.
-/

namespace SandboxPool

namespace Pool

/-- Nobody holds a sandbox: where every block has one of its own, each sandbox that runs is claimed to
be terminated, and where blocks share one, no live sandbox has a block. -/
def Unheld (p : Pool) : Prop :=
  match p.config.parallelism with
  | .multi => ∀ r ∈ p.records, r.state = .running → p.claim? r.id = some .terminating
  | .single => ∀ r ∈ p.records, r.live = true → r.binders = 0 ∧ r.block = none

instance (p : Pool) : Decidable p.Unheld :=
  match h : p.config.parallelism with
  | .multi => decidable_of_iff
    (∀ r ∈ p.records, r.state = .running → p.claim? r.id = some .terminating) (by rw [Unheld, h])
  | .single => decidable_of_iff
    (∀ r ∈ p.records, r.live = true → r.binders = 0 ∧ r.block = none) (by rw [Unheld, h])

/-- Where nobody holds a sandbox, no sandbox is in use. -/
theorem accounted_nil_iff {p : Pool} (hd : p.Distinct) :
    Accounted p.config.parallelism p [] ↔ p.Unheld := by
  unfold Unheld
  cases p.config.parallelism with
  | multi =>
    constructor
    · intro h r hr hs
      rcases h r hr hs with hdoomed | hmem
      · rcases (hd.doomed_iff hr).1 hdoomed with hend | hclaim
        · rw [Record.live_of_state hs rfl] at hend
          cases hend
        · exact hclaim
      · cases hmem
    · exact fun h r hr hs => .inl ((hd.doomed_iff hr).2 (.inr (h r hr hs)))
  | single =>
    constructor
    · intro h r hr hl
      obtain ⟨hle, hblock⟩ := h r hr hl
      have hzero : r.binders = 0 := Nat.le_zero.1 hle
      exact ⟨hzero, hblock hzero⟩
    · intro h r hr hl
      obtain ⟨hzero, hblock⟩ := h r hr hl
      exact ⟨Nat.le_of_eq hzero, fun _ => hblock⟩

end Pool

namespace Machine

variable {config : Config} {seed : BitVec 128} {pool : Pool} {now : Instant} {h h₁ h₂ : History}
  {m m₁ : Machine} {plan : Plan} {t : Execution.Run} {r : Record}

/-- Somebody is terminating the sandbox. -/
def Ending (m : Machine) (id : String) : Prop :=
  ∃ t ∈ m.hands, ∃ port stage, t.2 = .ending id port stage

/-- A prewarm is starting the sandbox. -/
def Prewarming (m : Machine) (id : String) : Prop :=
  ∃ k count t, (k, .raising id) ∈ m.hands ∧ m.activity? k.1 = some (.prewarm count t)

/-- When nobody lends sandboxes, those in their first state are terminated, or a prewarm starts them. -/
theorem Reaches.starting_or (hp : Pool.create config seed = .ok pool)
    (hr : (ofPool pool now).Reaches h m) (hf : h.Fresh)
    (hnone : ∀ a ∈ m.activities, a.2.lending = false) (hrec : r ∈ m.pool.records)
    (hs : r.state = .starting) : m.Ending r.id ∨ m.Prewarming r.id := by
  have hbooks := hr.books hp hf
  rcases hr.raised hp r hrec hs with hdoomed | hraising
  · rcases (hbooks.named.distinct.doomed_iff hrec).1 hdoomed with hend | hclaim
    · rw [Record.live_of_state hs rfl] at hend
      cases hend
    · exact .inl (exists_ending hbooks hclaim)
  · obtain ⟨⟨k, x⟩, hmem, rfl⟩ := List.mem_map.1 hraising
    obtain ⟨y, hy, hhand⟩ := mem_hands.1 hmem
    rcases Post.raising_or hhand with ⟨s, rfl⟩ | ⟨point, hacquires, -⟩
    · obtain ⟨count, hlead⟩ := hr.prewarm_of_spawn hy
      obtain ⟨a, ha, hx⟩ := mem_posts.1 hlead
      have hfound := activity?_of_mem hr.ordered_ofPool ha
      cases a with
      | prewarm count' t => exact .inr ⟨k, count', t, hmem, hfound⟩
      | acquire | release | terminate => cases List.mem_singleton.1 hx
      | _ =>
        rcases List.mem_cons.1 hx with he | hx
        · cases he
        · obtain ⟨z, -, he⟩ := List.mem_map.1 hx
          cases he
    · obtain ⟨a, ha, hx⟩ := mem_posts.1 hy
      have hlending := Activity.lending_of_acquiring
        (hr.gathered (activity?_of_mem hr.ordered_ofPool ha)) hx hacquires
      rw [hnone _ ha] at hlending
      cases hlending

/-- **Where nobody holds a sandbox when an execution starts, nobody does when it has ended**, if nobody
else lends sandboxes meanwhile. -/
theorem Reaches.unheld (hp : Pool.create config seed = .ok pool)
    (hr₁ : (ofPool pool now).Reaches h₁ m₁)
    (hr₂ : (m₁.start (.execute plan Execution.start)).Reaches h₂ m)
    (hf : (h₁ ++ (m₁, .order (.execute plan)) :: h₂).Fresh) (hu : m₁.pool.Unheld)
    (halone : ∀ x ∈ h₂.map (·.1) ++ [m], x.Alone m₁.started)
    (ha : m.activity? m₁.started = some (.execute plan t)) (he : t.leader.ended = true) :
    m.pool.Unheld := by
  have hn : m₁.next (.order (.execute plan)) = some (m₁.start (.execute plan Execution.start), []) :=
    rfl
  have hstarted := hr₁.next hn
  have hr := hstarted.append hr₂
  have hf' : History.Fresh (h₁ ++ [(m₁, .order (.execute plan))] ++ h₂) := by simpa using hf
  have hbegin : ∀ t₀, (m₁.start (.execute plan Execution.start)).activity? m₁.started
      = some (.execute plan t₀) → Pool.Accounted config.parallelism
        (m₁.start (.execute plan Execution.start)).pool (Execution.users t₀) := by
    intro t₀ h₀
    rw [activity?_started hr₁.ordered_ofPool] at h₀
    cases h₀
    have hnow := (Pool.accounted_nil_iff (hr₁.books hp hf.of_prefix).named.distinct).2 hu
    rwa [(hr₁.capped hp).config_eq] at hnow
  have hacc := hstarted.accounted hp hr₂ hf' halone (Nat.lt_succ_self _) hbegin ha
  have husers : Execution.users t = [] := by
    unfold Execution.users
    rw [Strand.point?_of_ended he, Team.Gathered.active_nil (hr.gathered ha) he]
    rfl
  rw [husers, ← (hr.capped hp).config_eq] at hacc
  exact (Pool.accounted_nil_iff (hr.books hp hf').named.distinct).1 hacc

/-- **Executions leak no sandbox.** In every interleaving of operations on a new pool, and whatever the
daemon and the runners do as long as no identity is given out twice: take an execution that starts when
nobody holds a sandbox, and as long as it goes on nobody else acquires sandboxes or releases them. When it
has ended, a sandbox that runs is being terminated, and one in its first state is being terminated or
started by a prewarm; and where blocks share a sandbox, no live one counts a block. If it was aborted, it
took a list of the live sandboxes, and no sandbox is live and all ports are available if nobody else did
anything to the pool from then on. -/
theorem leaks_no_sandbox {result : Execution.Result} (hp : Pool.create config seed = .ok pool)
    (hr : (ofPool pool now).Reaches (h₁ ++ (m₁, .order (.execute plan)) :: h₂) m)
    (hf : (h₁ ++ (m₁, .order (.execute plan)) :: h₂).Fresh) (hu : m₁.pool.Unheld)
    (halone : ∀ x ∈ h₂.map (·.1) ++ [m], x.Alone m₁.started)
    (ha : m.activity? m₁.started = some (.execute plan t)) (hdone : t.leader = .done result) :
    (config.parallelism = .multi → ∀ r ∈ m.pool.records, (r.state = .running → m.Ending r.id) ∧
      (r.state = .starting → m.Ending r.id ∨ m.Prewarming r.id)) ∧
    (config.parallelism = .single → ∀ r ∈ m.pool.records, r.live = true →
      r.binders = 0 ∧ r.block = none) ∧
    ∀ f index, result = .ok f → f.status = .aborted index →
      ∃ h₃ m₃ move h₄ a, h₂ = h₃ ++ (m₃, move) :: h₄ ∧ m₃.mover move = (m₁.started, 0) ∧
        m₃.activity? m₁.started = some a ∧ a.collecting = true ∧
        ((∀ x ∈ m₃ :: h₄.map (·.1) ++ [m], x.Undisturbed m₁.started) →
          m.pool.liveCount = 0 ∧ m.pool.ports.available = config.ports.size) := by
  obtain ⟨m₂, notes, hr₁, hn, hr₂⟩ := hr.split
  have hstarted := hr₁.next hn
  cases hn
  have hbooks := hr.books hp hf
  have hended : t.leader.ended = true := by
    rw [hdone]
    rfl
  have hunheld := hr₁.unheld hp hr₂ hf hu halone ha hended
  unfold Pool.Unheld at hunheld
  rw [(hr.capped hp).config_eq] at hunheld
  have hnone : ∀ a ∈ m.activities, a.2.lending = false := by
    rintro ⟨k, a⟩ hmem
    by_cases hk : k = m₁.started
    · subst hk
      obtain rfl := activity_unique hr.ordered_ofPool hmem (activity?_mem ha)
      simp [Activity.lending, Activity.ended, hended]
    · exact halone m (by simp) _ hmem hk
  refine ⟨fun hmulti r hrec => ⟨fun hs => ?_, hr.starting_or hp hf hnone hrec⟩, fun hsingle => ?_, ?_⟩
  · rw [hmulti] at hunheld
    exact exists_ending hbooks (hunheld r hrec hs)
  · rwa [hsingle] at hunheld
  · rintro f index rfl hstatus
    have hlisted : Execution.Listed t.leader := hdone ▸ .done hstatus
    have hnot : ∀ t₀, (m₁.start (.execute plan Execution.start)).activity? m₁.started
        = some (.execute plan t₀) → ¬ Execution.Listed t₀.leader := by
      intro t₀ h₀ hl₀
      rw [activity?_started hr₁.ordered_ofPool] at h₀
      cases h₀
      cases hl₀
    obtain ⟨h₃, m₃, move, h₄, t₃, progress, index', rfl, hmover, ha₃, hl₃⟩ :=
      hr₂.exists_list hstarted.ordered_ofPool hnot (Nat.lt_succ_self _) ha hlisted
    refine ⟨h₃, m₃, move, h₄, _, rfl, hmover, ha₃, by simp only [Activity.collecting, hl₃],
      fun hstill => ?_⟩
    have hall := hstarted.append hr₂
    rw [← List.append_assoc] at hall
    refine hall.emptied hp ?_ hmover ha₃ ⟨progress, index', hl₃⟩ hstill ha hdone hstatus
    simpa using hf

/-- A block takes a sandbox that was there before, and its runner panics when an abort has been asked
for. The sandbox is given back and terminated. -/
theorem leaks_no_sandbox_panic :
    let config : Config := { image := "img", maxSandboxes := 2 }
    let plan : Plan := { lanes := [.block "a"] }
    ∃ pool h₁ h₂ m₁ m t f index, Pool.create config 0 = .ok pool ∧
      (ofPool pool 0).Reaches (h₁ ++ (m₁, .order (.execute plan)) :: h₂) m ∧
      History.Fresh (h₁ ++ (m₁, .order (.execute plan)) :: h₂) ∧ m₁.pool.Unheld ∧
      (∀ x ∈ h₂.map (·.1) ++ [m], x.Alone m₁.started) ∧
      m.activity? m₁.started = some (.execute plan t) ∧ t.leader = .done (.ok f) ∧
      f.status = .aborted index ∧ m₁.pool.liveCount = 1 ∧
      (∀ r ∈ m.pool.records, r.state = .running → m.Ending r.id) ∧
      m.pool.liveCount = 0 ∧ m.pool.ports.available = 100 := by
  intro config plan
  let before : List Move := [.order (.prewarm 1), .step 0 0, .step 0 1, .step 0 1,
    .reply 0 1 (.created (.ok "c1")), .step 0 1, .step 0 1, .reply 0 1 (.acted (.ok ())), .step 0 1,
    .reply 0 1 (.acted (.ok ())), .step 0 1, .step 0 0, .step 0 0]
  let behind : List Move := [.step 1 0, .step 1 0, .step 1 0, .step 1 0, .step 1 0, .abort,
    .reply 1 0 (.ran ⟨false, .panicked (some "no")⟩), .step 1 0, .step 1 0, .step 1 0,
    .reply 1 0 (.acted (.ok ())), .step 1 0, .step 1 0, .step 1 0, .step 1 0, .step 1 1, .step 1 1,
    .reply 1 1 (.acted (.ok ())), .step 1 1, .reply 1 1 (.acted (.ok ())), .step 1 1, .step 1 0,
    .step 1 0]
  have hp : Pool.create config 0 = .ok (.ofConfig config 0) :=
    create_eq_ok_iff.2 ⟨by decide +kernel, rfl⟩
  have hrun : ((ofPool (.ofConfig config 0) 0).trace before).any (fun x =>
      ((x.2.start (.execute plan Execution.start)).trace behind).any fun y =>
        ((y.2.activity? x.2.started).bind (·.finished?)).any fun f =>
          History.Fresh (x.1 ++ (x.2, .order (.execute plan)) :: y.1) ∧ x.2.pool.Unheld ∧
            (∀ z ∈ y.1.map (·.1) ++ [y.2], z.Alone x.2.started) ∧
            (∀ z ∈ y.1.map (·.1) ++ [y.2], z.Undisturbed x.2.started) ∧
            f.2.status = .aborted 1 ∧ x.2.pool.liveCount = 1) = true := by
    decide +kernel
  obtain ⟨x, hx, hrun⟩ := (Option.any_eq_true _ _).1 hrun
  obtain ⟨y, hy, hrun⟩ := (Option.any_eq_true _ _).1 hrun
  obtain ⟨⟨plan', f⟩, hfin, hrun⟩ := (Option.any_eq_true _ _).1 hrun
  obtain ⟨hf, hu, halone, hstill, hstatus, hlive⟩ := of_decide_eq_true hrun
  have hr₁ := reaches_of_trace hx
  have hn : x.2.next (.order (.execute plan))
    = some (x.2.start (.execute plan Execution.start), []) := rfl
  have hr : (ofPool (.ofConfig config 0) 0).Reaches
      (x.1 ++ (x.2, .order (.execute plan)) :: y.1) y.2 := by
    have hall := (hr₁.next hn).append (reaches_of_trace hy)
    rwa [List.append_assoc] at hall
  obtain ⟨a, ha, hfinished⟩ := Option.bind_eq_some_iff.1 hfin
  obtain ⟨t, rfl, hd⟩ := Activity.of_finished? hfinished
  obtain ⟨t', ht'⟩ := (reaches_of_trace hy).exists_execution (hr₁.next hn).ordered_ofPool
    (activity?_started hr₁.ordered_ofPool _)
  cases ha.symm.trans ht'
  obtain ⟨hmulti, -, habort⟩ := leaks_no_sandbox hp hr hf hu halone ha hd
  obtain ⟨h₃, m₃, move, h₄, a, hcut, -, -, -, hempty⟩ := habort f 1 rfl hstatus
  obtain ⟨hnone, hports⟩ := hempty fun z hz => hstill z (by
    rw [hcut, List.map_append, List.append_assoc]
    exact List.mem_append_right _ hz)
  have hsize : config.ports.size = 100 := by decide +kernel
  rw [hsize] at hports
  exact ⟨_, x.1, y.1, x.2, y.2, t, f, 1, hp, hr, hf, hu, halone, ha, hd, hstatus, hlive,
    fun r hrec => (hmulti rfl r hrec).1, hnone, hports⟩

/-- The move is the end of the time of a paused sandbox. -/
def isFire : Move → Bool
  | .fire _ => true
  | _ => false

/-- An aborted execution neither terminates the sandbox that a prewarm starts during its teardown nor
waits for it, though nothing else happens: no termination is under way when the teardown takes its list,
and no paused sandbox comes to its end. -/
theorem leaks_beside_prewarm :
    let config : Config := { image := "img", maxSandboxes := 2 }
    let plan : Plan := { lanes := [.block "a"] }
    ∃ (pool : Pool) (h₁ h₂ : History) (m₁ m : Machine) (a : Activity) (t : Execution.Run)
      (f : Report) (index : Nat) (r : Record), Pool.create config 0 = .ok pool ∧
      Execution.check plan pool.config = .ok () ∧
      Release.deadline config.dormancy 0 < Time.calendarEnd ∧ pool.Unheld ∧
      (ofPool pool 0).Reaches ((ofPool pool 0, .order (.execute plan)) :: (h₁ ++ h₂)) m ∧
      History.Fresh ((ofPool pool 0, .order (.execute plan)) :: (h₁ ++ h₂)) ∧
      (∀ x ∈ (h₁ ++ h₂).map (·.1) ++ [m], x.Alone 0) ∧
      m₁.Reaches h₂ m ∧ m₁.activity? 0 = some a ∧ a.collecting = true ∧ (∀ id, ¬ m₁.Ending id) ∧
      (∀ x ∈ h₂, isFire x.2 = false) ∧
      m.activity? 0 = some (.execute plan t) ∧ t.leader = .done (.ok f) ∧
      f.status = .aborted index ∧ r ∈ m.pool.records ∧ r.state = .starting ∧
      ¬ m.Ending r.id ∧ m.pool.liveCount = 1 := by
  intro config plan
  let before : List Move := [.step 0 0, .step 0 0, .step 0 0, .step 0 0, .step 0 0, .step 0 0,
    .reply 0 0 (.created (.ok "c1")), .step 0 0, .step 0 0, .reply 0 0 (.acted (.ok ())), .step 0 0,
    .reply 0 0 (.acted (.ok ())), .step 0 0, .step 0 0,
    .order (.prewarm 1), .step 1 0, .step 1 1, .step 1 1,
    .abort, .reply 0 0 (.ran ⟨false, .panicked (some "no")⟩), .step 0 0, .step 0 0, .step 0 0,
    .reply 0 0 (.acted (.ok ())), .step 0 0, .step 0 0, .step 0 0]
  let behind : List Move := [.step 0 0, .step 0 1, .step 0 1, .reply 0 1 (.acted (.ok ())), .step 0 1,
    .reply 0 1 (.acted (.ok ())), .reply 1 1 (.created (.ok "c2")), .step 1 1, .step 0 1, .step 0 0,
    .step 0 0]
  have hp : Pool.create config 0 = .ok (.ofConfig config 0) :=
    create_eq_ok_iff.2 ⟨by decide +kernel, rfl⟩
  have hnot : ∀ {m : Machine} {id : String}, m.things.filterMap Hand.ending? = [] → ¬ m.Ending id := by
    rintro m id hnone ⟨x, hx, port, stage, he⟩
    have hmem : Hand.ending id port stage ∈ m.things := he ▸ List.mem_map_of_mem hx
    have hends := Claimed.mem_ending hmem
    rw [hnone] at hends
    cases hends
  have hrun : (((ofPool (.ofConfig config 0) 0).start (.execute plan Execution.start)).trace
      before).any (fun x => (x.2.trace behind).any fun y =>
        ((y.2.activity? 0).bind (·.finished?)).any fun f =>
          History.Fresh ((ofPool (.ofConfig config 0) 0, .order (.execute plan)) :: (x.1 ++ y.1)) ∧
            (∀ z ∈ (x.1 ++ y.1).map (·.1) ++ [y.2], z.Alone 0) ∧
            (x.2.activity? 0).any (·.collecting) = true ∧ x.2.things.filterMap Hand.ending? = [] ∧
            (∀ z ∈ y.1, isFire z.2 = false) ∧ f.2.status = .aborted 1 ∧
            y.2.pool.records.any (·.state = .starting) = true ∧
            y.2.things.filterMap Hand.ending? = [] ∧ y.2.pool.liveCount = 1) = true := by
    decide +kernel
  obtain ⟨x, hx, hrun⟩ := (Option.any_eq_true _ _).1 hrun
  obtain ⟨y, hy, hrun⟩ := (Option.any_eq_true _ _).1 hrun
  obtain ⟨⟨plan', f⟩, hfin, hrun⟩ := (Option.any_eq_true _ _).1 hrun
  obtain ⟨hf, halone, hlist, hcalm, hfires, hstatus, hstarting, hends, hlive⟩ := of_decide_eq_true hrun
  obtain ⟨a, ha, hcollecting⟩ := (Option.any_eq_true _ _).1 hlist
  obtain ⟨r, hrec, hs⟩ := List.any_eq_true.1 hstarting
  have hn : (ofPool (.ofConfig config 0) 0).next (.order (.execute plan))
    = some ((ofPool (.ofConfig config 0) 0).start (.execute plan Execution.start), []) := rfl
  have hstart := Reaches.start.next hn
  have hbehind := (reaches_of_trace hx).append (reaches_of_trace hy)
  obtain ⟨b, hb, hfinished⟩ := Option.bind_eq_some_iff.1 hfin
  obtain ⟨t, rfl, hd⟩ := Activity.of_finished? hfinished
  obtain ⟨t', ht'⟩ := hbehind.exists_execution hstart.ordered_ofPool
    (activity?_started (ordered_ofPool _ _) _)
  cases hb.symm.trans ht'
  exact ⟨_, x.1, y.1, x.2, y.2, a, t, f, 1, r, hp, rfl, by decide +kernel, by decide +kernel,
    hstart.append hbehind, hf, halone, reaches_of_trace hy, ha, hcollecting, fun _ => hnot hcalm,
    hfires, hb, hd, hstatus, hrec, of_decide_eq_true hs, hnot hends, hlive⟩

end Machine

end SandboxPool
