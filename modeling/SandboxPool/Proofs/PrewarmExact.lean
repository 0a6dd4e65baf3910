import SandboxPool.Proofs.Machine.Prewarming

/-!
# Prewarms under partial failure

A prewarm that finds nothing under way, and beside which nothing starts, starts as many sandboxes as the
cap leaves room for, whatever becomes of each of them (`Machine.prewarm_exact`): it ends when all of its
spawns have ended, and what it reports and what it leaves behind depend only on what the daemon has said
to each spawn, in whatever order that came.

* `Prewarm.Exact` is what is known of it when it has ended.
* `Machine.Reaches.goes_on` says that it is not stuck before that.
-/

namespace SandboxPool

variable {p₀ p : Pool} {n room count : Nat} {h : History} {t : Prewarm.Run} {spawns : List Starter}

namespace Prewarm

/-- The spawn has ended with a new sandbox. -/
def succeeded (e : Ended Unit Spawn.Result) : Bool :=
  match e.result with
  | .ok (.ok _) => true
  | _ => false

/-- **What a prewarm with room for so many sandboxes has done when it has ended.** What is on file for
each of its spawns is given by the number of the spawn. -/
structure Exact (p₀ : Pool) (n room : Nat) (h : History) (p : Pool) (result : Result) : Prop where
  /-- Every spawn has ended. -/
  settled : ((h.yields n).map (·.serial)).Perm (List.range room)
  /-- So many containers were asked for. -/
  creates : h.signals.countP (·.creates) = room
  ok : ∀ k, result = .ok k ↔ k = room ∧ ∀ e ∈ h.yields n, succeeded e = true
  /-- The error is that of the failed spawn with the lowest number. -/
  error : ∀ error, result = .error error ↔ ∃ e ∈ h.yields n, e.result = .ok (.error error) ∧
    ∀ e' ∈ h.yields n, e'.serial < e.serial → succeeded e' = true
  /-- A spawn has failed when the daemon has told it of a failure, and leaves a record accordingly. The
  records that were there before are there still. -/
  records : ∃ file : Nat → Option Record,
    (∀ e ∈ h.yields n, ∃ r, e.result = .ok r ∧
      Spawn.fault? (.done r) = (h.heard (n, e.serial + 1)).findSome? (·.fault?) ∧
      Spawn.Leaves r (file e.serial)) ∧
    ∃ new, p.records = p₀.records ++ new ∧ new.Perm ((List.range room).filterMap file)
  live : p.liveCount = p₀.liveCount + (h.yields n).countP succeeded
  ports : p.ports.available + (h.yields n).countP succeeded = p₀.ports.available

/-- A spawn that has ended has failed or succeeded. -/
theorem failure?_eq_none_iff {e : Ended Unit Spawn.Result} {r : Spawn.Result}
    (hr : e.result = .ok r) : failure? e = none ↔ succeeded e = true := by
  unfold failure? succeeded
  rw [hr]
  cases r <;> simp

theorem failure?_eq_some_iff {e : Ended Unit Spawn.Result} {error : PoolError} :
    failure? e = some error ↔ e.result = .ok (.error error) := by
  unfold failure?
  split
  · next error' he => simp [he]
  · next hne =>
    constructor
    · intro h
      cases h
    · exact fun h => absurd h (hne error)

/-- The sandbox of a spawn lives when the spawn has succeeded. -/
theorem live_of_leaves {e : Ended Unit Spawn.Result} {r : Spawn.Result} {file : Option Record}
    (he : e.result = .ok r) (hl : Spawn.Leaves r file) :
    (file.map (·.live)).getD false = succeeded e := by
  unfold succeeded
  rw [he]
  cases hl with
  | idle hs => exact Record.live_of_state hs rfl
  | nothing cause => rfl
  | @terminated r _ cause ho hs =>
    show r.live = false
    unfold Record.live
    rw [hs]
    rfl

namespace Stands

variable {result : Result}

/-- The spawns have different numbers as soon as there are any. -/
theorem serials_nodup (hs : Stands p₀ n room h p t spawns) : (spawns.map (·.serial)).Nodup := by
  have hall : (spawns.map (·.serial)).Perm (List.range room) → (spawns.map (·.serial)).Nodup :=
    fun hp => hp.nodup_iff.2 List.nodup_range
  cases hs.phase with
  | gate _ _ _ _ hs => exact hs ▸ .nil
  | reserve _ _ _ hs => exact hs ▸ .nil
  | gather _ hs => exact hall hs
  | leave _ hs => exact hall hs
  | done _ hs => exact hall hs

/-- When the prewarm has ended, all spawns have, and each of them with a result. -/
theorem ended (hs : Stands p₀ n room h p t spawns) (hd : t.leader = .done result) :
    result = Prewarm.result (h.yields n) ∧ (spawns.map (·.serial)).Perm (List.range room) ∧
      (spawns.map fun x => (x.serial, x.strand)).Perm ((h.yields n).map fun e => (e.serial, e.strand)) := by
  cases hs.phase with
  | done hl hserials hnone =>
    refine ⟨by simpa [hd] using hl, hserials, ?_⟩
    have hstrands := hs.strands
    unfold Prewarm.strands at hstrands
    rwa [hnone] at hstrands
  | _ hl =>
    rw [hd] at hl
    cases hl

/-- What is on file for the spawn with a number. -/
def fileOf (spawns : List Starter) (serial : Nat) : Option Record :=
  (spawns.find? (·.serial == serial)).bind (·.file)

theorem fileOf_serial (hs : Stands p₀ n room h p t spawns) {x : Starter} (hx : x ∈ spawns) :
    fileOf spawns x.serial = x.file := by
  unfold fileOf
  rw [Team.find?_of_nodup hs.serials_nodup hx]
  rfl

/-- What is known of a spawn that has ended. -/
theorem of_yield (hs : Stands p₀ n room h p t spawns) (hd : t.leader = .done result)
    {e : Ended Unit Spawn.Result} (he : e ∈ h.yields n) : ∃ r, e.result = .ok r ∧
      Spawn.fault? (.done r) = (h.heard (n, e.serial + 1)).findSome? (·.fault?) ∧
      Spawn.Leaves r (fileOf spawns e.serial) := by
  have hmem := (hs.ended hd).2.2.mem_iff.2 (List.mem_map_of_mem he)
  obtain ⟨x, hx, heq⟩ := List.mem_map.1 hmem
  obtain ⟨hserial, hstrand⟩ := Prod.mk.inj heq
  have hfiled := hs.crew.filed x hx
  have htold := hs.told x hx
  rw [hstrand] at hfiled htold
  rw [← hserial, hs.fileOf_serial hx]
  unfold Ended.strand at hfiled htold
  cases hr : e.result with
  | ok r =>
    rw [hr] at hfiled htold
    exact ⟨r, rfl, htold, hfiled⟩
  | error message =>
    rw [hr] at hfiled
    exact hfiled.elim

/-- **A prewarm that has ended has done all that it was to do**, if as many ports are in use as sandboxes
live. -/
theorem exact (hs : Stands p₀ n room h p t spawns) (hd : t.leader = .done result)
    (hports : p.ports.available + p.liveCount = p₀.ports.available + p₀.liveCount) :
    Exact p₀ n room h p result := by
  obtain ⟨rfl, hserials, hstrands⟩ := hs.ended hd
  have hsettled : ((h.yields n).map (·.serial)).Perm (List.range room) := by
    refine .trans ?_ hserials
    have hfirst := hstrands.map Prod.fst
    simp only [List.map_map, Function.comp_def] at hfirst
    exact hfirst.symm
  have hyield : ∀ e ∈ h.yields n, failure? e = none ↔ succeeded e = true := fun e he => by
    obtain ⟨r, hr, -, -⟩ := hs.of_yield hd he
    exact failure?_eq_none_iff hr
  obtain ⟨new, hrecords, hnew⟩ := hs.crew.records
  have hfiles : new.Perm ((List.range room).filterMap (fileOf spawns)) := by
    refine hnew.trans (.trans ?_ (hserials.filterMap _))
    rw [List.filterMap_map, List.filterMap_congr fun x hx => ((hs.fileOf_serial hx).symm :
      x.file = (fileOf spawns ∘ (·.serial)) x)]
  have hlive : p.liveCount = p₀.liveCount + (h.yields n).countP succeeded := by
    have hcount : new.countP (·.live) = (h.yields n).countP succeeded := by
      rw [(hfiles.trans (hsettled.symm.filterMap _)).countP_eq, List.countP_filterMap, List.countP_map]
      refine List.countP_congr fun e he => ?_
      obtain ⟨r, hr, -, hleaves⟩ := hs.of_yield hd he
      rw [Function.comp_apply, live_of_leaves hr hleaves]
    unfold Pool.liveCount Pool.liveRecords
    rw [hrecords, List.filter_append, List.length_append, ← List.countP_eq_length_filter (l := new),
      hcount]
  refine ⟨hsettled, ?_, fun k => ?_, fun error => ?_,
    ⟨fileOf spawns, fun e he => hs.of_yield hd he, new, hrecords, hfiles⟩, hlive, by omega⟩
  · rw [hs.creates]
    have hasked : ∀ x ∈ spawns, (Spawn.asked x.strand).toNat = 1 := by
      intro x hx
      obtain ⟨e, -, heq⟩ := List.mem_map.1 (hstrands.mem_iff.1
        (List.mem_map_of_mem (f := fun x : Starter => (x.serial, x.strand)) hx))
      rw [← (Prod.mk.inj heq).2]
      unfold Ended.strand
      cases e.result <;> rfl
    have hlength : spawns.length = room := by simpa using hserials.length_eq
    rw [List.map_congr_left hasked, List.map_const', List.sum_replicate_nat, Nat.mul_one, hlength]
  · have hlength : (h.yields n).length = room := by simpa using hsettled.length_eq
    rw [result_eq_ok_iff, hlength]
    exact and_congr_right fun _ => forall₂_congr hyield
  · rw [result_eq_error_iff (hsettled.nodup_iff.2 List.nodup_range)]
    constructor
    · rintro ⟨e, he, hfail, hlower⟩
      exact ⟨e, he, failure?_eq_some_iff.1 hfail, fun e' he' hlt => (hyield e' he').1 (hlower e' he' hlt)⟩
    · rintro ⟨e, he, hfail, hlower⟩
      exact ⟨e, he, failure?_eq_some_iff.2 hfail, fun e' he' hlt => (hyield e' he').2 (hlower e' he' hlt)⟩

end Stands

end Prewarm

/-! ## A prewarm is not stuck -/

namespace Spawn

variable {config : Config} {job : Job} {c : Context} {point : Point}

/-- A spawn does not wait for other processes. -/
theorem step_isSome : ((Strand.ready point).step (demand config job) c p).isSome = true := by
  cases point with
  | discard id error t => cases t <;> rfl
  | _ => rfl

/-- A spawn that waits goes on with a reply. -/
theorem exists_reply (config : Config) (job : Job) (h : point.asks = true) :
    ∃ r, ((Strand.waiting point).reply (demand config job) r).isSome = true := by
  cases point with
  | create spec port => exact ⟨.created (.ok ""), rfl⟩
  | start id port => exact ⟨.acted (.ok ()), rfl⟩
  | probe id port => exact ⟨.acted (.ok ()), rfl⟩
  | discard id error t =>
    refine ⟨.acted (.ok ()), ?_⟩
    cases t with
    | stop port => rfl
    | remove port => rfl
    | _ => cases h
  | _ => cases h

end Spawn

/-- An operation that is over is not behind the gate. -/
theorem Activity.Over.not_inside {a : Activity} (ho : a.Over) {x : Nat × Post} (hx : x ∈ a.posts) :
    x.2.inside = false := by
  have hlead : ∀ {κ σ α τ β : Type} {t : Team κ σ α τ β} {leader : Strand τ β → Post}
      {member : κ → Strand σ α → Post}, x ∈ t.posts leader member → t.active = [] →
      x = (0, leader t.leader) := by
    intro κ σ α τ β t leader member hx hnone
    simpa [Team.posts, Team.stand, hnone] using hx
  cases a with
  | acquire block s =>
    obtain rfl := List.mem_singleton.1 hx
    simp [Post.inside, Post.acquiring?, Strand.point?_of_ended ho]
  | release id s =>
    obtain rfl := List.mem_singleton.1 hx
    rfl
  | terminate id s =>
    obtain rfl := List.mem_singleton.1 hx
    rfl
  | prewarm count t =>
    obtain rfl := hlead hx ho.2
    simp [Post.inside, Strand.point?_of_ended ho.1]
  | teardown t =>
    obtain rfl := hlead hx ho.2
    rfl
  | cleanup t =>
    obtain rfl := hlead hx ho.2
    rfl
  | execute plan t =>
    obtain rfl := hlead hx ho.2
    simp [Post.inside, Post.acquiring?, Strand.point?_of_ended ho.1]

namespace Machine

variable {config : Config} {seed : BitVec 128} {pool : Pool} {now : Instant} {h₁ h₂ : History}
  {m₁ m : Machine}

/-- The gate is open when all operations have ended. -/
theorem Reaches.gate_of_quiet (hc : pool.config.parallelism = .single)
    (hopen : pool.gateHeld = false) (hr : (ofPool pool now).Reaches h m) (hq : m.quiet = true) :
    m.pool.gateHeld = false := by
  by_contra hheld
  obtain ⟨k, x, hx, hi⟩ := hr.exists_inside hc hopen (by simpa using hheld)
  obtain ⟨a, ha, hx⟩ := mem_posts.1 hx
  have hover := hr.over_of_ended (activity?_of_mem hr.ordered_ofPool ha) (List.all_eq_true.1 hq _ ha)
  rw [hover.not_inside hx] at hi
  cases hi

/-- **A prewarm that has not ended can go on**: one of its processes can take a step, or goes on with the
reply that it waits for. -/
theorem Reaches.goes_on (hr : (ofPool pool now).Reaches h₁ m)
    (ha : m.activity? n = some (.prewarm count t)) (hs : Prewarm.Stands p₀ n room h m.pool t spawns)
    (hopen : p₀.config.parallelism = .single → p₀.gateHeld = false) (he : t.leader.ended = false) :
    ∃ place, (m.next (.step n place)).isSome = true ∨
      ∃ r, (m.next (.reply n place r)).isSome = true := by
  have hstep : ∀ place,
      (t.step (Prewarm.conduct m.pool.config count) m.context m.pool place).isSome = true →
      (m.next (.step n place)).isSome = true := by
    intro place hstep
    simpa only [Machine.next, stepAt, ha, Option.bind_some, Option.isSome_map, Activity.step] using hstep
  cases hs.phase with
  | gate hl hc hp =>
    refine ⟨0, .inl (hstep 0 ?_)⟩
    have hfree : m.pool.gateHeld = false := by
      rw [hp]
      exact hopen (hp ▸ hc)
    simp [Team.step, hl, Team.lead, Prewarm.conduct, Strand.step, hfree]
  | reserve hl =>
    refine ⟨0, .inl (hstep 0 ?_)⟩
    simp [Team.step, hl, Team.lead, Prewarm.conduct]
  | gather hl =>
    cases hactive : t.active with
    | nil =>
      refine ⟨0, .inl (hstep 0 ?_)⟩
      simp [Team.step, hl, Team.lead, Prewarm.conduct, hactive]
    | cons x rest =>
      have hx : x ∈ t.active := hactive ▸ List.mem_cons_self ..
      have hfound := Team.member?_of_mem (hr.ordered_ofPool.members _ (activity?_mem ha)) hx
      refine ⟨x.serial + 1, ?_⟩
      cases hstrand : x.strand with
      | ready point =>
        refine .inl (hstep _ ?_)
        simp only [Team.step, hfound, Option.bind_some, Option.isSome_map, hstrand]
        exact Spawn.step_isSome
      | waiting point =>
        have hmem : (x.serial, x.strand) ∈ spawns.map fun x => (x.serial, x.strand) :=
          hs.strands.mem_iff.2 (List.mem_append_left _ (List.mem_map_of_mem hx))
        obtain ⟨y, hy, heq⟩ := List.mem_map.1 hmem
        have hfiled := hs.crew.filed y hy
        rw [(Prod.mk.inj heq).2, hstrand] at hfiled
        obtain ⟨r, hreply⟩ := Spawn.exists_reply m.pool.config _ hfiled.1
        refine .inr ⟨r, ?_⟩
        simp only [Machine.next, ha, Option.bind_some, Option.isSome_map, Activity.reply, Team.reply,
          hfound, hstrand]
        exact hreply
      | done r => exact absurd (hr.alive ha x hx) (by simp [hstrand, Strand.ended])
      | panicked message => exact absurd (hr.alive ha x hx) (by simp [hstrand, Strand.ended])
  | leave hl =>
    refine ⟨0, .inl (hstep 0 ?_)⟩
    simp [Team.step, hl, Team.lead, Prewarm.conduct, Strand.step]
  | done hl =>
    rw [hl] at he
    cases he

/-- **A prewarm is exact under partial failure.** In every interleaving of operations on a new pool, and
whatever the daemon and the runners answer as long as no identity is given out twice: take a prewarm that
is ordered when all operations have ended, and beside which nothing starts. It takes a bounded number of
turns, can go on until it has ended, and ends with a result. When it has ended, it has started as many
sandboxes as the cap leaves room for, and what it reports and leaves behind is as `Prewarm.Exact` says. -/
theorem prewarm_exact (hp : Pool.create config seed = .ok pool)
    (hr : (ofPool pool now).Reaches (h₁ ++ (m₁, .order (.prewarm count)) :: h₂) m)
    (hf : History.Fresh (h₁ ++ (m₁, .order (.prewarm count)) :: h₂)) (hq : m₁.quiet = true)
    (hmove : ∀ x ∈ h₂, x.2.starts = false) :
    let room := min count (config.effectiveMax - m₁.pool.liveCount)
    ∃ t, m.activity? m₁.started = some (.prewarm count t) ∧ h₂.turns m₁.started ≤ 14 * room + 4 ∧
      (t.leader.ended = false → ∃ place, (m.next (.step m₁.started place)).isSome = true ∨
        ∃ r, (m.next (.reply m₁.started place r)).isSome = true) ∧
      (t.leader.ended = true → ∃ result, t.leader = .done result ∧
        Prewarm.Exact m₁.pool m₁.started room h₂ m.pool result) := by
  intro room
  obtain ⟨m₂, notes, hr₁, hn, hr₂⟩ := hr.split
  cases hn
  have hheld := hr₁.holding_of_calm (hr₁.calm_of_quiet hq)
  have hroom : room = min count (m₁.pool.config.effectiveMax - m₁.pool.occupancy) := by
    have hocc : m₁.pool.occupancy = m₁.pool.liveCount := by
      unfold Pool.occupancy
      rw [hr₁.pending_of_held hp hheld, Nat.add_zero]
    rw [hocc, (hr₁.capped hp).config_eq]
  obtain ⟨hsole, t, spawns, ha, hs⟩ := hr₁.prewarming hp hq hr₂ hf hmove hroom
  refine ⟨t, ha, ?_, fun he => hr.goes_on ha hs (fun hc => ?_) he, fun he => ?_⟩
  · have hturns := hs.turns
    omega
  · rw [hr₁.config_eq] at hc
    refine hr₁.gate_of_quiet hc ?_ hq
    obtain ⟨-, rfl⟩ := create_eq_ok_iff.1 hp
    rfl
  · obtain ⟨result, hd⟩ : ∃ result, t.leader = .done result := by
      cases hs.phase with
      | done hl => exact ⟨_, hl⟩
      | _ hl =>
        rw [hl] at he
        cases he
    refine ⟨result, hd, hs.exact hd ?_⟩
    have hquiet := hsole.quiet hr.ordered_ofPool ha he
    have hbefore := hr₁.size_of_held hp hf.of_prefix hheld
    have hafter := hr.size_of_held hp hf (hr.holding_of_calm (hr.calm_of_quiet hquiet))
    omega

/-- One of four sandboxes is in use when five are to be made ready, so three are started. The container of
the second one cannot be created, the first one does not get healthy, and the third one does, in that
order. The prewarm reports what the first one has failed of. -/
theorem prewarm_exact_two_failures :
    let config : Config := { image := "img", maxSandboxes := 4 }
    let failure : DaemonError := .api 500 "no"
    ∃ (pool : Pool) (h₁ h₂ : History) (m₁ m : Machine) (t : Prewarm.Run),
      Pool.create config 0 = .ok pool ∧
      (ofPool pool 0).Reaches (h₁ ++ (m₁, .order (.prewarm 5)) :: h₂) m ∧
      History.Fresh (h₁ ++ (m₁, .order (.prewarm 5)) :: h₂) ∧ m₁.quiet = true ∧
      (∀ x ∈ h₂, x.2.starts = false) ∧ m₁.pool.liveCount = 1 ∧
      m.activity? 1 = some (.prewarm 5 t) ∧
      (h₂.yields 1).map (fun e => (e.serial, Prewarm.succeeded e)) = [(1, false), (0, false), (2, true)] ∧
      t.leader = .done (.error (.daemon .health failure)) ∧
      Prewarm.Exact m₁.pool 1 3 h₂ m.pool (.error (.daemon .health failure)) := by
  intro config failure
  let before : List Move := [.order (.acquire "a"), .step 0 0, .step 0 0, .step 0 0,
    .reply 0 0 (.created (.ok "c1")), .step 0 0, .step 0 0, .reply 0 0 (.acted (.ok ())), .step 0 0,
    .reply 0 0 (.acted (.ok ())), .step 0 0]
  let behind : List Move := [.step 1 0, .step 1 1, .step 1 1, .step 1 2, .step 1 2, .step 1 3, .step 1 3,
    .reply 1 2 (.created (.error failure)), .step 1 2,
    .reply 1 1 (.created (.ok "c2")), .step 1 1, .step 1 1, .reply 1 1 (.acted (.ok ())), .step 1 1,
    .reply 1 3 (.created (.ok "c3")), .step 1 3, .step 1 3, .reply 1 3 (.acted (.ok ())), .step 1 3,
    .reply 1 1 (.acted (.error failure)), .step 1 1, .step 1 1, .reply 1 1 (.acted (.error failure)),
    .step 1 1, .reply 1 1 (.acted (.ok ())), .step 1 1,
    .reply 1 3 (.acted (.ok ())), .step 1 3, .step 1 0, .step 1 0]
  have hp : Pool.create config 0 = .ok (.ofConfig config 0) :=
    create_eq_ok_iff.2 ⟨by decide +kernel, rfl⟩
  have hrun : ((ofPool (.ofConfig config 0) 0).trace before).any (fun x =>
      ((x.2.start (.ofOrder config (.prewarm 5))).trace behind).any fun y =>
        History.Fresh (x.1 ++ (x.2, .order (.prewarm 5)) :: y.1) ∧ x.2.quiet = true ∧
          (∀ z ∈ y.1, z.2.starts = false) ∧ x.2.pool.liveCount = 1 ∧ x.2.started = 1 ∧
          x.2.pool.config = config ∧ (y.2.activity? 1).any (·.ended) = true ∧
          (y.1.yields 1).map (fun e => (e.serial, Prewarm.succeeded e))
            = [(1, false), (0, false), (2, true)] ∧
          ((y.1.yields 1).any fun e => e.serial = 0 ∧
            Prewarm.failure? e = some (.daemon .health failure)) = true) = true := by
    decide +kernel
  obtain ⟨x, hx, hrun⟩ := (Option.any_eq_true _ _).1 hrun
  obtain ⟨y, hy, hrun⟩ := (Option.any_eq_true _ _).1 hrun
  obtain ⟨hf, hq, hmove, hlive, hstarted, hconfig, hended, hyields, hfirst⟩ := of_decide_eq_true hrun
  have hr₁ := reaches_of_trace hx
  have hn : x.2.next (.order (.prewarm 5)) = some (x.2.start (.ofOrder config (.prewarm 5)), []) := by
    rw [← hconfig]
    rfl
  have hr : (ofPool (.ofConfig config 0) 0).Reaches (x.1 ++ (x.2, .order (.prewarm 5)) :: y.1) y.2 := by
    have hall := (hr₁.next hn).append (reaches_of_trace hy)
    rwa [List.append_assoc] at hall
  obtain ⟨t, ha, -, -, hdone⟩ := prewarm_exact hp hr hf hq hmove
  rw [hstarted] at ha hdone
  obtain ⟨result, hd, hexact⟩ := hdone (by
    rw [ha] at hended
    exact hended)
  have hroom : min 5 (config.effectiveMax - x.2.pool.liveCount) = 3 := by
    rw [hlive]
    decide +kernel
  rw [hroom] at hexact
  obtain ⟨e, he, hfail⟩ := List.any_eq_true.1 hfirst
  obtain ⟨hserial, hfail⟩ := of_decide_eq_true hfail
  have hresult : result = .error (.daemon .health failure) := by
    refine (hexact.error _).2 ⟨e, he, Prewarm.failure?_eq_some_iff.1 hfail, fun e' _ hlt => ?_⟩
    omega
  subst hresult
  exact ⟨_, x.1, y.1, x.2, y.2, t, hp, hr, hf, hq, hmove, hlive, ha, hyields, hd, hexact⟩

end Machine

end SandboxPool
