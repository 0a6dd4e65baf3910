import SandboxPool.Proofs.Execution.Regrouped
import SandboxPool.Proofs.Pool.Timers

/-!
# Twin executions

Two executions run at once in two pools: one of a plan with a single block, and one of the plan in which
that block is a group of its own. `Execution.Twin` says how the two stand to each other: they are at the
same point, or the first one runs the block itself while the second one has a member for it. The second
one may lag behind by some steps that nobody sees.

* `Execution.Twin.catchUp`: it makes up for them one by one.
* `Execution.Twin.follow`: what the first one does, the second one can do when it does not lag.
* `Execution.Twin.lead`: what the second one does, the first one can do, unless it was a step that
  nobody sees.
-/

namespace SandboxPool

/-- The lane is not told to be a group when it starts. -/
def Event.blur (lane : Nat) : Event → Event
  | laneStarted index blocks parallel merge =>
    laneStarted index blocks (parallel && index != lane) merge
  | e => e

/-- An effect in which the lane is not told to be a group. -/
def Effect.blur (lane : Nat) : Effect → Effect
  | .emit e => .emit (e.blur lane)
  | e => e

theorem foldl_ring_of_blur {lane : Nat} {effects effects' : List Effect}
    (h : effects.map (·.blur lane) = effects'.map (·.blur lane)) (alarms : List Alarm) :
    effects.foldl Effect.ring alarms = effects'.foldl Effect.ring alarms := by
  have hring : ∀ effects : List Effect,
      (effects.map (·.blur lane)).foldl Effect.ring alarms = effects.foldl Effect.ring alarms := by
    intro effects
    rw [List.foldl_map]
    congr 1
    funext alarms e
    cases e <;> rfl
  rw [← hring effects, h, hring]

theorem map_blur_events {lane : Nat} {β : Type} (s : Scope β) :
    s.events.map (·.blur lane) = (s.effects.map (·.blur lane)).filterMap (·.event?) := by
  unfold Scope.events
  rw [List.map_filterMap, List.filterMap_map]
  congr 1
  funext e
  cases e <;> rfl

namespace Execution

variable {config : Config} {plan : Plan} {c : Context} {p : Pool} {r : Option Reply} {t : Run}
  {place shift behind : Nat}

/-! ## Executions in order -/

/-- The execution may have members at this point. -/
def Point.crewed : Point → Bool
  | .dispatch .. | .gather .. | .cleared .. => true
  | _ => false

/-- How far an execution has come that has not run all of its lanes. -/
def Point.running? : Point → Option Progress
  | .lane s | .solo s .. | .dispatch s .. | .gather s .. | .settle s .. => some s
  | _ => none

/-- The execution has members only where it waits for them, and the lanes that are left are those of the
plan. -/
structure Tidy (plan : Plan) (t : Run) : Prop where
  alone : ∀ point, t.leader.point? = some point → point.crewed = false → t.tasks = []
  rest : ∀ point s, t.leader.point? = some point → point.running? = some s →
    s.rest = plan.lanes.drop s.index

/-- An execution is in order if it is so at the point that it has come to. -/
theorem tidy_ready {point : Point} (hl : t.leader = .ready point)
    (halone : point.crewed = false → t.tasks = [])
    (hrest : ∀ s, point.running? = some s → s.rest = plan.lanes.drop s.index) : Tidy plan t := by
  have hpoint : t.leader.point? = some point := by rw [hl]; rfl
  refine ⟨fun q hq hc => ?_, fun q s hq hs => ?_⟩
  · obtain rfl := Option.some.inj (hpoint.symm.trans hq)
    exact halone hc
  · obtain rfl := Option.some.inj (hpoint.symm.trans hq)
    exact hrest s hs

/-- An execution that has ended is in order. -/
theorem tidy_ended (hl : t.leader.ended = true) : Tidy plan t := by
  have hpoint := Strand.point?_of_ended hl
  refine ⟨fun q hq _ => ?_, fun q s hq _ => ?_⟩
  · rw [hpoint] at hq
    cases hq
  · rw [hpoint] at hq
    cases hq

theorem tidy_start (plan : Plan) : Tidy plan start :=
  tidy_ready rfl (fun _ => rfl) fun s hs => by cases hs

/-- **Every stride of an execution keeps it in order.** -/
theorem Tidy.stride (h : Tidy plan t) {sig : Option Signal} {s : Scope Run}
    (hs : Stride config plan c p t place sig s) : Tidy plan s.result := by
  have halone : ∀ {point : Point}, t.leader = .ready point → point.crewed = false → t.tasks = [] :=
    fun hl => h.alone _ (by rw [hl]; rfl)
  have hrest : ∀ {point : Point} {s : Progress}, t.leader = .ready point → point.running? = some s →
      s.rest = plan.lanes.drop s.index := fun hl => h.rest _ _ (by rw [hl]; rfl)
  have hnone : t.active = [] → ∀ leader, (⟨leader, t.active, [], t.hired⟩ : Run).tasks = [] :=
    fun hn _ => by simp only [Team.tasks, hn, List.map_nil, List.append_nil]
  cases hs with
  | refuse => exact tidy_ended rfl
  | finish => exact tidy_ended rfl
  | begin hl => exact tidy_ready rfl (fun _ => halone hl rfl) fun s hs => by cases hs; rfl
  | complete hl => exact tidy_ready rfl (fun _ => halone hl rfl) fun s hs => by cases hs
  | stop hl => exact tidy_ready rfl (fun _ => halone hl rfl) fun s hs => by cases hs
  | block hl =>
    exact tidy_ready rfl (fun _ => halone hl rfl) fun s hs => by cases hs; exact hrest hl rfl
  | group hl =>
    exact tidy_ready rfl (fun _ => halone hl rfl) fun s hs => by cases hs; exact hrest hl rfl
  | @solo progress block b out sig s₀ hl ht =>
    have hp : t.leader.point? = some (.solo progress block b) := by rw [hl, Strand.point?_standing]
    have hkept := h.rest _ progress hp rfl
    refine ⟨fun _ _ _ => h.alone _ hp rfl, fun point s hpoint hs => ?_⟩
    change (Strand.land (Point.solo progress block b) _).point? = _ at hpoint
    cases hres : s₀.result with
    | none =>
      rw [hres] at hpoint
      cases hpoint
      cases hs
      exact hkept
    | some next =>
      rw [hres] at hpoint
      cases next with
      | goto b' =>
        cases hpoint
        cases hs
        exact hkept
      | done ran =>
        cases hpoint
        cases hs
        exact hkept
      | panic message => cases hpoint
  | hired hl =>
    exact tidy_ready rfl (fun hc => by cases hc) fun s hs => by cases hs; exact hrest hl rfl
  | interrupt hl =>
    exact tidy_ready rfl (fun hc => by cases hc) fun s hs => by cases hs; exact hrest hl rfl
  | hire hl =>
    exact tidy_ready rfl (fun hc => by cases hc) fun s hs => by cases hs; exact hrest hl rfl
  | gather hl hn =>
    exact tidy_ready rfl (fun _ => hnone hn _) fun s hs => by cases hs; exact hrest hl rfl
  | broken hl => exact tidy_ready rfl (fun _ => halone hl rfl) fun s hs => by cases hs
  | overruled hl => exact tidy_ready rfl (fun _ => halone hl rfl) fun s hs => by cases hs
  | halt hl => exact tidy_ready rfl (fun _ => halone hl rfl) fun s hs => by cases hs
  | @pass progress ran hl =>
    refine tidy_ready rfl (fun _ => halone hl rfl) fun s hs => ?_
    cases hs
    show progress.rest.drop 1 = _
    rw [hrest hl rfl, List.drop_drop]
    rfl
  | abort hl => exact tidy_ready rfl (fun _ => halone hl rfl) fun s hs => by cases hs
  | spare hl => exact tidy_ready rfl (fun _ => halone hl rfl) fun s hs => by cases hs
  | collect => exact tidy_ready rfl (fun hc => by cases hc) fun s hs => by cases hs
  | cleared hl hn => exact tidy_ready rfl (fun _ => hnone hn _) fun s hs => by cases hs
  | @member n m sig sc hm ht =>
    refine ⟨fun point hp hc => ?_, fun point s hp hs => ?_⟩
    · rw [Scope.map, Team.update_leader] at hp
      have htasks := h.alone point hp hc
      have hmem := Team.mem_of_member? hm
      rw [List.map_eq_nil_iff.1 (List.append_eq_nil_iff.1 htasks).1] at hmem
      cases hmem
    · rw [Scope.map, Team.update_leader] at hp
      exact h.rest point s hp hs

theorem Tidy.take (h : Tidy plan t) {s : Scope Run}
    (ht : t.take (conduct config plan) c p r place = some s) : Tidy plan s.result := by
  cases r with
  | none => exact h.stride (stride_of_turn (Team.turn_of_step ht))
  | some r =>
    obtain ⟨t', hr, rfl⟩ := Option.map_eq_some_iff.1 ht
    obtain ⟨a, -, hturn⟩ := Team.turn_of_reply (c := c) (p := p) hr
    exact h.stride (stride_of_turn hturn)

/-- Nothing of the execution has broken off. -/
structure Unbroken (t : Run) : Prop where
  leader : ∀ message, t.leader ≠ .panicked message
  ended : ∀ e ∈ t.ended, ∃ y, e.result = .ok y

instance : DecidablePred Unbroken := fun t =>
  have : Decidable (∀ message, t.leader ≠ .panicked message) :=
    match t.leader with
    | .panicked message => isFalse fun h => h message rfl
    | .ready _ | .waiting _ | .done _ => isTrue fun _ h => by cases h
  have : DecidablePred fun e : Ended String Yield => ∃ y, e.result = .ok y := fun e =>
    match h : e.result with
    | .ok y => isTrue ⟨y, h⟩
    | .error _ => isFalse fun ⟨_, hy⟩ => by cases h.symm.trans hy
  decidable_of_iff ((∀ message, t.leader ≠ .panicked message) ∧ ∀ e ∈ t.ended, ∃ y, e.result = .ok y)
    ⟨fun h => ⟨h.1, h.2⟩, fun h => ⟨h.leader, h.ended⟩⟩

theorem unbroken_start : Unbroken start :=
  ⟨fun _ hl => (by cases hl), fun _ he => (by cases he)⟩

theorem unbroken_carry {f : Point → Point} : Unbroken (t.carry f shift) ↔ Unbroken t := by
  constructor
  · rintro ⟨hleader, hended⟩
    refine ⟨fun message hl => hleader message ?_, fun e he => ?_⟩
    · simp only [Team.carry, hl, Strand.into]
    · exact hended (e.later shift) (List.mem_map_of_mem he)
  · rintro ⟨hleader, hended⟩
    refine ⟨fun message hl => ?_, fun e he => ?_⟩
    · cases hleader' : t.leader with
      | panicked message' => exact hleader message' hleader'
      | _ =>
        simp only [Team.carry, hleader', Strand.into, Strand.ofNext] at hl
        cases hl
    · obtain ⟨e', he', rfl⟩ := List.mem_map.1 he
      exact hended e' he'

/-- Where nothing has broken off, the results of a group do not tell the numbers of its members. -/
theorem settleAccounts_later {ended : List (Ended String Yield)} (lost : Nat → String → String)
    (h : ∀ e ∈ ended, ∃ y, e.result = .ok y) (sent : List String) :
    settleAccounts lost sent (ended.map (·.later shift)) = settleAccounts lost sent ended := by
  have hyielded : yielded (ended.map (·.later shift)) = yielded ended := by
    unfold yielded
    rw [List.filterMap_map]
    rfl
  have hlosses : ∀ l : List (Ended String Yield), (∀ e ∈ l, ∃ y, e.result = .ok y) →
      losses lost l = [] := fun l hl => List.filterMap_eq_nil_iff.2 fun e he => by
      obtain ⟨y, hy⟩ := hl e he
      rw [hy]
  have hlater : ∀ e ∈ ended.map (·.later shift), ∃ y, e.result = .ok y := by
    intro e he
    obtain ⟨e', he', rfl⟩ := List.mem_map.1 he
    exact h e' he'
  unfold settleAccounts
  rw [hyielded, hlosses _ h, hlosses _ hlater]

/-! ## A block by itself and as a member -/

variable {s : Progress} {block : String} {n : Nat} {st : Strand BlockRun.Point BlockResult}
  {leader : Point}

/-- How an execution goes on that has run a block itself. -/
abbrev soloWay (s : Progress) (ran : BlockResult) : Next Point Result := .goto (.settle s [ran] false)

/-- How a member goes on that has run a block. -/
abbrev crewWay (ran : BlockResult) : Next Duty Yield := .done (.ran ran)

/-- The execution runs the block itself. -/
def soloRun (s : Progress) (block : String) (n : Nat) (st : Strand BlockRun.Point BlockResult) : Run :=
  ⟨st.into (.solo s block) (soloWay s), [], [], n⟩

/-- The execution has a member that runs the block. -/
def crewRun (leader : Point) (block : String) (n : Nat) (st : Strand BlockRun.Point BlockResult) : Run :=
  let strand := st.into (.run block) crewWay
  Team.update ⟨.ready leader, [⟨n, block, strand⟩], [], n + 1⟩ ⟨n, block, strand⟩ strand

theorem crewRun_leader (st : Strand BlockRun.Point BlockResult) :
    (crewRun leader block n st).leader = .ready leader :=
  Team.update_leader _ _

theorem crewRun_of_ended_eq_false (he : st.ended = false) : crewRun leader block n st
    = ⟨.ready leader, [⟨n, block, st.into (.run block) crewWay⟩], [], n + 1⟩ := by
  cases st with
  | ready q => simp [crewRun, Team.update, Team.outcome?, Strand.into]
  | waiting q => simp [crewRun, Team.update, Team.outcome?, Strand.into]
  | _ => cases he

theorem crewRun_done (ran : BlockResult) : crewRun leader block n (.done ran)
    = ⟨.ready leader, [], [⟨n, block, .ok (.ran ran)⟩], n + 1⟩ := by
  simp [crewRun, Team.update, Team.outcome?, Strand.into, Strand.ofNext]

theorem crewRun_panicked (message : String) : crewRun leader block n (.panicked message)
    = ⟨.ready leader, [], [⟨n, block, .error message⟩], n + 1⟩ := by
  simp [crewRun, Team.update, Team.outcome?, Strand.into]

theorem update_crewRun (old : Strand Duty Yield) (st : Strand BlockRun.Point BlockResult) :
    (⟨.ready leader, [⟨n, block, old⟩], [], n + 1⟩ : Run).update ⟨n, block, old⟩
      (st.into (.run block) crewWay) = crewRun leader block n st := by
  cases st <;> simp [crewRun, Team.update, Team.outcome?, Strand.into, Strand.ofNext]

theorem crewRun_goes (leader' : Point) : { crewRun leader block n st with leader := .ready leader' }
    = crewRun leader' block n st := by
  cases st with
  | done ran => rw [crewRun_done, crewRun_done]
  | panicked message => rw [crewRun_panicked, crewRun_panicked]
  | _ => rw [crewRun_of_ended_eq_false rfl, crewRun_of_ended_eq_false rfl]

/-- Only the member moves that runs the block. -/
theorem member?_crewRun {k : Nat} {m : Member String Duty Yield}
    (hm : (crewRun leader block n st).member? k = some m) : k = n ∧ st.ended = false := by
  cases st with
  | done ran =>
    rw [crewRun_done] at hm
    cases hm
  | panicked message =>
    rw [crewRun_panicked] at hm
    cases hm
  | _ =>
    rw [crewRun_of_ended_eq_false rfl] at hm
    obtain rfl := List.mem_singleton.1 (Team.mem_of_member? hm)
    have hserial : n = k := by simpa using List.find?_some hm
    exact ⟨hserial.symm, rfl⟩

theorem exists_point? (he : st.ended = false) : ∃ q, st.point? = some q := by
  cases hp : st.point? with
  | none => rw [Strand.ended_of_point?_eq_none hp] at he; cases he
  | some q => exact ⟨q, rfl⟩

theorem point?_soloRun {q : BlockRun.Point} (hq : st.point? = some q) :
    (soloRun s block n st).leader.point? = some (.solo s block q) := by
  cases st with
  | ready q' => cases hq; rfl
  | waiting q' => cases hq; rfl
  | _ => cases hq

/-- What an execution wants that runs a block itself. -/
theorem leader_soloRun (config : Config) (plan : Plan) {q : BlockRun.Point} (hq : st.point? = some q) :
    ∀ point, (soloRun s block n st).leader.point? = some point → (conduct config plan).leader point
      = .demand ((BlockRun.demand config block q).map
        (.into (.solo s block) (soloWay s))) := by
  intro point hp
  rw [point?_soloRun hq] at hp
  cases hp
  rfl

theorem take_soloRun (he : st.ended = false) :
    (soloRun s block n st).take (conduct config plan) c p r 0
      = (st.take (BlockRun.demand config block) c p r).map (Scope.map (soloRun s block n)) := by
  obtain ⟨q, hq⟩ := exists_point? he
  have htake : (st.into (Point.solo s block) (soloWay s)).take
        (fun _ => (BlockRun.demand config block q).map (.into (.solo s block) (soloWay s))) c p r
      = (st.take (BlockRun.demand config block) c p r).map
        (Scope.map (Strand.into (Point.solo s block) (soloWay s))) :=
    Strand.take_into (BlockRun.demand config block) _
      (fun q' hq' => by rw [Option.some.inj (hq.symm.trans hq')]) he
  rw [Team.take_leader _ (leader_soloRun config plan hq)]
  show Option.map _ (Strand.take _ c p r (st.into _ _)) = _
  rw [htake, Option.map_map]
  rfl

theorem ask?_soloRun (he : st.ended = false) :
    (soloRun s block n st).ask? (conduct config plan) 0 = st.ask? (BlockRun.demand config block) := by
  obtain ⟨q, hq⟩ := exists_point? he
  rw [Team.ask?_leader (leader_soloRun config plan hq)]
  exact Strand.ask?_into (fun q' hq' => by rw [Option.some.inj (hq.symm.trans hq')]) he

theorem member?_crewRun_self (he : st.ended = false) : (crewRun leader block n st).member? n
    = some ⟨n, block, st.into (.run block) crewWay⟩ := by
  rw [crewRun_of_ended_eq_false he]
  simp [Team.member?]

theorem take_crewRun (he : st.ended = false) :
    (crewRun leader block n st).take (conduct config plan) c p r (n + 1)
      = (st.take (BlockRun.demand config block) c p r).map (Scope.map (crewRun leader block n)) := by
  have htake : (st.into (Duty.run block) crewWay).take (member config) c p r
      = (st.take (BlockRun.demand config block) c p r).map
        (Scope.map (Strand.into (Duty.run block) crewWay)) :=
    Strand.take_into (BlockRun.demand config block) (member config) (fun _ _ => rfl) he
  rw [Team.take_member, member?_crewRun_self he, Option.bind_some]
  show Option.map _ (Strand.take (member config) c p r _) = _
  rw [htake, Option.map_map, crewRun_of_ended_eq_false he]
  congr 1
  funext sc
  exact congrArg (Scope.mk sc.pool sc.effects) (update_crewRun _ sc.result)

theorem ask?_crewRun (he : st.ended = false) :
    (crewRun leader block n st).ask? (conduct config plan) (n + 1)
      = st.ask? (BlockRun.demand config block) := by
  show ((crewRun leader block n st).member? n).bind _ = _
  rw [member?_crewRun_self he, Option.bind_some]
  exact Strand.ask?_into (fun q _ => rfl) he

/-! ## Twins -/

/-- Where an execution is that has hired the only member of a group: it may still have to find out that
there is nobody else to hire. -/
def Progress.crewPoint (behind : Nat) (s : Progress) (block : String) : (hiring : Bool) → Point
  | true => .dispatch (s.regroup behind) [block] []
  | false => .gather (s.regroup behind) [block] false

/-- An execution of a plan with a single block, and one of the plan in which it is a group: how the two
stand to each other, and how many steps the second one lags behind. -/
inductive Twin (plan : Plan) (behind : Nat) (aborted : Bool) : (lag : Nat) → Run → Run → Prop where
  | same {t : Run} (shift : Nat) (ho : Tidy plan t) (hu : Unbroken t) :
      Twin plan behind aborted 0 t (t.carry (Point.regroup behind) shift)
  | due {s : Progress} {block : String} (n shift : Nat) (hs : s.rest = plan.lanes.drop s.index)
      (hi : s.index = plan.lanes.length - (behind + 1)) (ha : aborted = false) :
      Twin plan behind aborted 2 (soloRun s block n (.ready .begin))
        ⟨.ready (.dispatch (s.regroup behind) [] [block]), [], [], n + shift⟩
  | alone {s : Progress} {block : String} (n shift : Nat) {st : Strand BlockRun.Point BlockResult}
      (hiring : Bool) (hs : s.rest = plan.lanes.drop s.index)
      (hp : ∀ message, st ≠ .panicked message) :
      Twin plan behind aborted (hiring.toNat + st.ended.toNat) (soloRun s block n st)
        (crewRun (s.crewPoint behind block hiring) block (n + shift) st)

variable {aborted : Bool} {lag : Nat} {t₁ t₂ : Run}

/-- Nothing of twins has broken off. -/
theorem Twin.unbroken (h : Twin plan behind aborted lag t₁ t₂) : Unbroken t₁ ∧ Unbroken t₂ := by
  cases h with
  | same shift ho hu => exact ⟨hu, unbroken_carry.2 hu⟩
  | due => exact ⟨⟨fun _ hl => (by cases hl), fun _ he => (by cases he)⟩,
      ⟨fun _ hl => (by cases hl), fun _ he => (by cases he)⟩⟩
  | @alone s block n shift st hiring hs hp =>
    constructor
    · refine ⟨fun message hl => ?_, fun _ he => by cases he⟩
      cases st with
      | panicked message' => exact hp message' rfl
      | _ => cases hl
    · refine ⟨fun message hl => ?_, fun e he => ?_⟩
      · rw [crewRun_leader] at hl
        cases hl
      · cases st with
        | panicked message' => exact absurd rfl (hp message')
        | done ran =>
          rw [crewRun_done] at he
          obtain rfl := List.mem_singleton.1 he
          exact ⟨_, rfl⟩
        | _ =>
          rw [crewRun_of_ended_eq_false rfl] at he
          cases he

/-- A group of one block that has a result has this result. -/
theorem settleAccounts_singleton (lost : Nat → String → String) (sent : List String) (n : Nat)
    (block : String) (ran : BlockResult) :
    settleAccounts lost sent [⟨n, block, .ok (.ran ran)⟩] = [ran] := by
  simp [settleAccounts, yielded, losses]

/-- There is nobody else to hire. -/
theorem take_hired {sent : List String} (hl : t.leader = .ready (.dispatch s sent [])) :
    t.take (conduct config plan) c p none 0
      = some ⟨p, [], { t with leader := .ready (.gather s sent false) }⟩ := by
  simp only [Team.take, Team.step, hl, Team.lead, conduct, Execution.leader, dispatch, Scope.map,
    Team.enrol, List.append_nil, List.length_nil, Nat.add_zero, Strand.ofNext]

/-- The twins are at the same point behind a block that has ended. -/
theorem twin_settle {ran : BlockResult} (hs : s.rest = plan.lanes.drop s.index) (n shift : Nat) :
    Twin plan behind aborted 0 (soloRun s block n (.done ran))
      ⟨.ready (.settle (s.regroup behind) [ran] false), [], [], n + shift⟩ := by
  have hsame : Twin plan behind aborted 0 (soloRun s block n (.done ran))
      ((soloRun s block n (.done ran)).carry (Point.regroup behind) shift) := by
    refine .same shift (tidy_ready rfl (fun _ => rfl) fun s' hs' => ?_)
      ⟨fun _ hl => (by cases hl), fun _ he => (by cases he)⟩
    cases hs'
    exact hs
  exact hsame

/-- **A step that nobody sees makes up for one that the second one lags behind.** -/
theorem Twin.catchUp (config : Config) (p : Pool) (h : Twin plan behind c.aborted (lag + 1) t₁ t₂) :
    ∃ t₂', t₂.take (conduct config (plan.regroup behind)) c p none 0 = some ⟨p, [], t₂'⟩ ∧
      t₂.ask? (conduct config (plan.regroup behind)) 0 = none ∧
      Twin plan behind c.aborted lag t₁ t₂' := by
  generalize hlag : lag + 1 = l at h
  cases h with
  | same => cases hlag
  | @due s block n shift hs hi ha =>
    obtain rfl : lag = 1 := by omega
    refine ⟨crewRun (s.crewPoint behind block true) block (n + shift) (.ready .begin), ?_, rfl, ?_⟩
    · rw [crewRun_of_ended_eq_false rfl]
      simp only [Team.take, Team.step, Team.lead, conduct, leader, dispatch, ha]
      rfl
    · have hp : ∀ message, (.ready .begin : Strand BlockRun.Point BlockResult) ≠ .panicked message :=
        fun _ he => by cases he
      exact .alone n shift true hs hp
  | @alone s block n shift st hiring hs hp =>
    cases hiring with
    | true =>
      obtain rfl : lag = st.ended.toNat := by
        simp only [Bool.toNat_true] at hlag
        omega
      refine ⟨crewRun (s.crewPoint behind block false) block (n + shift) st, ?_, ?_, ?_⟩
      · have hl : (crewRun (s.crewPoint behind block true) block (n + shift) st).leader
            = .ready (.dispatch (s.regroup behind) [block] []) := crewRun_leader st
        rw [take_hired hl]
        exact congrArg (fun t => some (Scope.mk p [] t)) (crewRun_goes _)
      · simp only [Team.ask?, crewRun_leader, conduct, leader, Progress.crewPoint]
      · have halone : Twin plan behind c.aborted (false.toNat + st.ended.toNat) (soloRun s block n st)
            (crewRun (s.crewPoint behind block false) block (n + shift) st) :=
          .alone n shift false hs hp
        rwa [Bool.toNat_false, Nat.zero_add] at halone
    | false =>
      cases st with
      | done ran =>
        obtain rfl : lag = 0 := by simpa [Strand.ended] using hlag
        refine ⟨_, ?_, ?_, twin_settle hs n (shift + 1)⟩
        · rw [crewRun_done]
          simp only [Team.take, Team.step, Team.lead, conduct, leader, Progress.crewPoint,
            settleAccounts_singleton]
          rfl
        · rw [crewRun_done]
          rfl
      | panicked message => exact absurd rfl (hp message)
      | _ => cases hlag

/-- The execution is about to start the lane in which the two plans differ. -/
def Parting (behind : Nat) (t : Run) : Prop :=
  ∃ s, t.leader.point? = some (.lane s) ∧ s.Parts behind

/-- Elsewhere the twins at the same point want the same. -/
theorem leader_carry (hp : ¬ Parting behind t) : ∀ point, t.leader.point? = some point →
    (conduct config (plan.regroup behind)).leader (point.regroup behind)
      = ((conduct config plan).leader point).over (Point.regroup behind) :=
  fun _ hpoint => leader_regroup config plan fun s hs hparts => hp ⟨s, hs ▸ hpoint, hparts⟩

/-- **Twins at the same point do the same**, unless they are about to start the lane in which the plans
differ. -/
theorem take_same (hp : ¬ Parting behind t) (hu : Unbroken t) (place : Nat) :
    (t.carry (Point.regroup behind) shift).take (conduct config (plan.regroup behind)) c p r
        (Team.laterPlace shift place)
      = (t.take (conduct config plan) c p r place).map
        (Scope.map (Team.carry (Point.regroup behind) shift)) := by
  cases place with
  | zero =>
    refine Team.take_carry_leader (leader_carry hp) fun point _ _ hd => ?_
    cases point with
    | gather s sent interrupted =>
      cases hd
      show Next.goto _ = Next.goto _
      rw [settleAccounts_later _ hu.ended]
    | cleared s index =>
      cases hd
      rfl
    | _ => cases hd
  | succ n => exact Team.take_carry_member rfl n

theorem ask?_same (hp : ¬ Parting behind t) (place : Nat) :
    (t.carry (Point.regroup behind) shift).ask? (conduct config (plan.regroup behind))
        (Team.laterPlace shift place) = t.ask? (conduct config plan) place :=
  have hmember : (conduct config (plan.regroup behind)).member = (conduct config plan).member := rfl
  Team.ask?_carry hmember (leader_carry hp) place

/-- The start of a lane is a step of the execution itself. -/
theorem take_lane {s : Progress} {sc : Scope Run} (hl : t.leader.point? = some (.lane s))
    (hn : t.tasks = []) (ht : t.take (conduct config plan) c p r place = some sc) :
    place = 0 ∧ r = none ∧ t.leader = .ready (.lane s) ∧
      sc = (lane s c p).map fun next => { t with leader := .ofNext next } := by
  obtain ⟨leader, active, ended, hired⟩ := t
  cases place with
  | zero =>
    have hd : ∀ point, leader.point? = some point → (conduct config plan).leader point
        = .demand (.scope fun c p => lane s c p) := by
      intro point hp
      obtain rfl := Option.some.inj (hl.symm.trans hp)
      rfl
    rw [Team.take_leader (fun _ => .scope fun c p => lane s c p) hd] at ht
    cases leader with
    | ready point =>
      cases r with
      | some r => cases ht
      | none =>
        obtain rfl := Option.some.inj hl
        exact ⟨rfl, rfl, rfl, (Option.some.inj ht).symm⟩
    | waiting point =>
      cases r with
      | none => cases ht
      | some r => cases r <;> cases ht
    | done b => cases hl
    | panicked message => cases hl
  | succ n =>
    obtain rfl : active = [] := List.map_eq_nil_iff.1 (List.append_eq_nil_iff.1 hn).1
    rw [Team.take_member] at ht
    cases ht

theorem take_lane_ready {s : Progress} (hl : t.leader = .ready (.lane s)) :
    t.take (conduct config plan) c p none 0
      = some ((lane s c p).map fun next => { t with leader := .ofNext next }) := by
  simp only [Team.take, Team.step, hl]
  rfl

/-- The two do the same, but for the start of the lane in which the plans differ, and are twins behind
it. -/
structure Agree (plan : Plan) (behind : Nat) (aborted : Bool) (s₁ s₂ : Scope Run) : Prop where
  pool : s₂.pool = s₁.pool
  effects : s₂.effects.map (·.blur (plan.lanes.length - (behind + 1)))
    = s₁.effects.map (·.blur (plan.lanes.length - (behind + 1)))
  twin : ∃ lag, Twin plan behind aborted lag s₁.result s₂.result

/-- **The twins start the lane in which the plans differ**, each in its way, unless an abort is wanted. -/
theorem agree_parting {s : Progress} (ho : Tidy plan t) (hu : Unbroken t)
    (hl : t.leader = .ready (.lane s)) (hparts : s.Parts behind) :
    Agree plan behind c.aborted ((lane s c p).map fun next => { t with leader := .ofNext next })
      ((lane (s.regroup behind) c p).map fun next =>
        { t.carry (Point.regroup behind) shift with leader := .ofNext next }) := by
  obtain ⟨block, rest, hr, hlength⟩ := hparts
  have hpoint : t.leader.point? = some (.lane s) := by rw [hl]; rfl
  have htasks := ho.alone _ hpoint rfl
  have hrest := ho.rest _ s hpoint rfl
  have hindex : s.index = plan.lanes.length - (behind + 1) := by
    have hcount := congrArg List.length hrest
    rw [hr, List.length_cons, List.length_drop] at hcount
    omega
  have hkept : (s.regroup behind).rest = .group ⟨[block], none⟩ :: rest := by
    show Lane.regroup behind s.rest = _
    rw [hr, Lane.regroup, if_pos hlength]
    rfl
  cases ha : c.aborted with
  | true =>
    have hfirst : lane s c p = ⟨p, [], .goto (.abort s s.index)⟩ := by
      simp only [lane, hr, ha, if_true]
    have hsecond : lane (s.regroup behind) c p
        = ⟨p, [], .goto (.abort (s.regroup behind) s.index)⟩ := by
      simp only [lane, hkept, ha, if_true]
      rfl
    rw [hfirst, hsecond]
    refine ⟨rfl, rfl, 0, .same shift (tidy_ready rfl (fun _ => htasks) fun _ hs => ?_)
      ⟨fun _ hl => ?_, hu.ended⟩⟩
    · cases hs
    · cases hl
  | false =>
    have hfirst : lane s c p = ⟨p, [.emit (.laneStarted s.index [block] false none)],
        .goto (.solo s block .begin)⟩ := by
      simp only [lane, hr, ha, Bool.false_eq_true, if_false]
      rfl
    have hsecond : lane (s.regroup behind) c p = ⟨p,
        [.emit (.laneStarted s.index [block] true none)],
        .goto (.dispatch (s.regroup behind) [] [block])⟩ := by
      simp only [lane, hkept, ha, Bool.false_eq_true, if_false]
      rfl
    rw [hfirst, hsecond]
    refine ⟨rfl, ?_, 2, ?_⟩
    · simp [Scope.map, Effect.blur, Event.blur, hindex]
    · obtain ⟨leader, active, ended, hired⟩ := t
      obtain ⟨hactive, hended⟩ := List.append_eq_nil_iff.1 htasks
      obtain rfl : active = [] := List.map_eq_nil_iff.1 hactive
      obtain rfl : ended = [] := List.map_eq_nil_iff.1 hended
      exact .due hired shift hrest hindex rfl

/-- **What the first one does, the second one can do when it does not lag.** -/
theorem Twin.follow {s₁ : Scope Run} (h : Twin plan behind c.aborted 0 t₁ t₂)
    (ht : t₁.take (conduct config plan) c p r place = some s₁) (hu : Unbroken s₁.result) :
    ∃ place' s₂, t₂.take (conduct config (plan.regroup behind)) c p r place' = some s₂ ∧
      t₂.ask? (conduct config (plan.regroup behind)) place' = t₁.ask? (conduct config plan) place ∧
      Agree plan behind c.aborted s₁ s₂ := by
  generalize hlag : 0 = lag at h
  cases h with
  | @same _ shift ho hu₁ =>
    by_cases hp : Parting behind t₁
    · obtain ⟨s, hpoint, hparts⟩ := hp
      obtain ⟨rfl, rfl, hl, rfl⟩ := take_lane hpoint (ho.alone _ hpoint rfl) ht
      have hl' : (t₁.carry (Point.regroup behind) shift).leader = .ready (.lane (s.regroup behind)) := by
        simp only [Team.carry, hl, Strand.into, Point.regroup]
      refine ⟨0, _, take_lane_ready hl', ?_, agree_parting ho hu₁ hl hparts⟩
      simp only [Team.ask?, hl, hl', conduct, leader, Demand.ask?]
    · refine ⟨Team.laterPlace shift place, s₁.map (Team.carry _ shift), ?_,
        ?_, rfl, rfl, 0, .same shift (ho.take ht) hu⟩
      · rw [take_same hp hu₁, ht]
        rfl
      · exact ask?_same hp place
  | due => cases hlag
  | @alone s block n shift st hiring hs hp =>
    have he : st.ended = false := by
      cases hst : st.ended with
      | false => rfl
      | true =>
        rw [hst] at hlag
        simp only [Bool.toNat_true] at hlag
        omega
    cases place with
    | succ k =>
      rw [Team.take_member] at ht
      cases ht
    | zero =>
      rw [take_soloRun he] at ht
      obtain ⟨s₀, hs₀, rfl⟩ := Option.map_eq_some_iff.1 ht
      refine ⟨n + shift + 1, s₀.map (crewRun _ block (n + shift)), ?_, ?_, rfl, rfl, _,
        .alone n shift hiring hs fun message hpanic => hu.leader message ?_⟩
      · rw [take_crewRun he, hs₀]
        rfl
      · rw [ask?_crewRun he, ask?_soloRun he]
      · show Strand.into _ _ s₀.result = _
        rw [hpanic]
        rfl

/-- A step of an execution that runs a block for itself, or has a member for it, where the second one
lags: nobody sees it. -/
theorem Twin.unseen {s₂ : Scope Run} (h : Twin plan behind c.aborted (lag + 1) t₁ t₂)
    (ht : t₂.take (conduct config (plan.regroup behind)) c p none 0 = some s₂) :
    s₂.pool = p ∧ s₂.effects = [] ∧ t₂.ask? (conduct config (plan.regroup behind)) 0 = none ∧
      ∃ lag', Twin plan behind c.aborted lag' t₁ s₂.result := by
  obtain ⟨t₂', htake, hask, htwin⟩ := h.catchUp config p
  obtain rfl := Option.some.inj (htake.symm.trans ht)
  exact ⟨rfl, rfl, hask, lag, htwin⟩

/-- **What the second one does, the first one can do**, unless it was a step that nobody sees. -/
theorem Twin.lead {s₂ : Scope Run} (h : Twin plan behind c.aborted lag t₁ t₂)
    (ht : t₂.take (conduct config (plan.regroup behind)) c p r place = some s₂)
    (hu : Unbroken s₂.result) :
    (r = none ∧ s₂.pool = p ∧ s₂.effects = [] ∧
      t₂.ask? (conduct config (plan.regroup behind)) place = none ∧
      ∃ lag', Twin plan behind c.aborted lag' t₁ s₂.result) ∨
    ∃ place' s₁, t₁.take (conduct config plan) c p r place' = some s₁ ∧
      t₂.ask? (conduct config (plan.regroup behind)) place = t₁.ask? (conduct config plan) place' ∧
      Agree plan behind c.aborted s₁ s₂ := by
  cases h with
  | @same _ shift ho hu₁ =>
    refine .inr ?_
    by_cases hp : Parting behind t₁
    · obtain ⟨s, hpoint, hparts⟩ := hp
      have htasks := ho.alone _ hpoint rfl
      have hpoint' : (t₁.carry (Point.regroup behind) shift).leader.point?
          = some (.lane (s.regroup behind)) := by
        cases hl : t₁.leader with
        | ready q => rw [hl] at hpoint; cases hpoint; simp only [Team.carry, hl]; rfl
        | waiting q => rw [hl] at hpoint; cases hpoint; simp only [Team.carry, hl]; rfl
        | _ => rw [hl] at hpoint; cases hpoint
      have htasks' : (t₁.carry (Point.regroup behind) shift).tasks = [] := by
        obtain ⟨hactive, hended⟩ := List.append_eq_nil_iff.1 htasks
        simp only [Team.tasks, Team.carry, List.map_eq_nil_iff.1 hactive, List.map_eq_nil_iff.1 hended,
          List.map_nil, List.append_nil]
      obtain ⟨rfl, rfl, hl', rfl⟩ := take_lane hpoint' htasks' ht
      have hl : t₁.leader = .ready (.lane s) := by
        cases hl : t₁.leader with
        | ready q => rw [hl] at hpoint; cases hpoint; rfl
        | waiting q => simp only [Team.carry, hl, Strand.into] at hl'; cases hl'
        | _ => rw [hl] at hpoint; cases hpoint
      refine ⟨0, _, take_lane_ready hl, ?_, agree_parting ho hu₁ hl hparts⟩
      simp only [Team.ask?, hl, hl', conduct, leader, Demand.ask?]
    · obtain ⟨place', rfl⟩ : ∃ place', place = Team.laterPlace shift place' := by
        cases place with
        | zero => exact ⟨0, rfl⟩
        | succ n =>
          rw [Team.take_member] at ht
          obtain ⟨m, hm, -⟩ := Option.bind_eq_some_iff.1 ht
          obtain ⟨k, rfl⟩ := Team.exists_member?_of_carry hm
          exact ⟨k + 1, rfl⟩
      rw [take_same hp hu₁] at ht
      obtain ⟨s₁, hs₁, rfl⟩ := Option.map_eq_some_iff.1 ht
      exact ⟨place', s₁, hs₁, ask?_same hp place', rfl, rfl, 0,
        .same shift (ho.take hs₁) (unbroken_carry.1 hu)⟩
  | @due s block n shift hs hi ha =>
    cases place with
    | succ k =>
      rw [Team.take_member] at ht
      cases ht
    | zero =>
      cases r with
      | some r => cases ht
      | none => exact .inl ⟨rfl, Twin.unseen (.due n shift hs hi ha) ht⟩
  | @alone s block n shift st hiring hs hp =>
    have hleader : (crewRun (s.crewPoint behind block hiring) block (n + shift) st).leader
        = .ready (s.crewPoint behind block hiring) := crewRun_leader st
    cases place with
    | zero =>
      cases r with
      | some r =>
        simp only [Team.take, Team.reply, hleader, Option.map_none] at ht
        cases ht
      | none =>
        refine .inl ⟨rfl, ?_⟩
        have htwin : Twin plan behind c.aborted (hiring.toNat + st.ended.toNat) (soloRun s block n st)
            (crewRun (s.crewPoint behind block hiring) block (n + shift) st) :=
          .alone n shift hiring hs hp
        cases hlag : hiring.toNat + st.ended.toNat with
        | succ lag =>
          rw [hlag] at htwin
          exact htwin.unseen ht
        | zero =>
          -- The member has not ended, and the leader waits for it.
          cases hiring with
          | true => simp at hlag
          | false =>
            cases he : st.ended with
            | true => rw [he] at hlag; cases hlag
            | false =>
              rw [crewRun_of_ended_eq_false he] at ht
              cases ht
    | succ k =>
      rw [Team.take_member] at ht
      obtain ⟨m, hm, -⟩ := Option.bind_eq_some_iff.1 ht
      obtain ⟨rfl, he⟩ := member?_crewRun hm
      rw [← Team.take_member, take_crewRun he] at ht
      obtain ⟨s₀, hs₀, rfl⟩ := Option.map_eq_some_iff.1 ht
      refine .inr ⟨0, s₀.map (soloRun s block n), ?_, ?_, rfl, rfl, _,
        .alone n shift hiring hs fun message hpanic => ?_⟩
      · rw [take_soloRun he, hs₀]
        rfl
      · rw [ask?_crewRun he, ask?_soloRun he]
      · have hcrew : (s₀.map (crewRun (s.crewPoint behind block hiring) block (n + shift))).result
            = crewRun (s.crewPoint behind block hiring) block (n + shift) (.panicked message) :=
          congrArg (crewRun (s.crewPoint behind block hiring) block (n + shift)) hpanic
        rw [hcrew, crewRun_panicked] at hu
        obtain ⟨y, hy⟩ := hu.ended _ (List.mem_singleton_self _)
        cases hy

/-- The lane of an execution that has asked for an abort before it, and dispatched nothing of it yet. -/
def undispatched? (t : Run) : Option Nat :=
  match t.leader with
  | .ready (.dispatch s [] _) => some s.index
  | _ => none

theorem undispatched?_eq_some_iff {lane : Nat} : undispatched? t = some lane ↔
    ∃ s waiting, t.leader = .ready (.dispatch s [] waiting) ∧ s.index = lane := by
  constructor
  · unfold undispatched?
    split
    · rename_i s waiting hl
      exact fun h => ⟨s, waiting, hl, Option.some.inj h⟩
    · exact fun h => by cases h
  · rintro ⟨s, waiting, hl, rfl⟩
    unfold undispatched?
    rw [hl]

/-- Where the first one is about to dispatch a lane, the second one is, too. -/
theorem Twin.undispatched {lane : Nat} (h : Twin plan behind aborted lag t₁ t₂)
    (hw : undispatched? t₁ = some lane) : undispatched? t₂ = some lane := by
  rw [undispatched?_eq_some_iff] at hw ⊢
  obtain ⟨s, waiting, hl, rfl⟩ := hw
  cases h with
  | same => exact ⟨s.regroup behind, waiting, by simp only [Team.carry, hl]; rfl, rfl⟩
  | due => cases hl
  | @alone s' block n shift st hiring hs hp => cases st <;> cases hl

/-- Where the second one is about to dispatch a lane, the first one is, too, unless the second one
lags. -/
theorem Twin.undispatched_of_second {lane : Nat} (h : Twin plan behind aborted 0 t₁ t₂)
    (hw : undispatched? t₂ = some lane) : undispatched? t₁ = some lane := by
  rw [undispatched?_eq_some_iff] at hw ⊢
  obtain ⟨s, waiting, hl, rfl⟩ := hw
  generalize hlag : 0 = lag at h
  cases h with
  | same =>
    cases hl₁ : t₁.leader with
    | ready point =>
      simp only [Team.carry, hl₁, Strand.into] at hl
      cases point with
      | dispatch s' sent waiting' =>
        cases hl
        exact ⟨s', waiting, rfl, rfl⟩
      | _ => cases hl
    | _ => simp only [Team.carry, hl₁, Strand.into, Strand.ofNext] at hl; cases hl
  | due => cases hlag
  | @alone s' block n shift st hiring hs hp =>
    rw [crewRun_leader] at hl
    cases hiring <;> cases hl

/-- Twins do not mind an abort, unless the second one is about to dispatch the lane in which the plans
differ. -/
theorem Twin.abort (h : Twin plan behind aborted lag t₁ t₂)
    (hn : lag ≠ 0 → undispatched? t₂ ≠ some (plan.lanes.length - (behind + 1))) :
    Twin plan behind true lag t₁ t₂ := by
  cases h with
  | same shift ho hu => exact .same shift ho hu
  | due n shift hs hi ha => exact absurd (congrArg some hi) (hn (by decide))
  | alone n shift hiring hs hp => exact .alone n shift hiring hs hp

/-- The twins end with the same. -/
theorem Twin.done_iff {result : Result} (h : Twin plan behind aborted lag t₁ t₂) :
    t₁.leader = .done result ↔ t₂.leader = .done result := by
  cases h with
  | same =>
    constructor
    · intro hl
      simp only [Team.carry, hl, Strand.into, Strand.ofNext]
    · intro hl
      cases hl₁ : t₁.leader with
      | done b =>
        simp only [Team.carry, hl₁, Strand.into, Strand.ofNext] at hl
        exact hl
      | _ => simp only [Team.carry, hl₁, Strand.into] at hl; cases hl
  | due => exact ⟨fun hl => (by cases hl), fun hl => (by cases hl)⟩
  | @alone s block n shift st hiring hs hp =>
    refine ⟨fun hl => ?_, fun hl => ?_⟩
    · cases st <;> cases hl
    · rw [crewRun_leader] at hl
      cases hl

end Execution

end SandboxPool
