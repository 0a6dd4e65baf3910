import SandboxPool.Proofs.Execution.Lanes
import SandboxPool.Proofs.Machine.Course

/-!
# The strides of an execution

`Execution.Stride` lists all that can happen to an execution, with one rule for each way on, and says
of each of them what becomes of the execution, which events it publishes and what it asks of the
outside. So whatever is to be known of executions is proved rule by rule.

* `Execution.stride_of_turn`: every turn of an execution is one of these.
* `Machine.Reaches.along`: what an execution has at its start, and every stride keeps, it has
  wherever the machine gets.
* `History.told` has the events that an execution itself has published.
-/

namespace SandboxPool

namespace Execution

theorem check_of_toBool {plan : Plan} {config : Config} (h : (check plan config).toBool = true) :
    check plan config = .ok () := by
  cases hc : check plan config with
  | error e =>
    rw [hc] at h
    cases h
  | ok u => rfl

/-- The failures among results. -/
def failures (ran : List BlockResult) : List BlockResult := ran.filter fun r => !r.success

/-- More results are collected. -/
def Progress.collect (s : Progress) (ran : List BlockResult) : Progress :=
  { s with results := s.results ++ ran }

/-- The next lane has been run to its end, with these results. -/
def Progress.pass (s : Progress) (ran : List BlockResult) : Progress :=
  { s with
    results := s.results ++ ran, rest := s.rest.drop 1, index := s.index + 1,
    completed := s.completed + 1 }

/-- What the end of a lane publishes of its failures. -/
def Progress.errors (s : Progress) (ran : List BlockResult) : List Effect :=
  (failures ran).map (errorEvent s.index)

/-- What the end of a lane publishes of its results. -/
def Progress.tally (s : Progress) (ran : List BlockResult) : List Effect :=
  [.emit (.laneCompleted s.index (ran.length - (failures ran).length) (failures ran).length)]

/-- All that can happen to an execution. -/
inductive Stride (config : Config) (plan : Plan) (c : Context) (p : Pool) (t : Run) :
    (place : Nat) → Option Signal → Scope Run → Prop where
  | refuse {e : PoolError} (hl : t.leader = .ready .begin) (hc : check plan p.config = .error e) :
      Stride config plan c p t 0 none ⟨p, [], { t with leader := .done (.error e) }⟩
  | begin (hl : t.leader = .ready .begin) (hc : check plan p.config = .ok ()) :
      Stride config plan c p t 0 none ⟨p.draw.2,
        [.emit (.executionStarted p.draw.1 plan.lanes.length)],
        { t with leader := .ready (.lane ⟨p.draw.1, plan.failureMode, plan.lanes, 0, [], 0⟩) }⟩
  | complete {s : Progress} (hl : t.leader = .ready (.lane s)) (hr : s.rest = []) :
      Stride config plan c p t 0 none ⟨p, [], { t with leader := .ready (.finish s .completed) }⟩
  | stop {s : Progress} {first : Lane} {rest : List Lane} (hl : t.leader = .ready (.lane s))
      (hr : s.rest = first :: rest) (ha : c.aborted = true) :
      Stride config plan c p t 0 none ⟨p, [], { t with leader := .ready (.abort s s.index) }⟩
  | block {s : Progress} {id : String} {rest : List Lane} (hl : t.leader = .ready (.lane s))
      (hr : s.rest = .block id :: rest) (ha : c.aborted = false) :
      Stride config plan c p t 0 none ⟨p, [.emit (.laneStarted s.index [id] false none)],
        { t with leader := .ready (.solo s id .begin) }⟩
  | group {s : Progress} {g : ParallelGroup} {rest : List Lane} (hl : t.leader = .ready (.lane s))
      (hr : s.rest = .group g :: rest) (ha : c.aborted = false) :
      Stride config plan c p t 0 none ⟨p, [.emit (.laneStarted s.index g.blocks true g.merge)],
        { t with leader := .ready (.dispatch s [] g.blocks) }⟩
  | solo {s : Progress} {block : String} {b : BlockRun.Point} {out : Bool} {sig : Option Signal}
      {s₀ : Scope (Option (Next BlockRun.Point BlockResult))}
      (hl : t.leader = .standing (.solo s block b) out)
      (h : (BlockRun.demand config block b).Turn c p out sig s₀) :
      Stride config plan c p t 0 sig (s₀.map fun next => { t with
        leader := .land (.solo s block b)
          (next.map (.into (.solo s block) fun r => .goto (.settle s [r] false))) })
  | hired {s : Progress} {sent : List String} (hl : t.leader = .ready (.dispatch s sent [])) :
      Stride config plan c p t 0 none ⟨p, [], { t with leader := .ready (.gather s sent false) }⟩
  | interrupt {s : Progress} {sent rest : List String} {block : String}
      (hl : t.leader = .ready (.dispatch s sent (block :: rest))) (ha : c.aborted = true) :
      Stride config plan c p t 0 none ⟨p, [], { t with leader := .ready (.gather s sent true) }⟩
  | hire {s : Progress} {sent rest : List String} {block : String}
      (hl : t.leader = .ready (.dispatch s sent (block :: rest))) (ha : c.aborted = false) :
      Stride config plan c p t 0 none ⟨p, [], { t with
        leader := .ready (.dispatch s (sent ++ [block]) rest)
        active := t.active ++ Team.enrol t.hired [(block, .run block .begin)]
        hired := t.hired + 1 }⟩
  | gather {s : Progress} {sent : List String} {interrupted : Bool}
      (hl : t.leader = .ready (.gather s sent interrupted)) (hnone : t.active = []) :
      Stride config plan c p t 0 none ⟨p, [], { t with
        leader := .ready (.settle s (settleAccounts c.leeway.lost sent t.ended) interrupted)
        ended := [] }⟩
  | broken {s : Progress} {ran : List BlockResult} (hl : t.leader = .ready (.settle s ran true)) :
      Stride config plan c p t 0 none ⟨p, s.errors ran,
        { t with leader := .ready (.abort (s.collect ran) s.index) }⟩
  | overruled {s : Progress} {ran : List BlockResult} (hl : t.leader = .ready (.settle s ran false))
      (ha : c.aborted = true) :
      Stride config plan c p t 0 none ⟨p, s.errors ran ++ s.tally ran,
        { t with leader := .ready (.abort (s.pass ran) (s.index + 1)) }⟩
  | halt {s : Progress} {ran : List BlockResult} {r : BlockResult} {rest : List BlockResult}
      (hl : t.leader = .ready (.settle s ran false)) (ha : c.aborted = false)
      (hm : s.mode = .strict) (hf : failures ran = r :: rest) :
      Stride config plan c p t 0 none ⟨p, s.errors ran ++ s.tally ran,
        { t with leader := .ready (.finish (s.pass ran) (.halted s.index r.block)) }⟩
  | pass {s : Progress} {ran : List BlockResult} (hl : t.leader = .ready (.settle s ran false))
      (ha : c.aborted = false) (hf : s.mode = .strict → failures ran = []) :
      Stride config plan c p t 0 none ⟨p, s.errors ran ++ s.tally ran,
        { t with leader := .ready (.lane (s.pass ran)) }⟩
  | abort {s : Progress} {index : Nat} (hl : t.leader = .ready (.abort s index)) :
      Stride config plan c p t 0 none ⟨p, [.emit (.aborted index s.results.length)],
        { t with leader := .ready (.teardown s index) }⟩
  | spare {s : Progress} {index : Nat} (hl : t.leader = .ready (.teardown s index))
      (hn : p.liveRecords = []) :
      Stride config plan c p t 0 none ⟨p, [],
        { t with leader := .ready (.finish s (.aborted index)) }⟩
  | collect {s : Progress} {index : Nat} (hl : t.leader = .ready (.teardown s index))
      (hn : p.liveRecords ≠ []) :
      Stride config plan c p t 0 none ⟨p, [], { t with
        leader := .ready (.cleared s index)
        active := t.active ++
          Team.enrol t.hired (p.liveRecords.map fun r => (r.id, .terminate r.id .claim))
        hired := t.hired + p.liveRecords.length }⟩
  | cleared {s : Progress} {index : Nat} (hl : t.leader = .ready (.cleared s index))
      (hnone : t.active = []) :
      Stride config plan c p t 0 none ⟨p, [],
        { t with leader := .ready (.finish s (.aborted index)), ended := [] }⟩
  | finish {s : Progress} {status : Status} (hl : t.leader = .ready (.finish s status)) :
      Stride config plan c p t 0 none
        ⟨p, [.emit (.executionCompleted s.id status s.results.length)],
          { t with leader := .done (.ok (report s status)) }⟩
  | member {n : Nat} {m : Member String Duty Yield} {sig : Option Signal}
      {sc : Scope (Strand Duty Yield)} (hm : t.member? n = some m)
      (h : m.strand.Turn (member config) c p sig sc) :
      Stride config plan c p t (n + 1) sig (sc.map (t.update m))

variable {config : Config} {plan : Plan} {c : Context} {p : Pool} {t : Run} {place : Nat}
  {sig : Option Signal} {s : Scope Run}

/-- The end of a lane is one of its strides. -/
theorem stride_settle {progress : Progress} {ran : List BlockResult} {interrupted : Bool}
    (hl : t.leader = .ready (.settle progress ran interrupted)) :
    Stride config plan c p t 0 none
      ((settle progress ran interrupted c p).map fun next => { t with leader := .ofNext next }) := by
  cases interrupted with
  | true => exact .broken hl
  | false =>
    cases ha : c.aborted with
    | true =>
      have heq : settle progress ran false c p = ⟨p, progress.errors ran ++ progress.tally ran,
          .goto (.abort (progress.pass ran) (progress.index + 1))⟩ := by
        simp only [settle, ha, if_true]
        rfl
      rw [heq]
      exact .overruled hl ha
    | false =>
      have hgoes : ∀ next : Next Point Result,
          (settle progress ran false c p).result = next →
          settle progress ran false c p
            = ⟨p, progress.errors ran ++ progress.tally ran, next⟩ := by
        rintro next rfl
        simp only [settle, ha, Bool.false_eq_true, if_false]
        split <;> rfl
      obtain ⟨id, mode, lanes, index, results, completed⟩ := progress
      cases mode with
      | lenient =>
        rw [hgoes (.goto (.lane (Progress.pass ⟨id, .lenient, lanes, index, results, completed⟩
          ran))) (by simp only [settle, ha, Bool.false_eq_true, if_false]; rfl)]
        exact .pass hl ha fun hs => by cases hs
      | strict =>
        cases hf : failures ran with
        | nil =>
          have hnone : ran.filter (fun r => !r.success) = [] := hf
          rw [hgoes (.goto (.lane (Progress.pass ⟨id, .strict, lanes, index, results, completed⟩
            ran))) (by simp only [settle, ha, hnone, Bool.false_eq_true, if_false]; rfl)]
          exact .pass hl ha fun _ => hf
        | cons r rest =>
          have hsome : ran.filter (fun r => !r.success) = r :: rest := hf
          rw [hgoes (.goto (.finish (Progress.pass ⟨id, .strict, lanes, index, results,
            completed⟩ ran) (.halted index r.block)))
            (by simp only [settle, ha, hsome, Bool.false_eq_true, if_false]; rfl)]
          exact .halt hl ha rfl hf

/-- **Every turn of an execution is one of its strides.** -/
theorem stride_of_turn (ht : t.Turn (conduct config plan) c p place sig s) :
    Stride config plan c p t place sig s := by
  cases ht with
  | @demand point d out sig s hl hd ht =>
    cases point with
    | begin =>
      cases hd
      obtain ⟨rfl, rfl, rfl⟩ := Demand.turn_scope ht
      cases hc : check plan p.config with
      | error e =>
        have heq : begin plan p = ⟨p, [], .done (.error e)⟩ := by
          unfold begin
          rw [hc]
        rw [heq]
        exact .refuse hl hc
      | ok u =>
        have heq : begin plan p = ⟨p.draw.2,
            [.emit (.executionStarted p.draw.1 plan.lanes.length)],
            .goto (.lane ⟨p.draw.1, plan.failureMode, plan.lanes, 0, [], 0⟩)⟩ := by
          unfold begin
          rw [hc]
        rw [heq]
        exact .begin hl hc
    | lane progress =>
      cases hd
      obtain ⟨rfl, rfl, rfl⟩ := Demand.turn_scope ht
      cases hr : progress.rest with
      | nil =>
        simp only [lane, hr]
        exact .complete hl hr
      | cons first rest =>
        cases ha : c.aborted with
        | true =>
          simp only [lane, hr, ha, if_true]
          exact .stop hl hr ha
        | false =>
          cases first with
          | block id =>
            simp only [lane, hr, ha, Bool.false_eq_true, if_false]
            exact .block hl hr ha
          | group g =>
            simp only [lane, hr, ha, Bool.false_eq_true, if_false]
            exact .group hl hr ha
    | solo progress block b =>
      cases hd
      obtain ⟨s₀, h₀, rfl⟩ := Demand.turn_map ht
      exact .solo hl h₀
    | settle progress ran interrupted =>
      cases hd
      obtain ⟨rfl, rfl, rfl⟩ := Demand.turn_scope ht
      exact stride_settle hl
    | abort progress index =>
      cases hd
      obtain ⟨rfl, rfl, rfl⟩ := Demand.turn_scope ht
      exact .abort hl
    | finish progress status =>
      cases hd
      obtain ⟨rfl, rfl, rfl⟩ := Demand.turn_scope ht
      exact .finish hl
    | _ => cases hd
  | @hire point body hl hd =>
    cases point with
    | dispatch progress sent waiting =>
      cases hd
      cases waiting with
      | nil =>
        simp only [dispatch, Scope.map, Team.enrol, List.append_nil]
        exact .hired hl
      | cons block rest =>
        cases ha : c.aborted with
        | true =>
          simp only [dispatch, ha, if_true, Scope.map, Team.enrol, List.append_nil]
          exact .interrupt hl ha
        | false =>
          simp only [dispatch, ha, Bool.false_eq_true, if_false]
          exact .hire hl ha
    | teardown progress index =>
      cases hd
      cases hn : p.liveRecords with
      | nil =>
        simp only [teardown, hn, Scope.map, Team.enrol, List.append_nil]
        exact .spare hl hn
      | cons first rest =>
        have hstride : Stride config plan c p t 0 none _ := .collect hl (by rw [hn]; simp)
        rw [hn] at hstride
        simpa only [teardown, hn, Scope.map, List.length_map, Strand.ofNext] using hstride
    | _ => cases hd
  | @join point next hl hd hnone =>
    cases point with
    | gather progress sent interrupted =>
      cases hd
      exact .gather hl hnone
    | cleared progress index =>
      cases hd
      exact .cleared hl hnone
    | _ => cases hd
  | member hm ht => exact .member hm ht

end Execution

/-! ## Executions in a run -/

/-- The events of a scope that are not about a sandbox. -/
def Scope.told {β : Type} (s : Scope β) : List Event := s.events.filter fun e => !e.ofSandbox

@[simp] theorem Scope.told_nil {β : Type} (p : Pool) (b : β) : (Scope.mk p [] b).told = [] := rfl

theorem Scope.told_map {β γ : Type} (s : Scope β) (f : β → γ) : (s.map f).told = s.told := rfl

/-- Where all events are about sandboxes none is told. -/
theorem Scope.told_eq_nil {β : Type} {s : Scope β} (h : ∀ e ∈ s.events, e.ofSandbox = true) :
    s.told = [] := by
  refine List.filter_eq_nil_iff.2 fun e he => ?_
  simp [h e he]

/-- The events that an operation has published and that are not about a sandbox. -/
def History.told (h : History) (n : Nat) : List Event :=
  h.deeds (fun m move _ => (((m.next move).elim [] (·.2)).filterMap (·.event?)).filter
    fun e => !e.ofSandbox) n

namespace Machine

variable {m₀ m m' : Machine} {h : History} {move : Move} {n place : Nat} {plan : Plan}
  {t : Execution.Run} {sig : Option Signal} {s : Scope Execution.Run}

/-- A move is a stride of an execution. -/
structure Strode (m : Machine) (n : Nat) (plan : Plan) (t : Execution.Run) (move : Move)
    (m' : Machine) (place : Nat) (sig : Option Signal) (s : Scope Execution.Run) : Prop where
  here : m.activity? n = some (.execute plan t)
  there : m'.activity? n = some (.execute plan s.result)
  mover : m.mover move = (n, place)
  talk : m.talk? move = sig
  next : ∃ notes, m.next move = some (m', notes) ∧ notes.filterMap (·.event?) = s.events
  pool : m'.pool = s.pool
  ordered : t.Ordered
  stride : Execution.Stride m.pool.config plan m.context m.pool t place sig s

theorem told_stay (hm : (m.mover move).1 ≠ n) : (h ++ [(m, move)]).told n = h.told n :=
  History.deeds_stay hm

/-- A stride adds what it tells. -/
theorem Strode.told (hs : m.Strode n plan t move m' place sig s) :
    (h ++ [(m, move)]).told n = h.told n ++ s.told := by
  obtain ⟨notes, hn, hnotes⟩ := hs.next
  unfold History.told
  rw [History.deeds_turn (congrArg Prod.fst hs.mover) hs.here, hn]
  simp only [Option.elim_some, hnotes]
  rfl

/-- **What every stride keeps is true of an execution in a whole run**, as long as the moves of others
keep it, too: of one that is under way at the start of the run, and of one that is ordered in it. -/
theorem Reaches.along {I : History → Machine → Execution.Run → Prop} (ho : m₀.Ordered)
    (hr : m₀.Reaches h m) (hbase : ∀ t, m₀.activity? n = some (.execute plan t) → I [] m₀ t)
    (horder : ∀ {h m m' move notes}, m₀.Reaches h m → m.next move = some (m', notes) →
      n = m.started → I (h ++ [(m, move)]) m' Execution.start)
    (hother : ∀ {h m m' move notes t}, m₀.Reaches h m → m.next move = some (m', notes) →
      (m.mover move).1 ≠ n → m.activity? n = some (.execute plan t) → I h m t →
      I (h ++ [(m, move)]) m' t)
    (hstride : ∀ {h m m' move t place sig s}, m₀.Reaches h m →
      m.Strode n plan t move m' place sig s → I h m t → I (h ++ [(m, move)]) m' s.result)
    (ha : m.activity? n = some (.execute plan t)) : I h m t := by
  induction hr generalizing t with
  | start => exact hbase t ha
  | @next h m m' move notes hr hn ih =>
    have hom := hr.ordered ho
    generalize hb : Activity.execute plan t = b at ha
    cases next_course hom hn ha with
    | stay ha₀ hm =>
      subst hb
      exact hother hr hn hm ha₀ (ih ha₀)
    | order o he =>
      cases o with
      | execute plan' =>
        simp only [Activity.ofOrder, Activity.execute.injEq] at hb
        obtain ⟨rfl, rfl⟩ := hb
        exact horder hr hn he
      | _ => cases hb
    | fire => cases hb
    | @turn place a₀ sig s ha₀ hk ht hp hnotes htalk =>
      cases ht with
      | @execute plan' t₀ sig s ht =>
        simp only [Scope.map, Activity.execute.injEq] at hb
        obtain ⟨rfl, rfl⟩ := hb
        exact hstride hr ⟨ha₀, ha, hk, htalk, ⟨notes, hn, hnotes⟩, hp,
          hom.members _ (activity?_mem ha₀), Execution.stride_of_turn ht⟩ (ih ha₀)
      | _ => cases hb

/-- An execution that has begun has a plan that fits the pool, also if members break off. -/
theorem Withstands.checked {pool : Pool} {now : Instant} (hr : (ofPool pool now).Withstands h m)
    (ha : m.activity? n = some (.execute plan t)) {point : Execution.Point}
    (hp : t.leader.point? = some point) (hb : point ≠ .begin) :
    Execution.check plan pool.config = .ok () := by
  have hall : ∀ point, t.leader.point? = some point → point ≠ .begin →
      Execution.check plan pool.config = .ok () := by
    refine hr.executions (I := fun t => ∀ point, t.leader.point? = some point → point ≠ .begin →
      Execution.check plan pool.config = .ok ()) ?_ ?_ ?_ ha
    · intro point hp hb
      cases hp
      exact absurd rfl hb
    · intro c p t place sig s hconfig ho ih ht
      have hready : ∀ {point : Execution.Point}, t.leader = .ready point → point ≠ .begin →
          Execution.check plan pool.config = .ok () := by
        intro point hl hb
        exact ih point (by rw [hl]; rfl) hb
      intro point hp hb
      cases Execution.stride_of_turn ht with
      | refuse hl hc => cases hp
      | begin hl hc => exact hconfig ▸ hc
      | solo hl => exact ih _ (by rw [hl, Strand.point?_standing]) (by simp)
      | member hm ht =>
        rw [Scope.map, Team.update_leader] at hp
        exact ih point hp hb
      | _ => exact hready ‹t.leader = .ready _› (by simp)
    · intro t k x message ho hx ih point hp
      rw [Team.update_leader] at hp
      exact ih point hp
  exact hall point hp hb

/-- What is known of an execution by its history alone. -/
theorem Reaches.executions {I : History → Execution.Run → Prop} (ho : m₀.Ordered)
    (hr : m₀.Reaches h m) (hbase : ∀ t, m₀.activity? n = some (.execute plan t) → I [] t)
    (horder : ∀ {h m move}, m₀.Reaches h m → n = m.started → I (h ++ [(m, move)]) Execution.start)
    (hstay : ∀ {h m move t}, (m.mover move).1 ≠ n → I h t → I (h ++ [(m, move)]) t)
    (hstride : ∀ {h m m' move t place sig s}, m₀.Reaches h m →
      m.Strode n plan t move m' place sig s → I h t → I (h ++ [(m, move)]) s.result)
    (ha : m.activity? n = some (.execute plan t)) : I h t :=
  hr.along (I := fun h _ t => I h t) ho hbase (fun hr _ he => horder hr he)
    (fun _ _ hm _ => hstay hm) hstride ha

end Machine

end SandboxPool
