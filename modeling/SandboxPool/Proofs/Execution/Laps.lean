import SandboxPool.Proofs.Execution.Strides
import SandboxPool.Proofs.ReportAccounts

/-!
# What an execution tells of its lanes

An execution makes a `Tour` of its plan: lanes that it has run to their end, each with its results, and
perhaps one more that was interrupted. At each of its points the tour says what the execution has
collected, what it has published and which status is left to it (`Execution.Point.Told`), and every
stride keeps this (`Execution.Told.stride`).
-/

namespace SandboxPool

/-- A lane that an execution has run, with its results in their order. -/
structure Lap where
  lane : Lane
  results : List BlockResult

namespace Lap

/-- The failures of a lane. -/
def failures (l : Lap) : List BlockResult := l.results.filter fun r => !r.success

/-- What is published of the failures of a lane. -/
def errors (index : Nat) (l : Lap) : List Event :=
  l.failures.map fun r => .blockError index r.block (r.error.getD "")

/-- What is published of a lane before it counts as completed. -/
def opening (index : Nat) (l : Lap) : List Event :=
  .laneStarted index l.lane.blocks l.lane.isGroup l.lane.merge :: l.errors index

/-- How many results of a lane are successes. -/
def succeeded (l : Lap) : Nat := l.results.countP (·.success)

/-- How many results of a lane are failures. -/
def failed (l : Lap) : Nat := l.results.countP fun r => !r.success

/-- What is published of the end of a lane. -/
def closing (index : Nat) (l : Lap) : Event := .laneCompleted index l.succeeded l.failed

/-- What is published of a lane that ran to its end. -/
def story (index : Nat) (l : Lap) : List Event := l.opening index ++ [l.closing index]

theorem succeeded_add_failed (l : Lap) : l.succeeded + l.failed = l.results.length := by
  have hsame : l.results.countP (fun r => decide ¬ r.success = true) = l.failed := by
    refine List.countP_congr fun r _ => ?_
    simp
  have htotal := List.length_eq_countP_add_countP (·.success) (l := l.results)
  rw [hsame] at htotal
  exact htotal.symm

theorem failed_eq (l : Lap) : l.failed = l.failures.length := List.countP_eq_length_filter

end Lap

/-- The lanes that an execution has run to their end, and the one that was interrupted. -/
structure Tour where
  laps : List Lap
  part : Option Lap

namespace Tour

/-- The results of a tour. -/
def results (t : Tour) : List BlockResult :=
  t.laps.flatMap (·.results) ++ t.part.elim [] (·.results)

/-- What is published of a tour before its end: its start, and what there is to say of each of its
lanes. -/
def events (plan : Plan) (id : Uuid) (t : Tour) : List Event :=
  .executionStarted id plan.lanes.length :: (t.laps.zipIdx.flatMap fun (l, i) => l.story i)
    ++ t.part.elim [] (·.opening t.laps.length)

/-- The tour is one of the plan. The lanes that were run to their end are its first ones, and each of
their blocks has a result. Of the lane that was interrupted, which is the one behind them, only some of
the first blocks have one. -/
structure Of (plan : Plan) (t : Tour) : Prop where
  lanes : t.laps.map (·.lane) = plan.lanes.take t.laps.length
  whole : ∀ l ∈ t.laps, Settles l.lane.blocks l.results
  part : ∀ l ∈ t.part, plan.lanes[t.laps.length]? = some l.lane ∧
    ∃ sent, sent <+: l.lane.blocks ∧ sent.length < l.lane.blocks.length ∧ Settles sent l.results

variable {plan : Plan} {laps : List Lap} {lap : Lap} {id : Uuid}

theorem Of.length_le {t : Tour} (h : t.Of plan) : t.laps.length ≤ plan.lanes.length := by
  have hlength := congrArg List.length h.lanes
  rw [List.length_map, List.length_take] at hlength
  omega

/-- A lane is run to its end. -/
theorem Of.pass (h : (Tour.mk laps none).Of plan) (hl : plan.lanes[laps.length]? = some lap.lane)
    (hs : Settles lap.lane.blocks lap.results) : (Tour.mk (laps ++ [lap]) none).Of plan where
  lanes := by
    have hlanes := h.lanes
    simp only at hlanes
    simp only [List.map_append, List.map_cons, List.map_nil, List.length_append, List.length_cons,
      List.length_nil, Nat.zero_add, List.take_add_one, hl, Option.toList_some, hlanes]
  whole := by
    intro l hm
    rcases List.mem_append.1 hm with hm | hm
    · exact h.whole l hm
    · obtain rfl := List.mem_singleton.1 hm
      exact hs
  part := fun l hm => by cases hm

theorem results_pass (laps : List Lap) (lap : Lap) : (mk (laps ++ [lap]) none).results = (mk laps none).results ++ lap.results := by
  simp only [results, List.flatMap_append, List.flatMap_cons, List.flatMap_nil, List.append_nil,
    Option.elim_none]

/-- What is published at the end of a lane comes behind what was published before. -/
theorem events_pass (laps : List Lap) (lap : Lap) : (mk (laps ++ [lap]) none).events plan id
    = (mk laps (some ⟨lap.lane, []⟩)).events plan id
      ++ (lap.errors laps.length ++ [lap.closing laps.length]) := by
  simp only [events, List.zipIdx_append, List.flatMap_append, List.zipIdx_cons, List.zipIdx_nil,
    List.flatMap_cons, List.flatMap_nil, List.append_nil, Option.elim_none, Option.elim_some,
    Nat.zero_add, Lap.story, Lap.opening, Lap.errors, Lap.failures, List.filter_nil, List.map_nil,
    List.cons_append, List.append_assoc, List.nil_append]

/-- What is published when a lane is interrupted. -/
theorem events_cut (laps : List Lap) (lap : Lap) : (mk laps (some lap)).events plan id
    = (mk laps (some ⟨lap.lane, []⟩)).events plan id ++ lap.errors laps.length := by
  simp only [events, Option.elim_some, Lap.opening, Lap.errors, Lap.failures, List.filter_nil,
    List.map_nil, List.cons_append, List.append_assoc, List.nil_append]

end Tour

/-- What is published when an execution comes to a status with so many results. -/
def Status.notice (results : Nat) : Status → List Event
  | aborted lane => [.aborted lane results]
  | _ => []

/-- The status is the one that a tour leads to. -/
def Status.Ends (plan : Plan) (t : Tour) : Status → Prop
  | completed => t.part = none ∧ t.laps.length = plan.lanes.length ∧
    (plan.failureMode = .strict → ∀ l ∈ t.laps, l.failures = [])
  | halted lane block => t.part = none ∧ plan.failureMode = .strict ∧ ∃ laps last rest r,
    t.laps = laps ++ [last] ∧ lane = laps.length ∧ (∀ l ∈ laps, l.failures = []) ∧
      last.failures = r :: rest ∧ r.block = block
  | aborted lane => lane = t.laps.length

namespace Execution

variable {config : Config} {plan : Plan} {c : Context} {p : Pool} {t : Run} {place : Nat}
  {sig : Option Signal} {sc : Scope Run} {s : Progress} {es : List Event} {tour : Tour}
  {asked : List Bool} {laps : List Lap} {ran : List BlockResult}

/-- Whether an abort was wanted at the checks behind the lanes, as far as a point makes one. -/
def Point.checks (aborted : Bool) : Point → List Bool
  | .settle .. => [aborted]
  | _ => []

/-- Whether an abort was wanted at the check that a turn of a place of an execution makes. -/
def checks (aborted : Bool) (place : Nat) (t : Run) : List Bool :=
  match place, t.leader with
  | 0, .ready point => point.checks aborted
  | _, _ => []

/-- What an execution has collected and published is what the tour says. -/
structure Progress.Tells (plan : Plan) (es : List Event) (s : Progress) (tour : Tour) : Prop where
  mode : s.mode = plan.failureMode
  index : s.index = tour.laps.length
  completed : s.completed = tour.laps.length
  results : s.results = tour.results
  events : es = tour.events plan s.id

/-- An execution is in front of a lane or in it. Nothing has stopped it so far. -/
structure Progress.Goes (plan : Plan) (s : Progress) (laps : List Lap) (asked : List Bool) :
    Prop where
  of : (Tour.mk laps none).Of plan
  clean : plan.failureMode = .strict → ∀ l ∈ laps, l.failures = []
  calm : true ∉ asked

/-- What an execution has published when it is at a point, and the checks that it has made. -/
def Point.Told (plan : Plan) (es : List Event) (asked : List Bool) : Point → Prop
  | .begin => es = [] ∧ true ∉ asked
  | .lane s => ∃ laps, s.Goes plan laps asked ∧ s.Tells plan es ⟨laps, none⟩
  | .solo s _ _ | .dispatch s _ _ | .gather s _ _ | .settle s _ _ => ∃ laps lane,
    s.Goes plan laps asked ∧ plan.lanes[s.index]? = some lane ∧
      s.Tells plan es ⟨laps, some ⟨lane, []⟩⟩
  | .abort s index => ∃ tour, tour.Of plan ∧ index = tour.laps.length ∧ s.Tells plan es tour
  | .teardown s index | .cleared s index => ∃ tour es', tour.Of plan ∧ index = tour.laps.length ∧
    s.Tells plan es' tour ∧ es = es' ++ [.aborted index s.results.length]
  | .finish s status => ∃ tour es', tour.Of plan ∧ status.Ends plan tour ∧ s.Tells plan es' tour ∧
    es = es' ++ status.notice s.results.length ∧ (true ∈ asked → ∃ lane, status = .aborted lane)

/-- What an execution has published when it has ended. -/
def Result.Told (plan : Plan) (es : List Event) (asked : List Bool) : Result → Prop
  | .ok f => ∃ tour, tour.Of plan ∧ f.status.Ends plan tour ∧
    f.results = tour.results ∧ f.lanesCompleted = tour.laps.length ∧
    es = tour.events plan f.executionId ++ f.status.notice f.results.length
      ++ [.executionCompleted f.executionId f.status f.results.length] ∧
    (true ∈ asked → ∃ lane, f.status = .aborted lane)
  | .error _ => False

/-- What an execution has published, and the checks that it has made. -/
def Told (plan : Plan) (es : List Event) (asked : List Bool) (t : Run) : Prop :=
  t.leader.Keeps (Point.Told plan es asked) (Result.Told plan es asked)

theorem Told.at_point {point : Point} {out : Bool} (h : Told plan es asked t)
    (hl : t.leader = .standing point out) : point.Told plan es asked := by
  unfold Told at h
  rw [hl] at h
  cases out <;> exact h

theorem Told.at_ready {point : Point} (h : Told plan es asked t) (hl : t.leader = .ready point) :
    point.Told plan es asked := by
  unfold Told at h
  rw [hl] at h
  exact h

theorem Accounts.at_ready {l : Log} {point : Point} (h : Accounts plan l t)
    (hl : t.leader = .ready point) : point.Accounts plan l t := by
  unfold Accounts at h
  rw [hl] at h
  exact h

/-! ## The end of a lane -/

theorem event?_errors (s : Progress) (ran : List BlockResult) (lane : Lane) :
    (s.errors ran).filterMap (·.event?) = (Lap.mk lane ran).errors s.index := by
  unfold Progress.errors
  rw [List.filterMap_map]
  exact congrFun List.filterMap_eq_map' _

theorem told_errors (s : Progress) (ran : List BlockResult) (lane : Lane) {β : Type} (b : β) :
    (Scope.mk p (s.errors ran) b).told = (Lap.mk lane ran).errors s.index := by
  have hevents := event?_errors s ran lane
  unfold Scope.told Scope.events
  rw [hevents]
  refine List.filter_eq_self.2 fun e he => ?_
  obtain ⟨r, -, rfl⟩ := List.mem_map.1 he
  rfl

theorem told_tally (s : Progress) (ran : List BlockResult) (lane : Lane) {β : Type} (b : β) :
    (Scope.mk p (s.errors ran ++ s.tally ran) b).told
      = (Lap.mk lane ran).errors s.index ++ [(Lap.mk lane ran).closing s.index] := by
  have herrors := told_errors (p := p) s ran lane b
  have htotal : (Lap.mk lane ran).succeeded + (Lap.mk lane ran).failed = ran.length :=
    (Lap.mk lane ran).succeeded_add_failed
  have hfailed : (Lap.mk lane ran).failed = (failures ran).length := (Lap.mk lane ran).failed_eq
  have hgood : (Lap.mk lane ran).succeeded = ran.length - (failures ran).length := by omega
  unfold Scope.told Scope.events at herrors ⊢
  rw [List.filterMap_append, List.filter_append, herrors, Lap.closing, hgood, hfailed]
  rfl

/-- An interrupted lane gets its results. -/
theorem Progress.Tells.collect {lane : Lane} (h : s.Tells plan es ⟨laps, some ⟨lane, []⟩⟩) :
    (s.collect ran).Tells plan (es ++ (Lap.mk lane ran).errors s.index)
      ⟨laps, some ⟨lane, ran⟩⟩ where
  mode := h.mode
  index := h.index
  completed := h.completed
  results := by
    have hresults := h.results
    simp only [Tour.results, Option.elim_some, List.append_nil] at hresults
    simp only [Progress.collect, hresults, Tour.results, Option.elim_some]
  events := by
    rw [h.events, h.index]
    exact (Tour.events_cut laps ⟨lane, ran⟩).symm

/-- A lane gets its results and counts as completed. -/
theorem Progress.Tells.pass {lane : Lane} (h : s.Tells plan es ⟨laps, some ⟨lane, []⟩⟩)
    (ran : List BlockResult) :
    (s.pass ran).Tells plan
      (es ++ ((Lap.mk lane ran).errors s.index ++ [(Lap.mk lane ran).closing s.index]))
      ⟨laps ++ [⟨lane, ran⟩], none⟩ where
  mode := h.mode
  index := by
    rw [List.length_append]
    exact congrArg (· + 1) h.index
  completed := by
    rw [List.length_append]
    exact congrArg (· + 1) h.completed
  results := by
    have hresults := h.results
    simp only [Tour.results, Option.elim_some, List.append_nil] at hresults
    rw [Tour.results_pass]
    simp only [Progress.pass, hresults, Tour.results, Option.elim_none, List.append_nil]
  events := by
    rw [h.events, h.index]
    exact (Tour.events_pass laps ⟨lane, ran⟩).symm

/-! ## Strides -/

theorem checks_standing {point : Point} {out : Bool} (hl : t.leader = .standing point out)
    (aborted : Bool) : checks aborted 0 t = if out then [] else point.checks aborted := by
  unfold checks
  rw [hl]
  cases out <;> rfl

theorem checks_ready {point : Point} (hl : t.leader = .ready point) (aborted : Bool) :
    checks aborted 0 t = point.checks aborted := by
  unfold checks
  rw [hl]
  rfl

theorem of_mem_checks {aborted b : Bool} (hb : b ∈ checks aborted place t) : b = aborted := by
  cases place with
  | succ k => cases hb
  | zero =>
    unfold checks at hb
    cases hl : t.leader with
    | ready point =>
      rw [hl] at hb
      cases point with
      | settle s ran interrupted => exact List.mem_singleton.1 hb
      | _ => cases hb
    | _ =>
      rw [hl] at hb
      cases hb

theorem Told.of_ready {point : Point} (hl : t.leader = .ready point)
    (h : point.Told plan es asked) : Told plan es asked t := by
  unfold Told
  rw [hl]
  exact h

/-- The next lane is started. -/
theorem Progress.Tells.lane (h : s.Tells plan es ⟨laps, none⟩) (first : Lane) :
    s.Tells plan (es ++ [.laneStarted s.index first.blocks first.isGroup first.merge])
      ⟨laps, some ⟨first, []⟩⟩ where
  mode := h.mode
  index := h.index
  completed := h.completed
  results := h.results
  events := by
    rw [h.events, h.index]
    simp only [Tour.events, Option.elim_none, Option.elim_some, List.append_nil, Lap.opening,
      Lap.errors, Lap.failures, List.filter_nil, List.map_nil, List.cons_append]

/-- What is known at the end of a lane: the lanes behind it, and its own results. -/
theorem Told.at_settle {l : Log} {interrupted : Bool} (h : Told plan es asked t)
    (hacc : Accounts plan l t) (hl : t.leader = .ready (.settle s ran interrupted)) :
    ∃ laps lane sent, s.Goes plan laps asked ∧ plan.lanes[laps.length]? = some lane ∧
      Part lane sent interrupted ∧ Settles sent ran ∧
        s.Tells plan es ⟨laps, some ⟨lane, []⟩⟩ := by
  obtain ⟨laps, lane, hgoes, hlane, htells⟩ := h.at_ready hl
  obtain ⟨sent, -, -, -, ⟨lane', hlane', hpart⟩, hsettles⟩ := hacc.at_ready hl
  obtain rfl := Option.some.inj (hlane.symm.trans hlane')
  exact ⟨laps, lane, sent, hgoes, htells.index ▸ hlane, hpart, hsettles, htells⟩

/-- **Every stride keeps what is told of an execution.** -/
theorem Told.stride {l : Log} (hc : check plan p.config = .ok ()) (hacc : Accounts plan l t)
    (h : Told plan es asked t) (hs : Stride config plan c p t place sig sc) :
    Told plan (es ++ sc.told) (asked ++ checks c.aborted place t) sc.result := by
  have hsilent : ∀ {point : Point}, t.leader = .ready point → point.checks c.aborted = [] →
      asked ++ checks c.aborted 0 t = asked := by
    intro point hl hnone
    rw [checks_ready hl, hnone, List.append_nil]
  cases hs with
  | refuse hl hrefused =>
    rw [hc] at hrefused
    cases hrefused
  | begin hl hc =>
    obtain ⟨rfl, hcalm⟩ := h.at_ready hl
    rw [hsilent hl rfl]
    have hof : (Tour.mk [] none).Of plan := ⟨rfl, by simp, by simp⟩
    exact .of_ready rfl ⟨[], ⟨hof, by simp, hcalm⟩, rfl, rfl, rfl, rfl, rfl⟩
  | @complete s hl hr =>
    obtain ⟨laps, hgoes, htells⟩ := h.at_ready hl
    have hat := (hacc.at_ready hl).1
    have hlength : laps.length = plan.lanes.length := by
      have hdrop : plan.lanes.drop s.index = [] := hat.rest.symm.trans hr
      have hle := List.drop_eq_nil_iff.1 hdrop
      have hindex := htells.index
      have hlt := hgoes.of.length_le
      simp only at hindex hlt
      omega
    rw [hsilent hl rfl]
    exact .of_ready rfl ⟨_, _, hgoes.of, ⟨rfl, hlength, hgoes.clean⟩, htells, rfl,
      fun hm => absurd hm hgoes.calm⟩
  | stop hl hr ha =>
    obtain ⟨laps, hgoes, htells⟩ := h.at_ready hl
    rw [hsilent hl rfl, Scope.told_nil, List.append_nil]
    exact .of_ready rfl ⟨_, hgoes.of, htells.index, htells⟩
  | @block s id rest hl hr ha =>
    obtain ⟨laps, hgoes, htells⟩ := h.at_ready hl
    have hlane := (hacc.at_ready hl).1.lane? hr
    rw [hsilent hl rfl]
    exact .of_ready rfl ⟨laps, _, hgoes, hlane, htells.lane (.block id)⟩
  | @group s g rest hl hr ha =>
    obtain ⟨laps, hgoes, htells⟩ := h.at_ready hl
    have hlane := (hacc.at_ready hl).1.lane? hr
    rw [hsilent hl rfl]
    exact .of_ready rfl ⟨laps, _, hgoes, hlane, htells.lane (.group g)⟩
  | @solo s block b out sig s₀ hl ht =>
    have hp := h.at_point hl
    have hnone : checks c.aborted 0 t = [] := (checks_standing hl _).trans (ite_self [])
    rw [hnone, List.append_nil, Scope.told_map, Scope.told_eq_nil (BlockRun.events_ofSandbox ht),
      List.append_nil]
    show (Strand.land (Point.solo s block b) _).Keeps _ _
    cases s₀.result with
    | none => exact hp
    | some next =>
      cases next with
      | goto b' => exact hp
      | done r => exact hp
      | panic message => trivial
  | hired hl =>
    have hp := h.at_ready hl
    rw [hsilent hl rfl, Scope.told_nil, List.append_nil]
    exact .of_ready rfl hp
  | interrupt hl ha =>
    have hp := h.at_ready hl
    rw [hsilent hl rfl, Scope.told_nil, List.append_nil]
    exact .of_ready rfl hp
  | hire hl ha =>
    have hp := h.at_ready hl
    rw [hsilent hl rfl, Scope.told_nil, List.append_nil]
    exact .of_ready rfl hp
  | gather hl hnone =>
    have hp := h.at_ready hl
    rw [hsilent hl rfl, Scope.told_nil, List.append_nil]
    exact .of_ready rfl hp
  | @broken s ran hl =>
    obtain ⟨laps, lane, sent, hgoes, hlane, hpart, hsettles, htells⟩ := h.at_settle hacc hl
    have hof : (Tour.mk laps (some ⟨lane, ran⟩)).Of plan := by
      refine ⟨hgoes.of.lanes, hgoes.of.whole, fun l hl => ?_⟩
      obtain rfl := Option.some.inj hl
      exact ⟨hlane, sent, hpart.isPrefix, hpart.proper.1 rfl, hsettles⟩
    rw [told_errors s ran lane]
    exact .of_ready rfl ⟨_, hof, htells.index, htells.collect⟩
  | @overruled s ran hl ha =>
    obtain ⟨laps, lane, sent, hgoes, hlane, hpart, hsettles, htells⟩ := h.at_settle hacc hl
    rw [hpart.whole] at hsettles
    have hpass := htells.pass ran
    rw [told_tally s ran lane]
    exact .of_ready rfl ⟨_, hgoes.of.pass hlane hsettles, hpass.index, hpass⟩
  | @halt s ran r rest hl ha hm hf =>
    obtain ⟨laps, lane, sent, hgoes, hlane, hpart, hsettles, htells⟩ := h.at_settle hacc hl
    rw [hpart.whole] at hsettles
    have hmode := htells.mode.symm.trans hm
    have hends : (Status.halted s.index r.block).Ends plan
        ⟨laps ++ [⟨lane, ran⟩], none⟩ :=
      ⟨rfl, hmode, laps, _, rest, r, rfl, htells.index, hgoes.clean hmode, hf, rfl⟩
    rw [told_tally s ran lane, checks_ready hl]
    refine .of_ready rfl ⟨_, _, hgoes.of.pass hlane hsettles, hends, htells.pass ran,
      (List.append_nil _).symm, fun hm => ?_⟩
    simp only [Point.checks, ha, List.mem_append, List.mem_singleton, Bool.true_eq_false,
      or_false] at hm
    exact absurd hm hgoes.calm
  | @pass s ran hl ha hf =>
    obtain ⟨laps, lane, sent, hgoes, hlane, hpart, hsettles, htells⟩ := h.at_settle hacc hl
    rw [hpart.whole] at hsettles
    rw [told_tally s ran lane, checks_ready hl]
    refine .of_ready rfl ⟨_, ⟨hgoes.of.pass hlane hsettles, fun hs l hl => ?_, ?_⟩, htells.pass ran⟩
    · rcases List.mem_append.1 hl with hl | hl
      · exact hgoes.clean hs l hl
      · obtain rfl := List.mem_singleton.1 hl
        exact hf (htells.mode.trans hs)
    · simpa [Point.checks, ha] using hgoes.calm
  | abort hl =>
    obtain ⟨tour, hof, hindex, htells⟩ := h.at_ready hl
    exact .of_ready rfl ⟨tour, es, hof, hindex, htells, rfl⟩
  | spare hl hn =>
    obtain ⟨tour, es', hof, hindex, htells, rfl⟩ := h.at_ready hl
    rw [Scope.told_nil, List.append_nil]
    exact .of_ready rfl ⟨tour, es', hof, hindex, htells, rfl, fun _ => ⟨_, rfl⟩⟩
  | collect hl hn =>
    have hp := h.at_ready hl
    rw [hsilent hl rfl, Scope.told_nil, List.append_nil]
    exact .of_ready rfl hp
  | cleared hl hnone =>
    obtain ⟨tour, es', hof, hindex, htells, rfl⟩ := h.at_ready hl
    rw [Scope.told_nil, List.append_nil]
    exact .of_ready rfl ⟨tour, es', hof, hindex, htells, rfl, fun _ => ⟨_, rfl⟩⟩
  | @finish s status hl =>
    obtain ⟨tour, es', hof, hends, htells, rfl, hasked⟩ := h.at_ready hl
    rw [hsilent hl rfl]
    refine ⟨tour, hof, hends, htells.results, htells.completed, ?_, hasked⟩
    rw [htells.events]
    simp only [report]
    rfl
  | @member k m sig sm hm ht =>
    have htold : sm.told = [] := by
      obtain ⟨d, out, s₀, -, h₀, rfl⟩ := ht.at_point
      exact Scope.told_eq_nil (member_events h₀)
    have hnone : checks c.aborted (k + 1) t = [] := rfl
    rw [hnone, Scope.told_map, htold, List.append_nil, List.append_nil]
    unfold Told
    rw [Scope.map, Team.update_leader]
    exact h

/-- Nothing is told of an execution that starts. -/
theorem told_start : Told plan [] [] start := ⟨rfl, by simp⟩

end Execution

end SandboxPool
