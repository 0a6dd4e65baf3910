import SandboxPool.Proofs.Execution.Results
import Mathlib.Data.List.GetD

/-!
# The lanes of an execution

At each of its points an execution has collected one list of results for every lane behind it, and the
members of the group in front of it are those of the blocks that it has dispatched
(`Execution.Point.Accounts`). Every turn keeps this, with what is seen of the execution: the lanes
that it starts and the blocks that it dispatches (`Execution.Accounts.turn`). It is also kept when a
member breaks off (`Execution.Accounts.loss`).
-/

namespace SandboxPool

variable {config : Config} {c : Context} {p : Pool} {place : Nat} {out : Bool} {sig : Option Signal}

/-! ## What is seen of an execution -/

/-- The lane that the event starts. -/
def Event.starts? : Event → Option Nat
  | laneStarted lane .. => some lane
  | _ => none

theorem Event.starts?_of_ofSandbox {e : Event} (h : e.ofSandbox = true) : e.starts? = none := by
  cases e with
  | laneStarted => cases h
  | _ => rfl

theorem filterMap_starts? {events : List Event} (h : ∀ e ∈ events, e.ofSandbox = true) :
    events.filterMap (·.starts?) = [] :=
  List.filterMap_eq_nil_iff.2 fun e he => Event.starts?_of_ofSandbox (h e he)

theorem Termination.events_ofSandbox {id : String} {t : Point} {s : Scope (Option Unit)}
    (h : (demand id t).bare.Turn c p out sig s) : ∀ e ∈ s.events, e.ofSandbox = true := by
  intro e he
  cases t with
  | claim =>
    obtain ⟨-, -, rfl⟩ := Demand.turn_scope h
    have hnone : (claim id p).effects.filterMap (·.event?) = [] := by
      unfold claim
      split
      · rfl
      · split
        · rfl
        · exact Record.events_calm _
    have he : e ∈ (claim id p).effects.filterMap (·.event?) := he
    rw [hnone] at he
    cases he
  | expire generation =>
    obtain ⟨-, -, rfl⟩ := Demand.turn_scope h
    have hnone : (expire id generation p).effects = [] := by
      unfold expire
      split
      · rfl
      · split <;> rfl
    have he : e ∈ (expire id generation p).effects.filterMap (·.event?) := he
    rw [hnone] at he
    cases he
  | stop port =>
    rcases Demand.turn_act h with ⟨-, -, rfl⟩ | ⟨r, -, -, rfl⟩ <;> cases he
  | remove port =>
    rcases Demand.turn_act h with ⟨-, -, rfl⟩ | ⟨r, -, -, rfl⟩ <;> cases he
  | settle port =>
    obtain ⟨-, -, rfl⟩ := Demand.turn_scope h
    have he : e ∈ (settle id port p).effects.filterMap (·.event?) := he
    unfold settle at he
    simp only at he
    split at he
    · cases he
    · split at he
      · cases he
      · obtain rfl := List.mem_singleton.1 he
        rfl

/-- Only an execution itself publishes events that are not about a sandbox. -/
theorem Leaf.events_ofSandbox {l : Leaf} (hl : l.Innermost) (hs : l.ofSandbox = true)
    {s : Scope (Option Unit)} (h : (l.demand config).Turn c p out sig s) :
    ∀ e ∈ s.events, e.ofSandbox = true := by
  by_cases ht : ∃ id t, l = .termination id t
  · obtain ⟨id, t, rfl⟩ := ht
    exact Termination.events_ofSandbox h
  · intro e he
    have hmild := (Leaf.mild hl (fun id t he => ht ⟨id, t, he⟩) h).events e he
    exact hmild.1.trans hs

theorem BlockRun.events_ofSandbox {block : String} {b : Point}
    {s : Scope (Option (Next Point BlockResult))}
    (h : (demand config block b).Turn c p out sig s) : ∀ e ∈ s.events, e.ofSandbox = true := by
  have hs : (b.leaf block).ofSandbox = true := by
    cases hb : b.leaf block with
    | execute plan point => exact absurd hb (b.leaf_ne_execute block)
    | _ => rfl
  have hturn := h.bare
  rw [← (Leaf.run_wants config block b).demand] at hturn
  exact Leaf.events_ofSandbox (Leaf.innermost_run block b) hs hturn

namespace Execution

theorem member_events {d : Duty} {s : Scope (Option (Next Duty Yield))}
    (h : (member config d).Turn c p out sig s) : ∀ e ∈ s.events, e.ofSandbox = true := by
  cases d with
  | run block b =>
    obtain ⟨s₀, h₀, rfl⟩ := Demand.turn_map h
    exact BlockRun.events_ofSandbox h₀
  | terminate id t =>
    obtain ⟨s₀, h₀, rfl⟩ := Demand.turn_map h
    exact Termination.events_ofSandbox h₀.bare

/-- What is seen of an execution: the lanes that it has started, and the blocks that it has
dispatched, each with its lane. -/
structure Log where
  lanes : List Nat
  blocks : List (Nat × String)

namespace Log

/-- Nothing is seen yet. -/
def empty : Log := ⟨[], []⟩

/-- What is seen of a turn is added. -/
def add (l : Log) (events : List Event) (blocks : List (Nat × String)) : Log :=
  ⟨l.lanes ++ events.filterMap (·.starts?), l.blocks ++ blocks⟩

theorem add_add (l : Log) (events events' : List Event) (blocks blocks' : List (Nat × String)) :
    (l.add events blocks).add events' blocks' = l.add (events ++ events') (blocks ++ blocks') := by
  simp only [add, List.filterMap_append, List.append_assoc]

/-- The blocks of a lane that are dispatched. -/
def dispatched (l : Log) (lane : Nat) : List String :=
  (l.blocks.filter (·.1 == lane)).map (·.2)

/-- These are the lanes that are started, each with the blocks that are dispatched. -/
structure Tells (l : Log) (sent : List (List String)) : Prop where
  lanes : l.lanes = List.range sent.length
  blocks : ∀ lane, l.dispatched lane = sent.getD lane []

variable {l : Log} {sent : List (List String)}

theorem tells_empty : empty.Tells [] := ⟨rfl, fun _ => rfl⟩

/-- Events that start no lane change nothing. -/
theorem add_silent (l : Log) {events : List Event} (he : events.filterMap (·.starts?) = []) :
    l.add events [] = l := by
  unfold add
  rw [he, List.append_nil, List.append_nil]

theorem Tells.silent (h : l.Tells sent) {events : List Event}
    (he : events.filterMap (·.starts?) = []) : (l.add events []).Tells sent := by
  rwa [l.add_silent he]

theorem getD_concat (sent : List (List String)) (part : List String) (lane : Nat) :
    (sent ++ [part]).getD lane [] = sent.getD lane [] ++ if lane = sent.length then part else [] := by
  rcases Nat.lt_trichotomy lane sent.length with hlt | rfl | hgt
  · rw [List.getD_append _ _ _ _ hlt, if_neg (Nat.ne_of_lt hlt), List.append_nil]
  · rw [List.getD_append_right _ _ _ _ (Nat.le_refl _), List.getD_eq_default sent _ (Nat.le_refl _),
      if_pos rfl, Nat.sub_self]
    rfl
  · rw [List.getD_eq_default _ _ (by simp; omega), List.getD_eq_default sent _ (by omega),
      if_neg (Nat.ne_of_gt hgt)]
    rfl

/-- A lane is started. -/
theorem Tells.lane (h : l.Tells sent) (blocks : List String) (parallel : Bool)
    (merge : Option Json.Value) :
    (l.add [.laneStarted sent.length blocks parallel merge] []).Tells (sent ++ [[]]) := by
  refine ⟨?_, fun lane => ?_⟩
  · show l.lanes ++ [sent.length] = _
    rw [h.lanes, List.length_append, List.length_singleton, List.range_succ]
  · show ((l.blocks ++ []).filter _).map _ = _
    rw [List.append_nil, getD_concat, ite_self, List.append_nil]
    exact h.blocks lane

/-- A block of the last lane is dispatched. -/
theorem Tells.block {part : List String} (h : l.Tells (sent ++ [part])) (block : String) :
    (l.add [] [(sent.length, block)]).Tells (sent ++ [part ++ [block]]) := by
  refine ⟨?_, fun lane => ?_⟩
  · show l.lanes ++ [] = _
    rw [List.append_nil, h.lanes, List.length_append, List.length_append]
    rfl
  · have hold := h.blocks lane
    unfold dispatched at hold
    show ((l.blocks ++ [(sent.length, block)]).filter (·.1 == lane)).map (·.2) = _
    rw [List.filter_append, List.map_append, hold, getD_concat, getD_concat, List.append_assoc]
    by_cases he : lane = sent.length
    · simp [he]
    · have hne : ¬ sent.length = lane := fun h => he h.symm
      simp [he, hne]

end Log

/-- The blocks that an execution itself dispatches in a step, each with its lane: a single block with
the start of its lane, those of a group one by one. -/
def Point.dispatches (aborted : Bool) : Point → List (Nat × String)
  | .lane s =>
    match s.rest with
    | .block id :: _ => if aborted then [] else [(s.index, id)]
    | _ => []
  | .dispatch s _ (block :: _) => if aborted then [] else [(s.index, block)]
  | _ => []

/-- The blocks that a turn of a place of an execution dispatches. -/
def dispatches (aborted : Bool) (place : Nat) (t : Run) : List (Nat × String) :=
  match place, t.leader with
  | 0, .ready point => point.dispatches aborted
  | _, _ => []

/-! ## What an execution has collected -/

/-- The blocks of the first lanes of a plan. -/
def blocksBefore (plan : Plan) (n : Nat) : List (List String) := (plan.lanes.take n).map Lane.blocks

/-- The blocks of a lane that were dispatched: all of them, or fewer if the lane was interrupted. -/
structure Part (lane : Lane) (sent : List String) (interrupted : Bool) : Prop where
  isPrefix : sent <+: lane.blocks
  proper : interrupted = true ↔ sent.length < lane.blocks.length

/-- All lanes in front of the next one have been run to their end, and each has a list of results. -/
structure Progress.At (plan : Plan) (s : Progress) : Prop where
  rest : s.rest = plan.lanes.drop s.index
  index : s.index ≤ plan.lanes.length
  completed : s.completed = s.index
  results : ∃ lists, s.results = lists.flatten ∧
    List.Forall₂ Settles (blocksBefore plan s.index) lists

/-- The lanes that were started, each with the blocks that were dispatched: lanes that ran to their
end, and at most one more that was interrupted. -/
inductive Dispatched (plan : Plan) (completed : Nat) : List (List String) → Prop where
  | whole (hle : completed ≤ plan.lanes.length) : Dispatched plan completed (blocksBefore plan completed)
  | interrupted {lane : Lane} {sent : List String} (hl : plan.lanes[completed]? = some lane)
      (hp : Part lane sent true) : Dispatched plan completed (blocksBefore plan completed ++ [sent])

/-- Nothing is started any more: there is a list of results for each lane that was started. -/
def Closed (plan : Plan) (l : Log) (results : List BlockResult) (completed : Nat) : Prop :=
  ∃ sent lists, l.Tells sent ∧ results = lists.flatten ∧ List.Forall₂ Settles sent lists ∧
    Dispatched plan completed sent

/-- The members run these blocks, one each. -/
structure Runs (sent : List String) (t : Run) : Prop where
  tasks : t.tasks.Perm sent
  each : t.Each Duty.Runs Yield.Reports

/-- What an execution has collected and dispatched when it is at a point. -/
def Point.Accounts (plan : Plan) (l : Log) (t : Run) : Point → Prop
  | .begin => l.Tells [] ∧ t.tasks = []
  | .lane s => s.At plan ∧ l.Tells (blocksBefore plan s.index) ∧ t.tasks = []
  | .solo s block b => s.At plan ∧ l.Tells (blocksBefore plan s.index ++ [[block]]) ∧ t.tasks = [] ∧
    plan.lanes[s.index]? = some (.block block) ∧ b.Owes block
  | .dispatch s sent waiting =>
    s.At plan ∧ l.Tells (blocksBefore plan s.index ++ [sent]) ∧ Runs sent t ∧
      ∃ lane, plan.lanes[s.index]? = some lane ∧ lane.blocks = sent ++ waiting
  | .gather s sent interrupted =>
    s.At plan ∧ l.Tells (blocksBefore plan s.index ++ [sent]) ∧ Runs sent t ∧
      ∃ lane, plan.lanes[s.index]? = some lane ∧ Part lane sent interrupted
  | .settle s ran interrupted =>
    ∃ sent, s.At plan ∧ l.Tells (blocksBefore plan s.index ++ [sent]) ∧ t.tasks = [] ∧
      (∃ lane, plan.lanes[s.index]? = some lane ∧ Part lane sent interrupted) ∧
      Settles sent ran
  | .abort s _ | .teardown s _ | .cleared s _ | .finish s _ =>
    Closed plan l s.results s.completed

/-- What an execution has collected and dispatched when it has ended. -/
def Result.Accounts (plan : Plan) (l : Log) : Result → Prop
  | .ok f => Closed plan l f.results f.lanesCompleted
  | .error _ => False

/-- What an execution has collected and dispatched. -/
def Accounts (plan : Plan) (l : Log) (t : Run) : Prop :=
  t.leader.Keeps (Point.Accounts plan l t) (Result.Accounts plan l)

/-! ## Steps of an execution itself -/

variable {plan : Plan} {l : Log} {t : Run} {s : Progress} {sent : List String}

theorem blocksBefore_succ {n : Nat} {lane : Lane} (h : plan.lanes[n]? = some lane) :
    blocksBefore plan (n + 1) = blocksBefore plan n ++ [lane.blocks] := by
  unfold blocksBefore
  rw [List.take_add_one, h, List.map_append]
  rfl

theorem length_blocksBefore {n : Nat} (h : n ≤ plan.lanes.length) :
    (blocksBefore plan n).length = n := by
  unfold blocksBefore
  rw [List.length_map, List.length_take]
  omega

theorem of_blocksBefore {n i : Nat} {blocks : List String}
    (h : (blocksBefore plan n)[i]? = some blocks) :
    i < n ∧ ∃ lane, plan.lanes[i]? = some lane ∧ blocks = lane.blocks := by
  unfold blocksBefore at h
  rw [List.getElem?_map] at h
  obtain ⟨lane, hlane, rfl⟩ := Option.map_eq_some_iff.1 h
  rw [List.getElem?_take] at hlane
  split at hlane
  · next hlt => exact ⟨hlt, lane, hlane, rfl⟩
  · cases hlane

/-- A lane that was started had all of its blocks dispatched, or it is the last one and was
interrupted. -/
theorem Dispatched.lane {completed : Nat} {started : List (List String)}
    (h : Dispatched plan completed started) {i : Nat} {blocks : List String}
    (hi : started[i]? = some blocks) : ∃ lane, plan.lanes[i]? = some lane ∧
      (i < completed ∧ blocks = lane.blocks ∨
        i = completed ∧ i + 1 = started.length ∧ blocks <+: lane.blocks ∧
          blocks.length < lane.blocks.length) := by
  cases h with
  | whole hle =>
    obtain ⟨hlt, lane, hlane, rfl⟩ := of_blocksBefore hi
    exact ⟨lane, hlane, .inl ⟨hlt, rfl⟩⟩
  | @interrupted lane sent hl hp =>
    have hlt := (List.getElem?_eq_some_iff.1 hl).1
    have hlength := length_blocksBefore (Nat.le_of_lt hlt)
    rw [List.getElem?_append] at hi
    split at hi
    · obtain ⟨hlt, lane, hlane, rfl⟩ := of_blocksBefore hi
      exact ⟨lane, hlane, .inl ⟨hlt, rfl⟩⟩
    · next hge =>
      obtain ⟨hnone, rfl⟩ := List.getElem?_eq_some_iff.1 hi
      have he : i = completed := by
        simp only [List.length_singleton] at hnone
        omega
      refine ⟨lane, he ▸ hl, .inr ⟨he, ?_, ?_⟩⟩
      · rw [List.length_append, hlength, he]
        rfl
      · simp only [List.getElem_singleton]
        exact ⟨hp.isPrefix, hp.proper.1 rfl⟩

theorem Progress.At.lane? (h : s.At plan) {lane : Lane} {rest : List Lane}
    (hr : s.rest = lane :: rest) : plan.lanes[s.index]? = some lane := by
  have hdrop := h.rest.symm.trans hr
  rw [← List.head?_drop, hdrop]
  rfl

/-- An execution that goes on without another lane has its accounts closed. -/
theorem Progress.At.closed (h : s.At plan) (hl : l.Tells (blocksBefore plan s.index)) :
    Closed plan l s.results s.completed := by
  obtain ⟨lists, hresults, hsettled⟩ := h.results
  rw [h.completed]
  exact ⟨_, lists, hl, hresults, hsettled, .whole h.index⟩

/-- The results of a lane come behind those of the lanes before it. -/
theorem Progress.At.append (h : s.At plan) {ran : List BlockResult} (hs : Settles sent ran) :
    ∃ lists, s.results ++ ran = lists.flatten ∧
      List.Forall₂ Settles (blocksBefore plan s.index ++ [sent]) lists := by
  obtain ⟨lists, hresults, hsettled⟩ := h.results
  refine ⟨lists ++ [ran], ?_, ?_⟩
  · rw [hresults, List.flatten_append, List.flatten_singleton]
  · exact List.rel_append hsettled (.cons hs .nil)

theorem Part.whole {lane : Lane} (h : Part lane sent false) : sent = lane.blocks := by
  refine h.isPrefix.eq_of_length_le ?_
  have hnot : ¬ sent.length < lane.blocks.length := fun hlt => by
    have htrue := h.proper.2 hlt
    cases htrue
  exact Nat.le_of_not_lt hnot

theorem begin_accounts (hc : check plan p.config = .ok ()) (h : Point.begin.Accounts plan l t) :
    (Strand.ofNext (begin plan p).result).Keeps
      (Point.Accounts plan (l.add (begin plan p).events []) t)
      (Result.Accounts plan (l.add (begin plan p).events [])) := by
  obtain ⟨hl, ht⟩ := h
  unfold begin
  rw [hc]
  refine ⟨⟨rfl, Nat.zero_le _, rfl, [], rfl, .nil⟩, hl.silent rfl, ht⟩

theorem lane_accounts (h : (Point.lane s).Accounts plan l t) :
    (Strand.ofNext (lane s c p).result).Keeps
      (Point.Accounts plan (l.add (lane s c p).events ((Point.lane s).dispatches c.aborted)) t)
      (Result.Accounts plan (l.add (lane s c p).events ((Point.lane s).dispatches c.aborted))) := by
  obtain ⟨hat, hl, ht⟩ := h
  have hlength := length_blocksBefore hat.index
  cases hr : s.rest with
  | nil =>
    simp only [lane, Point.dispatches, hr]
    exact hat.closed (hl.silent rfl)
  | cons first rest =>
    have hlane := hat.lane? hr
    cases ha : c.aborted with
    | true =>
      have htells : (l.add [] []).Tells (blocksBefore plan s.index) := hl.silent rfl
      have hclosed := hat.closed htells
      cases first <;> simp only [lane, Point.dispatches, hr, ha, if_true] <;> exact hclosed
    | false =>
      have hstarted := hl.lane first.blocks first.isGroup first.merge
      rw [hlength] at hstarted
      cases first with
      | block id =>
        have htells := hstarted.block id
        rw [hlength, Log.add_add] at htells
        simp only [lane, Point.dispatches, hr, ha, Bool.false_eq_true, if_false]
        exact ⟨hat, htells, ht, hlane, trivial⟩
      | group g =>
        simp only [lane, Point.dispatches, hr, ha, Bool.false_eq_true, if_false]
        exact ⟨hat, hstarted, ⟨by rw [ht], Team.each_of_tasks ht⟩, .group g, hlane, rfl⟩

theorem dispatch_accounts {waiting : List String}
    (h : (Point.dispatch s sent waiting).Accounts plan l t) :
    let body := dispatch s sent waiting c p
    let l' := l.add body.events ((Point.dispatch s sent waiting).dispatches c.aborted)
    let t' : Run := { t with
      leader := .ofNext body.result.2
      active := t.active ++ Team.enrol t.hired body.result.1
      hired := t.hired + body.result.1.length }
    Accounts plan l' t' := by
  obtain ⟨hat, hl, hruns, lane, hlane, hblocks⟩ := h
  have hlength := length_blocksBefore hat.index
  cases waiting with
  | nil =>
    refine ⟨hat, hl.silent rfl, ?_, lane, hlane, ?_⟩
    · simp only [dispatch, Team.enrol, List.append_nil]
      exact ⟨hruns.tasks, hruns.each.active, hruns.each.ended⟩
    · rw [List.append_nil] at hblocks
      exact ⟨hblocks ▸ List.prefix_refl _, by simp [hblocks]⟩
  | cons block rest =>
    cases ha : c.aborted with
    | true =>
      simp only [dispatch, Point.dispatches, ha, if_true]
      refine ⟨hat, hl.silent rfl, ?_, lane, hlane, ⟨_, hblocks.symm⟩, ?_⟩
      · simp only [Team.enrol, List.append_nil]
        exact ⟨hruns.tasks, hruns.each.active, hruns.each.ended⟩
      · simp [hblocks]
    | false =>
      have htells := hl.block block
      rw [hlength] at htells
      simp only [dispatch, Point.dispatches, ha, Bool.false_eq_true, if_false]
      refine ⟨hat, htells, ⟨?_, ?_, hruns.each.ended⟩, lane, hlane, ?_⟩
      · simp only [Team.tasks, List.map_append, Team.map_task_enrol, List.map_cons, List.map_nil,
          List.append_assoc]
        have hmid : (t.active.map (·.task) ++ ([block] ++ t.ended.map (·.task))).Perm
            (t.tasks ++ [block]) := by
          rw [Team.tasks, List.append_assoc]
          exact List.Perm.append_left _ List.perm_append_comm
        exact hmid.trans (hruns.tasks.append_right _)
      · intro x hx
        rcases List.mem_append.1 hx with hx | hx
        · exact hruns.each.active x hx
        · refine Team.each_enrol (fun task htask => ?_) x hx
          obtain rfl := List.mem_singleton.1 htask
          exact ⟨rfl, trivial⟩
      · rw [hblocks, List.append_assoc]
        rfl

/-- The end of a lane starts none. -/
theorem settle_starts (s : Progress) (ran : List BlockResult) (interrupted : Bool) (c : Context)
    (p : Pool) :
    (settle s ran interrupted c p).events.filterMap (·.starts?) = [] := by
  have herrors : ∀ failures : List BlockResult,
      ((failures.map (errorEvent s.index)).filterMap (·.event?)).filterMap (·.starts?) = [] := by
    intro failures
    induction failures with
    | nil => rfl
    | cons r rest ih => exact ih
  have hmore : ∀ (failures : List BlockResult) (succeeded failed : Nat),
      ((failures.map (errorEvent s.index) ++
        [Effect.emit (.laneCompleted s.index succeeded failed)]).filterMap (·.event?)).filterMap
          (·.starts?) = [] := by
    intro failures succeeded failed
    rw [List.filterMap_append, List.filterMap_append, herrors]
    rfl
  unfold settle
  simp only
  split
  · exact herrors _
  · split
    · exact hmore _ _ _
    · split <;> exact hmore _ _ _

theorem settle_accounts {ran : List BlockResult} {interrupted : Bool}
    (h : (Point.settle s ran interrupted).Accounts plan l t) :
    (Strand.ofNext (settle s ran interrupted c p).result).Keeps
      (Point.Accounts plan (l.add (settle s ran interrupted c p).events []) t)
      (Result.Accounts plan (l.add (settle s ran interrupted c p).events [])) := by
  obtain ⟨sent, hat, hl, ht, ⟨lane, hlane, hpart⟩, hsettles⟩ := h
  have hsilent := settle_starts s ran interrupted c p
  generalize (settle s ran interrupted c p).events = events at hsilent ⊢
  obtain ⟨lists, hresults, hsettled⟩ := hat.append hsettles
  have htells := hl.silent hsilent
  cases hint : interrupted with
  | true =>
    simp only [settle, if_true]
    refine ⟨_, lists, htells, hresults, hsettled, ?_⟩
    rw [hat.completed]
    rw [hint] at hpart
    exact .interrupted hlane hpart
  | false =>
    rw [hint] at hpart
    have hwhole := hpart.whole
    rw [hwhole, ← blocksBefore_succ hlane] at htells hsettled
    have hlt : s.index < plan.lanes.length := by
      by_contra hge
      rw [List.getElem?_eq_none (Nat.le_of_not_lt hge)] at hlane
      cases hlane
    have hdone : Progress.At plan { s with
        results := s.results ++ ran, rest := s.rest.drop 1, index := s.index + 1,
        completed := s.completed + 1 } := by
      refine ⟨?_, hlt, congrArg (· + 1) hat.completed, lists, hresults, hsettled⟩
      rw [hat.rest, List.drop_drop]
    simp only [settle, Bool.false_eq_true, if_false]
    split
    · exact hdone.closed htells
    · split
      · exact hdone.closed htells
      · exact ⟨hdone, htells, ht⟩

/-- All members of a group have ended. -/
theorem join_accounts (lost : Nat → String → String) {interrupted : Bool}
    (h : (Point.gather s sent interrupted).Accounts plan l t)
    (hnone : t.active = []) {t' : Run} (ht : t'.tasks = []) :
    (Point.settle s (settleAccounts lost sent t.ended) interrupted).Accounts plan l t' := by
  obtain ⟨hat, hl, hruns, hlane⟩ := h
  have htasks := hruns.tasks
  simp only [Team.tasks, hnone, List.map_nil, List.nil_append] at htasks
  exact ⟨sent, hat, hl, ht, hlane, settles_accounts hruns.each.ended htasks⟩

/-! ## Turns of an execution -/

theorem dispatches_standing {point : Point} (hl : t.leader = .standing point out) (aborted : Bool) :
    dispatches aborted 0 t = if out then [] else point.dispatches aborted := by
  unfold dispatches
  rw [hl]
  cases out <;> rfl

/-- A single block is run in the execution itself. -/
theorem solo_accounts {block : String} {b : BlockRun.Point}
    {next : Scope (Option (Next Point Result))}
    (h : (Point.solo s block b).Accounts plan l t)
    (ht : ((BlockRun.demand config block b).map
      (.into (.solo s block) fun r => .goto (.settle s [r] false))).Turn c p out sig next) :
    (Strand.land (.solo s block b) next.result).Keeps
      (Point.Accounts plan (l.add next.events []) t)
      (Result.Accounts plan (l.add next.events [])) := by
  obtain ⟨hat, hl, htasks, hlane, hb⟩ := h
  have hsilent : next.events.filterMap (·.starts?) = [] := by
    obtain ⟨s₀, h₀, rfl⟩ := Demand.turn_map ht
    exact filterMap_starts? (BlockRun.events_ofSandbox h₀)
  have htells := hl.silent hsilent
  have hgoes : ((BlockRun.demand config block b).map
      (.into (.solo s block) fun r => .goto (.settle s [r] false))).Ensures fun n =>
      (Strand.ofNext n).Keeps (Point.Accounts plan (l.add next.events []) t)
        (Result.Accounts plan (l.add next.events [])) :=
    (BlockRun.ensures hb).into (fun b' hb' => ⟨hat, htells, htasks, hlane, hb'⟩)
      fun r hr => ⟨[block], hat, htells, htasks,
        ⟨.block block, hlane, List.prefix_refl _, by simp [Lane.blocks]⟩, settles_singleton hr⟩
  cases hres : next.result with
  | none => exact ⟨hat, htells, htasks, hlane, hb⟩
  | some n => exact hgoes.of_turn ht n hres

/-- Somebody in the team of the execution gets elsewhere. -/
theorem Accounts.update (h : Accounts plan l t) (ho : t.Ordered) {n : Nat}
    {m : Member String Duty Yield} (hm : t.member? n = some m) {st : Strand Duty Yield}
    (hst : m.strand.Keeps (Duty.Runs m.task) (Yield.Reports m.task) →
      st.Keeps (Duty.Runs m.task) (Yield.Reports m.task)) : Accounts plan l (t.update m st) := by
  have hmem := Team.mem_of_member? hm
  have hsome : t.tasks ≠ [] := by
    intro hnone
    rw [List.map_eq_nil_iff.1 (List.append_eq_nil_iff.1 hnone).1] at hmem
    cases hmem
  have hruns : ∀ {sent : List String}, Runs sent t → Runs sent (t.update m st) := fun hr =>
    ⟨(Team.tasks_update ho hm st).trans hr.tasks, hr.each.update ho hm (hst (hr.each.active m hmem))⟩
  have hpoint : ∀ point : Point, point.Accounts plan l t → point.Accounts plan l (t.update m st) := by
    intro point hp
    cases point with
    | begin => exact absurd hp.2 hsome
    | lane s => exact absurd hp.2.2 hsome
    | solo s block b => exact absurd hp.2.2.1 hsome
    | dispatch s sent waiting =>
      obtain ⟨hat, hl, hr, hlane⟩ := hp
      exact ⟨hat, hl, hruns hr, hlane⟩
    | gather s sent interrupted =>
      obtain ⟨hat, hl, hr, hlane⟩ := hp
      exact ⟨hat, hl, hruns hr, hlane⟩
    | settle s ran interrupted =>
      obtain ⟨sent, -, -, hnone, -⟩ := hp
      exact absurd hnone hsome
    | _ => exact hp
  unfold Accounts at h ⊢
  rw [Team.update_leader]
  cases hl : t.leader with
  | ready point =>
    rw [hl] at h
    exact hpoint point h
  | waiting point =>
    rw [hl] at h
    exact hpoint point h
  | done r =>
    rw [hl] at h
    exact h
  | panicked message => trivial

/-- **Every turn of an execution keeps its accounts.** -/
theorem Accounts.turn (hc : check plan p.config = .ok ()) (ho : t.Ordered) (h : Accounts plan l t)
    {s : Scope Run} (ht : t.Turn (conduct config plan) c p place sig s) :
    Accounts plan (l.add s.events (dispatches c.aborted place t)) s.result := by
  have hpoint : ∀ {point : Point} {out : Bool}, t.leader = .standing point out →
      point.Accounts plan l t := by
    intro point out hl
    unfold Accounts at h
    rw [hl] at h
    cases out <;> exact h
  cases ht with
  | @demand point d out sig s hl hd ht =>
    have hp := hpoint hl
    rw [dispatches_standing hl]
    cases point with
    | begin =>
      cases hd
      obtain ⟨rfl, -, rfl⟩ := Demand.turn_scope ht
      exact begin_accounts (t := { t with leader := _ }) hc hp
    | lane progress =>
      cases hd
      obtain ⟨rfl, -, rfl⟩ := Demand.turn_scope ht
      exact lane_accounts (t := { t with leader := _ }) hp
    | solo progress block b =>
      cases hd
      have hnone : (if out then [] else (Point.solo progress block b).dispatches c.aborted) = [] :=
        ite_self []
      rw [hnone]
      exact solo_accounts (t := { t with leader := _ }) hp ht
    | settle progress ran interrupted =>
      cases hd
      obtain ⟨rfl, -, rfl⟩ := Demand.turn_scope ht
      exact settle_accounts (t := { t with leader := _ }) hp
    | abort progress index =>
      cases hd
      obtain ⟨rfl, -, rfl⟩ := Demand.turn_scope ht
      obtain ⟨sent, lists, hl, hrest⟩ := hp
      exact ⟨sent, lists, hl.silent rfl, hrest⟩
    | finish progress status =>
      cases hd
      obtain ⟨rfl, -, rfl⟩ := Demand.turn_scope ht
      obtain ⟨sent, lists, hl, hrest⟩ := hp
      exact ⟨sent, lists, hl.silent rfl, hrest⟩
    | _ => cases hd
  | @hire point body hl hd =>
    have hstanding : t.leader = .standing point false := hl
    have hp := hpoint hstanding
    rw [dispatches_standing hstanding, if_neg (by simp)]
    cases point with
    | dispatch progress sent waiting =>
      cases hd
      exact dispatch_accounts hp
    | teardown progress index =>
      cases hd
      obtain ⟨sent, lists, hl, hrest⟩ := hp
      have hnone : (teardown progress index p).events = [] := by
        unfold teardown
        split <;> rfl
      have hclosed : Closed plan (l.add (teardown progress index p).events [])
          progress.results progress.completed := by
        rw [hnone]
        exact ⟨sent, lists, hl.silent rfl, hrest⟩
      have hgoes : (Strand.ofNext (teardown progress index p).result.2).Keeps
          (Point.Accounts plan (l.add (teardown progress index p).events [])
            { t with
              leader := .ofNext (teardown progress index p).result.2
              active := t.active ++ Team.enrol t.hired (teardown progress index p).result.1
              hired := t.hired + (teardown progress index p).result.1.length })
          (Result.Accounts plan (l.add (teardown progress index p).events [])) := by
        generalize (teardown progress index p).events = events at hclosed ⊢
        generalize { t with leader := _, active := _, hired := _ } = t'
        unfold teardown
        split <;> exact hclosed
      exact hgoes
    | _ => cases hd
  | @join point next hl hd hnone =>
    have hstanding : t.leader = .standing point false := hl
    have hp := hpoint hstanding
    rw [dispatches_standing hstanding, if_neg (by simp)]
    cases point with
    | gather progress sent interrupted =>
      cases hd
      show Accounts plan (l.add [] []) _
      rw [l.add_silent rfl]
      refine join_accounts _ hp hnone ?_
      simp only [Team.tasks, hnone, List.map_nil, List.append_nil]
    | cleared progress index =>
      cases hd
      obtain ⟨sent, lists, hl, hrest⟩ := hp
      exact ⟨sent, lists, hl.silent rfl, hrest⟩
    | _ => cases hd
  | @member n m sig sc hm ht =>
    have hsilent : sc.events.filterMap (·.starts?) = [] := by
      obtain ⟨d, out, s₀, -, h₀, rfl⟩ := ht.at_point
      exact filterMap_starts? (member_events h₀)
    have hadd : l.add sc.events [] = l := l.add_silent hsilent
    show Accounts plan (l.add sc.events []) _
    rw [hadd]
    exact h.update ho hm fun hk => ht.keeps hk fun d hd => member_ensures hd

end Execution

end SandboxPool
