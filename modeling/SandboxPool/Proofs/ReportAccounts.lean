import SandboxPool.Proofs.Execution.Lanes
import SandboxPool.Proofs.Machine.Course

/-!
# What a report accounts for

The report of an execution has one list of results for each lane that was started, in their order. A
list has one result for each block of its lane that was dispatched: for all of them, unless an abort
interrupted the lane. This does not depend on the order in which the members of a group end, on how
often a block occurs, or on members that break off (`Machine.report_accounts`).

* `History.laneStarts` has the lanes that an execution has announced.
* `History.dispatched` has the blocks that it has dispatched in a lane.
-/

namespace SandboxPool

namespace History

/-- The lanes that the events of an operation announce. -/
def laneStarts (h : History) (n : Nat) : List Nat :=
  h.deeds (fun m move _ => ((m.next move).elim [] (·.2)).filterMap fun note =>
    note.event?.bind (·.starts?)) n

/-- The blocks that an operation has dispatched, each with its lane. -/
def dispatches (h : History) (n : Nat) : List (Nat × String) :=
  h.deeds (fun m move a =>
    match a with
    | .execute _ t => Execution.dispatches m.aborted (m.mover move).2 t
    | _ => []) n

/-- What is seen of an execution. -/
def log (h : History) (n : Nat) : Execution.Log := ⟨h.laneStarts n, h.dispatches n⟩

/-- The blocks of a lane that an operation has dispatched. -/
def dispatched (h : History) (n lane : Nat) : List String := (h.log n).dispatched lane

variable {h : History} {m m' : Machine} {move : Move} {notes : List Note} {n place : Nat}

theorem log_stay (hm : (m.mover move).1 ≠ n) : (h ++ [(m, move)]).log n = h.log n := by
  unfold log laneStarts dispatches
  rw [deeds_stay hm, deeds_stay hm]

/-- A turn of an execution adds what is seen of it. -/
theorem log_turn {plan : Plan} {t : Execution.Run} {s : Scope Execution.Run}
    (ha : m.activity? n = some (.execute plan t)) (hk : m.mover move = (n, place))
    (hn : m.next move = some (m', notes))
    (hnotes : notes.filterMap (·.event?) = s.effects.filterMap (·.event?)) :
    (h ++ [(m, move)]).log n
      = (h.log n).add s.events (Execution.dispatches m.aborted place t) := by
  have hm : (m.mover move).1 = n := congrArg Prod.fst hk
  have hstarts : notes.filterMap (fun note => note.event?.bind (·.starts?))
      = s.events.filterMap (·.starts?) := by
    rw [← List.filterMap_filterMap, hnotes]
    rfl
  unfold log laneStarts dispatches Execution.Log.add
  rw [deeds_turn hm ha, deeds_turn hm ha, hn, hk]
  simp only [Option.elim_some, hstarts]

end History

/-- The plan of an execution that has ended with a report, and what it has ended with. -/
def Activity.finished? : Activity → Option (Plan × Report)
  | .execute plan ⟨.done (.ok f), _, _, _⟩ => some (plan, f)
  | _ => none

theorem Activity.of_finished? {a : Activity} {plan : Plan} {f : Report}
    (h : a.finished? = some (plan, f)) : ∃ t, a = .execute plan t ∧ t.leader = .done (.ok f) := by
  unfold finished? at h
  split at h
  · cases h
    exact ⟨_, rfl, rfl⟩
  · cases h

namespace Machine

variable {pool : Pool} {now : Instant} {h : History} {m : Machine} {n : Nat}

/-- An execution of a plan that fits the pool keeps its accounts, also if members break off. -/
theorem Withstands.accounts {plan : Plan} (hc : Execution.check plan pool.config = .ok ())
    (hr : (ofPool pool now).Withstands h m) {t : Execution.Run}
    (ha : m.activity? n = some (.execute plan t)) : Execution.Accounts plan (h.log n) t := by
  induction hr generalizing t with
  | start => cases ha
  | @next h m m' move notes hr hn ih =>
    have ho := hr.ordered.1
    generalize hb : Activity.execute plan t = b at ha
    cases next_course ho hn ha with
    | stay ha₀ hm =>
      rw [History.log_stay hm]
      exact ih (hb ▸ ha₀)
    | order o he =>
      subst he
      have hnew : (h ++ [(m, move)]).log m.started = .empty := by
        unfold History.log History.laneStarts History.dispatches
        rw [hr.deeds_new, hr.deeds_new]
        rfl
      rw [hnew]
      cases o with
      | execute plan' =>
        simp only [Activity.ofOrder, Activity.execute.injEq] at hb
        obtain ⟨rfl, rfl⟩ := hb
        exact ⟨Execution.Log.tells_empty, rfl⟩
      | _ => cases hb
    | fire => cases hb
    | @turn place a₀ sig s ha₀ hk ht hp hnotes =>
      cases ht with
      | @execute plan' t₀ sig s ht =>
        simp only [Scope.map, Activity.execute.injEq] at hb
        obtain ⟨rfl, rfl⟩ := hb
        rw [hr.config_eq] at ht
        rw [History.log_turn (s := s) ha₀ hk hn hnotes]
        exact (ih ha₀).turn (hr.config_eq ▸ hc) (ho.members _ (activity?_mem ha₀)) ht
      | _ => cases hb
  | @loss h m m' k serial message opens hr hl ih =>
    obtain ⟨plan₀, t₀, x, ha₀, hx, rfl⟩ := lose_eq_some hl
    have hmem := activity?_put (m := { m with pool := { m.pool with
      gateHeld := m.pool.gateHeld && !opens } }) (k := n) ha₀
      (.execute plan₀ (t₀.update x (.panicked message)))
    rw [hmem] at ha
    split at ha
    · next he =>
      subst he
      simp only [Option.some.injEq, Activity.execute.injEq] at ha
      obtain ⟨rfl, rfl⟩ := ha
      exact (ih ha₀).update (hr.ordered.1.members _ (activity?_mem ha₀)) hx fun _ => trivial
    · exact ih ha

/-- **What a report accounts for.** In every interleaving of operations on a new pool, whatever the
daemon and the runner do, and whichever members of a group break off: an execution that ends, of a plan
that is valid and fits the pool, ends with a report. Its results are the lists of the lanes that were
started, one behind the other. The list of a lane has one result for each of its blocks that was
dispatched, however often the block occurs, and a result has an error exactly if it is a failure. All
blocks of a lane that counts as completed were dispatched; another one can only be the last, and fewer
of its blocks were. -/
theorem report_accounts {plan : Plan} {t : Execution.Run} {r : Execution.Result}
    (hc : Execution.check plan pool.config = .ok ()) (hr : (ofPool pool now).Withstands h m)
    (ha : m.activity? n = some (.execute plan t)) (hd : t.leader = .done r) :
    ∃ f lists, r = .ok f ∧ f.results = List.flatten lists ∧
      h.laneStarts n = List.range lists.length ∧
      ∀ i list, lists[i]? = some list → ∃ lane, plan.lanes[i]? = some lane ∧
        Settles (h.dispatched n i) list ∧
        (i < f.lanesCompleted ∧ h.dispatched n i = lane.blocks ∨
          i = f.lanesCompleted ∧ i + 1 = lists.length ∧ h.dispatched n i <+: lane.blocks ∧
            (h.dispatched n i).length < lane.blocks.length) := by
  have hacc := hr.accounts hc ha
  unfold Execution.Accounts at hacc
  rw [hd] at hacc
  cases r with
  | error e => cases hacc
  | ok f =>
    obtain ⟨sent, lists, htells, hresults, hsettled, hdispatched⟩ := hacc
    have hlength := hsettled.length_eq
    refine ⟨f, lists, rfl, hresults, ?_, fun i list hi => ?_⟩
    · rw [← hlength]
      exact htells.lanes
    · obtain ⟨hlt, rfl⟩ := List.getElem?_eq_some_iff.1 hi
      have hlt' : i < sent.length := hlength ▸ hlt
      have hblocks : h.dispatched n i = sent[i] := by
        have htold := htells.blocks i
        rw [List.getD_eq_getElem _ _ hlt'] at htold
        exact htold
      obtain ⟨lane, hlane, hwhole⟩ := hdispatched.lane (List.getElem?_eq_getElem hlt')
      have hsettles := (List.forall₂_iff_get.1 hsettled).2 i hlt' hlt
      rw [hblocks]
      exact ⟨lane, hlane, hsettles,
        hwhole.imp_right fun ⟨he, hlast, hpart⟩ => ⟨he, hlast.trans hlength, hpart⟩⟩

/-- A group has the same block twice, and one of its members breaks off. An abort interrupts the next
group behind its first block. -/
theorem report_accounts_interrupted :
    let config : Config := { image := "img", maxSandboxes := 2 }
    ∃ plan h m t f lists, Execution.check plan config = .ok () ∧
      (ofPool (.ofConfig config 0) 0).Withstands h m ∧
      m.activity? 0 = some (.execute plan t) ∧ t.leader = .done (.ok f) ∧
      f.results = List.flatten lists ∧ f.lanesCompleted = 1 ∧
      h.laneStarts 0 = [0, 1] ∧ h.dispatched 0 0 = ["a", "a"] ∧ h.dispatched 0 1 = ["b"] ∧
      ∀ i list, lists[i]? = some list → Settles (h.dispatched 0 i) list := by
  intro config
  let plan : Plan := { lanes := [.group ⟨["a", "a"], none⟩, .group ⟨["b", "c"], none⟩] }
  let before : List Move := [.order (.execute plan), .step 0 0, .step 0 0, .step 0 0, .step 0 0,
    .step 0 0, .step 0 1]
  let behind : List Move := [.step 0 2, .step 0 2, .step 0 2, .step 0 2,
    .reply 0 2 (.created (.error (.api 500 "no"))), .step 0 2, .step 0 2, .step 0 0, .step 0 0,
    .step 0 0, .step 0 0, .abort, .step 0 0, .step 0 3, .step 0 3, .step 0 3, .step 0 3,
    .reply 0 3 (.created (.error (.api 500 "no"))), .step 0 3, .step 0 3, .step 0 0, .step 0 0,
    .step 0 0, .step 0 0, .step 0 0]
  have hrun : ((ofPool (.ofConfig config 0) 0).trace before).any (fun x =>
      (x.2.lose 0 0 "gone" false).any fun lost => (lost.trace behind).any fun y =>
        ((y.2.activity? 0).bind (·.finished?)).any fun f => (Execution.check f.1 config).toBool &&
          decide (f.2.lanesCompleted = 1 ∧ History.laneStarts (x.1 ++ y.1) 0 = [0, 1] ∧
            History.dispatched (x.1 ++ y.1) 0 0 = ["a", "a"] ∧
            History.dispatched (x.1 ++ y.1) 0 1 = ["b"])) = true := by decide +kernel
  obtain ⟨x, hx, hrun⟩ := (Option.any_eq_true _ _).1 hrun
  obtain ⟨lost, hlost, hrun⟩ := (Option.any_eq_true _ _).1 hrun
  obtain ⟨y, hy, hrun⟩ := (Option.any_eq_true _ _).1 hrun
  obtain ⟨⟨plan, f⟩, hf, hrun⟩ := (Option.any_eq_true _ _).1 hrun
  obtain ⟨a, ha, hfinished⟩ := Option.bind_eq_some_iff.1 hf
  obtain ⟨t, rfl, hd⟩ := Activity.of_finished? hfinished
  have hr := ((reaches_of_trace hx).withstands.loss hlost).append (reaches_of_trace hy)
  obtain ⟨hcheck, hfacts⟩ := Bool.and_eq_true_iff.1 hrun
  obtain ⟨hcompleted, hstarts, hfirst, hlast⟩ := of_decide_eq_true hfacts
  have hc : Execution.check plan config = .ok () := by
    cases h : Execution.check plan config with
    | error e =>
      rw [h] at hcheck
      cases hcheck
    | ok u => rfl
  obtain ⟨f', lists, hf', hresults, -, hlists⟩ := report_accounts hc hr ha hd
  cases hf'
  refine ⟨plan, _, _, t, f, lists, hc, hr, ha, hd, hresults, hcompleted, hstarts, hfirst, hlast,
    fun i list hi => ?_⟩
  obtain ⟨lane, -, hsettles, -⟩ := hlists i list hi
  exact hsettles

end Machine

end SandboxPool
