import SandboxPool.Proofs.Execution.Laps

/-!
# Status, results and events of a report

The status of a report, its number of completed lanes, its results and all that the execution has
published are read off one and the same tour of the plan (`Machine.status_agrees`): lanes that ran to
their end, and at most one more that an abort interrupted.

* `History.checks` tells of each check behind a lane whether an abort was wanted there.
-/

namespace SandboxPool

/-- Whether an abort was wanted at the check that a turn of an operation makes behind a lane. -/
def Activity.checks (aborted : Bool) (place : Nat) : Activity → List Bool
  | execute _ t => Execution.checks aborted place t
  | _ => []

theorem Activity.of_mem_checks {aborted b : Bool} {place : Nat} {a : Activity}
    (hb : b ∈ a.checks aborted place) : b = aborted := by
  cases a with
  | execute plan t => exact Execution.of_mem_checks hb
  | _ => cases hb

namespace History

/-- What the checks behind its lanes have told an operation: whether an abort was wanted. -/
def checks (h : History) (n : Nat) : List Bool :=
  h.deeds (fun m move a => a.checks m.aborted (m.mover move).2) n

theorem checks_append (h₁ h₂ : History) (n : Nat) :
    (h₁ ++ h₂).checks n = h₁.checks n ++ h₂.checks n := List.flatMap_append ..

/-- An abort that was wanted all the time was wanted at every check. -/
theorem of_mem_checks {h : History} {n : Nat} {b : Bool} (ha : ∀ x ∈ h, x.1.aborted = true)
    (hb : b ∈ h.checks n) : b = true := by
  obtain ⟨x, hx, hb⟩ := List.mem_flatMap.1 hb
  split at hb
  · cases hact : x.1.activity? n with
    | none =>
      rw [hact] at hb
      cases hb
    | some a =>
      rw [hact] at hb
      exact (Activity.of_mem_checks hb).trans (ha x hx)
  · cases hb

end History

namespace Tour

variable {plan : Plan} {t : Tour}

/-- The results of lanes that ran to their end are those of their blocks. -/
theorem Of.blocks (h : t.Of plan) : ((t.laps.flatMap (·.results)).map (·.block)).Perm
    ((plan.lanes.take t.laps.length).flatMap Lane.blocks) := by
  rw [← h.lanes, List.map_flatMap, List.flatMap_map]
  have hwhole := h.whole
  generalize t.laps = laps at hwhole
  induction laps with
  | nil => exact .refl _
  | cons l rest ih =>
    rw [List.flatMap_cons, List.flatMap_cons]
    exact (hwhole l (List.mem_cons_self ..)).blocks.append
      (ih fun l hl => hwhole l (List.mem_cons_of_mem _ hl))

theorem results_of_whole (hp : t.part = none) : t.results = t.laps.flatMap (·.results) := by
  rw [results, hp, Option.elim_none, List.append_nil]

/-- A tour of lanes without failures has none. -/
theorem failed_of_clean (hp : t.part = none) (h : ∀ l ∈ t.laps, l.failures = []) :
    t.results.filter (fun r => !r.success) = [] := by
  rw [results_of_whole hp, List.filter_flatMap]
  exact List.flatMap_eq_nil_iff.2 h

end Tour

/-- The report is that of a tour of the plan: the status says where the tour has ended, and why. -/
structure Report.Agrees (plan : Plan) (t : Tour) (r : Report) : Prop where
  results : r.results = t.results
  lanes : r.lanesCompleted = t.laps.length
  completed : r.status = .completed → t.part = none ∧ r.lanesCompleted = plan.lanes.length ∧
    (plan.failureMode = .strict → r.failed = [])
  halted : ∀ lane block, r.status = .halted lane block →
    t.part = none ∧ r.lanesCompleted = lane + 1 ∧ plan.failureMode = .strict ∧
      (∀ l ∈ t.laps.take lane, l.failures = []) ∧ ∃ last first rest,
        t.laps[lane]? = some last ∧ last.failures = first :: rest ∧ first.block = block
  aborted : ∀ lane, r.status = .aborted lane → lane = r.lanesCompleted
  success : r.isSuccess ↔ (∀ lane, r.status ≠ .aborted lane) ∧
    (r.results.map (·.block)).Perm (plan.lanes.flatMap Lane.blocks) ∧ ∀ x ∈ r.results, x.success

theorem Report.isSuccess_iff (r : Report) :
    r.isSuccess ↔ r.status = .completed ∧ ∀ x ∈ r.results, x.success := by
  simp [isSuccess]

theorem Report.agrees {plan : Plan} {t : Tour} {r : Report} (hof : t.Of plan)
    (hends : r.status.Ends plan t) (hresults : r.results = t.results)
    (hlanes : r.lanesCompleted = t.laps.length) : r.Agrees plan t where
  results := hresults
  lanes := hlanes
  completed := by
    intro hs
    rw [hs] at hends
    obtain ⟨hpart, hlength, hclean⟩ := hends
    refine ⟨hpart, hlanes.trans hlength, fun hstrict => ?_⟩
    unfold failed
    rw [hresults]
    exact Tour.failed_of_clean hpart (hclean hstrict)
  halted := by
    intro lane block hs
    rw [hs] at hends
    obtain ⟨hpart, hstrict, laps, last, rest, first, hlaps, rfl, hclean, hlast, hblock⟩ := hends
    refine ⟨hpart, ?_, hstrict, ?_, last, first, rest, ?_, hlast, hblock⟩
    · rw [hlanes, hlaps, List.length_append, List.length_singleton]
    · rwa [hlaps, List.take_left]
    · rw [hlaps, List.getElem?_append_right (Nat.le_refl _), Nat.sub_self]
      rfl
  aborted := by
    intro lane hs
    rw [hs] at hends
    exact hends.trans hlanes.symm
  success := by
    rw [isSuccess_iff]
    constructor
    · rintro ⟨hs, hall⟩
      rw [hs] at hends
      obtain ⟨hpart, hlength, -⟩ := hends
      refine ⟨fun lane he => ?_, ?_, hall⟩
      · rw [hs] at he
        cases he
      · have hblocks := hof.blocks
        rw [hlength, List.take_length] at hblocks
        rwa [hresults, Tour.results_of_whole hpart]
    · rintro ⟨hnot, -, hall⟩
      refine ⟨?_, hall⟩
      cases hs : r.status with
      | completed => rfl
      | halted lane block =>
        -- The failure that halts a plan is among the results.
        rw [hs] at hends
        obtain ⟨hpart, -, laps, last, rest, first, hlaps, -, -, hlast, -⟩ := hends
        have hfirst : first ∈ last.failures := hlast ▸ List.mem_cons_self ..
        obtain ⟨hmem, hfailed⟩ := List.mem_filter.1 hfirst
        have hresult : first ∈ r.results := by
          rw [hresults, Tour.results_of_whole hpart, hlaps]
          exact List.mem_flatMap.2 ⟨last, List.mem_append_right _ (List.mem_singleton.2 rfl), hmem⟩
        rw [hall first hresult] at hfailed
        cases hfailed
      | aborted lane => exact absurd hs (hnot lane)

namespace Machine

variable {pool : Pool} {now : Instant} {h : History} {m : Machine} {n : Nat}

/-- What an execution of a plan that fits the pool has published goes with how far it is. -/
theorem Reaches.told {plan : Plan} {t : Execution.Run}
    (hc : Execution.check plan pool.config = .ok ()) (hr : (ofPool pool now).Reaches h m)
    (ha : m.activity? n = some (.execute plan t)) :
    Execution.Told plan (h.told n) (h.checks n) t := by
  refine hr.executions (I := fun h t => Execution.Told plan (h.told n) (h.checks n) t)
    (Machine.ordered_ofPool pool now) (fun t ha => by cases ha) ?_ ?_ ?_ ha
  · rintro h m move hr rfl
    unfold History.told History.checks
    rw [hr.withstands.deeds_new, hr.withstands.deeds_new]
    exact Execution.told_start
  · intro h m move t hm ht
    unfold History.checks
    rwa [told_stay hm, History.deeds_stay hm]
  · intro h m m' move t place sig s hr hs ht
    have hchecks : (h ++ [(m, move)]).checks n
        = h.checks n ++ Execution.checks m.aborted place t := by
      unfold History.checks
      rw [History.deeds_turn (congrArg Prod.fst hs.mover) hs.here, hs.mover]
      rfl
    rw [hs.told, hchecks]
    have hacc := hr.withstands.accounts hc hs.here
    exact ht.stride (hr.config_eq ▸ hc) hacc hs.stride

/-- **Status, results and events agree.** In every interleaving of operations on a new pool, whatever
the daemon and the runner do, and whenever an abort is asked for: an execution that ends, of a plan that
is valid and fits the pool, ends with the report of a tour of the plan. An abort that was asked for
before one of its checks behind a lane has aborted it. What it has published is its start, then what
there is to say of each lane of the tour in turn, then the abort if there was one, and then its end. -/
theorem status_agrees {plan : Plan} {t : Execution.Run} {r : Execution.Result}
    (hc : Execution.check plan pool.config = .ok ()) (hr : (ofPool pool now).Reaches h m)
    (ha : m.activity? n = some (.execute plan t)) (hd : t.leader = .done r) :
    ∃ (f : Report) (tour : Tour), r = .ok f ∧ tour.Of plan ∧
      f.Agrees plan tour ∧
      (∀ l ∈ tour.laps, l.succeeded + l.failed = l.lane.blocks.length) ∧
      (∀ (h₁ h₂ : History) (m₁ : Machine), h = h₁ ++ (m₁, .abort) :: h₂ → h₂.checks n ≠ [] →
        ∃ lane, f.status = .aborted lane) ∧
      h.told n = tour.events plan f.executionId
        ++ f.status.notice f.results.length
        ++ [.executionCompleted f.executionId f.status f.results.length] := by
  have htold := hr.told hc ha
  unfold Execution.Told at htold
  rw [hd] at htold
  cases r with
  | error e => cases htold
  | ok f =>
    obtain ⟨tour, hof, hends, hresults, hcompleted, hevents, hasked⟩ := htold
    refine ⟨f, tour, rfl, hof, Report.agrees hof hends hresults hcompleted, fun l hl => ?_, ?_,
      hevents⟩
    · rw [l.succeeded_add_failed, ← (hof.whole l hl).blocks.length_eq, List.length_map]
    · rintro h₁ h₂ m₁ rfl hsome
      obtain ⟨m₂, notes, -, hn, hr₂⟩ := hr.split
      cases hn
      have haborted := (hr₂.aborted rfl).2
      obtain ⟨b, hb⟩ := List.exists_mem_of_ne_nil _ hsome
      obtain rfl := History.of_mem_checks haborted hb
      refine hasked ?_
      rw [History.checks_append, ← List.singleton_append, History.checks_append]
      exact List.mem_append_right _ (List.mem_append_right _ hb)

/-- The first lane of a strict plan fails, and an abort is asked for before the check behind it. The
abort has the last word. -/
theorem status_agrees_overruled :
    let config : Config := { image := "img", maxSandboxes := 2 }
    ∃ plan h m t f tour lane, Execution.check plan config = .ok () ∧
      (ofPool (.ofConfig config 0) 0).Reaches h m ∧ m.activity? 0 = some (.execute plan t) ∧
      t.leader = .done (.ok f) ∧ plan.failureMode = .strict ∧ f.failed ≠ [] ∧
      tour.Of plan ∧ f.Agrees plan tour ∧ f.status = .aborted lane ∧
      h.told 0 = tour.events plan f.executionId
        ++ [.aborted lane f.results.length, .executionCompleted f.executionId
          (.aborted lane) f.results.length] := by
  intro config
  let plan : Plan := { lanes := [.block "a", .block "b"], failureMode := .strict }
  let before : List Move := [.order (.execute plan), .step 0 0, .step 0 0, .step 0 0, .step 0 0,
    .step 0 0, .step 0 0, .reply 0 0 (.created (.error (.api 500 "no"))), .step 0 0, .step 0 0]
  let behind : List Move := [.step 0 0, .step 0 0, .step 0 0, .step 0 0]
  have hrun : ((ofPool (.ofConfig config 0) 0).trace before).any (fun x =>
      (Machine.trace { x.2 with aborted := true } behind).any fun y =>
        ((y.2.activity? 0).bind (·.finished?)).any fun f => (Execution.check f.1 config).toBool &&
          decide (f.1.failureMode = .strict ∧ f.2.failed.length = 1 ∧ y.1.checks 0 = [true]))
      = true := by decide +kernel
  obtain ⟨x, hx, hrun⟩ := (Option.any_eq_true _ _).1 hrun
  obtain ⟨y, hy, hrun⟩ := (Option.any_eq_true _ _).1 hrun
  obtain ⟨⟨plan, f⟩, hf, hrun⟩ := (Option.any_eq_true _ _).1 hrun
  obtain ⟨a, ha, hfinished⟩ := Option.bind_eq_some_iff.1 hf
  obtain ⟨t, rfl, hd⟩ := Activity.of_finished? hfinished
  have hr := ((reaches_of_trace hx).next (next_abort x.2)).append (reaches_of_trace hy)
  obtain ⟨hcheck, hfacts⟩ := Bool.and_eq_true_iff.1 hrun
  obtain ⟨hstrict, hfailed, hchecks⟩ := of_decide_eq_true hfacts
  have hc := Execution.check_of_toBool hcheck
  obtain ⟨f', tour, hf', hof, hagrees, -, habort, htold⟩ := status_agrees hc hr ha hd
  cases hf'
  obtain ⟨lane, hs⟩ := habort x.1 y.1 x.2 (by rw [List.append_assoc]; rfl) (by rw [hchecks]; simp)
  refine ⟨plan, _, _, t, f, tour, lane, hc, hr, ha, hd, hstrict, fun hnone => ?_, hof, hagrees, hs,
    ?_⟩
  · rw [hnone] at hfailed
    cases hfailed
  · rw [htold, hs, List.append_assoc]
    rfl

end Machine

end SandboxPool
