import SandboxPool.Proofs.Execution.Clearing
import SandboxPool.Proofs.ReportAccounts

/-!
# An abort that was asked for before

Somebody who has asked for an abort has asked it of all later executions, too. Such an execution goes
through few phases (`Execution.Spared`): it runs no block, and it ends with a report that has no results.
But it asks for the abort only in front of a lane. So a plan without lanes is reported as completed, no
abort is published, and the pool is not torn down (`Machine.no_block_after_abort`).

* `History.teardowns` has the lists of live sandboxes that an operation has taken to tear the pool down.
-/

namespace SandboxPool

namespace Execution

variable {config : Config} {plan : Plan} {c : Context} {p : Pool} {t : Run} {place : Nat}
  {sig : Option Signal} {sc : Scope Run} {s : Progress} {es : List Event} {lists : List (List String)}

/-- The execution runs a block: it acquires a sandbox, waits for the runner, or gives the sandbox
back. -/
def InBlock (t : Run) : Prop :=
  (∃ s block b, t.leader.point? = some (.solo s block b)) ∨
    t.Busy fun _ d => ∃ block b, d = .run block b

/-- Nothing of the plan has been run. -/
def untouched (plan : Plan) (id : Uuid) : Progress := ⟨id, plan.failureMode, plan.lanes, 0, [], 0⟩

/-- The phases of an execution that is to be aborted from its start, with the events that it has
published and the lists that it has taken to tear the pool down. A plan without lanes goes another way
than all the others. -/
inductive Spared (plan : Plan) : List Event → List (List String) → Strand Point Result → Prop where
  | begin : Spared plan [] [] (.ready .begin)
  | lane {id : Uuid} :
      Spared plan [.executionStarted id plan.lanes.length] [] (.ready (.lane (untouched plan id)))
  | abort {id : Uuid} (hsome : plan.lanes ≠ []) :
      Spared plan [.executionStarted id plan.lanes.length] [] (.ready (.abort (untouched plan id) 0))
  | teardown {id : Uuid} (hsome : plan.lanes ≠ []) :
      Spared plan [.executionStarted id plan.lanes.length, .aborted 0 0] []
        (.ready (.teardown (untouched plan id) 0))
  | cleared {id : Uuid} {live : List String} (hsome : plan.lanes ≠ []) :
      Spared plan [.executionStarted id plan.lanes.length, .aborted 0 0] [live]
        (.ready (.cleared (untouched plan id) 0))
  | finish {id : Uuid} {live : List String} (hsome : plan.lanes ≠ []) :
      Spared plan [.executionStarted id plan.lanes.length, .aborted 0 0] [live]
        (.ready (.finish (untouched plan id) (.aborted 0)))
  | skip {id : Uuid} (hnone : plan.lanes = []) :
      Spared plan [.executionStarted id plan.lanes.length] []
        (.ready (.finish (untouched plan id) .completed))
  | aborted {id : Uuid} {live : List String} (hsome : plan.lanes ≠ []) :
      Spared plan [.executionStarted id plan.lanes.length, .aborted 0 0,
        .executionCompleted id (.aborted 0) 0] [live]
        (.done (.ok (report (untouched plan id) (.aborted 0))))
  | completed {id : Uuid} (hnone : plan.lanes = []) :
      Spared plan [.executionStarted id plan.lanes.length, .executionCompleted id .completed 0] []
        (.done (.ok (report (untouched plan id) .completed)))

/-- The lists of live sandboxes that a turn of a place takes to tear the pool down. -/
def teardowns (p : Pool) (place : Nat) (t : Run) : List (List String) :=
  match place, t.leader with
  | 0, .ready (.teardown ..) => [p.liveRecords.map (·.id)]
  | _, _ => []

theorem teardowns_teardown {index : Nat} (hl : t.leader = .ready (.teardown s index)) :
    teardowns p 0 t = [p.liveRecords.map (·.id)] := by
  unfold teardowns
  rw [hl]
  rfl

theorem teardowns_of_ne {point : Point} (hl : t.leader = .ready point)
    (hnot : ∀ s index, point ≠ .teardown s index) : teardowns p 0 t = [] := by
  unfold teardowns
  rw [hl]
  cases point with
  | teardown s index => exact absurd rfl (hnot s index)
  | _ => rfl

theorem of_mem_teardowns {live : List String} (h : live ∈ teardowns p place t) :
    place = 0 ∧ ∃ s index, t.leader = .ready (.teardown s index) ∧ live = p.liveRecords.map (·.id) := by
  cases place with
  | succ k => cases h
  | zero =>
    cases hl : t.leader with
    | ready point =>
      by_cases hteardown : ∃ s index, point = .teardown s index
      · obtain ⟨s, index, rfl⟩ := hteardown
        rw [teardowns_teardown hl] at h
        exact ⟨rfl, s, index, rfl, List.mem_singleton.1 h⟩
      · rw [teardowns_of_ne hl fun s index he => hteardown ⟨s, index, he⟩] at h
        cases h
    | _ =>
      unfold teardowns at h
      rw [hl] at h
      cases h

/-- **Every stride keeps to these phases while an abort is wanted.** -/
theorem Spared.stride (hc : check plan p.config = .ok ()) (ha : c.aborted = true)
    (h : Spared plan es lists t.leader) (hs : Stride config plan c p t place sig sc) :
    Spared plan (es ++ sc.told) (lists ++ teardowns p place t) sc.result.leader := by
  cases hs with
  | refuse hl hrefused =>
    rw [hc] at hrefused
    cases hrefused
  | begin hl hc =>
    rw [teardowns_of_ne hl (by simp)]
    rw [hl] at h
    cases h
    exact .lane
  | complete hl hr =>
    rw [teardowns_of_ne hl (by simp)]
    rw [hl] at h
    cases h
    exact .skip hr
  | stop hl hr _ =>
    rw [teardowns_of_ne hl (by simp)]
    rw [hl] at h
    cases h
    exact .abort (List.ne_nil_of_mem (hr ▸ List.mem_cons_self ..))
  | block _ _ hcalm =>
    rw [ha] at hcalm
    cases hcalm
  | group _ _ hcalm =>
    rw [ha] at hcalm
    cases hcalm
  | @solo s block b out sig s₀ hl ht =>
    rw [hl] at h
    cases out <;> cases h
  | abort hl =>
    rw [teardowns_of_ne hl (by simp)]
    rw [hl] at h
    cases h with
    | abort hsome => exact .teardown hsome
  | spare hl hn =>
    rw [teardowns_teardown hl]
    rw [hl] at h
    cases h with
    | teardown hsome => exact .finish hsome
  | collect hl hn =>
    rw [teardowns_teardown hl]
    rw [hl] at h
    cases h with
    | teardown hsome => exact .cleared hsome
  | cleared hl hnone =>
    rw [teardowns_of_ne hl (by simp)]
    rw [hl] at h
    cases h with
    | cleared hsome => exact .finish hsome
  | finish hl =>
    rw [teardowns_of_ne hl (by simp)]
    rw [hl] at h
    cases h with
    | finish hsome => exact .aborted hsome
    | skip hnone => exact .completed hnone
  | @member k m sig sm hm ht =>
    have htold : sm.told = [] := by
      obtain ⟨d, out, s₀, -, h₀, rfl⟩ := ht.at_point
      exact Scope.told_eq_nil (member_events h₀)
    have hnone : teardowns p (k + 1) t = [] := rfl
    rw [hnone, Scope.told_map, htold, List.append_nil, List.append_nil]
    rw [Scope.map, Team.update_leader]
    exact h
  | _ hl =>
    rw [hl] at h
    cases h

/-- The members of such an execution are those of its teardown. -/
theorem Spared.each_stride (ho : t.Ordered) (h : Spared plan es lists t.leader)
    (heach : t.Each (fun _ d => d.Ends) fun _ _ => True)
    (hs : Stride config plan c p t place sig sc) :
    sc.result.Each (fun _ d => d.Ends) fun _ _ => True := by
  refine hs.each_ends ho (fun progress sent waiting hl => ?_) heach
  rw [hl] at h
  cases h

/-- Such an execution runs no block. -/
theorem Spared.not_inBlock (h : Spared plan es lists t.leader)
    (heach : t.Each (fun _ d => d.Ends) fun _ _ => True) : ¬ InBlock t := by
  rintro (⟨s, block, b, hp⟩ | ⟨x, hx, d, hp, block, b, rfl⟩)
  · generalize t.leader = leader at h hp
    cases h <;> cases hp
  · have hends := heach.active x hx
    cases hst : x.strand with
    | ready q | waiting q =>
      rw [hst] at hends hp
      cases hp
      cases hends
    | _ =>
      rw [hst] at hp
      cases hp

end Execution

/-- The lists of live sandboxes that an operation has taken to tear the pool down when it was
aborted. -/
def History.teardowns (h : History) (n : Nat) : List (List String) :=
  h.deeds (fun m move a =>
    match a with
    | .execute _ t => Execution.teardowns m.pool (m.mover move).2 t
    | _ => []) n

/-- A sandbox of such a list was noted for the teardown. -/
theorem History.collected_of_teardowns {h₁ h₂ : History} {n : Nat} {live : List String} {id : String}
    (hl : live ∈ h₂.teardowns n) (hid : id ∈ live) : id ∈ (h₁ ++ h₂).collected n := by
  obtain ⟨x, hx, hl⟩ := List.mem_flatMap.1 hl
  split at hl
  · next hn =>
    cases hact : x.1.activity? n with
    | none =>
      rw [hact] at hl
      cases hl
    | some a =>
      rw [hact] at hl
      cases a with
      | execute plan t =>
        obtain ⟨hplace, s, index, hleader, rfl⟩ := Execution.of_mem_teardowns hl
        exact mem_collected (List.mem_append_right _ hx) (Prod.ext hn hplace) hact
          (by simp only [Activity.collecting, hleader]) hid
      | _ => cases hl
  · cases hl

namespace Machine

variable {config : Config} {seed : BitVec 128} {pool : Pool} {now : Instant} {h₁ h₂ : History}
  {m₁ m : Machine} {plan : Plan} {t : Execution.Run}

/-- An execution that is ordered when an abort is wanted keeps to its phases. -/
theorem Reaches.spared (hr₁ : (ofPool pool now).Reaches h₁ m₁)
    (hc : Execution.check plan pool.config = .ok ()) (ha : m₁.aborted = true)
    (hr₂ : (m₁.start (.execute plan Execution.start)).Reaches h₂ m)
    (hact : m.activity? m₁.started = some (.execute plan t)) :
    Execution.Spared plan (h₂.told m₁.started) (h₂.teardowns m₁.started) t.leader ∧
      t.Each (fun _ d => d.Ends) fun _ _ => True := by
  have hn : m₁.next (.order (.execute plan)) = some (m₁.start (.execute plan Execution.start), []) :=
    rfl
  have ho := (hr₁.next hn).ordered_ofPool
  have ha₂ : (m₁.start (.execute plan Execution.start)).aborted = true := ha
  refine hr₂.executions (I := fun h t =>
    Execution.Spared plan (h.told m₁.started) (h.teardowns m₁.started) t.leader ∧
      t.Each (fun _ d => d.Ends) fun _ _ => True) ho ?_ ?_ ?_ ?_ hact
  · intro t hstart
    rw [activity?_started hr₁.ordered_ofPool] at hstart
    cases hstart
    exact ⟨.begin, Team.each_of_tasks rfl⟩
  · intro h m move hr he
    have hlt : m₁.started < m.started := hr.started_le
    omega
  · intro h m move t hm ht
    unfold History.teardowns
    rwa [told_stay hm, History.deeds_stay hm]
  · intro h m m' move t place sig s hr hs ⟨hspared, heach⟩
    have hteardowns : (h ++ [(m, move)]).teardowns m₁.started
        = h.teardowns m₁.started ++ Execution.teardowns m.pool place t := by
      unfold History.teardowns
      rw [History.deeds_turn (congrArg Prod.fst hs.mover) hs.here, hs.mover]
    have hconfig := ((hr₁.next hn).append hr).config_eq
    rw [hs.told, hteardowns]
    exact ⟨hspared.stride (hconfig ▸ hc) (hr.aborted ha₂).1 hs.stride,
      hspared.each_stride hs.ordered heach hs.stride⟩

/-- **An abort is sticky, except for a plan without lanes.** In every interleaving of operations on a
new pool, and whatever the daemon and the runner do: an execution that is ordered after somebody has
asked for an abort, of a plan that is valid and fits the pool, never runs a block. When it has ended,
it has come to a report without results. It is reported as aborted, the abort is published and the pool
is torn down exactly if the plan has a lane; if it has none, it is reported as completed, and the pool
stays as it is. -/
theorem no_block_after_abort (hp : Pool.create config seed = .ok pool)
    (hc : Execution.check plan pool.config = .ok ())
    (hr : (ofPool pool now).Reaches (h₁ ++ (m₁, .order (.execute plan)) :: h₂) m)
    (hf : (h₁ ++ (m₁, .order (.execute plan)) :: h₂).Fresh) (ha : m₁.aborted = true) :
    (∀ x ∈ h₂.map (·.1) ++ [m], ∃ t, x.activity? m₁.started = some (.execute plan t) ∧
      ¬ Execution.InBlock t) ∧
    ∀ t, m.activity? m₁.started = some (.execute plan t) → t.leader.ended = true →
      ∃ f id, t.leader = .done (.ok f) ∧ f.results = [] ∧ f.lanesCompleted = 0 ∧
        (plan.lanes ≠ [] → f.status = .aborted 0 ∧
          h₂.told m₁.started = [.executionStarted id plan.lanes.length, .aborted 0 0,
            .executionCompleted id (.aborted 0) 0] ∧
          ∃ live, h₂.teardowns m₁.started = [live] ∧ ∀ id ∈ live, m.pool.Doomed id) ∧
        (plan.lanes = [] → f.status = .completed ∧
          h₂.told m₁.started = [.executionStarted id 0, .executionCompleted id .completed 0] ∧
          h₂.teardowns m₁.started = []) := by
  obtain ⟨m₂, notes, hr₁, hn, hr₂⟩ := hr.split
  cases hn
  have hstart := activity?_started hr₁.ordered_ofPool (.execute plan Execution.start)
  have ho := (Machine.next_posts hr₁.ordered_ofPool
    (rfl : m₁.next (.order (.execute plan)) = some (_, []))).1
  have hcalm : ∀ {h : History} {x : Machine},
      (m₁.start (.execute plan Execution.start)).Reaches h x →
      ∃ t, x.activity? m₁.started = some (.execute plan t) ∧ ¬ Execution.InBlock t := by
    intro h x hx
    obtain ⟨t, ht⟩ := hx.exists_execution ho hstart
    obtain ⟨hspared, heach⟩ := hr₁.spared hc ha hx ht
    exact ⟨t, ht, hspared.not_inBlock heach⟩
  refine ⟨fun x hx => ?_, fun t ht hended => ?_⟩
  · rcases List.mem_append.1 hx with hx | hx
    · obtain ⟨⟨x, move⟩, hmem, rfl⟩ := List.mem_map.1 hx
      obtain ⟨before, behind, rfl⟩ := List.append_of_mem hmem
      obtain ⟨-, -, hbefore, -⟩ := hr₂.split
      exact hcalm hbefore
    · obtain rfl := List.mem_singleton.1 hx
      exact hcalm hr₂
  · obtain ⟨hspared, -⟩ := hr₁.spared hc ha hr₂ ht
    have hdoomed : ∀ live ∈ h₂.teardowns m₁.started, ∀ id ∈ live,
        m.pool.Doomed id ∨ (Activity.execute plan t).Terminating id := by
      intro live hlive id hid
      refine hr.doomed_or_terminating hp hf ht ?_
      rw [← List.singleton_append, ← List.append_assoc]
      exact History.collected_of_teardowns hlive hid
    generalize h₂.told m₁.started = told at hspared ⊢
    generalize h₂.teardowns m₁.started = lists at hspared hdoomed ⊢
    generalize hl : t.leader = leader at hspared hended ⊢
    cases hspared with
    | @aborted id live hsome =>
      refine ⟨_, id, rfl, rfl, rfl, fun _ => ⟨rfl, rfl, live, rfl, fun id hid => ?_⟩,
        fun hnone => absurd hnone hsome⟩
      rcases hdoomed live (List.mem_singleton.2 rfl) id hid with hdoomed | hterm
      · exact hdoomed
      · have hdone : (Activity.execute plan t).tornDown = true := by
          simp only [Activity.tornDown, hl]
          rfl
        rw [hterm.not_tornDown] at hdone
        cases hdone
    | @completed id hnone =>
      refine ⟨_, id, rfl, rfl, rfl, fun hsome => absurd hnone hsome, fun _ => ⟨rfl, ?_, rfl⟩⟩
      rw [hnone]
      rfl
    | _ => cases hended

/-- There is a paused sandbox when somebody asks for an abort. A plan without lanes is then executed: it
is reported as completed, and the sandbox is still there. -/
theorem sticky_abort_skipped :
    let config : Config := { image := "img", maxSandboxes := 2 }
    let plan : Plan := { lanes := [] }
    ∃ (pool : Pool) (h₁ h₂ : History) (m₁ m : Machine) (t : Execution.Run) (f : Report)
      (id : Uuid), Pool.create config 0 = .ok pool ∧
      Execution.check plan pool.config = .ok () ∧
      (ofPool pool 0).Reaches (h₁ ++ (m₁, .order (.execute plan)) :: h₂) m ∧
      History.Fresh (h₁ ++ (m₁, .order (.execute plan)) :: h₂) ∧ m₁.aborted = true ∧
      m.activity? m₁.started = some (.execute plan t) ∧ t.leader = .done (.ok f) ∧
      f.status = .completed ∧
      h₂.told m₁.started = [.executionStarted id 0, .executionCompleted id .completed 0] ∧
      h₂.teardowns m₁.started = [] ∧ m.pool.liveCount = 1 := by
  intro config plan
  let before : List Move := [.order (.acquire "a"), .step 0 0, .step 0 0, .step 0 0,
    .reply 0 0 (.created (.ok "c1")), .step 0 0, .step 0 0, .reply 0 0 (.acted (.ok ())), .step 0 0,
    .reply 0 0 (.acted (.ok ())), .step 0 0,
    .order (.release "c1"), .step 1 0, .step 1 0, .reply 1 0 (.acted (.ok ())), .step 1 0, .abort]
  let behind : List Move := [.step 2 0, .step 2 0, .step 2 0]
  have hp : Pool.create config 0 = .ok (.ofConfig config 0) :=
    create_eq_ok_iff.2 ⟨by decide +kernel, rfl⟩
  have hrun : ((ofPool (.ofConfig config 0) 0).trace before).any (fun x =>
      ((x.2.start (.execute plan Execution.start)).trace behind).any fun y =>
        x.2.aborted ∧ History.Fresh (x.1 ++ (x.2, .order (.execute plan)) :: y.1) ∧
          (y.2.activity? x.2.started).any (·.ended) = true ∧ y.2.pool.liveCount = 1) = true := by
    decide +kernel
  obtain ⟨x, hx, hrun⟩ := (Option.any_eq_true _ _).1 hrun
  obtain ⟨y, hy, hrun⟩ := (Option.any_eq_true _ _).1 hrun
  obtain ⟨ha, hf, hended, hlive⟩ := of_decide_eq_true hrun
  have hr₁ := reaches_of_trace hx
  have hn : x.2.next (.order (.execute plan))
    = some (x.2.start (.execute plan Execution.start), []) := rfl
  have hr : (ofPool (.ofConfig config 0) 0).Reaches
      (x.1 ++ (x.2, .order (.execute plan)) :: y.1) y.2 := by
    have hall := (hr₁.next hn).append (reaches_of_trace hy)
    rwa [List.append_assoc] at hall
  obtain ⟨hcalm, hreport⟩ := no_block_after_abort hp rfl hr hf ha
  obtain ⟨t, ht, -⟩ := hcalm y.2 (List.mem_append_right _ (List.mem_singleton.2 rfl))
  rw [ht] at hended
  obtain ⟨f, id, hd, -, -, -, hempty⟩ := hreport t ht hended
  obtain ⟨hstatus, htold, hteardowns⟩ := hempty rfl
  exact ⟨_, x.1, y.1, x.2, y.2, t, f, id, hp, rfl, hr, hf, ha, ht, hd, hstatus, htold, hteardowns,
    hlive⟩

end Machine

end SandboxPool
