import SandboxPool.Proofs.Execution.Runners
import SandboxPool.Proofs.ReportAccounts

/-!
# Lanes one after the other

An execution acquires one sandbox for each block that it dispatches, has the runner called once if it gets
it, and gives it back once when the runner has ended. It begins a lane when all blocks of the lanes before
have done so, and the teardown of an abort when all blocks have (`Machine.lane_barrier`). This is what its
trail tells, in whatever order the blocks of a group take their turns.
-/

namespace SandboxPool

namespace Execution

/-- The blocks that are dispatched in a turn are in what is seen of it. -/
theorem dispatched_entries (config : Config) (c : Context) (p : Pool) (sig : Option Signal) (place : Nat)
    (t t' : Run) : (dispatched (entries config c p sig place t t')).map (fun d => (d.1, d.2.2))
      = dispatches c.aborted place t := by
  have hteardown : (if tearsDown place t then [Entry.teardown] else []).filterMap (·.dispatch?) = [] := by
    split <;> rfl
  have hmark : (turnMark? config c p sig place t t').toList.filterMap (·.dispatch?) = [] := by
    refine List.filterMap_eq_nil_iff.2 fun e he => ?_
    obtain ⟨errand, -, he⟩ := Option.bind_eq_some_iff.1 (Option.mem_toList.1 he)
    obtain ⟨st, -, he⟩ := Option.bind_eq_some_iff.1 he
    obtain ⟨m, -, rfl⟩ := Option.map_eq_some_iff.1 he
    rfl
  unfold dispatched entries
  rw [List.filterMap_append, List.filterMap_append, hteardown, hmark, List.append_nil, List.append_nil,
    List.filterMap_map, List.map_filterMap]
  exact List.filterMap_some

end Execution

namespace Machine

variable {pool : Pool} {now : Instant} {h : History} {m : Machine} {n : Nat} {plan : Plan}
  {t : Execution.Run}

/-- The trail of an execution has the blocks that it has dispatched. -/
theorem Reaches.dispatched_trail (hr : (ofPool pool now).Reaches h m)
    (ha : m.activity? n = some (.execute plan t)) :
    (Execution.dispatched (h.trail n)).map (fun d => (d.1, d.2.2)) = h.dispatches n := by
  refine hr.executions
    (I := fun h _ => (Execution.dispatched (h.trail n)).map (fun d => (d.1, d.2.2)) = h.dispatches n)
    (Machine.ordered_ofPool pool now) (fun t h₀ => by cases h₀) (fun hr he => ?_) (fun hm ih => ?_)
    (fun hr hs ih => ?_) ha
  · subst he
    rw [show History.trail _ _ = [] from hr.withstands.deeds_new _,
      show History.dispatches _ _ = [] from hr.withstands.deeds_new _]
    rfl
  · rw [show History.trail _ _ = _ from History.deeds_stay hm,
      show History.dispatches _ _ = _ from History.deeds_stay hm]
    exact ih
  · rw [hs.trail, Execution.dispatched, List.filterMap_append, List.map_append]
    refine (congrArg₂ _ ih (Execution.dispatched_entries ..)).trans ?_
    unfold History.dispatches
    rw [History.deeds_turn (congrArg Prod.fst hs.mover) hs.here]
    simp only [hs.mover]
    rfl

/-- **Lanes run one after the other, and each block acquires, runs and releases.** In every interleaving of
operations, and whatever the daemon and the runners do as long as nothing panics but a runner: take an
execution, at any time. Its trail has the blocks that it has dispatched, each with a place of its own in
its lane, and the calls of the runner that the outside has seen; nothing else leaves a mark. A block has
left the first marks of a complete one, and is complete when the execution has ended. Whatever is seen of
a lane is seen when all blocks of earlier lanes are complete, and a teardown begins when all blocks are. -/
theorem lane_barrier (hr : (ofPool pool now).Reaches h m)
    (ha : m.activity? n = some (.execute plan t)) (hsafe : ∀ e ∈ h.trail n, e.brokeOff = false) :
    ((Execution.dispatched (h.trail n)).map fun d => (d.1, d.2.1)).Nodup ∧
    (Execution.dispatched (h.trail n)).map (fun d => (d.1, d.2.2)) = h.dispatches n ∧
    h.runs n = (h.trail n).filterMap (·.runs?) ∧
    (∀ lane place mark, .mark lane place mark ∈ h.trail n →
      ∃ block, .dispatch lane place block ∈ h.trail n) ∧
    (∀ lane place block, .dispatch lane place block ∈ h.trail n →
      (∃ word, BlockRun.Complete block word ∧ Execution.marks (h.trail n) lane place <+: word) ∧
      (t.leader.ended = true → BlockRun.Complete block (Execution.marks (h.trail n) lane place))) ∧
    ∀ before e after, h.trail n = before ++ e :: after → Execution.Clear before e.lane? := by
  have htracks := (hr.trailed ha hsafe).tracks
  refine ⟨htracks.single, hr.dispatched_trail ha, hr.runs_trail ha, htracks.placed,
    fun lane place block hd => ⟨?_, fun he => ?_⟩, fun before e after hsplit => ?_⟩
  · rcases htracks.settled lane place block hd with hc | ⟨st, hw⟩
    · exact ⟨_, hc, List.prefix_rfl⟩
    · exact (htracks.marked place _ hw).2.exists_complete
  · rcases htracks.settled lane place block hd with hc | ⟨st, hw⟩
    · exact hc
    · have hlane := Execution.errand?_lane hw
      have hnone : Execution.openLane? t.leader = none := by
        cases hl : t.leader with
        | ready point => rw [hl] at he; cases he
        | waiting point => rw [hl] at he; cases he
        | done r => rfl
        | panicked message => rfl
      rw [hnone] at hlane
      cases hlane
  · exact (hsplit ▸ htracks.barred).clear

/-- One block of a group gets no sandbox, and the runner of the other one panics. In the next lane
somebody asks for an abort while the runner is at work, which terminates its sandbox and fails. -/
theorem lane_barrier_failures :
    let config : Config := { image := "img", maxSandboxes := 2 }
    let plan : Plan := { lanes := [.group ⟨["a", "b"], none⟩, .block "c"], failureMode := .lenient }
    ∃ (h : History) (m : Machine) (t : Execution.Run) (before : List Execution.Entry)
      (e : Execution.Entry), (ofPool (.ofConfig config 0) 0).Reaches h m ∧
      m.activity? 0 = some (.execute plan t) ∧ (∀ e ∈ h.trail 0, e.brokeOff = false) ∧
      Execution.dispatched (h.trail 0) = [(0, 1, "a"), (0, 2, "b"), (1, 0, "c")] ∧
      (h.runs 0).map (·.2) = ["b", "c"] ∧
      BlockRun.Complete "a" (Execution.marks (h.trail 0) 0 1) ∧
      BlockRun.Complete "b" (Execution.marks (h.trail 0) 0 2) ∧
      BlockRun.Complete "c" (Execution.marks (h.trail 0) 1 0) ∧
      h.trail 0 = before ++ [e] ∧ e.lane? = none ∧ Execution.Clear before none := by
  intro config plan
  let first := ofPool (.ofConfig config 0) 0
  let moves : List Move := [.step 0 0, .step 0 0, .step 0 0, .step 0 0, .step 0 0, .step 0 1,
    .step 0 1, .step 0 2, .step 0 2, .step 0 1, .step 0 1, .step 0 2, .step 0 2,
    .reply 0 2 (.created (.ok "c1")), .step 0 2, .step 0 2, .reply 0 2 (.acted (.ok ())), .step 0 2,
    .reply 0 2 (.acted (.ok ())), .step 0 2, .step 0 2,
    .reply 0 1 (.created (.error (.api 500 "no"))), .step 0 1, .step 0 1,
    .reply 0 2 (.ran ⟨false, .panicked (some "no")⟩), .step 0 2, .step 0 2, .step 0 2,
    .reply 0 2 (.acted (.ok ())), .step 0 2, .step 0 0, .step 0 0, .step 0 0, .step 0 0, .step 0 0,
    .step 0 0, .reply 0 0 (.acted (.ok ())), .step 0 0, .reply 0 0 (.acted (.ok ())), .step 0 0,
    .step 0 0, .abort, .reply 0 0 (.ran ⟨true, .failed "no"⟩), .step 0 0, .step 0 0,
    .reply 0 0 (.acted (.ok ())), .step 0 0, .reply 0 0 (.acted (.ok ())), .step 0 0, .step 0 0,
    .step 0 0, .step 0 0, .step 0 0, .step 0 0, .step 0 0]
  have hrun : ((first.start (.execute plan Execution.start)).trace moves).any (fun x =>
      let h := (first, .order (.execute plan)) :: x.1
      (x.2.activity? 0).any (·.ended) = true ∧ (∀ e ∈ History.trail h 0, e.brokeOff = false) ∧
        Execution.dispatched (History.trail h 0) = [(0, 1, "a"), (0, 2, "b"), (1, 0, "c")] ∧
        (History.runs h 0).map (·.2) = ["b", "c"] ∧
        ((History.trail h 0).getLast?.any (·.lane?.isNone)) = true) = true := by
    decide +kernel
  obtain ⟨x, hx, hrun⟩ := (Option.any_eq_true _ _).1 hrun
  obtain ⟨hended, hsafe, hdispatched, hruns, hlast⟩ := of_decide_eq_true hrun
  obtain ⟨e, he, hlane⟩ := (Option.any_eq_true _ _).1 hlast
  obtain ⟨before, hsplit⟩ := List.getLast?_eq_some_iff.1 he
  have hn : first.next (.order (.execute plan))
    = some (first.start (.execute plan Execution.start), []) := rfl
  have hfirst := Reaches.start.next hn
  have hr := hfirst.append (reaches_of_trace hx)
  obtain ⟨t, ha⟩ := (reaches_of_trace hx).exists_execution hfirst.ordered_ofPool
    (activity?_started (Machine.ordered_ofPool _ _) _)
  obtain ⟨-, -, -, -, hcomplete, hbarrier⟩ := lane_barrier hr ha hsafe
  have hdone : t.leader.ended = true := by
    rw [show x.2.activity? 0 = some (.execute plan t) from ha] at hended
    exact hended
  have hall : ∀ d ∈ Execution.dispatched (History.trail ([(first, .order (.execute plan))] ++ x.1) 0),
      BlockRun.Complete d.2.2
        (Execution.marks (History.trail ([(first, .order (.execute plan))] ++ x.1) 0) d.1 d.2.1) :=
    fun d hd => (hcomplete _ _ _ (Execution.mem_dispatched.1 hd)).2 hdone
  have hclear := hbarrier before e [] hsplit
  rw [Option.isNone_iff_eq_none.1 hlane] at hclear
  refine ⟨_, x.2, t, before, e, hr, ha, hsafe, hdispatched, hruns, hall (0, 1, "a") ?_,
    hall (0, 2, "b") ?_, hall (1, 0, "c") ?_, hsplit, Option.isNone_iff_eq_none.1 hlane, hclear⟩
  all_goals
    show _ ∈ Execution.dispatched (History.trail ((first, .order (.execute plan)) :: x.1) 0)
    rw [hdispatched]
    simp

end Machine

end SandboxPool
