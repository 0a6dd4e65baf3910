import SandboxPool.Proofs.Execution.Clearing
import SandboxPool.Proofs.Execution.Trails

/-!
# The calls of the runner

Nobody but a block calls a runner, and a block does so where its trail says (`BlockRun.runs_turn`). So
the calls of the runner that the outside sees are those in the trail (`Machine.Reaches.runs_trail`): a
member that runs a block is there only while its group is under way (`Execution.Assigned`).
-/

namespace SandboxPool

variable {β γ : Type} {config : Config} {plan : Plan} {c : Context} {p : Pool} {out : Bool}
  {sig : Option Signal}

/-- The sandbox and the block of a call of the runner. -/
def Signal.runs? : Signal → Option (Snapshot × String)
  | .sent (.run sandbox block) => some (sandbox, block)
  | _ => none

/-- The sandbox and the block of a call of the runner. -/
def BlockRun.Mark.runs? : Mark → Option (Snapshot × String)
  | .run sandbox block => some (sandbox, block)
  | _ => none

/-- The sandbox and the block of a call of the runner. -/
def Execution.Entry.runs? : Entry → Option (Snapshot × String)
  | .mark _ _ m => m.runs?
  | _ => none

/-- The calls of the runner that the outside has seen of an operation. -/
def History.runs (h : History) (n : Nat) : List (Snapshot × String) :=
  h.deeds (fun m move _ => ((m.talk? move).bind (·.runs?)).toList) n

/-! ## Who calls no runner -/

/-- The process does not call a runner. -/
def Demand.RunsNothing (d : Demand β) : Prop := ∀ sandbox block, d.ask? ≠ some (.run sandbox block)

theorem Demand.RunsNothing.map {d : Demand β} (h : d.RunsNothing) (f : β → γ) :
    (d.map f).RunsNothing := by
  intro sandbox block
  rw [ask?_map]
  exact h sandbox block

theorem Demand.RunsNothing.runs? {d : Demand β} {s : Scope (Option β)} (h : d.RunsNothing)
    (ht : d.Turn c p out sig s) : sig.bind (·.runs?) = none := by
  cases ht with
  | scope => rfl
  | gate => rfl
  | send _ a ha =>
    cases a with
    | daemon call => rfl
    | run sandbox block => exact absurd ha (h sandbox block)
  | receive => rfl

theorem Termination.runsNothing (id : String) (t : Point) : (demand id t).RunsNothing := by
  intro sandbox block
  cases t <;> simp [demand, Demand.ask?]

theorem Spawn.runsNothing (config : Config) (job : Job) (s : Point) :
    (demand config job s).RunsNothing := by
  cases s with
  | discard id error t => exact (Termination.runsNothing id t).map _
  | _ => intro sandbox block; simp [demand, Demand.ask?]

theorem Acquire.runsNothing (config : Config) (block : String) (a : Point) :
    (demand config block a).RunsNothing := by
  cases a with
  | retire id error t => exact (Termination.runsNothing id t).map _
  | cold s => exact (Spawn.runsNothing config _ s).map _
  | shared s => exact (Spawn.runsNothing config _ s).map _
  | _ => intro sandbox block; simp [demand, Demand.ask?]

theorem Release.runsNothing (id : String) (r : Point) : (demand id r).RunsNothing := by
  cases r with
  | discard cause t => exact (Termination.runsNothing id t).map _
  | _ => intro sandbox block; simp [demand, Demand.ask?]

/-! ## Blocks -/

/-- A block leaves the mark of a call only where the runner is at work. -/
theorem BlockRun.mark?_runs {block : String} {b : Point} {after : Strand Point BlockResult}
    (h : ∀ since sandbox, b ≠ .run since sandbox) :
    (mark? config block c p sig (.standing b out) after).bind (·.runs?) = none := by
  have hmap : ∀ {α : Type} (o : Option α) {f : α → Mark}, (∀ a, (f a).runs? = none) →
      (o.map f).bind (·.runs?) = none := by
    intro α o f hf
    cases o with
    | none => rfl
    | some a => exact hf a
  have hpoint : (b.mark? config block c p sig after).bind (·.runs?) = none := by
    cases b with
    | run since sandbox => exact absurd rfl (h since sandbox)
    | begin | conclude =>
      simp only [Point.mark?]
      split <;> rfl
    | refuse => rfl
    | _ => exact hmap _ fun _ => rfl
  cases after with
  | panicked message => rfl
  | _ =>
    rw [mark?_standing (by simp)]
    exact hpoint

/-- **A block calls the runner where it leaves the mark for it.** -/
theorem BlockRun.runs_turn {block : String} {b : Point} {s : Scope (Option (Next Point BlockResult))}
    (ht : (demand config block b).Turn c p out sig s) :
    (mark? config block c p sig (.standing b out) (.land b s.result)).bind (·.runs?)
      = sig.bind (·.runs?) := by
  have hother : (demand config block b).RunsNothing → (∀ since sandbox, b ≠ .run since sandbox) →
      (mark? config block c p sig (.standing b out) (.land b s.result)).bind (·.runs?)
        = sig.bind (·.runs?) := by
    intro hnothing hne
    rw [hnothing.runs? ht, mark?_runs hne]
  cases b with
  | acquire since a => exact hother ((Acquire.runsNothing config block a).map _) (by simp)
  | run since sandbox =>
    rcases Demand.turn_run ht with ⟨rfl, rfl, rfl⟩ | ⟨⟨terminates, ending⟩, rfl, rfl, rfl⟩
    · rfl
    · cases terminates <;> rfl
  | retire since sandbox ending t => exact hother ((Termination.runsNothing _ t).map _) (by simp)
  | release ran id r => exact hother ((Release.runsNothing id r).map _) (by simp)
  | _ => exact hother (by intro sandbox block; simp [demand, Demand.ask?]) (by simp)

namespace Execution

variable {t t' : Run} {place : Nat} {sc : Scope Run}

/-- Members run blocks only while a group is under way. -/
def Assigned (t : Run) : Prop :=
  groupLane? t.leader = none → t.Each (fun _ d => d.Ends) fun _ _ => True

/-- **Every stride of an execution keeps blocks in their group**, which goes on until all of its members
are done. -/
theorem Stride.assigned (ho : t.Ordered) (h : Assigned t)
    (hs : Stride config plan c p t place sig sc) : Assigned sc.result := by
  intro hafter
  cases hlane : groupLane? t.leader with
  | none =>
    refine hs.each_ends ho (fun s sent waiting hl => ?_) (h hlane)
    rw [hl] at hlane
    cases hlane
  | some lane =>
    cases hs with
    | hired | interrupt | hire => cases hafter
    | gather hl hempty => exact Team.each_of_tasks (by simp [Team.tasks, hempty])
    | member hm ht =>
      rw [Scope.map, Team.update_leader, hlane] at hafter
      cases hafter
    | @solo _ _ _ out _ _ hl =>
      rw [hl] at hlane
      cases out <;> cases hlane
    | _ hl =>
      rw [hl] at hlane
      cases hlane

/-- Blocks that are dispatched and a teardown call no runner. -/
theorem entries_runs (config : Config) (c : Context) (p : Pool) (sig : Option Signal) (place : Nat)
    (t t' : Run) : (entries config c p sig place t t').filterMap (·.runs?)
      = ((turnMark? config c p sig place t t').bind (·.runs?)).toList := by
  have hdispatch : ((dispatches c.aborted place t).map fun d => Entry.dispatch d.1 (seat t) d.2).filterMap
      (·.runs?) = [] := by
    refine List.filterMap_eq_nil_iff.2 fun e he => ?_
    obtain ⟨d, -, rfl⟩ := List.mem_map.1 he
    rfl
  have hteardown : (if tearsDown place t then [Entry.teardown] else []).filterMap (·.runs?) = [] := by
    split <;> rfl
  unfold entries
  rw [List.filterMap_append, List.filterMap_append, hdispatch, hteardown]
  cases hmark : turnMark? config c p sig place t t' with
  | none => rfl
  | some e => cases hruns : e.runs? <;> simp [hruns]

/-- **An execution calls the runner where its trail says.** -/
theorem Stride.runs (ho : t.Ordered) (h : Assigned t) (hs : Stride config plan c p t place sig sc) :
    (turnMark? config c p sig place t sc.result).bind (·.runs?) = sig.bind (·.runs?) := by
  have hnone : ∀ {place : Nat} {t' : Run}, errand? t place = none →
      (turnMark? config c p sig place t t').bind (·.runs?) = none := by
    intro place t' he
    unfold turnMark?
    rw [he]
    rfl
  have hblock : ∀ {place lane : Nat} {t' : Run} {block : String} {b : BlockRun.Point} {out : Bool}
      {sig : Option Signal} {s : Scope (Option (Next BlockRun.Point BlockResult))},
      errand? t place = some ⟨lane, block, .standing b out⟩ → strand? t' place = some (.land b s.result) →
      (BlockRun.demand config block b).Turn c p out sig s →
      (turnMark? config c p sig place t t').bind (·.runs?) = sig.bind (·.runs?) := by
    intro place lane t' block b out sig s he hst ht
    rw [turnMark?_eq he hst, Option.bind_map, ← BlockRun.runs_turn ht]
    rfl
  cases hs with
  | solo hl ht => exact hblock (errand?_solo hl) (strand?_solo rfl) ht
  | @member n m sig sm hm ht =>
    obtain ⟨d, out, s₀, hstrand, hd, hresult⟩ := ht.at_point
    cases d with
    | terminate id q =>
      rw [((Termination.runsNothing id q).map _).runs? hd]
      refine hnone ?_
      simp only [errand?, hm, Option.bind_some, hstrand]
      cases groupLane? t.leader with
      | none => rfl
      | some lane => cases out <;> rfl
    | run block b =>
      obtain ⟨s₁, hrun, rfl⟩ := Demand.turn_map hd
      cases hlane : groupLane? t.leader with
      | none =>
        have hends := (h hlane).active m (Team.mem_of_member? hm)
        rw [hstrand] at hends
        cases out <;> cases hends
      | some lane =>
        refine hblock (errand?_run hlane hm hstrand) ?_ hrun
        show strand? (t.update m sm.result) (n + 1) = _
        rw [hresult]
        exact strand?_run ho hm
  | _ hl =>
    refine hnone ?_
    show soloErrand? t.leader = none
    rw [hl]
    rfl

end Execution

namespace Machine

variable {pool : Pool} {now : Instant} {h : History} {m m' : Machine} {move : Move} {n place : Nat}
  {t : Execution.Run} {s : Scope Execution.Run}

theorem Reaches.assigned (hr : (ofPool pool now).Reaches h m)
    (ha : m.activity? n = some (.execute plan t)) : Execution.Assigned t := by
  refine hr.executions (I := fun _ t => Execution.Assigned t) (Machine.ordered_ofPool pool now)
    (fun t h₀ => by cases h₀) (fun _ _ _ => Team.each_of_tasks rfl) (fun _ ih => ih)
    (fun _ hs ih => ?_) ha
  exact hs.stride.assigned hs.ordered ih

/-- **The calls of the runner that the outside sees are those of the trail.** -/
theorem Reaches.runs_trail (hr : (ofPool pool now).Reaches h m)
    (ha : m.activity? n = some (.execute plan t)) :
    h.runs n = (h.trail n).filterMap (·.runs?) := by
  refine hr.executions (I := fun h _ => h.runs n = (h.trail n).filterMap (·.runs?))
    (Machine.ordered_ofPool pool now) (fun t h₀ => by cases h₀) (fun hr he => ?_) (fun hm ih => ?_)
    (fun hr hs ih => ?_) ha
  · subst he
    rw [show History.runs _ _ = [] from hr.withstands.deeds_new _,
      show History.trail _ _ = [] from hr.withstands.deeds_new _]
    rfl
  · rw [show History.runs _ _ = _ from History.deeds_stay hm,
      show History.trail _ _ = _ from History.deeds_stay hm]
    exact ih
  · rw [hs.trail, List.filterMap_append, ← ih, Execution.entries_runs,
      hs.stride.runs hs.ordered (hr.assigned hs.here), ← hs.talk]
    exact History.deeds_turn (congrArg Prod.fst hs.mover) hs.here

end Machine

end SandboxPool
