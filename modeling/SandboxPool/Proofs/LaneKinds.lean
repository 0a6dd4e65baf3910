import SandboxPool.Proofs.Machine.Outcomes
import SandboxPool.Proofs.ReportAccounts

/-!
# A single block and a group of one block

A block that is a lane by itself is run by the execution, and the only block of a group by a member that
it hires and waits for. The two take different ways, but they come to the same: a plan in which one is
put in place of the other has the same outcomes over all interleavings (`Machine.lane_kinds_agree`). Only
the start of the lane tells which of the two it is.

Two machines that run one of the plans each are linked (`Machine.Linked`), and go together move by move,
but for the steps of hiring and waiting, which nobody sees.
-/

namespace SandboxPool

namespace Machine

open Execution

variable {n behind lag lane : Nat} {quiet : Nat → Prop} {plan : Plan} {m₀ m₁ m₂ m₁' m₂' : Machine}
  {move : Move} {notes : List Note} {h : History}

/-- The two machines are alike but for an execution, which in the second one has one lane as a group. -/
structure Linked (n : Nat) (plan : Plan) (behind lag : Nat) (m₁ m₂ : Machine) : Prop where
  alike : Alike n m₁ m₂
  first : m₁.Ordered
  second : m₂.Ordered
  twins : ∃ t₁ t₂, m₁.activity? n = some (.execute plan t₁) ∧
    m₂.activity? n = some (.execute (plan.regroup behind) t₂) ∧
      Twin plan behind m₁.aborted lag t₁ t₂

/-- Only a wish for an abort changes whether there is one. -/
theorem next_aborted_of_ne (hn : m₁.next move = some (m₁', notes)) (hne : move ≠ .abort) :
    m₁'.aborted = m₁.aborted := by
  cases move with
  | order o =>
    cases hn
    rfl
  | step k place => exact (stepAt_frame hn).2
  | reply k place r =>
    obtain ⟨a, -, hn⟩ := Option.bind_eq_some_iff.1 hn
    obtain ⟨b, -, hn⟩ := Option.map_eq_some_iff.1 hn
    cases hn
    rfl
  | fire generation =>
    simp only [next, Option.bind_eq_some_iff] at hn
    obtain ⟨alarm, -, hn⟩ := hn
    split at hn
    · exact (stepAt_frame hn).2
    · cases hn
  | abort => exact absurd rfl hne
  | advance | vary =>
    cases hn
    rfl

namespace Linked

theorem unbroken (hl : Linked n plan behind lag m₁ m₂) : m₁.Unbroken n ∧ m₂.Unbroken n := by
  obtain ⟨t₁, t₂, ha₁, ha₂, htwin⟩ := hl.twins
  refine ⟨fun t ha => ?_, fun t ha => ?_⟩
  · cases (execution?_of_activity? ha₁).symm.trans ha
    exact htwin.unbroken.1
  · cases (execution?_of_activity? ha₂).symm.trans ha
    exact htwin.unbroken.2

/-- The executions are linked when they start. -/
theorem start (ho : m₀.Ordered) (plan : Plan) (behind : Nat) :
    Linked m₀.started plan behind 0 (m₀.start (.execute plan Execution.start))
      (m₀.start (.execute (plan.regroup behind) Execution.start)) := by
  have hordered : ∀ plan, (m₀.start (.execute plan Execution.start)).Ordered := fun plan =>
    ordered_start ho (Team.ordered_start _)
  refine ⟨⟨rfl, rfl, rfl, rfl, rfl, rfl, fun k hk => ?_⟩, hordered _, hordered _, Execution.start,
    Execution.start, activity?_started ho _, activity?_started ho _, ?_⟩
  · rw [activity?_start ho, activity?_start ho, if_neg hk, if_neg hk]
  · exact .same 0 (tidy_start plan) unbroken_start

/-- **The executions of both machines move**, and do the same. -/
theorem both {t₁ t₂ : Run} {place₁ place₂ : Nat} {r : Option Reply} {s₁ s₂ : Scope Run}
    (hl : Linked n plan behind lag m₁ m₂) (ha₁ : m₁.activity? n = some (.execute plan t₁))
    (ha₂ : m₂.activity? n = some (.execute (plan.regroup behind) t₂))
    (ht₁ : t₁.take (conduct m₁.pool.config plan) m₁.context m₁.pool r place₁ = some s₁)
    (ht₂ : t₂.take (conduct m₁.pool.config (plan.regroup behind)) m₁.context m₁.pool r place₂
      = some s₂)
    (hask : t₂.ask? (conduct m₁.pool.config (plan.regroup behind)) place₂
      = t₁.ask? (conduct m₁.pool.config plan) place₁)
    (hagree : Agree plan behind m₁.aborted s₁ s₂) :
    (∃ notes, m₁.next (own n place₁ r) = some (m₁.settle n (s₁.map (.execute plan)), notes)) ∧
    (∃ notes, m₂.next (own n place₂ r)
      = some (m₂.settle n (s₂.map (.execute (plan.regroup behind))), notes)) ∧
    (∃ lag', Linked n plan behind lag' (m₁.settle n (s₁.map (.execute plan)))
      (m₂.settle n (s₂.map (.execute (plan.regroup behind))))) ∧
    (m₂.sights (own n place₂ r)).map (·.blur n (plan.lanes.length - (behind + 1)))
      = (m₁.sights (own n place₁ r)).map (·.blur n (plan.lanes.length - (behind + 1))) := by
  have ht₂' : t₂.take (conduct m₂.pool.config (plan.regroup behind)) m₂.context m₂.pool r place₂
      = some s₂ := by rwa [hl.alike.pool, hl.alike.context]
  obtain ⟨notes₁, hn₁, -⟩ := next_own ha₁ ht₁
  obtain ⟨notes₂, hn₂, -⟩ := next_own ha₂ ht₂'
  obtain ⟨lag', htwin⟩ := hagree.twin
  refine ⟨⟨notes₁, hn₁⟩, ⟨notes₂, hn₂⟩, ⟨lag', ?_, (next_posts hl.first hn₁).1,
    (next_posts hl.second hn₂).1, s₁.result, s₂.result, ?_, ?_, ?_⟩, ?_⟩
  · exact hl.alike.settle ha₁ ha₂ hagree.pool (fun alarms => foldl_ring_of_blur hagree.effects alarms)
      fun hne => absurd rfl hne
  · rw [activity?_settle ha₁, if_pos rfl]
    rfl
  · rw [activity?_settle ha₂, if_pos rfl]
    rfl
  · have haborted : (m₁.settle n (s₁.map (.execute plan))).aborted = m₁.aborted := by
      simp only [settle, foldl_apply_eq]
      rfl
    rwa [haborted]
  · have hevents : ∀ (s : Scope Run) (lane : Nat), (s.events.map (Sight.event n)).map (·.blur n lane)
        = (s.events.map (·.blur lane)).map (.event n) := by
      intro s lane
      rw [List.map_map, List.map_map]
      refine List.map_congr_left fun e _ => ?_
      simp only [Function.comp_apply, Sight.blur, if_pos]
    rw [sights_own ha₁ ht₁, sights_own ha₂ ht₂', hl.alike.pool, hask, List.map_append, List.map_append,
      hevents, hevents, map_blur_events, map_blur_events, hagree.effects]

/-- **The execution of the second machine takes a step that nobody sees.** -/
theorem unseen {t₁ t₂ : Run} {place lag' : Nat} {s₂ : Scope Run} (hl : Linked n plan behind lag m₁ m₂)
    (ha₁ : m₁.activity? n = some (.execute plan t₁))
    (ha₂ : m₂.activity? n = some (.execute (plan.regroup behind) t₂))
    (ht₂ : t₂.take (conduct m₂.pool.config (plan.regroup behind)) m₂.context m₂.pool none place
      = some s₂) (hpool : s₂.pool = m₁.pool) (heffects : s₂.effects = [])
    (hask : t₂.ask? (conduct m₂.pool.config (plan.regroup behind)) place = none)
    (htwin : Twin plan behind m₁.aborted lag' t₁ s₂.result) :
    Linked n plan behind lag' m₁ (m₂.settle n (s₂.map (.execute (plan.regroup behind)))) ∧
      m₂.sights (own n place none) = [] := by
  obtain ⟨notes, hn, -⟩ := next_own ha₂ ht₂
  have hsettle : m₂.settle n (s₂.map (.execute (plan.regroup behind)))
      = m₂.put n (.execute (plan.regroup behind) s₂.result) := by
    unfold settle
    rw [Scope.map, heffects, hpool, ← hl.alike.pool]
    rfl
  refine ⟨⟨?_, hl.first, (next_posts hl.second hn).1, t₁, s₂.result, ha₁, ?_, htwin⟩, ?_⟩
  · rw [hsettle]
    exact hl.alike.put ha₂ _
  · rw [hsettle, activity?_put ha₂, if_pos rfl]
  · rw [sights_own ha₂ ht₂, hask, Scope.events, heffects]
    rfl

/-- **Somebody else moves** in both machines. -/
theorem other (hl : Linked n plan behind lag m₁ m₂) (hm : (m₁.mover move).1 ≠ n)
    (hn₁ : m₁.next move = some (m₁', notes)) (hn₂ : m₂.next move = some (m₂', notes))
    (halike : Alike n m₁' m₂') (hsame₁ : m₁'.activity? n = m₁.activity? n)
    (hsame₂ : m₂'.activity? n = m₂.activity? n)
    (hquiet : move = .abort → lag ≠ 0 → ∀ t ∈ m₂.execution? n,
      undispatched? t ≠ some (plan.lanes.length - (behind + 1))) :
    Linked n plan behind lag m₁' m₂' ∧ m₂.sights move = m₁.sights move := by
  obtain ⟨t₁, t₂, ha₁, ha₂, htwin⟩ := hl.twins
  refine ⟨⟨halike, (next_posts hl.first hn₁).1, (next_posts hl.second hn₂).1, t₁, t₂,
    hsame₁.trans ha₁, hsame₂.trans ha₂, ?_⟩, ?_⟩
  · by_cases hmove : move = .abort
    · subst hmove
      cases hn₁
      exact htwin.abort fun hlag => hquiet rfl hlag t₂ (execution?_of_activity? ha₂)
    · rwa [next_aborted_of_ne hn₁ hmove]
  · unfold sights
    rw [hl.alike.talk? hm, hl.alike.mover, hn₁, hn₂]
    rfl

/-- **What the first machine does, the second one can do when it does not lag.** -/
theorem follow (hl : Linked n plan behind 0 m₁ m₂) (hn : m₁.next move = some (m₁', notes))
    (htame : m₁.Tame n quiet move) (hunbroken : m₁'.Unbroken n) :
    ∃ move' m₂' notes' lag, m₂.next move' = some (m₂', notes') ∧ m₂.Tame n quiet move' ∧
      Linked n plan behind lag m₁' m₂' ∧
      (m₂.sights move').map (·.blur n (plan.lanes.length - (behind + 1)))
        = (m₁.sights move).map (·.blur n (plan.lanes.length - (behind + 1))) := by
  obtain ⟨t₁, t₂, ha₁, ha₂, htwin⟩ := hl.twins
  rcases own_or_other (activity?_lt hl.first ha₁) move with ⟨place, r, rfl⟩ | hm
  · obtain ⟨s₁, ht₁, rfl⟩ := take_of_next ha₁ hn
    have hu : Execution.Unbroken s₁.result := by
      have ha : (m₁.settle n (s₁.map (.execute plan))).activity? n = some (.execute plan s₁.result) := by
        rw [activity?_settle ha₁, if_pos rfl]
        rfl
      exact hunbroken s₁.result (execution?_of_activity? ha)
    obtain ⟨place', s₂, ht₂, hask, hagree⟩ := htwin.follow ht₁ hu
    obtain ⟨-, ⟨notes', hn₂⟩, ⟨lag, hlinked⟩, hsights⟩ := hl.both ha₁ ha₂ ht₁ ht₂ hask hagree
    exact ⟨_, _, notes', lag, hn₂, tame_own hl.unbroken.2, hlinked, hsights⟩
  · obtain ⟨m₂', hn₂, halike, hsame₁, hsame₂⟩ :=
      hl.alike.next hl.first hl.second (activity?_lt hl.first ha₁) hm hn
    obtain ⟨hlinked, hsights⟩ := hl.other hm hn hn₂ halike hsame₁ hsame₂ fun _ h => absurd rfl h
    refine ⟨move, m₂', notes, 0, hn₂, ⟨hl.unbroken.2, fun hmove t ha lane hw => ?_⟩, hlinked,
      by rw [hsights]⟩
    cases (execution?_of_activity? ha₂).symm.trans ha
    exact htame.abort hmove t₁ (execution?_of_activity? ha₁) lane (htwin.undispatched_of_second hw)

/-- **What the second machine does, the first one can do**, unless nobody sees it. -/
theorem lead (hl : Linked n plan behind lag m₁ m₂) (hn : m₂.next move = some (m₂', notes))
    (htame : m₂.Tame n quiet move) (hunbroken : m₂'.Unbroken n)
    (hq : quiet (plan.lanes.length - (behind + 1))) :
    (m₂.sights move = [] ∧ ∃ lag', Linked n plan behind lag' m₁ m₂') ∨
    ∃ move' m₁' notes' lag', m₁.next move' = some (m₁', notes') ∧ m₁.Tame n quiet move' ∧
      Linked n plan behind lag' m₁' m₂' ∧
      (m₁.sights move').map (·.blur n (plan.lanes.length - (behind + 1)))
        = (m₂.sights move).map (·.blur n (plan.lanes.length - (behind + 1))) := by
  obtain ⟨t₁, t₂, ha₁, ha₂, htwin⟩ := hl.twins
  rcases own_or_other (activity?_lt hl.second ha₂) move with ⟨place, r, rfl⟩ | hm
  · obtain ⟨s₂, ht₂, rfl⟩ := take_of_next ha₂ hn
    have hu : Execution.Unbroken s₂.result := by
      have ha : (m₂.settle n (s₂.map (.execute (plan.regroup behind)))).activity? n
          = some (.execute (plan.regroup behind) s₂.result) := by
        rw [activity?_settle ha₂, if_pos rfl]
        rfl
      exact hunbroken s₂.result (execution?_of_activity? ha)
    have ht₂' := ht₂
    rw [hl.alike.pool, hl.alike.context] at ht₂'
    rcases htwin.lead ht₂' hu with ⟨rfl, hpool, heffects, hask, lag', htwin'⟩ |
      ⟨place', s₁, ht₁, hask, hagree⟩
    · obtain ⟨hlinked, hsights⟩ := hl.unseen ha₁ ha₂ ht₂ hpool heffects
        (by rwa [hl.alike.pool]) htwin'
      exact .inl ⟨hsights, lag', hlinked⟩
    · obtain ⟨⟨notes', hn₁⟩, -, ⟨lag', hlinked⟩, hsights⟩ := hl.both ha₁ ha₂ ht₁ ht₂' hask hagree
      exact .inr ⟨_, _, notes', lag', hn₁, tame_own hl.unbroken.1, hlinked,
        hsights.symm⟩
  · obtain ⟨m₁', hn₁, halike, hsame₂, hsame₁⟩ :=
      hl.alike.symm.next hl.second hl.first (activity?_lt hl.second ha₂) hm hn
    rw [hl.alike.mover] at hm
    obtain ⟨hlinked, hsights⟩ := hl.other hm hn₁ hn halike.symm hsame₁ hsame₂ fun hmove _ t ha hw =>
      htame.abort hmove t ha _ hw hq
    refine .inr ⟨move, m₁', notes, lag, hn₁, ⟨hl.unbroken.1, fun hmove t ha lane hw => ?_⟩,
      hlinked, by rw [hsights]⟩
    cases (execution?_of_activity? ha₁).symm.trans ha
    exact htame.abort hmove t₂ (execution?_of_activity? ha₂) lane (htwin.undispatched hw)

/-- **What the second machine lags behind, it makes up for**, and nobody sees it. -/
theorem catchUp (quiet : Nat → Prop) (hl : Linked n plan behind lag m₁ m₂) : ∃ h m, m₂.Reaches h m ∧
    (∀ x ∈ h, x.1.Tame n quiet x.2) ∧ Linked n plan behind 0 m₁ m ∧ h.sights = [] := by
  induction lag generalizing m₂ with
  | zero => exact ⟨[], m₂, .start, fun _ hx => (by cases hx), hl, rfl⟩
  | succ lag ih =>
    obtain ⟨t₁, t₂, ha₁, ha₂, htwin⟩ := hl.twins
    obtain ⟨t, ht, hask, htwin'⟩ := htwin.catchUp (c := m₁.context) m₁.pool.config m₁.pool
    rw [← hl.alike.pool] at hask
    rw [← hl.alike.pool, ← hl.alike.context] at ht
    obtain ⟨hlinked, hsights⟩ := hl.unseen ha₁ ha₂ ht hl.alike.pool rfl hask htwin'
    obtain ⟨notes, hn, -⟩ := next_own ha₂ ht
    obtain ⟨h, m, hr, htame, hlast, hnone⟩ := ih hlinked
    have hmove : m₂.Tame n quiet (own n 0 none) := tame_own hl.unbroken.2
    refine ⟨_, m, (Reaches.start.next hn).append hr,
      List.forall_mem_append.2 ⟨List.forall_mem_singleton.2 hmove, htame⟩, hlast, ?_⟩
    rw [List.nil_append, History.sights_append, History.sights_singleton, hsights, hnone,
      List.nil_append]

/-- **The second machine follows a whole run of the first one.** -/
theorem followRun (hl : Linked n plan behind 0 m₁ m₂) (hr : m₁.Reaches h m₁')
    (htame : ∀ x ∈ h, x.1.Tame n quiet x.2) (hunbroken : m₁'.Unbroken n) :
    ∃ h' m, m₂.Reaches h' m ∧ (∀ x ∈ h', x.1.Tame n quiet x.2) ∧ Linked n plan behind 0 m₁' m ∧
      h'.sights.map (·.blur n (plan.lanes.length - (behind + 1)))
        = h.sights.map (·.blur n (plan.lanes.length - (behind + 1))) := by
  induction hr with
  | start => exact ⟨[], m₂, .start, htame, hl, rfl⟩
  | @next h m₁ m₁' move notes hr hn ih =>
    obtain ⟨hbefore, hmove⟩ := List.forall_mem_append.1 htame
    have hlast : m₁.Tame n quiet move := hmove _ (List.mem_singleton_self _)
    obtain ⟨h', m₂', hr', htame', hl', hsights⟩ := ih hbefore hlast.unbroken
    obtain ⟨move', m, notes', lag, hn', hlast', hlag, hsight⟩ := hl'.follow hn hlast hunbroken
    obtain ⟨hc, m', hrc, htamec, hlc, hnone⟩ := hlag.catchUp quiet
    refine ⟨_, m', (hr'.next hn').append hrc, List.forall_mem_append.2
      ⟨List.forall_mem_append.2 ⟨htame', List.forall_mem_singleton.2 hlast'⟩, htamec⟩, hlc, ?_⟩
    simp only [History.sights_append, History.sights_singleton, List.map_append, hsights, hsight,
      hnone, List.append_nil]

/-- **The first machine goes along with a whole run of the second one.** -/
theorem leadRun (hl : Linked n plan behind lag m₁ m₂) (hr : m₂.Reaches h m₂')
    (htame : ∀ x ∈ h, x.1.Tame n quiet x.2) (hunbroken : m₂'.Unbroken n)
    (hq : quiet (plan.lanes.length - (behind + 1))) :
    ∃ h' m lag', m₁.Reaches h' m ∧ (∀ x ∈ h', x.1.Tame n quiet x.2) ∧ Linked n plan behind lag' m m₂' ∧
      h'.sights.map (·.blur n (plan.lanes.length - (behind + 1)))
        = h.sights.map (·.blur n (plan.lanes.length - (behind + 1))) := by
  induction hr with
  | start => exact ⟨[], m₁, lag, .start, htame, hl, rfl⟩
  | @next h m₂ m₂' move notes hr hn ih =>
    obtain ⟨hbefore, hmove⟩ := List.forall_mem_append.1 htame
    have hlast : m₂.Tame n quiet move := hmove _ (List.mem_singleton_self _)
    obtain ⟨h', m₁', lag', hr', htame', hl', hsights⟩ := ih hbefore hlast.unbroken
    rcases hl'.lead hn hlast hunbroken hq with ⟨hnone, last, hlast'⟩ |
      ⟨move', m, notes', last, hn', hlast', hlinked, hsight⟩
    · refine ⟨h', m₁', last, hr', htame', hlast', ?_⟩
      rw [History.sights_append, History.sights_singleton, hnone, List.append_nil, hsights]
    · refine ⟨_, m, last, hr'.next hn',
        List.forall_mem_append.2 ⟨htame', List.forall_mem_singleton.2 hlast'⟩, hlinked, ?_⟩
      simp only [History.sights_append, History.sights_singleton, List.map_append, hsights, hsight]

/-- Linked executions end with the same. -/
theorem done_iff (hl : Linked n plan behind lag m₁ m₂) (result : Result) :
    (∃ t, m₁.activity? n = some (.execute plan t) ∧ t.leader = .done result) ↔
      ∃ t, m₂.activity? n = some (.execute (plan.regroup behind) t) ∧ t.leader = .done result := by
  obtain ⟨t₁, t₂, ha₁, ha₂, htwin⟩ := hl.twins
  constructor
  · rintro ⟨t, ha, hd⟩
    cases ha₁.symm.trans ha
    exact ⟨t₂, ha₂, htwin.done_iff.1 hd⟩
  · rintro ⟨t, ha, hd⟩
    cases ha₂.symm.trans ha
    exact ⟨t₁, ha₁, htwin.done_iff.2 hd⟩

end Linked

/-- **A single block and a group of only this block come to the same.** An execution is started in a
machine in any state: whatever its pool, the operations under way and the answers of the outside. What it
can end with, over all interleavings, is the same for a plan with a block as a lane of its own and for the
plan with the group of this block, without a merge, in its place. So is what is seen, in order: what is
asked of the outside and answered, the transitions, and all other events; and the pool that is left with its
timers. Only the event that starts the lane tells whether it is a group.

This is so as long as nothing of the execution panics outside a runner, and nobody wishes for an abort
just between the question for one before this lane and the dispatch of its block. -/
theorem lane_kinds_agree (ho : m₀.Ordered) (plan : Plan) (front back : List Lane) (block : String)
    (hq : quiet front.length) :
    Execution.Outcome.blur m₀.started front.length ''
        m₀.outcomes { plan with lanes := front ++ .block block :: back } quiet
      = Execution.Outcome.blur m₀.started front.length ''
        m₀.outcomes { plan with lanes := front ++ .group ⟨[block], none⟩ :: back } quiet := by
  generalize hplan : { plan with lanes := front ++ Lane.block block :: back } = plan₁
  have hregroup : plan₁.regroup back.length
      = { plan with lanes := front ++ .group ⟨[block], none⟩ :: back } := by
    rw [← hplan, Plan.regroup, Lane.regroup_append]
    rfl
  have hlane : plan₁.lanes.length - (back.length + 1) = front.length := by
    rw [← hplan, List.length_append, List.length_cons]
    omega
  have hlinked := Linked.start ho plan₁ back.length
  rw [← hregroup]
  ext o
  constructor
  · rintro ⟨o, ⟨h, m, t, hr, htame, hunbroken, ha, hd, hsights, hpool, halarms⟩, rfl⟩
    obtain ⟨h', m', hr', htame', hl, hsame⟩ := hlinked.followRun hr htame hunbroken
    obtain ⟨t', ha', hd'⟩ := (hl.done_iff o.result).1 ⟨t, ha, hd⟩
    rw [hlane] at hsame
    refine ⟨⟨o.result, h'.sights, m'.pool, m'.alarms⟩,
      ⟨h', m', t', hr', htame', hl.unbroken.2, ha', hd', rfl, rfl, rfl⟩, ?_⟩
    simp only [Execution.Outcome.blur, hsame, hsights, hpool, halarms, hl.alike.pool, hl.alike.alarms]
  · rintro ⟨o, ⟨h, m, t, hr, htame, hunbroken, ha, hd, hsights, hpool, halarms⟩, rfl⟩
    obtain ⟨h', m', lag, hr', htame', hl, hsame⟩ :=
      hlinked.leadRun hr htame hunbroken (by rwa [hlane])
    obtain ⟨t', ha', hd'⟩ := (hl.done_iff o.result).2 ⟨t, ha, hd⟩
    rw [hlane] at hsame
    refine ⟨⟨o.result, h'.sights, m'.pool, m'.alarms⟩,
      ⟨h', m', t', hr', htame', hl.unbroken.1, ha', hd', rfl, rfl, rfl⟩, ?_⟩
    simp only [Execution.Outcome.blur, hsame, hsights, hpool, halarms, hl.alike.pool, hl.alike.alarms]

/-- Of the two blocks of a plan one gets no sandbox, and the other fails while somebody wishes for an
abort. The same is possible when the other is a group of its own. -/
theorem lane_kinds_agree_aborted :
    let config : Config := { image := "img", maxSandboxes := 2 }
    let plan : Plan := { lanes := [.block "a", .block "b"] }
    let plan' : Plan := { lanes := [.block "a", .group ⟨["b"], none⟩] }
    let m₀ := ofPool (.ofConfig config 0) 0
    ∃ o ∈ m₀.outcomes plan (· = 1), (∃ f, o.result = .ok f ∧ f.failed.length = 2 ∧
        f.status = .aborted 2) ∧
      ∃ o' ∈ m₀.outcomes plan' (· = 1), o'.blur 0 1 = o.blur 0 1 := by
  intro config plan plan' m₀
  let moves : List Move := [.step 0 0, .step 0 0, .step 0 0, .step 0 0, .step 0 0, .step 0 0,
    .reply 0 0 (.created (.error (.api 500 "no"))), .step 0 0, .step 0 0, .step 0 0, .step 0 0,
    .step 0 0, .step 0 0, .step 0 0, .step 0 0, .reply 0 0 (.created (.ok "c1")), .step 0 0,
    .step 0 0, .reply 0 0 (.acted (.ok ())), .step 0 0, .reply 0 0 (.acted (.ok ())), .step 0 0,
    .step 0 0, .abort, .reply 0 0 (.ran ⟨true, .failed "no"⟩), .step 0 0, .step 0 0,
    .reply 0 0 (.acted (.ok ())), .step 0 0, .reply 0 0 (.acted (.ok ())), .step 0 0, .step 0 0,
    .step 0 0, .step 0 0, .step 0 0, .step 0 0, .step 0 0]
  have hrun : ((m₀.start (.execute plan Execution.start)).trace moves).any (fun x =>
      decide ((∀ y ∈ x.1, y.1.Tame 0 (· = 1) y.2) ∧ x.2.Unbroken 0) &&
        ((x.2.activity? 0).bind (·.finished?)).any fun f =>
          decide (f.2.failed.length = 2 ∧ f.2.status = .aborted 2)) = true := by
    decide +kernel
  obtain ⟨x, hx, hrun⟩ := (Option.any_eq_true _ _).1 hrun
  obtain ⟨htame, hrun⟩ := Bool.and_eq_true_iff.1 hrun
  obtain ⟨⟨plan₁, f⟩, hf, hfacts⟩ := (Option.any_eq_true _ _).1 hrun
  obtain ⟨htame, hunbroken⟩ := of_decide_eq_true htame
  have hr := reaches_of_trace hx
  have hstart : (m₀.start (.execute plan Execution.start)).Ordered :=
    ordered_start (ordered_ofPool _ _) (Team.ordered_start _)
  obtain ⟨t, ha⟩ := hr.exists_execution hstart (activity?_started (ordered_ofPool _ _) _)
  rw [show x.2.activity? 0 = some (.execute plan t) from ha] at hf
  obtain ⟨t', heq, hd⟩ := Activity.of_finished? hf
  cases heq
  have ho : (⟨.ok f, x.1.sights, x.2.pool, x.2.alarms⟩ : Execution.Outcome)
      ∈ m₀.outcomes plan (· = 1) :=
    ⟨x.1, x.2, t, hr, htame, hunbroken, ha, hd, rfl, rfl, rfl⟩
  have hsame : Execution.Outcome.blur 0 1 '' m₀.outcomes plan (· = 1)
      = Execution.Outcome.blur 0 1 '' m₀.outcomes plan' (· = 1) :=
    lane_kinds_agree (ordered_ofPool _ _) {} [.block "a"] [] "b" rfl
  obtain ⟨o', ho', hblur⟩ := hsame ▸ Set.mem_image_of_mem (Execution.Outcome.blur 0 1) ho
  exact ⟨_, ho, ⟨f, rfl, of_decide_eq_true hfacts⟩, o', ho', hblur⟩

end Machine

end SandboxPool
