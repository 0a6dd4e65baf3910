import SandboxPool.Proofs.Settled

/-!
# Operations that are over

An operation that has ended takes no turn any more, and none of its members is left behind
(`Machine.Reaches.over_of_ended`). So as long as nothing starts beside one operation, that one makes all
turns (`Machine.next_sole`).
-/

namespace SandboxPool

variable {κ σ α τ β : Type} {config : Config} {c : Context} {p : Pool} {place : Nat}
  {sig : Option Signal}

namespace Activity

variable {a : Activity} {s : Scope Activity}

/-- The operation has ended, and so have all its members. -/
def Over : Activity → Prop
  | acquire _ s => s.ended = true
  | release _ s => s.ended = true
  | terminate _ s => s.ended = true
  | prewarm _ t => t.leader.ended = true ∧ t.active = []
  | teardown t => t.leader.ended = true ∧ t.active = []
  | cleanup t => t.leader.ended = true ∧ t.active = []
  | execute _ t => t.leader.ended = true ∧ t.active = []

theorem Over.ended {a : Activity} (h : a.Over) : a.ended = true := by
  cases a with
  | acquire block s => exact h
  | release id s => exact h
  | terminate id s => exact h
  | _ => exact h.1

/-- The members of a cleanup are there only while it waits for them. -/
def Reclaims : Activity → Prop
  | cleanup t => t.Gathered fun
    | .gather => true
    | _ => false
  | _ => True

theorem reclaims_ofOrder (config : Config) (o : Order) : (ofOrder config o).Reclaims := by
  cases o with
  | cleanup => exact .inl rfl
  | _ => trivial

theorem Turn.reclaims (ht : a.Turn config c p place sig s) (h : a.Reclaims) : s.result.Reclaims := by
  cases ht with
  | cleanup ht =>
    refine Team.Turn.gathered ⟨fun {point d} hd => ?_, fun {point body} hd c p => ?_⟩ ht h
    · cases point with
      | gather => cases hd
      | _ => rfl
    · cases point with
      | compare containers =>
        cases hd
        show (Cleanup.compare containers p).result.1 = [] ∧ _ ∨
          ∃ q, (Cleanup.compare containers p).result.2 = _ ∧ _
        unfold Cleanup.compare
        split
        · exact .inl ⟨rfl, rfl⟩
        · exact .inr ⟨.gather, rfl, rfl⟩
      | _ => cases hd
  | _ => trivial

/-- Members that have ended are not there any more. -/
def Alive : Activity → Prop
  | prewarm _ t => t.Alive
  | teardown t => t.Alive
  | cleanup t => t.Alive
  | execute _ t => t.Alive
  | _ => True

theorem alive_ofOrder (config : Config) (o : Order) : (ofOrder config o).Alive := by
  have hempty : ∀ {κ σ α τ β : Type} (point : τ), (Team.start point : Team κ σ α τ β).Alive :=
    fun _ _ hx => by cases hx
  cases o with
  | prewarm => exact hempty _
  | teardown => exact hempty _
  | cleanup => exact hempty _
  | execute => exact hempty _
  | _ => trivial

theorem Turn.alive (ht : a.Turn config c p place sig s) (h : a.Alive) : s.result.Alive := by
  cases ht with
  | prewarm ht => exact Team.Turn.alive ht h
  | teardown ht => exact Team.Turn.alive ht h
  | cleanup ht => exact Team.Turn.alive ht h
  | execute ht => exact Team.Turn.alive ht h
  | _ => trivial

end Activity

theorem Strand.Turn.not_ended {demand : σ → Demand (Next σ α)} {st : Strand σ α}
    {sc : Scope (Strand σ α)} (h : st.Turn demand c p sig sc) : st.ended ≠ true := by
  obtain ⟨point, out, s, rfl, -, -⟩ := h.at_point
  cases out <;> exact Bool.false_ne_true

/-- A team that has ended and has no members takes no turn. -/
theorem Team.Turn.not_over {conduct : Conduct κ σ α τ β} {t : Team κ σ α τ β}
    {s : Scope (Team κ σ α τ β)} (h : t.Turn conduct c p place sig s) :
    ¬ (t.leader.ended = true ∧ t.active = []) := by
  rintro ⟨hended, hnone⟩
  cases h with
  | @demand point d out sig s hl =>
    rw [hl] at hended
    cases out <;> cases hended
  | hire hl =>
    rw [hl] at hended
    cases hended
  | join hl =>
    rw [hl] at hended
    cases hended
  | member hm =>
    have hmem := mem_of_member? hm
    rw [hnone] at hmem
    cases hmem

/-- An operation that is over takes no turn. -/
theorem Activity.Turn.not_over {a : Activity} {s : Scope Activity}
    (h : a.Turn config c p place sig s) : ¬ a.Over := by
  cases h with
  | acquire _ h => exact h.not_ended
  | release _ h => exact h.not_ended
  | terminate _ h => exact h.not_ended
  | prewarm h => exact h.not_over
  | teardown h => exact h.not_over
  | cleanup h => exact h.not_over
  | execute h => exact h.not_over

/-- The move starts something: a caller orders an operation, or the time of a sandbox has come. -/
def Move.starts : Move → Bool
  | .order _ | .fire _ => true
  | _ => false

namespace Machine

variable {m m' : Machine} {move : Move} {notes : List Note} {pool : Pool} {now : Instant}
  {h : History} {n k : Nat} {a : Activity}

/-- Members that are there have not ended. -/
theorem Reaches.alive (hr : (ofPool pool now).Reaches h m) (ha : m.activity? n = some a) : a.Alive :=
  hr.forall_activity Activity.alive_ofOrder (fun _ _ => trivial) (fun _ hl ht => ht.alive hl) ha

/-- An operation that has ended is over. -/
theorem Reaches.over_of_ended (hr : (ofPool pool now).Reaches h m) (ha : m.activity? n = some a)
    (he : a.ended = true) : a.Over := by
  have hreclaims : a.Reclaims := hr.forall_activity Activity.reclaims_ofOrder (fun _ _ => trivial)
    (fun _ hw ht => ht.reclaims hw) ha
  cases a with
  | acquire block s => exact he
  | release id s => exact he
  | terminate id s => exact he
  | prewarm count t => exact ⟨he, Team.Gathered.active_nil (hr.awaited ha) he⟩
  | teardown t => exact ⟨he, Team.Gathered.active_nil (hr.gathered ha) he⟩
  | cleanup t => exact ⟨he, Team.Gathered.active_nil hreclaims he⟩
  | execute plan t => exact ⟨he, Team.Gathered.active_nil (hr.gathered ha) he⟩

/-- All operations but one are over. -/
def Sole (m : Machine) (n : Nat) : Prop := ∀ k a, k ≠ n → m.activity? k = some a → a.Over

/-- An operation that starts when all others have ended is the only one. -/
theorem Reaches.sole_of_quiet (hr : (ofPool pool now).Reaches h m) (hq : m.quiet = true)
    (a : Activity) : (m.start a).Sole m.started := by
  intro k b hk hb
  rw [activity?_start hr.ordered_ofPool, if_neg hk] at hb
  exact hr.over_of_ended hb (List.all_eq_true.1 hq _ (activity?_mem hb))

/-- When the only operation has ended, all have. -/
theorem Sole.quiet (hs : m.Sole n) (ho : m.Ordered) (ha : m.activity? n = some a)
    (he : a.ended = true) : m.quiet = true := by
  refine List.all_eq_true.2 fun ⟨k, b⟩ hmem => ?_
  have hb := activity?_of_mem ho hmem
  by_cases hk : k = n
  · subst hk
    cases ha.symm.trans hb
    exact he
  · exact (hs k b hk hb).ended

/-- **As long as nothing starts beside one operation, that one makes all turns.** -/
theorem next_sole (ho : m.Ordered) (hs : m.Sole n) (hn : m.next move = some (m', notes))
    (hmove : move.starts = false) : m'.Sole n ∧
      ((m.mover move).1 = n ∨ m'.pool = m.pool ∧ m.signal? move = none) := by
  have hturn : ∀ {k place a sig s}, m.activity? k = some a →
      a.Turn m.pool.config m.context m.pool place sig s → k = n := by
    intro k place a sig s ha ht
    by_contra hne
    exact ht.not_over (hs k a hne ha)
  have hkeep : m'.started = m.started → m'.Sole n := by
    intro hstarted k b hk hb
    have hlt := activity?_lt (next_posts ho hn).1 hb
    cases next_course ho hn hb with
    | stay ha => exact hs k b hk ha
    | order o he => omega
    | fire he => omega
    | turn ha _ ht => exact absurd (hturn ha ht) hk
  cases move with
  | order o => cases hmove
  | fire generation => cases hmove
  | step k place =>
    refine ⟨hkeep (stepAt_frame hn).1, .inl ?_⟩
    obtain ⟨a, ha, hn⟩ := Option.bind_eq_some_iff.1 hn
    obtain ⟨s, hs, -⟩ := Option.map_eq_some_iff.1 hn
    exact hturn ha (Activity.turn_of_step hs)
  | reply k place r =>
    obtain ⟨a, ha, hn'⟩ := Option.bind_eq_some_iff.1 hn
    obtain ⟨b, hb, hn'⟩ := Option.map_eq_some_iff.1 hn'
    cases hn'
    exact ⟨hkeep rfl, .inl (hturn ha (Activity.turn_of_reply (c := m.context) (p := m.pool) hb))⟩
  | abort | advance | vary =>
    cases hn
    exact ⟨hkeep rfl, .inr ⟨rfl, rfl⟩⟩

end Machine

end SandboxPool
