import SandboxPool.Proofs.Execution.Strides
import SandboxPool.Proofs.Settled

/-!
# The end of an aborted execution

An execution that is aborted tears the pool down: it takes the list of the live sandboxes, has a member
terminate each of them, and ends when all members have (`Execution.Tears`). Whoever is reported as aborted
has taken the list (`Machine.Reaches.exists_list`), and from then on the execution has nothing in hand
but terminations (`Execution.ending_of_hand`). So while nobody else does anything to the pool, no new
sandbox gets its record (`Machine.Reaches.tearing`), and at the end no sandbox is live
(`Machine.Reaches.emptied`).
-/

namespace SandboxPool

namespace Execution

variable {config : Config} {plan : Plan} {c : Context} {p : Pool} {t : Run} {place : Nat}
  {sig : Option Signal} {sc : Scope Run}

/-- A member that only terminates a sandbox. -/
def Duty.Ends : Duty → Prop
  | .terminate .. => True
  | .run .. => False

/-- The execution has taken the list of sandboxes for its teardown. -/
inductive Listed : Strand Point Result → Prop where
  | cleared (s : Progress) (index : Nat) : Listed (.ready (.cleared s index))
  | finish (s : Progress) (index : Nat) : Listed (.ready (.finish s (.aborted index)))
  | done {f : Report} {index : Nat} (h : f.status = .aborted index) : Listed (.done (.ok f))

/-- The execution is to take this list, or has done so. -/
def Tears (s : Strand Point Result) : Prop :=
  (∃ progress index, s = .ready (.teardown progress index)) ∨ Listed s

/-- An execution takes its list in one stride. -/
theorem Listed.stride_or (hs : Stride config plan c p t place sig sc)
    (h : Listed sc.result.leader) : Listed t.leader ∨
      place = 0 ∧ ∃ progress index, t.leader = .ready (.teardown progress index) := by
  cases hs with
  | @solo s block b out sig s₀ hl h₀ =>
    obtain ⟨pool, effects, result⟩ := s₀
    cases result with
    | none => cases h
    | some next => cases next <;> cases h
  | spare hl | collect hl => exact .inr ⟨rfl, _, _, hl⟩
  | cleared hl =>
    rw [hl]
    exact .inl (.cleared ..)
  | @finish s status hl =>
    generalize he : report s status = f at h
    cases h with
    | done hstatus =>
      obtain rfl : status = .aborted _ := by
        rw [← he] at hstatus
        exact hstatus
      rw [hl]
      exact .inl (.finish ..)
  | member hm ht =>
    rw [Scope.map, Team.update_leader] at h
    exact .inl h
  | _ => cases h

/-- An execution that tears down goes on with it to its end. -/
theorem Tears.stride (h : Tears t.leader) (hs : Stride config plan c p t place sig sc) :
    Tears sc.result.leader := by
  cases hs with
  | @solo s block b out sig s₀ hl =>
    rw [hl] at h
    rcases h with ⟨_, _, h⟩ | h <;> cases out <;> cases h
  | spare => exact .inr (.finish ..)
  | collect => exact .inr (.cleared ..)
  | cleared => exact .inr (.finish ..)
  | finish hl =>
    rw [hl] at h
    rcases h with ⟨_, _, h⟩ | h
    · cases h
    · cases h
      exact .inr (.done rfl)
  | member =>
    rw [Scope.map, Team.update_leader]
    exact h
  | _ hl =>
    rw [hl] at h
    rcases h with ⟨_, _, h⟩ | h <;> cases h

/-- Where no members are hired to run blocks, members only terminate sandboxes. -/
theorem Stride.each_ends (ho : t.Ordered)
    (hl : ∀ s sent waiting, t.leader ≠ .ready (.dispatch s sent waiting))
    (h : t.Each (fun _ d => d.Ends) fun _ _ => True) (hs : Stride config plan c p t place sig sc) :
    sc.result.Each (fun _ d => d.Ends) fun _ _ => True := by
  cases hs with
  | hire hleader => exact absurd hleader (hl _ _ _)
  | collect =>
    refine ⟨fun x hx => ?_, h.ended⟩
    rcases List.mem_append.1 hx with hx | hx
    · exact h.active x hx
    · refine Team.each_enrol (P := fun _ d => d.Ends) (Q := fun _ _ => True) (fun task htask => ?_)
        x hx
      obtain ⟨r, -, rfl⟩ := List.mem_map.1 htask
      trivial
  | gather | cleared => exact ⟨h.active, fun x hx => by cases hx⟩
  | member hm ht =>
    refine h.update ho hm (ht.keeps (h.active _ (Team.mem_of_member? hm)) fun d hd => ?_)
    cases d with
    | run block b => cases hd
    | terminate id q => exact (Demand.ensures_true _).into (fun _ _ => trivial) fun _ _ => trivial
  | _ => exact ⟨h.active, h.ended⟩

/-- An execution that tears down has nothing in hand but terminations. -/
theorem ending_of_hand (hl : Tears t.leader) (h : t.Each (fun _ d => d.Ends) fun _ _ => True)
    {x : Nat × Post} (hx : x ∈ (Activity.execute plan t).posts) {y : Hand} (hy : y ∈ x.2.hand) :
    ∃ id port stage, y = .ending id port stage := by
  rcases List.mem_cons.1 hx with rfl | hx
  · have hnone : (Post.execute plan t.leader).hand = [] := by
      rcases hl with ⟨progress, index, hl⟩ | hl
      · simp only [Post.hand, hl, Strand.hand, hand]
      · generalize t.leader = leader at hl
        cases hl <;> rfl
    rw [hnone] at hy
    cases hy
  · obtain ⟨z, hz, rfl⟩ := List.mem_map.1 hx
    have hends := h.active z hz
    obtain ⟨out, d, hd, hmem⟩ := Strand.exists_of_mem_hand (f := Duty.hand) (g := fun _ => []) hy
      (by simp)
    have hterminates := Strand.Keeps.of_point? hends hd
    cases d with
    | run block b => cases hterminates
    | terminate id point =>
      cases point with
      | stop port => exact ⟨id, port, .stop, List.mem_singleton.1 hmem⟩
      | remove port => exact ⟨id, port, .remove, List.mem_singleton.1 hmem⟩
      | settle port => exact ⟨id, port, .settle, List.mem_singleton.1 hmem⟩
      | _ => cases hmem

end Execution

/-! ## When nobody else does anything -/

/-- The operation has ended, or it leaves the pool alone. -/
def Activity.still : Activity → Bool
  | cleanup _ => true
  | a => a.ended

/-- An operation that is still has nothing in hand but sandboxes that blocks run in. -/
theorem Activity.held_of_still {a : Activity} (hw : a.Awaited) (hg : a.Gathered)
    (h : a.still = true) {x : Nat × Post} (hx : x ∈ a.posts) {t : Hand} (ht : t ∈ x.2.hand) :
    t.held := by
  have hended : a.ended = true → t.held :=
    fun he => held_of_hand hw hg (not_underway_of_ended hg he) hx ht
  cases a with
  | cleanup team =>
    rcases List.mem_cons.1 hx with rfl | hx
    · cases ht
    · obtain ⟨z, -, rfl⟩ := List.mem_map.1 hx
      cases ht
  | _ => exact hended h

namespace Machine

variable {config : Config} {seed : BitVec 128} {pool : Pool} {now : Instant} {h h₁ h₂ : History}
  {m m₀ m₁ m' : Machine} {move : Move} {n : Nat} {plan : Plan} {t t₁ : Execution.Run}

/-- Nobody but one operation does anything to the pool. -/
def Undisturbed (m : Machine) (n : Nat) : Prop := ∀ a ∈ m.activities, a.1 ≠ n → a.2.still = true

instance (m : Machine) (n : Nat) : Decidable (m.Undisturbed n) :=
  inferInstanceAs (Decidable (∀ a ∈ m.activities, _))

/-- What is in hand beside an operation that is undisturbed. -/
theorem Reaches.held_or (hr : (ofPool pool now).Reaches h m) (hu : m.Undisturbed n) {x : Hand}
    (hx : x ∈ m.things) : x.held ∨
      ∃ a, m.activity? n = some a ∧ ∃ y ∈ a.posts, x ∈ y.2.hand := by
  obtain ⟨⟨k, x⟩, hmem, rfl⟩ := List.mem_map.1 hx
  obtain ⟨z, hz, hhand⟩ := mem_hands.1 hmem
  obtain ⟨a, ha, hpost⟩ := mem_posts.1 hz
  have hfound := activity?_of_mem hr.ordered_ofPool ha
  by_cases hk : k.1 = n
  · exact .inr ⟨a, hk ▸ hfound, _, hpost, hhand⟩
  · exact .inl (Activity.held_of_still (hr.awaited hfound) (hr.gathered hfound) (hu _ ha hk) hpost
      hhand)

/-- Whoever is reported as aborted has taken the list of the live sandboxes. -/
theorem Reaches.exists_list (ho : m₀.Ordered) (hr : m₀.Reaches h m)
    (hbase : ∀ t, m₀.activity? n = some (.execute plan t) → ¬ Execution.Listed t.leader)
    (horder : n < m₀.started) (ha : m.activity? n = some (.execute plan t))
    (hl : Execution.Listed t.leader) :
    ∃ h₁ m₁ move h₂ t₁ progress index, h = h₁ ++ (m₁, move) :: h₂ ∧ m₁.mover move = (n, 0) ∧
      m₁.activity? n = some (.execute plan t₁) ∧ t₁.leader = .ready (.teardown progress index) := by
  refine hr.executions (I := fun h t => Execution.Listed t.leader →
    ∃ h₁ m₁ move h₂ t₁ progress index, h = h₁ ++ (m₁, move) :: h₂ ∧ m₁.mover move = (n, 0) ∧
      m₁.activity? n = some (.execute plan t₁) ∧ t₁.leader = .ready (.teardown progress index))
    ho (fun t hbegin hl => absurd hl (hbase t hbegin)) ?_ ?_ ?_ ha hl
  · intro h m move hr he
    have hle := hr.started_le
    omega
  · rintro h m move t - ih hl
    obtain ⟨h₁, m₁, move₁, h₂, t₁, progress, index, rfl, hrest⟩ := ih hl
    exact ⟨h₁, m₁, move₁, h₂ ++ [(m, move)], t₁, progress, index, by simp, hrest⟩
  · intro h m m' move t place sig s hr hs ih hl
    rcases hl.stride_or hs.stride with hbefore | ⟨rfl, progress, index, hleader⟩
    · obtain ⟨h₁, m₁, move₁, h₂, t₁, progress, index, rfl, hrest⟩ := ih hbefore
      exact ⟨h₁, m₁, move₁, h₂ ++ [(m, move)], t₁, progress, index, by simp, hrest⟩
    · exact ⟨h, m, move, [], t, progress, index, rfl, hs.mover, hs.here, hleader⟩

/-- **While an execution tears down and nobody else does anything, no new sandbox gets its record.** -/
theorem Reaches.tearing (hr₁ : (ofPool pool now).Reaches h₁ m₁) (hr₂ : m₁.Reaches h₂ m)
    (ha₁ : m₁.activity? n = some (.execute plan t₁))
    (hl : ∃ progress index, t₁.leader = .ready (.teardown progress index))
    (hu : ∀ x ∈ h₂.map (·.1), x.Undisturbed n) (ha : m.activity? n = some (.execute plan t)) :
    Execution.Tears t.leader ∧ (t.Each (fun _ d => d.Ends) fun _ _ => True) ∧
      m.pool.records.map (·.id) = m₁.pool.records.map (·.id) := by
  -- nobody has a container in hand whose sandbox has no record
  have hids : ∀ {h : History} {m m' : Machine} {move : Move} {notes : List Note}
      {t : Execution.Run}, m₁.Reaches h m → m.next move = some (m', notes) → m.Undisturbed n →
      m.activity? n = some (.execute plan t) → Execution.Tears t.leader →
      (t.Each (fun _ d => d.Ends) fun _ _ => True) →
      m'.pool.records.map (·.id) = m.pool.records.map (·.id) := by
    intro h m m' move notes t hr hn hund hact htears heach
    have hall := hr₁.append hr
    obtain ⟨x, y, rest, q, hb, -, hmoves, hq⟩ := next_things hall.ordered_ofPool hn
    rw [hq.records]
    refine hmoves.map_id_eq fun id port hmade => ?_
    rcases hall.held_or hund (hb.mem_iff.2 (List.mem_append_left _ hmade)) with
      ⟨id', block, he⟩ | ⟨a, hfound, z, hz, hhand⟩
    · cases he
    · rw [hact] at hfound
      cases hfound
      obtain ⟨id', port', stage, he⟩ := Execution.ending_of_hand htears heach hz hhand
      cases he
  have hbehind : ∀ {h : History} {m : Machine} {move : Move},
      (∀ x ∈ (h ++ [(m, move)]).map (·.1), x.Undisturbed n) →
      (∀ x ∈ h.map (·.1), x.Undisturbed n) ∧ m.Undisturbed n := by
    intro h m move hall
    rw [List.map_append] at hall
    exact ⟨fun x hx => hall x (List.mem_append_left _ hx), hall m (by simp)⟩
  refine hr₂.along (I := fun h m t => (∀ x ∈ h.map (·.1), x.Undisturbed n) →
    Execution.Tears t.leader ∧ (t.Each (fun _ d => d.Ends) fun _ _ => True) ∧
      m.pool.records.map (·.id) = m₁.pool.records.map (·.id)) hr₁.ordered_ofPool ?_ ?_ ?_ ?_ ha hu
  · intro t hact _
    rw [ha₁] at hact
    cases hact
    have hnone : t₁.active = [] := by
      obtain ⟨progress, index, hl⟩ := hl
      rcases hr₁.gathered ha₁ with hnone | ⟨point, hleader, hwaits⟩
      · exact hnone
      · rw [hl] at hleader
        cases hleader
        cases hwaits
    refine ⟨.inl hl, ⟨fun x hx => ?_, fun _ _ _ _ => trivial⟩, rfl⟩
    rw [hnone] at hx
    cases hx
  · intro h m m' move notes hr hn he
    have hle := hr.started_le
    have hlt := activity?_lt hr₁.ordered_ofPool ha₁
    omega
  · intro h m m' move notes t hr hn _ hact ih hund
    obtain ⟨hbefore, hnow⟩ := hbehind hund
    obtain ⟨htears, heach, hsame⟩ := ih hbefore
    exact ⟨htears, heach, (hids hr hn hnow hact htears heach).trans hsame⟩
  · intro h m m' move t place sig s hr hs ih hund
    obtain ⟨hbefore, hnow⟩ := hbehind hund
    obtain ⟨htears, heach, hsame⟩ := ih hbefore
    obtain ⟨notes, hn, -⟩ := hs.next
    refine ⟨htears.stride hs.stride, hs.stride.each_ends hs.ordered ?_ heach,
      (hids hr hn hnow hs.here htears heach).trans hsame⟩
    intro progress sent waiting he
    rw [he] at htears
    rcases htears with ⟨_, _, h⟩ | h <;> cases h

/-- When an execution has ended and nobody else does anything, nobody has anything in hand but sandboxes
that blocks run in. -/
theorem Reaches.held_of_ended (hr : (ofPool pool now).Reaches h m) (hu : m.Undisturbed n)
    (ha : m.activity? n = some (.execute plan t)) (he : t.leader.ended = true) :
    ∀ x ∈ m.things, x.held := by
  intro x hx
  rcases hr.held_or hu hx with hheld | ⟨a, hfound, y, hy, hhand⟩
  · exact hheld
  · rw [ha] at hfound
    cases hfound
    have hgathered := hr.gathered ha
    exact Activity.held_of_hand (hr.awaited ha) hgathered
      (Activity.not_underway_of_ended hgathered he) hy hhand

/-- **An aborted execution leaves an empty pool**, if nobody else does anything to the pool from the
list of its teardown to its end. -/
theorem Reaches.emptied {f : Report} {index : Nat}
    (hp : Pool.create config seed = .ok pool)
    (hr : (ofPool pool now).Reaches (h₁ ++ (m₁, move) :: h₂) m)
    (hf : (h₁ ++ (m₁, move) :: h₂).Fresh) (hmover : m₁.mover move = (n, 0))
    (ha₁ : m₁.activity? n = some (.execute plan t₁))
    (hl : ∃ progress index, t₁.leader = .ready (.teardown progress index))
    (hu : ∀ x ∈ ((m₁, move) :: h₂).map (·.1) ++ [m], x.Undisturbed n)
    (ha : m.activity? n = some (.execute plan t)) (hdone : t.leader = .done (.ok f))
    (hstatus : f.status = .aborted index) :
    m.pool.liveCount = 0 ∧ m.pool.ports.available = config.ports.size := by
  obtain ⟨m₂, notes, hr₁, hn, hr₂⟩ := hr.split
  have hlast : m₁.Reaches ((m₁, move) :: h₂) m := (Reaches.start.next hn).append hr₂
  obtain ⟨-, -, hids⟩ := hr₁.tearing hlast ha₁ hl (fun x hx => hu x (List.mem_append_left _ hx)) ha
  have hheld := hr.held_of_ended (hu m (by simp)) ha (by rw [hdone]; rfl)
  have hbooks := hr.books hp hf
  -- a live sandbox would be on the list, and somebody would still terminate it
  have hend : ∀ r ∈ m.pool.records, r.live = false := by
    intro r hrec
    rw [Bool.eq_false_iff]
    intro hlive
    have hknown : r.id ∈ m₁.pool.records.map (·.id) := hids ▸ List.mem_map_of_mem hrec
    obtain ⟨r₁, hr₁', hid⟩ := List.mem_map.1 hknown
    have hlive₁ := (hr.past hp hf).live_before hbooks.named.distinct (by simp [History.pools]) hr₁'
      hrec hid hlive
    have hlisted : r.id ∈ (h₁ ++ (m₁, move) :: h₂).collected n := by
      obtain ⟨progress, index, hl⟩ := hl
      exact History.mem_collected (by simp) hmover ha₁ (by simp only [Activity.collecting, hl])
        (List.mem_map.2 ⟨r₁, List.mem_filter.2 ⟨hr₁', hlive₁⟩, hid⟩)
    rcases hr.doomed_or_terminating hp hf ha hlisted with hdoomed | hterminates
    · rcases (hbooks.named.distinct.doomed_iff hrec).1 hdoomed with hdead | hclaim
      · rw [hdead] at hlive
        cases hlive
      · obtain ⟨x, hx, port, stage, he⟩ := exists_ending hbooks hclaim
        obtain ⟨id, block, heq⟩ := hheld x.2 (List.mem_map_of_mem hx)
        rw [he] at heq
        cases heq
    · have hnot := hterminates.not_tornDown
      simp only [Activity.tornDown, hdone, hstatus] at hnot
      cases hnot
  have hnone : m.pool.liveCount = 0 := by
    unfold Pool.liveCount
    rw [List.length_eq_zero_iff]
    refine List.filter_eq_nil_iff.2 fun r hrec => ?_
    simp [hend r hrec]
  have hsize := hr.size_of_held hp hf hheld
  exact ⟨hnone, by omega⟩

end Machine

end SandboxPool
