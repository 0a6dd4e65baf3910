import SandboxPool.Proofs.Machine.Alarms
import SandboxPool.Proofs.Machine.Course

/-!
# Machines that differ in one operation

Two machines may be alike but for one operation (`Machine.Alike`). Whatever else moves, moves in both of
them alike (`Machine.Alike.next`). They stay alike when that operation moves in each of them in its own
way, as long as it does the same to the pool and to the ends that are set (`Machine.Alike.settle`).
-/

namespace SandboxPool

namespace Machine

variable {n k place : Nat} {m m₁ m₂ m' : Machine} {a a₁ a₂ : Activity} {s s₁ s₂ : Scope Activity}
  {move : Move} {notes : List Note}

/-- Two machines that are alike but for one operation. -/
structure Alike (n : Nat) (m₁ m₂ : Machine) : Prop where
  pool : m₂.pool = m₁.pool
  now : m₂.now = m₁.now
  aborted : m₂.aborted = m₁.aborted
  started : m₂.started = m₁.started
  alarms : m₂.alarms = m₁.alarms
  leeway : m₂.leeway = m₁.leeway
  others : ∀ k, k ≠ n → m₂.activity? k = m₁.activity? k

namespace Alike

theorem symm (h : Alike n m₁ m₂) : Alike n m₂ m₁ :=
  ⟨h.pool.symm, h.now.symm, h.aborted.symm, h.started.symm, h.alarms.symm, h.leeway.symm,
    fun k hk => (h.others k hk).symm⟩

theorem context (h : Alike n m₁ m₂) : m₂.context = m₁.context := by
  unfold Machine.context
  rw [h.now, h.aborted, h.leeway]

/-- The operation is replaced where it stands. -/
theorem put (h : Alike n m₁ m₂) (ha : m₂.activity? n = some a) (b : Activity) :
    Alike n m₁ (m₂.put n b) :=
  ⟨h.pool, h.now, h.aborted, h.started, h.alarms, h.leeway, fun k hk => by
    rw [activity?_put ha, if_neg hk, h.others k hk]⟩

/-- An operation of both moves, to the same end unless it is the one in which they differ. -/
theorem settle (h : Alike n m₁ m₂) (ha₁ : m₁.activity? k = some a₁) (ha₂ : m₂.activity? k = some a₂)
    (hp : s₂.pool = s₁.pool)
    (he : ∀ alarms, s₂.effects.foldl Effect.ring alarms = s₁.effects.foldl Effect.ring alarms)
    (hr : k ≠ n → s₂.result = s₁.result) : Alike n (m₁.settle k s₁) (m₂.settle k s₂) := by
  refine ⟨?_, ?_, ?_, ?_, ?_, ?_, fun j hj => ?_⟩
  · simp only [Machine.settle, foldl_apply_eq]
    exact hp
  · simp only [Machine.settle, foldl_apply_eq]
    exact h.now
  · simp only [Machine.settle, foldl_apply_eq]
    exact h.aborted
  · simp only [Machine.settle, foldl_apply_eq]
    exact h.started
  · simp only [Machine.settle, foldl_apply_eq]
    show s₂.effects.foldl _ m₂.alarms = s₁.effects.foldl _ m₁.alarms
    rw [he, h.alarms]
  · simp only [Machine.settle, foldl_apply_eq]
    exact h.leeway
  · rw [activity?_settle ha₁, activity?_settle ha₂]
    split
    · next hk => exact congrArg some (hr (hk ▸ hj))
    · exact h.others j hj

theorem start (ho₁ : m₁.Ordered) (ho₂ : m₂.Ordered) (h : Alike n m₁ m₂) (a : Activity) :
    Alike n (m₁.start a) (m₂.start a) :=
  ⟨h.pool, h.now, h.aborted, congrArg (· + 1) h.started, h.alarms, h.leeway, fun k hk => by
    rw [activity?_start ho₁, activity?_start ho₂, h.started, h.others k hk]⟩

/-- Another operation takes a step. -/
theorem stepAt (h : Alike n m₁ m₂) (hk : k ≠ n) (hn : m₁.stepAt k place = some (m', notes)) :
    ∃ m'', m₂.stepAt k place = some (m'', notes) ∧ Alike n m' m'' ∧
      m'.activity? n = m₁.activity? n ∧ m''.activity? n = m₂.activity? n := by
  obtain ⟨a, ha, hn⟩ := Option.bind_eq_some_iff.1 hn
  obtain ⟨s, hs, hn⟩ := Option.map_eq_some_iff.1 hn
  simp only [Prod.mk.injEq] at hn
  obtain ⟨rfl, rfl⟩ := hn
  have ha₂ : m₂.activity? k = some a := (h.others k hk).trans ha
  refine ⟨m₂.settle k s, ?_, h.settle ha ha₂ rfl (fun _ => rfl) fun _ => rfl, ?_, ?_⟩
  · unfold Machine.stepAt
    rw [ha₂, h.pool, h.context, Option.bind_some, hs]
    rfl
  · rw [activity?_settle ha, if_neg hk.symm]
  · rw [activity?_settle ha₂, if_neg hk.symm]

/-- **Whatever else moves, moves in both machines alike.** -/
theorem next (ho₁ : m₁.Ordered) (ho₂ : m₂.Ordered) (h : Alike n m₁ m₂) (hlt : n < m₁.started)
    (hm : (m₁.mover move).1 ≠ n) (hn : m₁.next move = some (m', notes)) :
    ∃ m'', m₂.next move = some (m'', notes) ∧ Alike n m' m'' ∧
      m'.activity? n = m₁.activity? n ∧ m''.activity? n = m₂.activity? n := by
  have hne : n ≠ m₁.started := Nat.ne_of_lt hlt
  cases move with
  | order o =>
    simp only [Machine.next, Option.some.injEq, Prod.mk.injEq] at hn
    obtain ⟨rfl, rfl⟩ := hn
    refine ⟨m₂.start (.ofOrder m₁.pool.config o), ?_, h.start ho₁ ho₂ _, ?_, ?_⟩
    · simp only [Machine.next, h.pool]
    · rw [activity?_start ho₁, if_neg hne]
    · rw [activity?_start ho₂, h.started, if_neg hne]
  | step k place => exact h.stepAt hm hn
  | reply k place r =>
    obtain ⟨a, ha, hn⟩ := Option.bind_eq_some_iff.1 hn
    obtain ⟨b, hb, hn⟩ := Option.map_eq_some_iff.1 hn
    simp only [Prod.mk.injEq] at hn
    obtain ⟨rfl, rfl⟩ := hn
    have hk : n ≠ k := Ne.symm hm
    have ha₂ : m₂.activity? k = some a := (h.others k hk.symm).trans ha
    refine ⟨m₂.put k b, ?_, ⟨h.pool, h.now, h.aborted, h.started, h.alarms, h.leeway, fun j hj => ?_⟩,
      ?_, ?_⟩
    · show Option.bind _ _ = _
      rw [ha₂, h.pool, Option.bind_some, hb]
      rfl
    · rw [activity?_put ha, activity?_put ha₂, h.others j hj]
    · rw [activity?_put ha, if_neg hk]
    · rw [activity?_put ha₂, if_neg hk]
  | fire generation =>
    simp only [Machine.next, Option.bind_eq_some_iff] at hn
    obtain ⟨alarm, halarm, hn⟩ := hn
    split at hn
    · next hdue =>
      have hcalm : Alike n
          { m₁ with alarms := m₁.alarms.filter (·.generation != alarm.generation) }
          { m₂ with alarms := m₂.alarms.filter (·.generation != alarm.generation) } :=
        ⟨h.pool, h.now, h.aborted, h.started, by rw [h.alarms], h.leeway, h.others⟩
      have ho₁' : Ordered { m₁ with
        alarms := m₁.alarms.filter (·.generation != alarm.generation) } := ⟨ho₁.numbers, ho₁.members⟩
      have ho₂' : Ordered { m₂ with
        alarms := m₂.alarms.filter (·.generation != alarm.generation) } := ⟨ho₂.numbers, ho₂.members⟩
      obtain ⟨m'', hnext, halike, hsame₁, hsame₂⟩ :=
        (hcalm.start ho₁' ho₂' (.terminate alarm.id (.ready (.expire alarm.generation)))).stepAt
          hne.symm hn
      refine ⟨m'', ?_, halike, ?_, ?_⟩
      · simp only [Machine.next, h.alarms, halarm, Option.bind_some, h.now, if_pos hdue]
        rw [← h.started] at hnext
        exact hnext
      · rw [hsame₁, activity?_start ho₁', if_neg hne]
        rfl
      · rw [hsame₂, activity?_start ho₂', if_neg (h.started ▸ hne)]
        rfl
    · cases hn
  | abort =>
    simp only [Machine.next, Option.some.injEq, Prod.mk.injEq] at hn
    obtain ⟨rfl, rfl⟩ := hn
    exact ⟨_, rfl, ⟨h.pool, h.now, rfl, h.started, h.alarms, h.leeway, h.others⟩, rfl, rfl⟩
  | advance nanos =>
    simp only [Machine.next, Option.some.injEq, Prod.mk.injEq] at hn
    obtain ⟨rfl, rfl⟩ := hn
    exact ⟨_, rfl, ⟨h.pool, congrArg (· + nanos) h.now, h.aborted, h.started, h.alarms, h.leeway,
      h.others⟩, rfl, rfl⟩
  | vary leeway =>
    simp only [Machine.next, Option.some.injEq, Prod.mk.injEq] at hn
    obtain ⟨rfl, rfl⟩ := hn
    exact ⟨_, rfl, ⟨h.pool, h.now, h.aborted, h.started, h.alarms, rfl, h.others⟩, rfl, rfl⟩

/-- Whatever else moves, asks the same question or gets the same reply. -/
theorem talk? (h : Alike n m₁ m₂) (hm : (m₁.mover move).1 ≠ n) : m₂.talk? move = m₁.talk? move := by
  cases move with
  | step k place => simp only [Machine.talk?, h.others k hm, h.pool]
  | reply k place r => simp only [Machine.talk?, h.others k hm, h.pool]
  | _ => rfl

theorem mover (h : Alike n m₁ m₂) : m₂.mover move = m₁.mover move := by
  cases move <;> simp only [Machine.mover, h.started]

end Alike

end Machine

end SandboxPool
