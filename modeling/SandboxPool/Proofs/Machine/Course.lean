import SandboxPool.Proofs.Machine.Books

/-!
# Operations on their way

`Machine.Course` lists all that a move can do to one operation of a machine: it stays as it was, it
has just started, or it has taken a turn (`Machine.next_course`). So what every turn of an operation
keeps is true of all operations of a run (`Machine.Reaches.forall_activity`), and what an operation
has done in its own moves can be read off a history (`History.deeds`).

`Machine.Withstands` are the runs in which members of an execution may also break off.
-/

namespace SandboxPool

namespace Machine

variable {m m' : Machine} {move : Move} {notes : List Note} {n k : Nat} {a b : Activity}

theorem activity?_put (h : m.activity? n = some a) (b : Activity) :
    (m.put n b).activity? k = if k = n then some b else m.activity? k := by
  unfold activity? at h ⊢
  obtain ⟨⟨n', a'⟩, hf, rfl⟩ := Option.map_eq_some_iff.1 h
  unfold put
  simp only [List.find?_map]
  split
  · next he =>
    subst he
    have hsame : ((fun x : Nat × Activity => x.1 == k) ∘ fun old => if old.1 == k then (k, b) else old)
        = fun x => x.1 == k := by
      funext x
      by_cases hx : x.1 = k <;> simp [hx]
    have hk : n' = k := by simpa using List.find?_some hf
    simp only [hsame, hf, Option.map_some, hk, beq_self_eq_true, if_true]
  · next hne =>
    have hsame : ((fun x : Nat × Activity => x.1 == k) ∘ fun old => if old.1 == n then (n, b) else old)
        = fun x => x.1 == k := by
      funext x
      by_cases hx : x.1 = n
      · simp [hx]
      · simp [hx]
    simp only [hsame]
    cases hg : m.activities.find? (·.1 == k) with
    | none => rfl
    | some y =>
      have hy : y.1 = k := by simpa using List.find?_some hg
      have hyn : ¬ y.1 = n := fun he => hne (hy.symm.trans he)
      simp [hyn]

theorem activity?_settle (h : m.activity? n = some a) (s : Scope Activity) :
    (m.settle n s).activity? k = if k = n then some s.result else m.activity? k := by
  obtain ⟨alarms, hfold⟩ := foldl_apply ({ m with pool := s.pool }.put n s.result) s.effects
  have hsettle : m.settle n s = { { m with pool := s.pool }.put n s.result with alarms := alarms } :=
    hfold
  rw [hsettle]
  exact activity?_put (m := { m with pool := s.pool }) h s.result

theorem activity?_lt (ho : m.Ordered) (h : m.activity? n = some a) : n < m.started := by
  have hmem : n ∈ m.activities.map (·.1) := List.mem_map.2 ⟨_, activity?_mem h, rfl⟩
  rw [ho.numbers] at hmem
  exact List.mem_range.1 hmem

theorem exists_activity (ho : m.Ordered) (h : n < m.started) : ∃ a, m.activity? n = some a := by
  have hmem : n ∈ m.activities.map (·.1) := by
    rw [ho.numbers]
    exact List.mem_range.2 h
  obtain ⟨⟨k, a⟩, ha, rfl⟩ := List.mem_map.1 hmem
  exact ⟨a, activity?_of_mem ho ha⟩

theorem activity?_start (ho : m.Ordered) (a : Activity) :
    (m.start a).activity? k = if k = m.started then some a else m.activity? k := by
  split
  · next he =>
    subst he
    exact activity?_started ho a
  · next hne =>
    unfold activity? start
    rw [List.find?_append]
    have hnone : [(m.started, a)].find? (·.1 == k) = none := by
      simp [Ne.symm hne]
    rw [hnone, Option.or_none]

/-- A step neither starts an operation nor asks for an abort. -/
theorem stepAt_frame {place : Nat} (hn : m.stepAt n place = some (m', notes)) :
    m'.started = m.started ∧ m'.aborted = m.aborted := by
  obtain ⟨a, -, hn⟩ := Option.bind_eq_some_iff.1 hn
  obtain ⟨s, -, hn⟩ := Option.map_eq_some_iff.1 hn
  simp only [Prod.mk.injEq] at hn
  obtain ⟨alarms, hfold⟩ := foldl_apply ({ m with pool := s.pool }.put n s.result) s.effects
  have hsettle : m.settle n s = { { m with pool := s.pool }.put n s.result with
    alarms := alarms } := hfold
  rw [← hn.1, hsettle]
  exact ⟨rfl, rfl⟩

/-- No move takes back the start of an operation. -/
theorem started_le (hn : m.next move = some (m', notes)) : m.started ≤ m'.started := by
  cases move with
  | order o =>
    cases hn
    exact Nat.le_succ _
  | step n place => exact Nat.le_of_eq (stepAt_frame hn).1.symm
  | reply n place r =>
    obtain ⟨a, -, hn⟩ := Option.bind_eq_some_iff.1 hn
    obtain ⟨b, -, hn⟩ := Option.map_eq_some_iff.1 hn
    cases hn
    exact Nat.le_refl _
  | fire generation =>
    simp only [next, Option.bind_eq_some_iff] at hn
    obtain ⟨alarm, -, hn⟩ := hn
    split at hn
    · rw [(stepAt_frame hn).1]
      exact Nat.le_succ _
    · cases hn
  | abort | advance | vary =>
    cases hn
    exact Nat.le_refl _

theorem Reaches.started_le {m₀ : Machine} {h : History} (hr : m₀.Reaches h m) :
    m₀.started ≤ m.started := by
  induction hr with
  | start => exact Nat.le_refl _
  | next _ hn ih => exact Nat.le_trans ih (Machine.started_le hn)

/-- No move takes back the wish for an abort. -/
theorem next_aborted (hn : m.next move = some (m', notes)) (ha : m.aborted = true) :
    m'.aborted = true := by
  cases move with
  | order o =>
    cases hn
    exact ha
  | step n place => exact (stepAt_frame hn).2.trans ha
  | reply n place r =>
    obtain ⟨a, -, hn⟩ := Option.bind_eq_some_iff.1 hn
    obtain ⟨b, -, hn⟩ := Option.map_eq_some_iff.1 hn
    cases hn
    exact ha
  | fire generation =>
    simp only [next, Option.bind_eq_some_iff] at hn
    obtain ⟨alarm, -, hn⟩ := hn
    split at hn
    · exact (stepAt_frame hn).2.trans ha
    · cases hn
  | abort =>
    cases hn
    rfl
  | advance | vary =>
    cases hn
    exact ha

/-- **The wish for an abort is sticky.** -/
theorem Reaches.aborted {m₀ : Machine} {h : History} (ha : m₀.aborted = true)
    (hr : m₀.Reaches h m) : m.aborted = true ∧ ∀ x ∈ h, x.1.aborted = true := by
  induction hr with
  | start => exact ⟨ha, fun x hx => by cases hx⟩
  | next _ hn ih =>
    refine ⟨next_aborted hn ih.1, fun x hx => ?_⟩
    rcases List.mem_append.1 hx with hx | hx
    · exact ih.2 x hx
    · obtain rfl := List.mem_singleton.1 hx
      exact ih.1

/-- What a move asks the outside for, or is told, whether or not that is signalled. -/
def talk? (m : Machine) : Move → Option Signal
  | .step n place => (m.activity? n).bind fun a => (a.ask? m.pool.config place).map .sent
  | .reply n place r => (m.activity? n).bind fun a => (a.ask? m.pool.config place).map (.got · r)
  | _ => none

/-- An operation behind a move: it is as it was, or it has just started, or it has taken a turn. -/
inductive Course (m : Machine) (n : Nat) (m' : Machine) (move : Move) (notes : List Note) :
    Activity → Prop where
  | stay {a : Activity} (ha : m.activity? n = some a) (hm : (m.mover move).1 ≠ n) :
      Course m n m' move notes a
  | order (o : Order) (hn : n = m.started) :
      Course m n m' move notes (.ofOrder m.pool.config o)
  | fire (hn : n = m.started) (id : String) (s : Strand Termination.Point Termination.Result) :
      Course m n m' move notes (.terminate id s)
  | turn {place : Nat} {a : Activity} {sig : Option Signal} {s : Scope Activity}
      (ha : m.activity? n = some a) (hk : m.mover move = (n, place))
      (ht : a.Turn m.pool.config m.context m.pool place sig s) (hp : m'.pool = s.pool)
      (hnotes : notes.filterMap (·.event?) = s.effects.filterMap (·.event?))
      (htalk : m.talk? move = sig) : Course m n m' move notes s.result

/-- **All that a move does to an operation.** -/
theorem next_course (ho : m.Ordered) (hn : m.next move = some (m', notes))
    (hb : m'.activity? n = some b) : m.Course n m' move notes b := by
  cases move with
  | order o =>
    simp only [next, Option.some.injEq, Prod.mk.injEq] at hn
    obtain ⟨rfl, -⟩ := hn
    rw [activity?_start ho] at hb
    split at hb
    · next he =>
      cases hb
      exact .order o he
    · next hne => exact .stay hb (Ne.symm hne)
  | step k place =>
    obtain ⟨a, ha, hn⟩ := Option.bind_eq_some_iff.1 hn
    obtain ⟨s, hs, hn⟩ := Option.map_eq_some_iff.1 hn
    simp only [Prod.mk.injEq] at hn
    obtain ⟨rfl, rfl⟩ := hn
    rw [activity?_settle ha] at hb
    split at hb
    · next he =>
      subst he
      cases hb
      have hturn := Activity.turn_of_step hs
      obtain ⟨-, hpool, -⟩ := settle_posts ho ha (hturn.ordered (ho.members _ (activity?_mem ha)))
      exact .turn ha rfl hturn hpool (events_notes _ _) (congrArg (Option.bind · _) ha)
    · next hne => exact .stay hb (Ne.symm hne)
  | reply k place r =>
    obtain ⟨a, ha, hn⟩ := Option.bind_eq_some_iff.1 hn
    obtain ⟨b', hb', hn⟩ := Option.map_eq_some_iff.1 hn
    simp only [Prod.mk.injEq] at hn
    obtain ⟨rfl, rfl⟩ := hn
    rw [activity?_put ha] at hb
    split at hb
    · next he =>
      subst he
      cases hb
      have hturn := Activity.turn_of_reply (c := m.context) (p := m.pool) hb'
      exact .turn ha rfl hturn rfl rfl (congrArg (Option.bind · _) ha)
    · next hne => exact .stay hb (Ne.symm hne)
  | fire generation =>
    simp only [next, Option.bind_eq_some_iff] at hn
    obtain ⟨alarm, -, hn⟩ := hn
    split at hn
    · unfold expire stepAt at hn
      generalize hcalm : ({ m with
        alarms := m.alarms.filter (·.generation != alarm.generation) } : Machine) = calm at hn
      have hoc : calm.Ordered := by rw [← hcalm]; exact ⟨ho.numbers, ho.members⟩
      have hstarted : calm.started = m.started := by rw [← hcalm]
      have hsame : calm.activity? n = m.activity? n := by rw [← hcalm]; rfl
      obtain ⟨a, ha, hn⟩ := Option.bind_eq_some_iff.1 hn
      obtain ⟨s, hs, hn⟩ := Option.map_eq_some_iff.1 hn
      simp only [Prod.mk.injEq] at hn
      obtain ⟨rfl, -⟩ := hn
      rw [activity?_settle ha] at hb
      split at hb
      · next he =>
        cases hb
        rw [← hstarted] at ha
        obtain rfl := Option.some.inj ((activity?_started hoc _).symm.trans ha)
        obtain ⟨-, hs⟩ := Activity.only_eq_some hs
        obtain ⟨s₀, -, rfl⟩ := Option.map_eq_some_iff.1 hs
        exact .fire he _ _
      · next hne =>
        rw [activity?_start hoc, hstarted, if_neg hne, hsame] at hb
        exact .stay hb (Ne.symm hne)
    · cases hn
  | abort | advance | vary =>
    simp only [next, Option.some.injEq, Prod.mk.injEq] at hn
    obtain ⟨rfl, -⟩ := hn
    exact .stay hb (Nat.ne_of_gt (activity?_lt ho hb))

/-- An execution stays one. -/
theorem Reaches.exists_execution {m₀ : Machine} {h : History} {plan : Plan} {t₀ : Execution.Run}
    (ho : m₀.Ordered) (hr : m₀.Reaches h m) (h₀ : m₀.activity? n = some (.execute plan t₀)) :
    ∃ t, m.activity? n = some (.execute plan t) := by
  induction hr with
  | start => exact ⟨t₀, h₀⟩
  | @next h m m' move notes hr hn ih =>
    have hom := hr.ordered ho
    obtain ⟨t, ht⟩ := ih
    have hlt := activity?_lt hom ht
    obtain ⟨b, hb⟩ := exists_activity (next_posts hom hn).1 (Nat.lt_of_lt_of_le hlt (Machine.started_le hn))
    cases next_course hom hn hb with
    | stay ha hm =>
      cases ha.symm.trans ht
      exact ⟨t, hb⟩
    | order o he => omega
    | fire he => omega
    | turn ha hk hturn hp hnotes =>
      cases ha.symm.trans ht
      cases hturn with
      | execute hturn => exact ⟨_, hb⟩

end Machine

/-! ## What operations have done -/

namespace History

variable {β : Type} {f : Machine → Move → Activity → List β} {h : History} {m : Machine}
  {move : Move} {n : Nat}

/-- What an operation has done in its own moves, where `f` tells what one move does. -/
def deeds (f : Machine → Move → Activity → List β) (h : History) (n : Nat) : List β :=
  h.flatMap fun x =>
    if (x.1.mover x.2).1 = n then (x.1.activity? n).elim [] (f x.1 x.2) else []

theorem deeds_append : (h ++ [(m, move)]).deeds f n = h.deeds f n ++
    if (m.mover move).1 = n then (m.activity? n).elim [] (f m move) else [] := by
  unfold deeds
  rw [List.flatMap_append, List.flatMap_cons, List.flatMap_nil, List.append_nil]

/-- Somebody else moves. -/
theorem deeds_stay (hm : (m.mover move).1 ≠ n) :
    (h ++ [(m, move)]).deeds f n = h.deeds f n := by
  rw [deeds_append, if_neg hm, List.append_nil]

/-- The operation moves. -/
theorem deeds_turn {a : Activity} (hm : (m.mover move).1 = n) (ha : m.activity? n = some a) :
    (h ++ [(m, move)]).deeds f n = h.deeds f n ++ f m move a := by
  rw [deeds_append, if_pos hm, ha]
  rfl

end History

namespace Machine

/-- A member of an execution that runs a block breaks off with a message. The gate opens if it was this
member that held it. -/
def lose (m : Machine) (n serial : Nat) (message : String) (opens : Bool) : Option Machine :=
  match m.activity? n with
  | some (.execute plan t) =>
    (t.member? serial).bind fun x =>
      match x.strand.point? with
      | some (.run ..) =>
        some ({ m with pool := { m.pool with gateHeld := m.pool.gateHeld && !opens } }.put n
          (.execute plan (t.update x (.panicked message))))
      | _ => none
  | _ => none

theorem lose_eq_some {m m' : Machine} {n serial : Nat} {message : String} {opens : Bool}
    (h : m.lose n serial message opens = some m') : ∃ plan t x,
      m.activity? n = some (.execute plan t) ∧ t.member? serial = some x ∧
        m' = { m with pool := { m.pool with gateHeld := m.pool.gateHeld && !opens } }.put n
          (.execute plan (t.update x (.panicked message))) := by
  unfold lose at h
  split at h
  · next plan t ha =>
    obtain ⟨x, hx, h⟩ := Option.bind_eq_some_iff.1 h
    split at h
    · exact ⟨plan, t, x, ha, hx, (Option.some.inj h).symm⟩
    · cases h
  · cases h

/-- A machine that is reached from another one, where a member of an execution that runs a block may
also break off, at any time and with any message. -/
inductive Withstands (m₀ : Machine) : History → Machine → Prop where
  | start : Withstands m₀ [] m₀
  | next {h : History} {m m' : Machine} {move : Move} {notes : List Note} (hr : Withstands m₀ h m)
      (hn : m.next move = some (m', notes)) : Withstands m₀ (h ++ [(m, move)]) m'
  | loss {h : History} {m m' : Machine} {n serial : Nat} {message : String} {opens : Bool}
      (hr : Withstands m₀ h m) (hl : m.lose n serial message opens = some m') : Withstands m₀ h m'

theorem Withstands.append {m₀ m₁ m₂ : Machine} {h₁ h₂ : History} (hr : m₀.Withstands h₁ m₁)
    (hs : m₁.Reaches h₂ m₂) : m₀.Withstands (h₁ ++ h₂) m₂ := by
  induction hs with
  | start => rwa [List.append_nil]
  | next _ hn ih => rw [← List.append_assoc]; exact ih.next hn

theorem Reaches.withstands {m₀ : Machine} {h : History} (hr : m₀.Reaches h m) :
    m₀.Withstands h m := Withstands.start.append hr

/-- The operations are numbered as they started, now and before. -/
theorem Withstands.ordered {pool : Pool} {now : Instant} {h : History}
    (hr : (ofPool pool now).Withstands h m) :
    m.Ordered ∧ ∀ x ∈ h, x.1.Ordered ∧ x.1.started ≤ m.started := by
  induction hr with
  | start => exact ⟨ordered_ofPool pool now, fun x hx => by cases hx⟩
  | next hr hn ih =>
    obtain ⟨ho, hpast⟩ := ih
    refine ⟨(next_posts ho hn).1, fun x hx => ?_⟩
    rcases List.mem_append.1 hx with hx | hx
    · exact ⟨(hpast x hx).1, Nat.le_trans (hpast x hx).2 (started_le hn)⟩
    · obtain rfl := List.mem_singleton.1 hx
      exact ⟨ho, started_le hn⟩
  | @loss h m m' n serial message opens hr hl ih =>
    obtain ⟨ho, hpast⟩ := ih
    obtain ⟨plan, t, x, ha, hx, rfl⟩ := lose_eq_some hl
    have hot : t.Ordered := ho.members _ (activity?_mem ha)
    have hb : (Activity.execute plan (t.update x (.panicked message))).Ordered :=
      Team.ordered_update hot hx _
    have hsame : Ordered
        { m with pool := { m.pool with gateHeld := m.pool.gateHeld && !opens } } :=
      ⟨ho.numbers, ho.members⟩
    exact ⟨(posts_put hsame ha hb).1, hpast⟩

theorem Withstands.config_eq {pool : Pool} {now : Instant} {h : History}
    (hr : (ofPool pool now).Withstands h m) : m.pool.config = pool.config := by
  induction hr with
  | start => rfl
  | next hr hn ih => exact (next_things hr.ordered.1 hn).config_eq.trans ih
  | loss hr hl ih =>
    obtain ⟨plan, t, x, -, -, rfl⟩ := lose_eq_some hl
    exact ih

theorem Reaches.config_eq {pool : Pool} {now : Instant} {h : History}
    (hr : (ofPool pool now).Reaches h m) : m.pool.config = pool.config :=
  hr.withstands.config_eq

/-- What an execution has at its start, and every turn and every member that breaks off keep, it has
wherever the machine gets. -/
theorem Withstands.executions {I : Execution.Run → Prop} {plan : Plan} {t : Execution.Run}
    {pool : Pool} {now : Instant} {h : History} (hr : (ofPool pool now).Withstands h m)
    (hstart : I Execution.start)
    (hturn : ∀ {c p t place sig s}, p.config = pool.config → t.Ordered → I t →
      t.Turn (Execution.conduct pool.config plan) c p place sig s → I s.result)
    (hloss : ∀ {t k x message}, t.Ordered → t.member? k = some x → I t →
      I (t.update x (.panicked message))) (ha : m.activity? n = some (.execute plan t)) : I t := by
  induction hr generalizing t with
  | start => cases ha
  | @next h m m' move notes hr hn ih =>
    have ho := hr.ordered.1
    generalize hb : Activity.execute plan t = b at ha
    cases next_course ho hn ha with
    | stay ha₀ => exact ih (hb ▸ ha₀)
    | order o he =>
      cases o with
      | execute plan' =>
        simp only [Activity.ofOrder, Activity.execute.injEq] at hb
        exact hb.2 ▸ hstart
      | _ => cases hb
    | fire => cases hb
    | @turn place a₀ sig s ha₀ hk ht hp hnotes htalk =>
      cases ht with
      | @execute plan' t₀ sig s ht =>
        simp only [Scope.map, Activity.execute.injEq] at hb
        obtain ⟨rfl, rfl⟩ := hb
        have hconfig := hr.config_eq
        exact hturn hconfig (ho.members _ (activity?_mem ha₀)) (ih ha₀) (hconfig ▸ ht)
      | _ => cases hb
  | @loss h m m' k serial message opens hr hl ih =>
    obtain ⟨plan₀, t₀, x, ha₀, hx, rfl⟩ := lose_eq_some hl
    have hmem := activity?_put (m := { m with pool := { m.pool with
      gateHeld := m.pool.gateHeld && !opens } }) (k := n) ha₀
      (.execute plan₀ (t₀.update x (.panicked message)))
    rw [hmem] at ha
    split at ha
    · next he =>
      subst he
      simp only [Option.some.injEq, Activity.execute.injEq] at ha
      obtain ⟨rfl, rfl⟩ := ha
      exact hloss (hr.ordered.1.members _ (activity?_mem ha₀)) hx (ih ha₀)
    · exact ih ha

/-- An operation that has not started has done nothing. -/
theorem Withstands.deeds_new {β : Type} {f : Machine → Move → Activity → List β} {pool : Pool}
    {now : Instant} {h : History} (hr : (ofPool pool now).Withstands h m) (move : Move) :
    (h ++ [(m, move)]).deeds f m.started = [] := by
  obtain ⟨ho, hpast⟩ := hr.ordered
  have hall : ∀ x ∈ h ++ [(m, move)], x.1.Ordered ∧ x.1.started ≤ m.started := by
    intro x hx
    rcases List.mem_append.1 hx with hx | hx
    · exact hpast x hx
    · obtain rfl := List.mem_singleton.1 hx
      exact ⟨ho, Nat.le_refl _⟩
  refine List.flatMap_eq_nil_iff.2 fun x hx => ?_
  obtain ⟨hox, hle⟩ := hall x hx
  cases ha : x.1.activity? m.started with
  | none => split <;> rfl
  | some a =>
    have hlt := activity?_lt hox ha
    omega

/-- What operations have at their start, and every turn keeps, is true of all operations of a run. -/
theorem Reaches.forall_activity {pool : Pool} {now : Instant} {h : History} {I : Activity → Prop}
    (hr : (ofPool pool now).Reaches h m) (hstart : ∀ config o, I (.ofOrder config o))
    (hfire : ∀ id s, I (.terminate id s))
    (hturn : ∀ {config c p place a sig s}, a.Ordered → I a →
      a.Turn config c p place sig s → I s.result) (ha : m.activity? n = some a) : I a := by
  induction hr generalizing a with
  | start => cases ha
  | next hr hn ih =>
    have ho := hr.ordered_ofPool
    cases next_course ho hn ha with
    | stay ha => exact ih ha
    | order o => exact hstart _ o
    | fire _ id s => exact hfire id s
    | turn ha₀ _ ht => exact hturn (ho.members _ (activity?_mem ha₀)) (ih ha₀) ht

end Machine

end SandboxPool
