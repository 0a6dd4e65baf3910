import SandboxPool.Proofs.Machine.Endings
import SandboxPool.Proofs.Pool.Timers

/-!
# Ends of a machine

What a move does to the ends that are set.

* `Machine.next_tick`: a move is a tick, and its effects say which ends are set behind it.
* `Machine.expire_eq`: an end that comes starts a termination, which takes its first step at once.
-/

namespace SandboxPool

variable {config : Config} {id block : String} {e : List Effect}

/-! ## Containers of spawns -/

/-- The innermost process of a spawn is the spawn itself only at its own point. -/
theorem Spawn.eq_of_leaf {job job' : Job} {s s' : Point} (h : s'.leaf job' = .spawn job s) :
    s' = s := by
  cases s' with
  | discard id error t => cases h
  | _ => cases h; rfl

theorem Acquire.eq_of_leaf {job : Spawn.Job} {s : Spawn.Point} {a : Point}
    (h : a.leaf block = .spawn job s) : a = .cold s ∨ a = .shared s := by
  cases a with
  | cold s' => exact .inl (congrArg Point.cold (Spawn.eq_of_leaf h))
  | shared s' => exact .inr (congrArg Point.shared (Spawn.eq_of_leaf h))
  | _ => cases h

theorem BlockRun.eq_of_leaf {job : Spawn.Job} {s : Spawn.Point} {b : Point}
    (h : b.leaf block = .spawn job s) :
    ∃ since, b = .acquire since (.cold s) ∨ b = .acquire since (.shared s) := by
  cases b with
  | acquire since a =>
    refine ⟨since, ?_⟩
    rcases Acquire.eq_of_leaf h with rfl | rfl
    · exact .inl rfl
    · exact .inr rfl
  | release ran id r => cases r <;> cases h
  | _ => cases h

/-- Whoever spawns a sandbox has in hand what the spawn has. -/
theorem Post.hand_of_spawn {x : Post} {job : Spawn.Job} {s : Spawn.Point}
    (h : x.leaf? config = some (.spawn job s)) :
    ∃ out rest, x.hand = Spawn.hand out s ++ rest := by
  have hacquire : ∀ {a : Acquire.Point} {block : String} (out : Bool), a.leaf block = .spawn job s →
      ∃ rest, Acquire.hand out a = Spawn.hand out s ++ rest := by
    intro a block out ha
    rcases Acquire.eq_of_leaf ha with rfl | rfl
    · exact ⟨[], (List.append_nil _).symm⟩
    · exact ⟨[.sharing], rfl⟩
  have hblock : ∀ {b : BlockRun.Point} {block : String} (out : Bool), b.leaf block = .spawn job s →
      ∃ rest, BlockRun.hand block out b = Spawn.hand out s ++ rest := by
    intro b block out hb
    obtain ⟨since, rfl | rfl⟩ := BlockRun.eq_of_leaf hb
    · exact ⟨[], (List.append_nil _).symm⟩
    · exact ⟨[.sharing], rfl⟩
  have hstrand : ∀ {σ α : Type} {f : Bool → σ → List Hand} {g : α → List Hand} {st : Strand σ α}
      {point : σ}, st.point? = some point → (∀ out, ∃ rest, f out point = Spawn.hand out s ++ rest) →
      ∃ out rest, st.hand f g = Spawn.hand out s ++ rest := by
    intro σ α f g st point hpoint hf
    cases st with
    | ready point => cases hpoint; exact ⟨false, hf false⟩
    | waiting point => cases hpoint; exact ⟨true, hf true⟩
    | done a => cases hpoint
    | panicked message => cases hpoint
  cases x with
  | acquire block st =>
    obtain ⟨point, hpoint, hl⟩ := Option.map_eq_some_iff.1 h
    exact hstrand hpoint fun out => hacquire out hl
  | spawn st =>
    obtain ⟨point, hpoint, hl⟩ := Option.map_eq_some_iff.1 h
    obtain rfl := Spawn.eq_of_leaf hl
    exact hstrand hpoint fun out => ⟨[], (List.append_nil _).symm⟩
  | execute plan st =>
    obtain ⟨point, hpoint, hl⟩ := Option.map_eq_some_iff.1 h
    cases point with
    | solo progress block b => exact hstrand hpoint fun out => hblock out hl
    | _ => cases hl
  | duty st =>
    obtain ⟨point, hpoint, hl⟩ := Option.map_eq_some_iff.1 h
    cases point with
    | run block b => exact hstrand hpoint fun out => hblock out hl
    | terminate id t => cases hl
  | release id st =>
    obtain ⟨point, hpoint, hl⟩ := Option.map_eq_some_iff.1 h
    cases point <;> cases hl
  | _ =>
    obtain ⟨point, hpoint, hl⟩ := Option.map_eq_some_iff.1 h
    cases hl

/-! ## Effects of moves -/

theorem Termination.expire_effects (id : String) (g : Nat) (p : Pool) :
    (expire id g p).effects = [] := by
  unfold expire
  split
  · rfl
  · split <;> rfl

namespace Machine

variable {m m' : Machine} {move : Move} {notes : List Note}

/-- What the scope of a move sets off. -/
def effects (m : Machine) : Move → List Effect
  | .step n place =>
    ((m.activity? n).bind fun a => a.step m.pool.config m.context m.pool place).elim [] (·.effects)
  | _ => []

/-- The ends that are set when a move is made, without the one that comes with it. -/
def unfired (m : Machine) : Move → List Alarm
  | .fire generation => m.alarms.filter (·.generation != generation)
  | _ => m.alarms

theorem alarms_foldl (m : Machine) (e : List Effect) :
    (e.foldl apply m).alarms = e.foldl Effect.ring m.alarms := by
  induction e generalizing m with
  | nil => rfl
  | cons x rest ih =>
    rw [List.foldl_cons, List.foldl_cons, ih]
    cases x <;> rfl

/-- Effects change the ends that are set and nothing else. -/
theorem foldl_apply_eq (m : Machine) (e : List Effect) :
    e.foldl apply m = { m with alarms := e.foldl Effect.ring m.alarms } := by
  obtain ⟨alarms, hfold⟩ := foldl_apply m e
  rw [← alarms_foldl, hfold]

/-! ## An operation that has just started -/

theorem put_start (ho : m.Ordered) (a b : Activity) : (m.start a).put m.started b = m.start b := by
  have hnumbers : ∀ x ∈ m.activities, x.1 ≠ m.started := by
    intro x hx he
    have hmem : x.1 ∈ List.range m.started := by
      rw [← ho.numbers]
      exact List.mem_map_of_mem hx
    rw [he] at hmem
    exact Nat.lt_irrefl _ (List.mem_range.1 hmem)
  have hput : ((m.start a).put m.started b).activities = m.activities ++ [(m.started, b)] :=
    put_activities (m := m.start a) rfl hnumbers fun x hx => by cases hx
  show ({ m.start a with activities := ((m.start a).put m.started b).activities } : Machine) = _
  rw [hput]
  rfl

/-- The operation that started last takes a step. -/
theorem stepAt_start (ho : m.Ordered) {a : Activity} {s : Scope Activity}
    (hstep : a.step m.pool.config m.context m.pool 0 = some s) :
    (m.start a).stepAt m.started 0 =
      some (s.effects.foldl apply ({ m with pool := s.pool }.start s.result),
        ((a.ask? m.pool.config 0).map Note.asked).toList ++ events s.effects) := by
  have hput : ({ m with pool := s.pool }.start a).put m.started s.result
      = { m with pool := s.pool }.start s.result :=
    put_start (m := { m with pool := s.pool }) ⟨ho.numbers, ho.members⟩ a s.result
  have hsettle : (m.start a).settle m.started s
      = s.effects.foldl apply ({ m with pool := s.pool }.start s.result) :=
    congrArg (s.effects.foldl apply) hput
  unfold stepAt
  rw [activity?_started ho, Option.bind_some]
  show Option.map _ (a.step m.pool.config m.context m.pool 0) = _
  rw [hstep, Option.map_some, hsettle]
  rfl

/-- The operation that started last gets its reply. -/
theorem next_reply_start (ho : m.Ordered) {a b : Activity} {r : Reply}
    (hreply : a.reply m.pool.config r 0 = some b) :
    (m.start a).next (.reply m.started 0 r) = some (m.start b, []) := by
  show Option.bind ((m.start a).activity? m.started) _ = _
  rw [activity?_started ho, Option.bind_some]
  show Option.map _ (a.reply m.pool.config r 0) = _
  rw [hreply, Option.map_some, put_start ho]

/-! ## Ends that come -/

/-- The machine behind the first step of a termination whose time has come. -/
def expired (m : Machine) (alarm : Alarm) : Machine :=
  let s := Termination.expire alarm.id alarm.generation m.pool
  { m with
    pool := s.pool
    activities := m.activities ++ [(m.started, .terminate alarm.id (.ofNext s.result))]
    started := m.started + 1
    alarms := m.alarms.filter (·.generation != alarm.generation) }

/-- **An end that comes starts a termination**, which claims the sandbox at once or not at all. -/
theorem expire_eq (ho : m.Ordered) (alarm : Alarm) :
    m.expire alarm = some (m.expired alarm, []) := by
  let calm : Machine := { m with alarms := m.alarms.filter (·.generation != alarm.generation) }
  have hoc : calm.Ordered := ⟨ho.numbers, ho.members⟩
  have hstep : (calm.start _).stepAt _ 0 = _ := stepAt_start hoc
    (a := .terminate alarm.id (.ready (.expire alarm.generation))) rfl
  refine hstep.trans ?_
  simp only [Scope.map, Termination.expire_effects]
  rfl

/-- An end that fires was set and is due. -/
theorem next_fire (ho : m.Ordered) {g : Nat} (hn : m.next (.fire g) = some (m', notes)) :
    ∃ alarm ∈ m.alarms, alarm.generation = g ∧ alarm.due ≤ m.now ∧ m' = m.expired alarm := by
  simp only [next, Option.bind_eq_some_iff] at hn
  obtain ⟨alarm, hal, hn⟩ := hn
  split at hn
  · next hdue =>
    rw [expire_eq ho] at hn
    cases hn
    exact ⟨alarm, List.mem_of_find?_eq_some hal, by simpa using List.find?_some hal, hdue, rfl⟩
  · cases hn

/-- An end that is set fires as soon as it is due. -/
theorem next_fire_of_mem (ho : m.Ordered) {alarm : Alarm}
    (hg : (m.alarms.map (·.generation)).Nodup) (ha : alarm ∈ m.alarms) :
    m.next (.fire alarm.generation)
      = if alarm.due ≤ m.now then some (m.expired alarm, []) else none := by
  have hfind : m.alarms.find? (·.generation == alarm.generation) = some alarm := by
    cases hf : m.alarms.find? (·.generation == alarm.generation) with
    | none => exact absurd (beq_self_eq_true _) (List.find?_eq_none.1 hf alarm ha)
    | some a =>
      have he : a.generation = alarm.generation := by simpa using List.find?_some hf
      rw [List.inj_on_of_nodup_map hg (List.mem_of_find?_eq_some hf) ha he]
  simp only [next, hfind, Option.bind_some, expire_eq ho]

/-- What becomes of the ends that are set, effects say. -/
theorem next_alarms (ho : m.Ordered) (hn : m.next move = some (m', notes)) :
    m'.alarms = (m.effects move).foldl Effect.ring (m.unfired move) := by
  cases move with
  | order o => cases hn; rfl
  | abort | advance | vary => cases hn; rfl
  | reply n place r =>
    obtain ⟨a, -, hn⟩ := Option.bind_eq_some_iff.1 hn
    obtain ⟨b, -, hn⟩ := Option.map_eq_some_iff.1 hn
    cases hn
    rfl
  | fire g =>
    obtain ⟨alarm, -, rfl, -, rfl⟩ := next_fire ho hn
    rfl
  | step n place =>
    obtain ⟨a, ha, hn⟩ := Option.bind_eq_some_iff.1 hn
    obtain ⟨s, hs, hn⟩ := Option.map_eq_some_iff.1 hn
    simp only [Prod.mk.injEq] at hn
    obtain ⟨rfl, -⟩ := hn
    have heffects : m.effects (.step n place) = s.effects := by
      simp only [effects, ha, Option.bind_some, hs, Option.elim_some]
    rw [heffects]
    exact alarms_foldl _ _

/-- **The effects of a move are those of a turn of one leaf**, or there are none, and nothing happens to
the pool. The leaf is that of the post that moves, or a termination whose time has come. -/
theorem next_effects (ho : m.Ordered) (hn : m.next move = some (m', notes)) :
    (m'.pool = m.pool ∧ m.effects move = [] ∧ notes.filterMap (·.event?) = []) ∨
    ∃ l out sig r, l.Innermost ∧
      (l.demand m.pool.config).Turn m.context m.pool out sig ⟨m'.pool, m.effects move, r⟩ ∧
      notes.filterMap (·.event?) = (m.effects move).filterMap (·.event?) ∧
      (m.leaf? (m.mover move) = some l ∨ ∃ id g, l = .termination id (.expire g)) := by
  cases move with
  | order o => cases hn; exact .inl ⟨rfl, rfl, rfl⟩
  | abort | advance | vary => cases hn; exact .inl ⟨rfl, rfl, rfl⟩
  | reply n place r =>
    obtain ⟨a, -, hn⟩ := Option.bind_eq_some_iff.1 hn
    obtain ⟨b, -, hn⟩ := Option.map_eq_some_iff.1 hn
    cases hn
    exact .inl ⟨rfl, rfl, rfl⟩
  | fire g =>
    have hnotes : notes = [] := by
      simp only [next, Option.bind_eq_some_iff] at hn
      obtain ⟨alarm, -, hn⟩ := hn
      split at hn
      · rw [expire_eq ho] at hn
        cases hn
        rfl
      · cases hn
    obtain ⟨alarm, -, rfl, -, rfl⟩ := next_fire ho hn
    have hturn : ((Leaf.termination alarm.id (.expire alarm.generation)).demand m.pool.config).Turn
        m.context m.pool false none ⟨(Termination.expire alarm.id alarm.generation m.pool).pool,
          (Termination.expire alarm.id alarm.generation m.pool).effects, some ()⟩ :=
      .scope fun _ p => (Termination.expire alarm.id alarm.generation p).map fun _ => ()
    rw [Termination.expire_effects] at hturn
    exact .inr ⟨.termination alarm.id (.expire alarm.generation), false, none, some (), trivial, hturn,
      congrArg (List.filterMap _) hnotes, .inr ⟨_, _, rfl⟩⟩
  | step n place =>
    obtain ⟨a, ha, hn⟩ := Option.bind_eq_some_iff.1 hn
    obtain ⟨s, hs, hn⟩ := Option.map_eq_some_iff.1 hn
    simp only [Prod.mk.injEq] at hn
    obtain ⟨rfl, rfl⟩ := hn
    have heffects : m.effects (.step n place) = s.effects := by
      simp only [effects, ha, Option.bind_some, hs, Option.elim_some]
    have hoa := ho.members _ (activity?_mem ha)
    have hturn := Activity.turn_of_step hs
    obtain ⟨x, rest, after, hb, -, ht⟩ := hturn.posts hoa
    obtain ⟨-, hpool, -⟩ := settle_posts ho ha (hturn.ordered hoa)
    obtain ⟨l, r, sig, htakes, -⟩ := ht.leaf
    have hx : ((n, place), x) ∈ m.posts :=
      mem_posts.2 ⟨a, activity?_mem ha, hb.mem_iff.2 (List.mem_cons_self ..)⟩
    rw [heffects, hpool]
    refine .inr ⟨l, _, sig, r, Leaf.innermost_of_leaf? htakes.leaf, htakes.turn, events_notes _ _,
      .inl ?_⟩
    show m.leaf? (n, place) = some l
    rw [leaf?_eq ho hx]
    exact htakes.leaf

/-- A sandbox that gets its record was created for somebody. -/
theorem made_of_enters {l : Leaf} {k : Key} (hl : m.leaf? k = some l) (hid : l.enters? = some id) :
    ∃ port, .made id port ∈ m.things := by
  obtain ⟨x, hx, hleaf⟩ := mem_of_leaf? hl
  cases l with
  | spawn job point =>
    cases point with
    | register id' port =>
      cases hid
      obtain ⟨out, others, hhand⟩ := Post.hand_of_spawn hleaf
      have hmade : Hand.made id port ∈ x.hand := by
        rw [hhand]
        exact List.mem_append_left _ (List.mem_singleton_self _)
      exact ⟨port, List.mem_map.2 ⟨_, mem_hands.2 ⟨x, hx, hmade⟩, rfl⟩⟩
    | _ => cases hid
  | _ => cases hid

/-- **A move is a tick**, and the sandbox that gets its record in it was created for somebody. -/
theorem next_tick (ho : m.Ordered) (hd : m.pool.Distinct) (hn : m.next move = some (m', notes)) :
    (∃ new, Tick m.context m.pool new m'.pool (m.effects move) ∧
      ∀ id, new = some id → ∃ port, .made id port ∈ m.things) ∧
    m'.alarms = (m.effects move).foldl Effect.ring (m.unfired move) := by
  refine ⟨?_, next_alarms ho hn⟩
  rcases next_effects ho hn with ⟨hpool, heffects, -⟩ | ⟨l, out, sig, r, hl, ht, -, hleaf⟩
  · rw [hpool, heffects]
    exact ⟨none, tick_refl, fun id hid => by cases hid⟩
  · refine ⟨l.enters?, Leaf.tick hd hl ht, fun id hid => ?_⟩
    rcases hleaf with hleaf | ⟨id', g, rfl⟩
    · exact made_of_enters hleaf hid
    · cases hid

end Machine

end SandboxPool
