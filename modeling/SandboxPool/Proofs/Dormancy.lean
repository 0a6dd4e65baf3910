import SandboxPool.Proofs.Machine.Lags

/-!
# Each end is that of its own pause

A paused sandbox may be woken, used and paused again any number of times, and each pause sets an end
of its own. Whoever carries out an end may come late, even behind the moment when the end was called
off. An end takes a sandbox with it only in the very pause that it was set for, nobody stops an end
that has claimed its sandbox, and no parked sandbox outlives its end.
-/

namespace SandboxPool

variable {config : Config} {seed : BitVec 128} {pool : Pool} {now : Instant} {h h₁ h₂ : History}
  {m m₀ m₁ m' : Machine} {move : Move} {notes : List Note} {n g : Nat} {id : String}

namespace Machine

/-! ## Ends that have claimed their sandbox -/

/-- An end is not set any more, and no record knows of it. -/
structure Spent (g : Nat) (m : Machine) : Prop where
  given : g < m.pool.generation
  unset : ∀ a ∈ m.alarms, a.generation ≠ g
  unknown : ∀ r ∈ m.pool.records, ∀ t, r.timer = some t → t.generation ≠ g

/-- What is spent stays so, and nobody calls it off. -/
theorem Spent.next (hs : Spent g m) (ho : m.Ordered) (hd : m.pool.Distinct)
    (hn : m.next move = some (m', notes)) : Spent g m' ∧ .disarm g ∉ m.effects move := by
  obtain ⟨⟨new, htick, -⟩, halarms⟩ := next_tick ho hd hn
  have hnext : ∀ {k}, k = m.pool.generation → k ≠ g := fun hk he =>
    Nat.ne_of_gt hs.given (hk.symm.trans he)
  refine ⟨⟨Nat.lt_of_lt_of_le hs.given htick.generation_le, fun a ha => ?_, fun r hr t ht => ?_⟩,
    fun hx => ?_⟩
  · rw [halarms] at ha
    rcases htick.ring_or ha with ha | ha
    · cases move with
      | fire k => exact hs.unset a (List.mem_filter.1 ha).1
      | _ => exact hs.unset a ha
    · exact hnext ha
  · rcases htick.timer_or hr ht with ⟨r₀, hr₀, -, ht₀⟩ | ht
    · exact hs.unknown r₀ hr₀ t ht₀
    · exact hnext ht
  · obtain ⟨r, hr, t, ht, hg⟩ := htick.of_disarm hx
    exact hs.unknown r hr t ht hg

/-- A termination behind its claim: it is on its way, or has come to its end. -/
def Underway : Strand Termination.Point Termination.Result → Prop
  | .ready (.stop _) | .ready (.remove _) | .ready (.settle _) => True
  | .waiting (.stop _) | .waiting (.remove _) => True
  | .done _ => True
  | _ => False

/-- A termination behind its claim goes on to its end. -/
theorem Underway.turn {c : Context} {p : Pool} {s : Strand Termination.Point Termination.Result}
    {sig : Option Signal} {sc : Scope (Strand Termination.Point Termination.Result)}
    (hu : Underway s) (ht : s.Turn (Termination.demand id) c p sig sc) : Underway sc.result := by
  have hsettle : ∀ port, Underway (Strand.ofNext (Termination.settle id port p).result) := by
    intro port
    cases hf : p.find? id with
    | none =>
      have hfind :
        (({ p with ports := p.ports.release port } : Pool).dropClaim id).find? id = none := hf
      simp only [Termination.settle, hfind]
      trivial
    | some r =>
      rw [Termination.settle_eq hf]
      trivial
  cases ht with
  | @ready point _ sc ht =>
    cases point with
    | claim => cases hu
    | expire g => cases hu
    | stop port =>
      rcases Demand.turn_act ht with ⟨-, -, rfl⟩ | ⟨r, hout, -, -⟩
      · trivial
      · cases hout
    | remove port =>
      rcases Demand.turn_act ht with ⟨-, -, rfl⟩ | ⟨r, hout, -, -⟩
      · trivial
      · cases hout
    | settle port =>
      obtain ⟨-, -, rfl⟩ := Demand.turn_scope ht
      exact hsettle port
  | @waiting point _ sc ht =>
    cases point with
    | stop port =>
      rcases Demand.turn_act ht with ⟨hout, -, -⟩ | ⟨r, -, -, rfl⟩
      · cases hout
      · trivial
    | remove port =>
      rcases Demand.turn_act ht with ⟨hout, -, -⟩ | ⟨r, -, -, rfl⟩
      · cases hout
      · trivial
    | _ => cases hu

/-- A termination behind its claim that is not at its end can take its next step, or goes on with
whatever reply it gets. -/
theorem Underway.goes_on {s : Strand Termination.Point Termination.Result} (hu : Underway s)
    (ha : m.activity? n = some (.terminate id s)) : s.ended = true ∨
      (m.next (.step n 0)).isSome = true ∨ ∀ r, (m.next (.reply n 0 (.acted r))).isSome = true := by
  have hstep : ∀ {point}, s = .ready point → (∀ k, point ≠ .expire k) →
      (m.next (.step n 0)).isSome = true := by
    rintro point rfl -
    simp only [next, stepAt, ha, Option.bind_some, Option.isSome_map]
    cases point <;> rfl
  cases s with
  | ready point =>
    cases point with
    | claim => cases hu
    | expire k => cases hu
    | _ => exact .inr (.inl (hstep rfl (by simp)))
  | waiting point =>
    refine .inr (.inr fun r => ?_)
    simp only [next, ha, Option.bind_some, Option.isSome_map]
    cases point with
    | stop port => rfl
    | remove port => rfl
    | _ => cases hu
  | done r => exact .inl rfl
  | panicked message => cases hu

/-- The termination of an end that has claimed its sandbox goes on, whatever is called off. -/
theorem Ticking.claimed (hv : config.Valid) (ht : Ticking config m₀) (hs : Spent g m₀)
    {s₀ : Strand Termination.Point Termination.Result} (hu : Underway s₀)
    (ha : m₀.activity? n = some (.terminate id s₀)) (hr : m₀.Lags h m) (hdated : h.Dated) :
    Spent g m ∧ (∀ x ∈ h, .disarm g ∉ x.1.effects x.2) ∧
      ∃ s, m.activity? n = some (.terminate id s) ∧ Underway s := by
  induction hr with
  | start => exact ⟨hs, (fun x hx => by cases hx), s₀, ha, hu⟩
  | @next h m m' move notes hr hn ih =>
    obtain ⟨hbefore, -⟩ := hdated.of_append
    obtain ⟨hspent, hnone, s, ha, hu⟩ := ih hbefore
    have htick := ht.lags hv hr hbefore
    obtain ⟨hspent', hlast⟩ := hspent.next htick.ordered htick.capped.distinct hn
    refine ⟨hspent', fun x hx => ?_, ?_⟩
    · rcases List.mem_append.1 hx with hx | hx
      · exact hnone x hx
      · obtain rfl := List.mem_singleton.1 hx
        exact hlast
    · have hlt := activity?_lt htick.ordered ha
      obtain ⟨b, hb⟩ := exists_activity (next_posts htick.ordered hn).1
        (Nat.lt_of_lt_of_le hlt (started_le hn))
      cases next_course htick.ordered hn hb with
      | stay hb' =>
        obtain rfl := Option.some.inj (ha.symm.trans hb')
        exact ⟨s, hb, hu⟩
      | order o he => exact absurd he (Nat.ne_of_lt hlt)
      | fire he => exact absurd he (Nat.ne_of_lt hlt)
      | turn hb' hk hturn =>
        obtain rfl := Option.some.inj (ha.symm.trans hb')
        cases hturn with
        | terminate hplace hturn => exact ⟨_, hb, hu.turn hturn⟩
  | late hr hg hno hl ih =>
    obtain ⟨hspent, hnone, s, ha, hu⟩ := ih hdated
    have htick := ht.lags hv hr hdated
    obtain ⟨rfl, -⟩ := htick.late hno hl
    refine ⟨⟨hspent.given, hspent.unset, hspent.unknown⟩, hnone, s, ?_, hu⟩
    rw [activity?_start htick.ordered, if_neg (Nat.ne_of_lt (activity?_lt htick.ordered ha))]
    exact ha

/-! ## Ends and their pauses -/

/-- **An end changes the pool only in its own pause**: the sandbox is parked, and the end is the one
that its record knows of. -/
theorem expired_ne_iff (hd : m.pool.Distinct) (alarm : Alarm) :
    (m.expired alarm).pool ≠ m.pool ↔ ∃ r ∈ m.pool.records, r.id = alarm.id ∧ m.pool.Parked r ∧
      r.timer.map (·.generation) = some alarm.generation := by
  show (Termination.expire alarm.id alarm.generation m.pool).pool ≠ m.pool ↔ _
  rcases Termination.expire_cases hd alarm.id alarm.generation with
    ⟨heq, hno⟩ | ⟨r, hr, hid, hp, ht, heq⟩
  · rw [heq]
    refine ⟨fun hne => absurd rfl hne, fun ⟨r, hr, hid, hp, ht⟩ => ?_⟩
    exact absurd ht (hno r hr hid hp)
  · rw [heq]
    refine ⟨fun _ => ⟨r, hr, hid, hp, ht⟩, fun _ he => ?_⟩
    have hclaim := congrArg (·.claim? alarm.id) he
    simp only [Pool.claim?_setClaim, if_true] at hclaim
    rw [← hid, hp.2] at hclaim
    cases hclaim

/-- A sandbox whose end has come is not parked any more. -/
theorem not_parked_expired (hd : m.pool.Distinct) {alarm : Alarm} {r : Record}
    (hr : r ∈ m.pool.records) (hid : r.id = alarm.id) (hp : m.pool.Parked r)
    (ht : r.timer.map (·.generation) = some alarm.generation) {r' : Record} (hid' : r'.id = alarm.id) :
    ¬ (m.expired alarm).pool.Parked r' := by
  rintro ⟨-, hclaim⟩
  have hclaim : (Termination.expire alarm.id alarm.generation m.pool).pool.claim? r'.id = none := hclaim
  rcases Termination.expire_cases hd alarm.id alarm.generation with ⟨-, hno⟩ | ⟨r₀, -, -, -, -, heq⟩
  · exact hno r hr hid hp ht
  · rw [heq, hid', Pool.claim?_setClaim, if_pos rfl] at hclaim
    cases hclaim

/-- **Nobody stops an end that has claimed its sandbox.** -/
theorem Lags.claimed (hp : Pool.create config seed = .ok pool)
    (hr : (ofPool pool now).Lags (h₁ ++ (m₁, .fire g) :: h₂) m)
    (hdated : (h₁ ++ (m₁, .fire g) :: h₂).Dated) {m₂ : Machine}
    (hn : m₁.next (.fire g) = some (m₂, notes)) (hne : m₂.pool ≠ m₁.pool) :
    (∀ x ∈ h₂, .disarm g ∉ x.1.effects x.2) ∧
      ∃ id s, m.activity? m₁.started = some (.terminate id s) ∧ Underway s := by
  obtain ⟨m₂', notes', hbefore, hn', hbehind⟩ := hr.split
  obtain ⟨rfl, -⟩ := Prod.mk.inj (Option.some.inj (hn'.symm.trans hn))
  obtain ⟨hdated₁, hdated₂⟩ := hdated.of_append
  have ht := hbefore.ticking hp hdated₁
  have hd := ht.capped.distinct
  have hv := (create_eq_ok_iff.1 hp).1
  have ht₂ := ht.next hv hn (hdated₂ _ (List.mem_cons_self ..))
  obtain ⟨alarm, hmem, rfl, -, rfl⟩ := next_fire ht.ordered hn
  obtain ⟨r, hrec, hid, hpark, htimer⟩ := (expired_ne_iff hd alarm).1 hne
  rcases Termination.expire_cases hd alarm.id alarm.generation with
    ⟨-, hno⟩ | ⟨r₀, hr₀, hid₀, -, htimer₀, heq⟩
  · exact absurd htimer (hno r hrec hid hpark)
  · obtain ⟨t₀, ht₀, hg₀⟩ := Option.map_eq_some_iff.1 htimer₀
    have hspent : Spent alarm.generation (m₁.expired alarm) := by
      refine ⟨?_, fun a ha => bne_iff_ne.1 (List.mem_filter.1 ha).2, fun x hx t ht' => ?_⟩
      · show alarm.generation < (Termination.expire alarm.id alarm.generation m₁.pool).pool.generation
        rw [heq]
        exact ht.timed.given alarm hmem
      · have hx : x ∈ (Termination.expire alarm.id alarm.generation m₁.pool).pool.records := hx
        rw [heq] at hx
        have hx : x ∈ (m₁.pool.put { r₀ with timer := none, busy := true }).records := hx
        rcases Pool.mem_put_or hx with rfl | ⟨hold, hne⟩
        · cases ht'
        · exact fun hg => hne (ht.timed.apart x hold r₀ hr₀ t t₀ ht' ht₀ (hg.trans hg₀.symm))
    have hact : (m₁.expired alarm).activity? m₁.started
        = some (.terminate alarm.id (.ready (.stop r₀.port))) := by
      have hlast := activity?_of_mem ht₂.ordered (n := m₁.started)
        (List.mem_append_right _ (List.mem_singleton_self _))
      rw [hlast, heq]
      rfl
    have hu₀ : Underway (.ready (.stop r₀.port)) := trivial
    obtain ⟨-, hnone, s, ha, hu⟩ := ht₂.claimed hv hspent hu₀ hact hbehind
      (fun x hx => hdated₂ x (List.mem_cons_of_mem _ hx))
    exact ⟨hnone, alarm.id, s, ha, hu⟩

/-- **Ends hit their own pause, and no other.** In every interleaving of operations on a new pool, where
whoever carries out an end may come late, even behind the moment when the end was called off, and as
long as the calendar covers the ends that are set:

* An end changes the pool exactly if its sandbox is parked and the end is the one of this very pause;
  and an end that is not set any more does nothing at all.
* Nobody calls off an end that has claimed its sandbox, and its termination goes on to its end.
* A parked sandbox has one end that is set, due so long behind the time when it was parked as the pool
  says. From then on, and not before, the end can come, and takes the sandbox with it.
* So once all ends that were due have come, no parked sandbox has outlived its end. -/
theorem ends_hit_own_pause (hp : Pool.create config seed = .ok pool)
    (hr : (ofPool pool now).Lags h m) (hdated : h.Dated) :
    (∀ alarm, m.expire alarm = some (m.expired alarm, []) ∧
      ((m.expired alarm).pool ≠ m.pool ↔ ∃ r ∈ m.pool.records, r.id = alarm.id ∧ m.pool.Parked r ∧
        r.timer.map (·.generation) = some alarm.generation) ∧
      ((∀ a ∈ m.alarms, a.generation ≠ alarm.generation) →
        m.expired alarm = m.start (.terminate alarm.id (.done (.ok ()))))) ∧
    (∀ h₁ m₁ g h₂ m₂ notes, h = h₁ ++ (m₁, .fire g) :: h₂ → m₁.next (.fire g) = some (m₂, notes) →
      m₂.pool ≠ m₁.pool → (∀ x ∈ h₂, .disarm g ∉ x.1.effects x.2) ∧
        ∃ id s, m.activity? m₁.started = some (.terminate id s) ∧ (s.ended = true ∨
          (m.next (.step m₁.started 0)).isSome = true ∨
          ∀ r, (m.next (.reply m₁.started 0 (.acted r))).isSome = true)) ∧
    (∀ r ∈ m.pool.records, m.pool.Parked r → ∃ x ∈ h, ∃ t due, x.1.Parks x.2 r.id t.generation ∧
      due = x.1.now + config.dormancy.nanos ∧ r.dormantSince = some x.1.now ∧ r.timer = some t ∧
      t.deadline = due ∧
      m.alarms.filter (·.generation == t.generation) = [⟨r.id, t.generation, due⟩] ∧
      (h.Fresh → m.alarms.filter (·.id == r.id) = [⟨r.id, t.generation, due⟩]) ∧
      m.next (.fire t.generation)
        = (if due ≤ m.now then some (m.expired ⟨r.id, t.generation, due⟩, []) else none) ∧
      ∀ r', r'.id = r.id → ¬ (m.expired ⟨r.id, t.generation, due⟩).pool.Parked r') ∧
    ((∀ a ∈ m.alarms, m.now < a.due) → ∀ r ∈ m.pool.records, m.pool.Parked r →
      ∀ since, r.dormantSince = some since → m.now < since + config.dormancy.nanos) := by
  have ht := hr.ticking hp hdated
  have hd := ht.capped.distinct
  refine ⟨fun alarm => ⟨expire_eq ht.ordered alarm, expired_ne_iff hd alarm, ht.expired_eq⟩, ?_,
    fun r hrec hpark => ?_, fun hfuture r hrec hpark since hsince => ?_⟩
  · rintro h₁ m₁ g h₂ m₂ notes rfl hn hne
    obtain ⟨hnone, id, s, ha, hu⟩ := hr.claimed hp hdated hn hne
    exact ⟨hnone, id, s, ha, hu.goes_on ha⟩
  · obtain ⟨x, hx, hsince, t, htimer, hparks⟩ := hr.parked_since hp hdated hrec hpark
    obtain ⟨since, t', hsince', htimer', hdeadline, hmem⟩ := ht.kept r hrec hpark
    obtain rfl := Option.some.inj (hsince.symm.trans hsince')
    obtain rfl := Option.some.inj (htimer.symm.trans htimer')
    refine ⟨x, hx, t, _, hparks, rfl, hsince, htimer, hdeadline, ht.timed.filter_generation hmem,
      fun hf => ?_, next_fire_of_mem ht.ordered ht.timed.nodup hmem, fun r' hid => ?_⟩
    · refine (hr.sole hp hdated hf).filter_id hd ht.timed hrec (fun hdoomed => ?_) hmem rfl
      rcases (hd.doomed_iff hrec).1 hdoomed with hdead | hclaim
      · rw [Record.live_of_state hpark.1 rfl] at hdead
        cases hdead
      · rw [hpark.2] at hclaim
        cases hclaim
    · exact not_parked_expired hd hrec rfl hpark (congrArg _ htimer) hid
  · obtain ⟨since', t, hsince', -, -, hmem⟩ := ht.kept r hrec hpark
    obtain rfl := Option.some.inj (hsince.symm.trans hsince')
    exact hfuture _ hmem

/-- A sandbox is paused, woken and paused again. The end of its first pause comes behind that and does
nothing. -/
theorem ends_hit_own_pause_again :
    let config : Config := { image := "img", maxSandboxes := 2 }
    ∃ pool h m, Pool.create config 0 = .ok pool ∧ (ofPool pool 0).Lags h m ∧ h.Dated ∧
      m.pool.generation = 2 ∧ m.started = 5 ∧
      (m.expired ⟨"c1", 0, config.dormancy.nanos⟩).pool = m.pool ∧
      ∃ r ∈ m.pool.records, m.pool.Parked r ∧
        m.alarms.filter (·.id == r.id) = [⟨r.id, 1, 7 + config.dormancy.nanos⟩] := by
  intro config
  let first : Alarm := ⟨"c1", 0, config.dormancy.nanos⟩
  let park (n : Nat) : List Move := [.order (.release "c1"), .step n 0, .step n 0,
    .reply n 0 (.acted (.ok ())), .step n 0]
  let moves : List Move := [.order (.acquire "a"), .step 0 0, .step 0 0, .step 0 0,
    .reply 0 0 (.created (.ok "c1")), .step 0 0, .step 0 0, .reply 0 0 (.acted (.ok ())), .step 0 0,
    .reply 0 0 (.acted (.ok ())), .step 0 0] ++ park 1 ++ [.order (.acquire "b"), .step 2 0, .step 2 0,
    .reply 2 0 (.acted (.ok ())), .step 2 0, .reply 2 0 (.acted (.ok ())), .step 2 0, .advance 7] ++
    park 3
  have hp : Pool.create config 0 = .ok (.ofConfig config 0) :=
    create_eq_ok_iff.2 ⟨by decide +kernel, rfl⟩
  have hrun : ((ofPool (.ofConfig config 0) 0).trace moves).any (fun x =>
      x.1.Fresh ∧ x.1.Dated ∧ x.2.pool.generation = 2 ∧ x.2.started = 4 ∧
      (∀ a ∈ x.2.alarms, a.generation ≠ first.generation) ∧
      ∃ r ∈ x.2.pool.records, x.2.pool.Parked r ∧ r.dormantSince = some 7 ∧
        r.timer.map (·.generation) = some 1) = true := by decide +kernel
  obtain ⟨x, ht, hx⟩ := (Option.any_eq_true _ _).1 hrun
  obtain ⟨hf, hdated, hgeneration, hstarted, hno, r, hrec, hpark, hsince, htimer⟩ :=
    of_decide_eq_true hx
  have hr := Lags.of_reaches (reaches_of_trace ht)
  have hlate := ((ends_hit_own_pause hp hr hdated).1 first).1
  rw [((ends_hit_own_pause hp hr hdated).1 first).2.2 hno] at hlate
  have hg : first.generation < x.2.pool.generation := by
    rw [hgeneration]
    decide
  have hr' := hr.late hg hno hlate
  obtain ⟨hends, -, hparked, -⟩ := ends_hit_own_pause hp hr' hdated
  obtain ⟨y, -, t, due, -, hdue, hsince', htimer', -, -, hsole, -⟩ := hparked r hrec hpark
  have hnow : y.1.now = 7 := Option.some.inj (hsince'.symm.trans hsince)
  rw [htimer'] at htimer
  have hgen : t.generation = 1 := Option.some.inj htimer
  refine ⟨_, x.1, _, hp, hr', hdated, hgeneration, ?_, ?_, r, hrec, hpark, ?_⟩
  · show x.2.started + 1 = 5
    rw [hstarted]
  · exact (congrArg Machine.pool ((hends first).2.2 hno) :)
  · rw [hsole hf, hdue, hnow, hgen]

end Machine

end SandboxPool
