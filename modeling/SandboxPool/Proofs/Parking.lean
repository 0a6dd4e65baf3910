import SandboxPool.Proofs.Machine.Lags

/-!
# Releases that park

A sandbox that nobody has a claim on is released, and nothing else moves meanwhile (`releaseMoves`).
The daemon pauses it. How far the release gets hangs on the calendar alone, whatever window the
configuration has: `Machine.release_parks_iff`.
-/

namespace SandboxPool

variable {config : Config} {seed : BitVec 128} {pool p : Pool} {now : Instant} {h : History}
  {m m' m₁ : Machine} {r : Record} {c : Context}

namespace Release

/-- A sandbox that runs and that nobody has a claim on may be paused. -/
theorem check_running (hf : p.find? r.id = some r) (hs : r.state = .running)
    (hc : p.claim? r.id = none) : check r.id p = ⟨p, [], .goto .pause⟩ := by
  have hmay : State.running.check .dormant = .ok () := rfl
  simp [check, hf, hc, hs, hmay]

/-- What parks a sandbox that runs and that nobody has a claim on. -/
theorem park_running (hf : p.find? r.id = some r) (hs : r.state = .running)
    (hc : p.claim? r.id = none) : park r.id c p =
      let armed := r.calm.2 ++ [.arm r.id p.generation (c.now + p.config.dormancy.nanos)]
      if Time.calendarEnd ≤ deadline p.config.dormancy c.now then
        ⟨p.parking r c.now none, armed, .panic beyondCalendar⟩
      else
        ⟨p.parking r c.now (some ⟨deadline p.config.dormancy c.now, p.generation⟩),
          armed ++ [.emit (.transition r.id .running .dormant none)], .done (.ok ())⟩ := by
  have hyes : (r.state != .running || (p.claim? r.id).isSome) = false := by simp [hs, hc]
  simp only [park, hf, hyes, Bool.false_eq_true, if_false]
  rw [← hs]
  rfl

end Release

/-- The record of a sandbox is found behind its parking. -/
theorem Pool.Distinct.find?_parking (hd : p.Distinct) (hr : r ∈ p.records) (now : Instant)
    (timer : Option Timer) : (p.parking r now timer).find? r.id = some { r with
      timer := timer, state := .dormant, block := none, dormantSince := some now } := by
  let next : Pool := { p with generation := p.generation + 1 }
  let dormant : Record := { r with
    timer := timer, state := .dormant, block := none, dormantSince := some now }
  have hd' : next.Distinct := hd
  have hr' : r ∈ next.records := hr
  exact (hd'.put dormant).find?_of_mem (mem_put_self hr' rfl)

namespace Machine

/-- The moves of a release that has the number `n`, while nothing else moves and the daemon takes some
time to pause the container. -/
def releaseMoves (n : Nat) (id : String) (wait : Nat) : List Move :=
  [.order (.release id), .step n 0, .step n 0, .advance wait, .reply n 0 (.acted (.ok ())),
    .step n 0]

/-- A release that began in `m` has parked the sandbox of a record, and all is as it should be: the
sandbox has one end that is set, and it comes when it is due and takes the sandbox with it. -/
structure ParkedUntil (m : Machine) (r : Record) (since shown due : Instant) (m' : Machine)
    (notes : List Note) : Prop where
  returned : m'.activity? m.started = some (.release r.id (.done (.ok ())))
  record : m'.pool.find? r.id = some { r with
    state := .dormant, block := none, dormantSince := some since,
    timer := some ⟨shown, m.pool.generation⟩ }
  unclaimed : m'.pool.claim? r.id = none
  armed : m'.alarms.filter (·.generation == m.pool.generation) = [⟨r.id, m.pool.generation, due⟩]
  fires : ∀ time, ({ m' with now := time } : Machine).next (.fire m.pool.generation)
    = if due ≤ time then
        some (({ m' with now := time } : Machine).expired ⟨r.id, m.pool.generation, due⟩, [])
      else none
  ends : (m'.expired ⟨r.id, m.pool.generation, due⟩).pool.claim? r.id = some .terminating
  told : notes = [.asked (.daemon (.act .pause r.id)),
    .event (.transition r.id .running .dormant none)]

/-- A release that began in `m` has broken off half way: the sandbox is parked, but nobody is told, and
no end takes it. -/
structure HalfParked (m : Machine) (r : Record) (since : Instant) (m' : Machine)
    (notes : List Note) : Prop where
  broken : m'.activity? m.started = some (.release r.id (.panicked Release.beyondCalendar))
  record : m'.pool.find? r.id = some { r with
    state := .dormant, block := none, dormantSince := some since, timer := none }
  endless : ∀ alarm : Alarm, alarm.id = r.id → (m'.expired alarm).pool = m'.pool
  untold : notes = [.asked (.daemon (.act .pause r.id))]

theorem events_append (e e' : List Effect) : events (e ++ e') = events e ++ events e' :=
  List.filterMap_append

/-- To call off an end is no event. -/
theorem events_calm (r : Record) : events r.calm.2 = [] := by
  unfold Record.calm
  cases r.timer <;> rfl

theorem run_cons {move : Move} {rest : List Move} {notes more : List Note}
    (hn : m.next move = some (m₁, notes)) (hrun : m₁.run rest = some (m', more)) :
    m.run (move :: rest) = some (m', notes ++ more) := by
  simp only [run, hn, Option.bind_some, hrun, Option.map_some]

/-- A release that nothing interrupts gets to the scope that parks the sandbox. -/
theorem run_releaseMoves (ho : m.Ordered) (hmulti : m.pool.config.parallelism = .multi)
    (hf : m.pool.find? r.id = some r) (hs : r.state = .running) (hc : m.pool.claim? r.id = none)
    (wait : Nat) :
    let s := Release.park r.id ⟨m.now + wait, m.aborted, m.leeway⟩ m.pool
    m.run (releaseMoves m.started r.id wait) =
      some ({ m with
          pool := s.pool, now := m.now + wait,
          alarms := s.effects.foldl Effect.ring m.alarms }.start (.release r.id (.ofNext s.result)),
        .asked (.daemon (.act .pause r.id)) :: events s.effects) := by
  intro s
  let late : Machine := { m with now := m.now + wait }
  have hol : late.Ordered := ⟨ho.numbers, ho.members⟩
  have hstart : Release.start m.pool.config = .check := by
    unfold Release.start
    rw [hmulti]
  have horder : m.next (.order (.release r.id))
      = some (m.start (.release r.id (.ready .check)), []) := by
    rw [← hstart]
    rfl
  have hcheck : (m.start (.release r.id (.ready .check))).next (.step m.started 0)
      = some (m.start (.release r.id (.ready .pause)), []) := by
    refine (stepAt_start ho (s := ⟨m.pool, [], .release r.id (.ready .pause)⟩) ?_).trans rfl
    simp only [Activity.step, Activity.only, Strand.step, Release.demand, if_true, Option.map_some,
      Scope.map, Release.check_running hf hs hc, Strand.ofNext]
  have hpause : (m.start (.release r.id (.ready .pause))).next (.step m.started 0)
      = some (m.start (.release r.id (.waiting .pause)), [.asked (.daemon (.act .pause r.id))]) :=
    (stepAt_start ho (s := ⟨m.pool, [], .release r.id (.waiting .pause)⟩) rfl).trans rfl
  have hreply : (late.start (.release r.id (.waiting .pause))).next
      (.reply m.started 0 (.acted (.ok ()))) = some (late.start (.release r.id (.ready .park)), []) :=
    next_reply_start hol rfl
  have hpark : (late.start (.release r.id (.ready .park))).next (.step m.started 0)
      = some (s.effects.foldl apply ({ late with pool := s.pool }.start
          (.release r.id (.ofNext s.result))), events s.effects) :=
    stepAt_start hol (s := s.map fun x => .release r.id (.ofNext x)) rfl
  have hwait : (m.start (.release r.id (.waiting .pause))).next (.advance wait)
      = some (late.start (.release r.id (.waiting .pause)), []) := rfl
  have hrun := run_cons horder (run_cons hcheck (run_cons hpause (run_cons hwait
    (run_cons hreply (run_cons hpark (show run _ [] = some (_, []) from rfl))))))
  rw [List.append_nil, foldl_apply_eq] at hrun
  exact hrun

/-- An end that comes for a sandbox that knows of none changes nothing. -/
theorem expired_idle (hd : m.pool.Distinct) {alarm : Alarm}
    (hf : m.pool.find? alarm.id = some r) (ht : r.timer = none) :
    (m.expired alarm).pool = m.pool := by
  show (Termination.expire alarm.id alarm.generation m.pool).pool = _
  rcases Termination.expire_cases hd alarm.id alarm.generation with
    ⟨heq, -⟩ | ⟨x, hx, hid, -, htimer, -⟩
  · rw [heq]
  · obtain ⟨hrec, hrid⟩ := Pool.mem_of_find? hf
    obtain rfl := hd.eq_of_id hrec hx (hid.trans hrid.symm)
    rw [ht] at htimer
    cases htimer

/-- An end that comes for a parked sandbox which knows of it takes the sandbox. -/
theorem claim?_expired (hd : m.pool.Distinct) {alarm : Alarm} (hrec : r ∈ m.pool.records)
    (hid : r.id = alarm.id) (hpark : m.pool.Parked r)
    (ht : r.timer.map (·.generation) = some alarm.generation) :
    (m.expired alarm).pool.claim? alarm.id = some .terminating := by
  show (Termination.expire alarm.id alarm.generation m.pool).pool.claim? alarm.id = _
  rcases Termination.expire_cases hd alarm.id alarm.generation with ⟨-, hno⟩ | ⟨x, -, -, -, -, heq⟩
  · exact absurd ht (hno r hrec hid hpark)
  · rw [heq]
    exact (Pool.claim?_setClaim _ _ _ _).trans (if_pos rfl)

section Runs

variable {wait : Nat} (hp : Pool.create config seed = .ok pool)
  (hmulti : config.parallelism = .multi) (hr : (ofPool pool now).Reaches h m)
  (hrec : r ∈ m.pool.records) (hs : r.state = .running) (hc : m.pool.claim? r.id = none)

include hp hmulti hr hrec hs hc

/-- A release that would set an end beyond the calendar breaks off. -/
theorem run_halfParked
    (hbeyond : Time.calendarEnd ≤ Release.deadline config.dormancy (m.now + wait)) :
    ∃ m' notes, m.run (releaseMoves m.started r.id wait) = some (m', notes) ∧
      m.HalfParked r (m.now + wait) m' notes := by
  have hconfig := (hr.capped hp).config_eq
  have hd := (hr.capped hp).distinct
  have ho := hr.ordered_ofPool
  have hf := hd.find?_of_mem hrec
  have hrun := run_releaseMoves ho (hconfig ▸ hmulti) hf hs hc wait
  simp only [Release.park_running hf hs hc, hconfig, if_pos hbeyond] at hrun
  refine ⟨_, _, hrun, ?_⟩
  have hfind := hd.find?_parking hrec (m.now + wait) none
  have hd' : (m.pool.parking r (m.now + wait) none).Distinct := hd.put _
  exact {
    broken := activity?_started ⟨ho.numbers, ho.members⟩ _
    record := hfind
    endless := fun alarm ha => expired_idle hd' (ha ▸ hfind) rfl
    untold := congrArg _ ((events_append _ _).trans (congrArg (· ++ _) (events_calm r))) }

/-- A release that sets an end which the calendar covers gets to its end. -/
theorem run_parkedUntil
    (hfit : Release.deadline config.dormancy (m.now + wait) < Time.calendarEnd) :
    ∃ m' notes, m.run (releaseMoves m.started r.id wait) = some (m', notes) ∧
      m.ParkedUntil r (m.now + wait) (Release.deadline config.dormancy (m.now + wait))
        (m.now + wait + config.dormancy.nanos) m' notes := by
  have hconfig := (hr.capped hp).config_eq
  have hd := (hr.capped hp).distinct
  have ho := hr.ordered_ofPool
  have hf := hd.find?_of_mem hrec
  have hrun := run_releaseMoves ho (hconfig ▸ hmulti) hf hs hc wait
  simp only [Release.park_running hf hs hc, hconfig, if_neg (Nat.not_le.2 hfit)] at hrun
  generalize hm' : Machine.start _ _ = m' at hrun
  have hpool : m'.pool = m.pool.parking r (m.now + wait)
      (some ⟨Release.deadline config.dormancy (m.now + wait), m.pool.generation⟩) := by
    rw [← hm']
    rfl
  have halarms : ∃ before, m'.alarms =
      before ++ [⟨r.id, m.pool.generation, m.now + wait + config.dormancy.nanos⟩] := by
    rw [← hm']
    show ∃ before, List.foldl _ _ _ = _
    rw [List.foldl_append, List.foldl_append, Record.ring_calm]
    exact ⟨_, rfl⟩
  have hfind := hd.find?_parking hrec (m.now + wait)
    (some ⟨Release.deadline config.dormancy (m.now + wait), m.pool.generation⟩)
  rw [← hpool] at hfind
  have hclaim : m'.pool.claim? r.id = none := by
    rw [hpool]
    exact hc
  obtain ⟨h', ht⟩ := trace_of_run hrun
  have hr' := hr.append (reaches_of_trace ht)
  have hd' := (hr'.capped hp).distinct
  have ho' := hr'.ordered_ofPool
  have htimed := hr'.timed hp
  obtain ⟨before, hlast⟩ := halarms
  have hmem : _ ∈ m'.alarms := hlast ▸ List.mem_append_right before (List.mem_singleton_self _)
  obtain ⟨hrec', -⟩ := Pool.mem_of_find? hfind
  refine ⟨m', _, hrun, ?_⟩
  exact {
    returned := by
      rw [← hm']
      exact activity?_started ⟨ho.numbers, ho.members⟩ _
    record := hfind
    unclaimed := hclaim
    armed := htimed.filter_generation hmem
    fires := fun time => next_fire_of_mem (m := { m' with now := time }) ⟨ho'.numbers, ho'.members⟩
      htimed.nodup hmem
    ends := claim?_expired hd' hrec' rfl ⟨rfl, hclaim⟩ rfl
    told := congrArg _ ((events_append _ _).trans (congrArg (· ++ _)
      ((events_append _ _).trans (congrArg (· ++ _) (events_calm r))))) }

end Runs

/-- **A release parks its sandbox if the calendar covers the end**, and breaks off half way or shows
another end if not. In every state of a new pool, at any time and whatever the daemon did before, a
sandbox that runs and that nobody has a claim on is released; nothing else moves meanwhile, and the
daemon pauses the container.

* The release is done, and the sandbox is parked until its window is over, exactly if the calendar
  covers that.
* A window that is too long to be added to a date at all parks the sandbox as well, but the end that is
  shown is not the one that comes.
* Any other window that leads beyond the calendar breaks off the release behind the pause. -/
theorem release_parks_iff (hp : Pool.create config seed = .ok pool)
    (hmulti : config.parallelism = .multi) (hr : (ofPool pool now).Reaches h m)
    (hrec : r ∈ m.pool.records) (hs : r.state = .running) (hc : m.pool.claim? r.id = none)
    (wait : Nat) :
    ∃ m' notes, m.run (releaseMoves m.started r.id wait) = some (m', notes) ∧
      let since := m.now + wait
      let due := since + config.dormancy.nanos
      let shown := Release.deadline config.dormancy since
      (m.ParkedUntil r since due due m' notes ↔ due < Time.calendarEnd) ∧
      (shown < Time.calendarEnd → m.ParkedUntil r since shown due m' notes) ∧
      (Time.calendarEnd ≤ shown → m.HalfParked r since m' notes) := by
  have hexact : m.now + wait + config.dormancy.nanos < Time.calendarEnd →
      Release.deadline config.dormancy (m.now + wait) = m.now + wait + config.dormancy.nanos :=
    Release.deadline_eq
  by_cases hbeyond : Time.calendarEnd ≤ Release.deadline config.dormancy (m.now + wait)
  · obtain ⟨m', notes, hrun, hhalf⟩ := run_halfParked hp hmulti hr hrec hs hc hbeyond
    refine ⟨m', notes, hrun, ⟨fun hpark => ?_, fun hdue => ?_⟩, fun hfit => ?_, fun _ => hhalf⟩
    · have hends := hhalf.broken.symm.trans hpark.returned
      cases hends
    · rw [hexact hdue] at hbeyond
      exact absurd hdue (Nat.not_lt.2 hbeyond)
    · exact absurd hfit (Nat.not_lt.2 hbeyond)
  · have hfit := Nat.lt_of_not_le hbeyond
    obtain ⟨m', notes, hrun, hpark⟩ := run_parkedUntil hp hmulti hr hrec hs hc hfit
    refine ⟨m', notes, hrun, ⟨fun hpark' => ?_, fun hdue => ?_⟩, fun _ => hpark,
      fun hno => absurd hno hbeyond⟩
    · have hrecord := Option.some.inj (hpark.record.symm.trans hpark'.record)
      have htimer := Option.some.inj (congrArg Record.timer hrecord)
      have hshown : Release.deadline config.dormancy (m.now + wait)
          = m.now + wait + config.dormancy.nanos := congrArg Timer.deadline htimer
      rwa [hshown] at hfit
    · rwa [hexact hdue] at hpark

/-- With a window of some 285,000 years the release of the first sandbox breaks off. -/
theorem release_breaks_off :
    let config : Config := { image := "img", maxSandboxes := 2, dormancy := .ofMillis (9 * 10 ^ 15) }
    ∃ pool h m r m' notes, Pool.create config 0 = .ok pool ∧ (ofPool pool 0).Reaches h m ∧
      r ∈ m.pool.records ∧ m.run (releaseMoves 1 r.id 10) = some (m', notes) ∧
      m.HalfParked r 10 m' notes ∧
      ¬ m.ParkedUntil r 10 (10 + config.dormancy.nanos) (10 + config.dormancy.nanos) m' notes := by
  intro config
  let moves : List Move := [.order (.acquire "a"), .step 0 0, .step 0 0, .step 0 0,
    .reply 0 0 (.created (.ok "c1")), .step 0 0, .step 0 0, .reply 0 0 (.acted (.ok ())), .step 0 0,
    .reply 0 0 (.acted (.ok ())), .step 0 0]
  have hp : Pool.create config 0 = .ok (.ofConfig config 0) :=
    create_eq_ok_iff.2 ⟨by decide +kernel, rfl⟩
  have hrun : ((ofPool (.ofConfig config 0) 0).trace moves).any (fun x =>
      x.2.now = 0 ∧ x.2.started = 1 ∧ ∃ r ∈ x.2.pool.records, r.state = .running ∧
        x.2.pool.claim? r.id = none) = true := by decide +kernel
  obtain ⟨x, ht, hx⟩ := (Option.any_eq_true _ _).1 hrun
  obtain ⟨hnow, hstarted, r, hrec, hs, hc⟩ := of_decide_eq_true hx
  have hr := reaches_of_trace ht
  obtain ⟨m', notes, hrelease, hexact, -, hbeyond⟩ := release_parks_iff hp rfl hr hrec hs hc 10
  rw [hstarted] at hrelease
  rw [hnow] at hexact hbeyond
  refine ⟨_, x.1, x.2, r, m', notes, hp, hr, hrec, hrelease, hbeyond (by decide +kernel), ?_⟩
  exact fun hpark => absurd (hexact.1 hpark) (by decide +kernel)

end Machine

end SandboxPool
