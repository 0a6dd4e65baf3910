import SandboxPool.Proofs.Pool.Ticks

/-!
# Parked sandboxes and their ends

What every turn keeps of the ends that are set (`Tick`), whatever identities the daemon gives out:

* `Timed`: the ends that are set have generations of their own, and so have those that records know
  of.
* `Kept`: a parked sandbox has an end that is set, due as long behind its pause as the pool says. An
  end that has come takes the sandbox with it (`Kept.fire`), and one that is not set any more does
  nothing (`Kept.expire_idle`).

As long as no identity is given out twice, an end that is set is the one that the record of its
sandbox knows of, or the sandbox is doomed (`Sole`).
-/

namespace SandboxPool

variable {c : Context} {p q : Pool} {r r' : Record} {id : String} {new : Option String}
  {e : List Effect} {alarms : List Alarm} {dormancy : Duration}

/-- The ends that are set, and those that records know of, have generations that were given out. No
two ends have the same one, nor do two sandboxes know of the same one. -/
structure Timed (p : Pool) (alarms : List Alarm) : Prop where
  nodup : (alarms.map (·.generation)).Nodup
  given : ∀ a ∈ alarms, a.generation < p.generation
  known : ∀ r ∈ p.records, ∀ t, r.timer = some t → t.generation < p.generation
  apart : ∀ r ∈ p.records, ∀ r' ∈ p.records, ∀ t t', r.timer = some t → r'.timer = some t' →
    t.generation = t'.generation → r.id = r'.id

/-- Every parked sandbox has an end that is set, due so long behind the time when it was paused. -/
def Kept (dormancy : Duration) (p : Pool) (alarms : List Alarm) : Prop :=
  ∀ r ∈ p.records, p.Parked r → ∃ since t, r.dormantSince = some since ∧ r.timer = some t ∧
    t.deadline = since + dormancy.nanos ∧ ⟨r.id, t.generation, since + dormancy.nanos⟩ ∈ alarms

/-- An end that is set is the one that the record of its sandbox knows of, unless that is doomed. -/
def Sole (p : Pool) (alarms : List Alarm) : Prop :=
  ∀ a ∈ alarms, (∃ r ∈ p.records, r.id = a.id ∧ ∃ t, r.timer = some t ∧
    t.generation = a.generation) ∨ p.Doomed a.id

/-- An end that the effect sets is due before the calendar ends. -/
def Effect.dated : Effect → Bool
  | arm _ _ due => due < Time.calendarEnd
  | _ => true

/-- All ends that effects set are due before the calendar ends. -/
def Dated (e : List Effect) : Prop := ∀ x ∈ e, x.dated = true

instance (e : List Effect) : Decidable (Dated e) := inferInstanceAs (Decidable (∀ _ ∈ _, _))

theorem Dated.due {due : Instant} {g : Nat} (h : Dated e) (hx : .arm id g due ∈ e) :
    due < Time.calendarEnd := of_decide_eq_true (h _ hx)

/-- An end that the calendar covers is the one that is shown. -/
theorem Release.deadline_eq {now : Instant} (h : now + dormancy.nanos < Time.calendarEnd) :
    deadline dormancy now = now + dormancy.nanos := by
  have hlong : Time.calendarEnd < longestStay := by decide +kernel
  have hshort : dormancy.nanos < longestStay :=
    Nat.lt_trans (Nat.lt_of_le_of_lt (Nat.le_add_left _ now) h) hlong
  unfold deadline
  rw [if_neg (Nat.lt_asymm hshort)]

/-- The effects of a release that would park a sandbox beyond the calendar are not dated. -/
theorem Tick.not_dated_of_burst {now : Instant} {g : Nat} {before : List Effect}
    (hbeyond : Time.calendarEnd ≤ Release.deadline dormancy now) :
    ¬ Dated (before ++ [.arm id g (now + dormancy.nanos)]) := by
  intro hdated
  have hdue := hdated.due (List.mem_append_right _ (List.mem_singleton_self _))
  rw [Release.deadline_eq hdue] at hbeyond
  exact absurd hdue (Nat.not_lt.2 hbeyond)

/-! ## What a tick can change -/

namespace Tick

variable {g : Nat} {t : Timer}

theorem generation_le (h : Tick c p new q e) : p.generation ≤ q.generation := by
  cases h with
  | even h he => exact Nat.le_of_eq h.generation.symm
  | park => exact Nat.le_succ _
  | burst => exact Nat.le_succ _
  | _ => exact Nat.le_refl _

/-- A record knows of an end that it knew of, or of the next one. -/
theorem timer_or (h : Tick c p new q e) (hr : r ∈ q.records) (ht : r.timer = some t) :
    (∃ r₀ ∈ p.records, r₀.id = r.id ∧ r₀.timer = some t) ∨ t.generation = p.generation := by
  have hput : ∀ {s : Record}, r ∈ (p.put s).records → (s.timer = some t → t.generation = p.generation) →
      (∃ r₀ ∈ p.records, r₀.id = r.id ∧ r₀.timer = some t) ∨ t.generation = p.generation := by
    intro s hmem hs
    rcases Pool.mem_put_or hmem with rfl | ⟨hold, -⟩
    · exact .inr (hs ht)
    · exact .inl ⟨r, hold, rfl, ht⟩
  cases h with
  | even h he =>
    obtain ⟨r₀, hr₀, hid, ht₀⟩ := h.before r hr
    exact .inl ⟨r₀, hr₀, hid, ht₀.trans ht⟩
  | register port now hnew =>
    rcases List.mem_append.1 hr with hr | hr
    · exact .inl ⟨r, (List.mem_filter.1 hr).1, rfl, ht⟩
    · obtain rfl := List.mem_singleton.1 hr
      cases ht
  | claim claim hr' hid htimer => exact hput hr fun h => by rw [htimer] at h; cases h
  | expire hr' hp htimer => exact hput hr fun h => by cases h
  | park hr' hc hs hfit => exact hput hr fun h => by cases h; rfl
  | burst hr' hc hs hbeyond => exact hput hr fun h => by cases h

/-- An end that is set was set before, or is the next one. -/
theorem ring_or (h : Tick c p new q e) {a : Alarm} (ha : a ∈ e.foldl Effect.ring alarms) :
    a ∈ alarms ∨ a.generation = p.generation := by
  cases h with
  | even h he =>
    rw [Effect.foldl_ring_of_not_rings he] at ha
    exact .inl ha
  | claim claim hr hid ht =>
    rw [Record.ring_calm] at ha
    exact .inl (List.mem_filter.1 ha).1
  | park hr hc hs hfit =>
    rw [List.foldl_append, List.foldl_append, Record.ring_calm] at ha
    rcases List.mem_append.1 ha with ha | ha
    · exact .inl (List.mem_filter.1 ha).1
    · obtain rfl := List.mem_singleton.1 ha
      exact .inr rfl
  | burst hr hc hs hbeyond =>
    rw [List.foldl_append, Record.ring_calm] at ha
    rcases List.mem_append.1 ha with ha | ha
    · exact .inl (List.mem_filter.1 ha).1
    · obtain rfl := List.mem_singleton.1 ha
      exact .inr rfl
  | _ => exact .inl ha

/-- Only an end is called off that a record knows of. -/
theorem of_disarm (h : Tick c p new q e) (hx : .disarm g ∈ e) :
    ∃ r ∈ p.records, ∃ t, r.timer = some t ∧ t.generation = g := by
  have hcalm : ∀ {r : Record}, r ∈ p.records → .disarm g ∈ r.calm.2 →
      ∃ r ∈ p.records, ∃ t, r.timer = some t ∧ t.generation = g := by
    intro r hr hmem
    obtain ⟨t, ht, heq⟩ := Record.mem_calm hmem
    cases heq
    exact ⟨r, hr, t, ht, rfl⟩
  cases h with
  | even h he => cases he _ hx
  | claim claim hr hid ht => exact hcalm hr hx
  | park hr hc hs hfit => exact hcalm hr (by simpa using hx)
  | burst hr hc hs hbeyond => exact hcalm hr (by simpa using hx)
  | _ => cases hx

/-- A parked sandbox was parked before, or the effects have set its end. -/
theorem parked_or (h : Tick c p new q e) (hdated : Dated e) (hr : r ∈ q.records)
    (hp : q.Parked r) : (∃ r₀ ∈ p.records, p.Parked r₀ ∧ r₀.id = r.id ∧ r₀.timer = r.timer ∧
      r₀.dormantSince = r.dormantSince) ∨
    r.dormantSince = some c.now ∧ r.timer.map (·.generation) = some p.generation ∧
      (∃ r₀ ∈ p.records, r₀.id = r.id ∧ r₀.state = .running ∧ p.claim? r.id = none) ∧
      .arm r.id p.generation (c.now + p.config.dormancy.nanos) ∈ e := by
  have hclaimed : ∀ {s : Record} {claim : Claim}, r ∈ (p.put s).records →
      ((p.put s).setClaim s.id claim).Parked r → ∃ r₀ ∈ p.records, p.Parked r₀ ∧ r₀.id = r.id ∧
        r₀.timer = r.timer ∧ r₀.dormantSince = r.dormantSince := by
    intro s claim hmem hpark
    have hclaim := hpark.2
    rw [Pool.claim?_setClaim] at hclaim
    rcases Pool.mem_put_or hmem with rfl | ⟨hold, hne⟩
    · rw [if_pos rfl] at hclaim
      cases hclaim
    · rw [if_neg hne] at hclaim
      exact ⟨r, hold, ⟨hpark.1, hclaim⟩, rfl, rfl, rfl⟩
  cases h with
  | even h he => exact .inl (h.parked r hr hp)
  | register port now hnew =>
    rcases List.mem_append.1 hr with hr | hr
    · exact .inl ⟨r, (List.mem_filter.1 hr).1, hp, rfl, rfl, rfl⟩
    · obtain rfl := List.mem_singleton.1 hr
      cases hp.1
  | claim claim hr' hid ht =>
    rw [← hid] at hp
    exact .inl (hclaimed hr hp)
  | expire hr' hpark ht => exact .inl (hclaimed hr hp)
  | @park r₀ hr' hc hs hfit =>
    have hmem : r ∈ (Pool.put { p with generation := p.generation + 1 } { r₀ with
        timer := some ⟨Release.deadline p.config.dormancy c.now, p.generation⟩, state := .dormant,
        block := none, dormantSince := some c.now }).records := hr
    rcases Pool.mem_put_or hmem with rfl | ⟨hold, -⟩
    · exact .inr ⟨rfl, rfl, ⟨r₀, hr', rfl, hs, hc⟩, by simp⟩
    · exact .inl ⟨r, hold, hp, rfl, rfl, rfl⟩
  | burst hr' hc hs hbeyond => exact absurd hdated (not_dated_of_burst hbeyond)

end Tick

/-! ## Generations -/

namespace Timed

theorem filter (h : Timed p alarms) (f : Alarm → Bool) : Timed p (alarms.filter f) :=
  ⟨h.nodup.sublist (List.filter_sublist.map _), fun a ha => h.given a (List.mem_filter.1 ha).1,
    h.known, h.apart⟩

/-- Two ends with the same generation are the same. -/
theorem eq_of_generation (h : Timed p alarms) {a b : Alarm} (ha : a ∈ alarms) (hb : b ∈ alarms)
    (hg : a.generation = b.generation) : a = b := List.inj_on_of_nodup_map h.nodup ha hb hg

/-- No other end has the generation of an end that is set. -/
theorem filter_generation (h : Timed p alarms) {a : Alarm} (ha : a ∈ alarms) :
    alarms.filter (·.generation == a.generation) = [a] := by
  obtain ⟨l, s, rfl⟩ := List.append_of_mem ha
  have hnodup := h.nodup
  rw [List.map_append, List.map_cons, List.nodup_append] at hnodup
  obtain ⟨-, hright, hcross⟩ := hnodup
  have hleft : l.filter (·.generation == a.generation) = [] := by
    rw [List.filter_eq_nil_iff]
    intro b hb he
    exact hcross _ (List.mem_map_of_mem hb) _ (List.mem_cons_self ..) (beq_iff_eq.1 he)
  have hrest : s.filter (·.generation == a.generation) = [] := by
    rw [List.filter_eq_nil_iff]
    intro b hb he
    exact (List.nodup_cons.1 hright).1 (beq_iff_eq.1 he ▸ List.mem_map_of_mem hb)
  rw [List.filter_append, List.filter_cons, hleft, hrest, if_pos (beq_self_eq_true _), List.nil_append]

/-- The records know of no end that they did not know of. -/
theorem of_known (h : Timed p alarms) (hg : p.generation ≤ q.generation)
    (hq : ∀ r ∈ q.records, ∀ t, r.timer = some t → ∃ r₀ ∈ p.records, r₀.id = r.id ∧
      r₀.timer = some t) : Timed q alarms := by
  refine ⟨h.nodup, fun a ha => Nat.lt_of_lt_of_le (h.given a ha) hg, fun r hr t ht => ?_,
    fun r hr r' hr' t t' ht ht' he => ?_⟩
  · obtain ⟨r₀, hr₀, -, ht₀⟩ := hq r hr t ht
    exact Nat.lt_of_lt_of_le (h.known r₀ hr₀ t ht₀) hg
  · obtain ⟨r₀, hr₀, hid₀, ht₀⟩ := hq r hr t ht
    obtain ⟨r₁, hr₁, hid₁, ht₁⟩ := hq r' hr' t' ht' 
    rw [← hid₀, ← hid₁]
    exact h.apart r₀ hr₀ r₁ hr₁ t t' ht₀ ht₁ he

/-- A record is replaced by one that knows of no end. -/
theorem of_put (h : Timed p alarms) (hr : r ∈ p.records) (hq : q.records = (p.put r').records)
    (hid : r'.id = r.id) (ht : r'.timer = none) (hg : p.generation ≤ q.generation) :
    Timed q alarms := by
  refine h.of_known hg fun x hx t hxt => ?_
  rcases (Pool.mem_put hq hr hid).1 hx with rfl | ⟨hold, -⟩
  · rw [ht] at hxt
    cases hxt
  · exact ⟨x, hold, rfl, hxt⟩

/-- A sandbox is parked under the next generation. -/
theorem of_parking (h : Timed p alarms) (hr : r ∈ p.records) (now deadline due : Instant) :
    Timed (p.parking r now (some ⟨deadline, p.generation⟩))
      (alarms ++ [⟨r.id, p.generation, due⟩]) := by
  have hmem : ∀ {x}, x ∈ (p.parking r now (some ⟨deadline, p.generation⟩)).records ↔ _ :=
    Pool.mem_put rfl hr rfl
  refine ⟨?_, fun a ha => ?_, fun x hx t ht => ?_, fun x hx y hy t t' ht ht' he => ?_⟩
  · rw [List.map_append, List.nodup_append]
    refine ⟨h.nodup, List.nodup_singleton _, fun g hg g' hg' he => ?_⟩
    obtain ⟨a, ha, rfl⟩ := List.mem_map.1 hg
    have hlt := h.given a ha
    rw [he, List.mem_singleton.1 hg'] at hlt
    exact Nat.lt_irrefl _ hlt
  · show a.generation < p.generation + 1
    rcases List.mem_append.1 ha with ha | ha
    · exact Nat.lt_succ_of_lt (h.given a ha)
    · obtain rfl := List.mem_singleton.1 ha
      exact Nat.lt_succ_self _
  · show t.generation < p.generation + 1
    rcases hmem.1 hx with rfl | ⟨hold, -⟩
    · obtain rfl := Option.some.inj ht
      exact Nat.lt_succ_self _
    · exact Nat.lt_succ_of_lt (h.known x hold t ht)
  · rcases hmem.1 hx with rfl | ⟨hx, -⟩
    · rcases hmem.1 hy with rfl | ⟨hy, -⟩
      · rfl
      · obtain rfl := Option.some.inj ht
        exact absurd he.symm (Nat.ne_of_lt (h.known y hy t' ht'))
    · rcases hmem.1 hy with rfl | ⟨hy, -⟩
      · obtain rfl := Option.some.inj ht'
        exact absurd he (Nat.ne_of_lt (h.known x hx t ht))
      · exact h.apart x hx y hy t t' ht ht' he

theorem tick (h : Timed p alarms) (ht : Tick c p new q e) : Timed q (e.foldl Effect.ring alarms) := by
  cases ht with
  | even he hquiet =>
    rw [Effect.foldl_ring_of_not_rings hquiet]
    refine h.of_known (Nat.le_of_eq he.generation.symm) fun r hr t ht => ?_
    obtain ⟨r₀, hr₀, hid, ht₀⟩ := he.before r hr
    exact ⟨r₀, hr₀, hid, ht₀.trans ht⟩
  | register port now hnew =>
    refine h.of_known (Nat.le_refl _) fun r hr t ht => ?_
    rcases List.mem_append.1 hr with hr | hr
    · exact ⟨r, (List.mem_filter.1 hr).1, rfl, ht⟩
    · obtain rfl := List.mem_singleton.1 hr
      cases ht
  | claim claim hr hid ht =>
    rw [Record.ring_calm]
    exact (h.filter _).of_put hr rfl hid ht (Nat.le_refl _)
  | expire hr hp ht => exact h.of_put hr rfl rfl rfl (Nat.le_refl _)
  | park hr hc hs hfit =>
    rw [List.foldl_append, List.foldl_append, Record.ring_calm]
    exact (h.filter _).of_parking hr _ _ _
  | @burst r hr hc hs hbeyond =>
    rw [List.foldl_append, Record.ring_calm]
    have hset := (h.filter fun a => r.timer.map (·.generation) != some a.generation).of_parking hr
      c.now 0 (c.now + p.config.dormancy.nanos)
    refine ⟨hset.nodup, hset.given, fun x hx t ht => ?_, fun x hx y hy t t' ht ht' he => ?_⟩
    · rcases (Pool.mem_put (q := p.parking r c.now none) rfl hr rfl).1 hx with rfl | ⟨hold, -⟩
      · cases ht
      · exact Nat.lt_succ_of_lt (h.known x hold t ht)
    · rcases (Pool.mem_put (q := p.parking r c.now none) rfl hr rfl).1 hx with rfl | ⟨hx, -⟩
      · cases ht
      · rcases (Pool.mem_put (q := p.parking r c.now none) rfl hr rfl).1 hy with rfl | ⟨hy, -⟩
        · cases ht'
        · exact h.apart x hx y hy t t' ht ht' he

end Timed

/-! ## Parked sandboxes -/

/-- What an end does that has come: it claims the sandbox if that is still in the pause that the end
was set for, and nothing else. -/
theorem Termination.expire_cases (hd : p.Distinct) (id : String) (g : Nat) :
    (expire id g p = ⟨p, [], .done (.ok ())⟩ ∧
      ∀ r ∈ p.records, r.id = id → p.Parked r → r.timer.map (·.generation) ≠ some g) ∨
    ∃ r ∈ p.records, r.id = id ∧ p.Parked r ∧ r.timer.map (·.generation) = some g ∧
      expire id g p =
        ⟨(p.put { r with timer := none, busy := true }).setClaim id .terminating, [],
          .goto (.stop r.port)⟩ := by
  unfold expire
  cases hf : p.find? id with
  | none => exact .inl ⟨rfl, fun r hr hid => absurd hid (Pool.find?_eq_none.1 hf r hr)⟩
  | some r =>
    obtain ⟨hr, rfl⟩ := Pool.mem_of_find? hf
    by_cases hp : p.Parked r ∧ r.timer.map (·.generation) = some g
    · obtain ⟨⟨hs, hc⟩, ht⟩ := hp
      refine .inr ⟨r, hr, rfl, ⟨hs, hc⟩, ht, ?_⟩
      simp [hs, hc, ht]
    · refine .inl ⟨?_, fun x hx hid hpark ht => ?_⟩
      · have hno : (r.state != .dormant || (p.claim? r.id).isSome
            || r.timer.map (·.generation) != some g) = true := by
          rw [← Bool.not_eq_false]
          intro hyes
          simp only [Bool.or_eq_false_iff, bne_eq_false_iff_eq, Option.isSome_eq_false_iff,
            Option.isNone_iff_eq_none] at hyes
          exact hp ⟨hyes.1, hyes.2⟩
        simp only [hno, if_true]
      · obtain rfl := hd.eq_of_id hr hx hid
        exact hp ⟨hpark, ht⟩

namespace Kept

/-- A sandbox that stays parked keeps its end when that of another one is called off. -/
theorem mem_calm (ht : Timed p alarms) (h : Kept dormancy p alarms) (hr : r ∈ p.records)
    (hr' : r' ∈ p.records) (hne : r'.id ≠ r.id) (hp : p.Parked r') :
    ∃ since t, r'.dormantSince = some since ∧ r'.timer = some t ∧
      t.deadline = since + dormancy.nanos ∧ ⟨r'.id, t.generation, since + dormancy.nanos⟩ ∈
        alarms.filter fun a => r.timer.map (·.generation) != some a.generation := by
  obtain ⟨since, t, hsince, htimer, hdeadline, hmem⟩ := h r' hr' hp
  refine ⟨since, t, hsince, htimer, hdeadline, List.mem_filter.2 ⟨hmem, ?_⟩⟩
  rw [bne_iff_ne]
  intro he
  obtain ⟨t', ht', hg⟩ := Option.map_eq_some_iff.1 he
  exact hne (ht.apart r' hr' r hr t t' htimer ht' hg.symm)

theorem tick (hd : p.config.dormancy = dormancy) (ht : Timed p alarms) (h : Kept dormancy p alarms)
    (htick : Tick c p new q e) (hdated : Dated e) : Kept dormancy q (e.foldl Effect.ring alarms) := by
  cases htick with
  | even he hquiet =>
    intro r hr hp
    rw [Effect.foldl_ring_of_not_rings hquiet]
    obtain ⟨r₀, hr₀, hp₀, hid, htimer, hsince⟩ := he.parked r hr hp
    rw [← hid, ← htimer, ← hsince]
    exact h r₀ hr₀ hp₀
  | register port now hnew =>
    intro r hr hp
    rcases List.mem_append.1 hr with hr | hr
    · exact h r (List.mem_filter.1 hr).1 hp
    · obtain rfl := List.mem_singleton.1 hr
      cases hp.1
  | @claim r r' claim hr hid htimer =>
    intro x hx hp
    rw [Record.ring_calm]
    have hclaim := hp.2
    rw [Pool.claim?_setClaim] at hclaim
    split at hclaim
    · cases hclaim
    · next hne =>
      rcases (Pool.mem_put rfl hr hid).1 hx with rfl | ⟨hx, -⟩
      · exact absurd hid hne
      · exact h.mem_calm ht hr hx hne ⟨hp.1, hclaim⟩
  | @expire r t hr hpark htimer =>
    intro x hx hp
    have hclaim := hp.2
    rw [Pool.claim?_setClaim] at hclaim
    split at hclaim
    · cases hclaim
    · next hne =>
      have hx : x ∈ (p.put { r with timer := none, busy := true }).records := hx
      rcases Pool.mem_put_or hx with rfl | ⟨hx, -⟩
      · exact absurd rfl hne
      · exact h x hx ⟨hp.1, hclaim⟩
  | @park r hr hc hs hfit =>
    intro x hx hp
    have hdue : c.now + p.config.dormancy.nanos < Time.calendarEnd := hdated.due
      (List.mem_append_left _ (List.mem_append_right _ (List.mem_singleton_self _)))
    rw [List.foldl_append, List.foldl_append, Record.ring_calm]
    have hx : x ∈ (Pool.put { p with generation := p.generation + 1 } { r with
        timer := some ⟨Release.deadline p.config.dormancy c.now, p.generation⟩, state := .dormant,
        block := none, dormantSince := some c.now }).records := hx
    rcases Pool.mem_put_or hx with rfl | ⟨hx, hne⟩
    · refine ⟨c.now, _, rfl, rfl, ?_, ?_⟩
      · rw [← hd]
        exact Release.deadline_eq hdue
      · rw [← hd]
        exact List.mem_append_right _ (List.mem_singleton_self _)
    · obtain ⟨since, t, hsince, htimer, hdeadline, hmem⟩ := h.mem_calm ht hr hx hne hp
      exact ⟨since, t, hsince, htimer, hdeadline, List.mem_append_left _ hmem⟩
  | burst hr hc hs hbeyond => exact absurd hdated (Tick.not_dated_of_burst hbeyond)

/-- **An end that has come takes the sandbox with it that it was set for**, and no other. -/
theorem fire (hdistinct : p.Distinct) (ht : Timed p alarms) (h : Kept dormancy p alarms)
    {alarm : Alarm} (ha : alarm ∈ alarms) :
    Kept dormancy (Termination.expire alarm.id alarm.generation p).pool
      (alarms.filter (·.generation != alarm.generation)) := by
  intro r hr hp
  rcases Termination.expire_cases hdistinct alarm.id alarm.generation with ⟨heq, hno⟩ | ⟨r₀, hr₀, hid, -, -, heq⟩
  · rw [heq] at hr hp
    obtain ⟨since, t, hsince, htimer, hdeadline, hmem⟩ := h r hr hp
    refine ⟨since, t, hsince, htimer, hdeadline, List.mem_filter.2 ⟨hmem, bne_iff_ne.2 fun he => ?_⟩⟩
    have hsame := ht.eq_of_generation hmem ha he
    refine hno r hr (congrArg Alarm.id hsame) hp ?_
    rw [htimer]
    exact congrArg some he
  · rw [heq] at hr hp
    have hclaim := hp.2
    rw [Pool.claim?_setClaim] at hclaim
    split at hclaim
    · cases hclaim
    · next hne =>
      have hr : r ∈ (p.put { r₀ with timer := none, busy := true }).records := hr
      rcases Pool.mem_put_or hr with rfl | ⟨hold, -⟩
      · exact absurd hid hne
      · obtain ⟨since, t, hsince, htimer, hdeadline, hmem⟩ := h r hold ⟨hp.1, hclaim⟩
        refine ⟨since, t, hsince, htimer, hdeadline,
          List.mem_filter.2 ⟨hmem, bne_iff_ne.2 fun he => ?_⟩⟩
        exact hne (congrArg Alarm.id (ht.eq_of_generation hmem ha he))

/-- An end that is not set any more, because it has come or was called off, does nothing if it comes
after all. -/
theorem expire_idle (hd : p.Distinct) (h : Kept dormancy p alarms) {g : Nat}
    (hno : ∀ a ∈ alarms, a.generation ≠ g) :
    Termination.expire id g p = ⟨p, [], .done (.ok ())⟩ := by
  rcases Termination.expire_cases hd id g with ⟨heq, -⟩ | ⟨r, hr, -, hp, htimer, -⟩
  · exact heq
  · obtain ⟨since, t, -, ht, -, hmem⟩ := h r hr hp
    rw [ht] at htimer
    exact absurd (Option.some.inj htimer) (hno _ hmem)

end Kept

/-! ## One end for a sandbox -/

namespace Sole

theorem filter (h : Sole p alarms) (f : Alarm → Bool) : Sole p (alarms.filter f) :=
  fun a ha => h a (List.mem_filter.1 ha).1

/-- The record that knows of an end stays, or gives way to one that knows of it. -/
theorem of_behind (h : Sole p alarms) (hdoomed : ∀ id, p.Doomed id → q.Doomed id)
    (hq : ∀ a ∈ alarms, ∀ r ∈ p.records, r.id = a.id → (∃ t, r.timer = some t ∧
      t.generation = a.generation) → (∃ r' ∈ q.records, r'.id = a.id ∧ ∃ t, r'.timer = some t ∧
      t.generation = a.generation) ∨ q.Doomed a.id) : Sole q alarms := by
  intro a ha
  rcases h a ha with ⟨r, hr, hid, ht⟩ | hend
  · exact hq a ha r hr hid ht
  · exact .inr (hdoomed _ hend)

/-- A record gives way to another one, and the end that it knows of is not set any more. -/
theorem of_put (hd : p.Distinct) (h : Sole p alarms) (hdoomed : ∀ id, p.Doomed id → q.Doomed id)
    (hr : r ∈ p.records) (hq : q.records = (p.put r').records) (hid : r'.id = r.id) :
    Sole q (alarms.filter fun a => r.timer.map (·.generation) != some a.generation) := by
  refine (h.filter _).of_behind hdoomed fun a ha x hx hxid ht => ?_
  by_cases he : x.id = r.id
  · obtain rfl := hd.eq_of_id hr hx he
    obtain ⟨t, ht, hg⟩ := ht
    have hne := (List.mem_filter.1 ha).2
    rw [ht, bne_iff_ne] at hne
    exact absurd (congrArg some hg) hne
  · exact .inl ⟨x, (Pool.mem_put hq hr hid).2 (.inr ⟨hx, he⟩), hxid, ht⟩

theorem tick (hd : p.Distinct) (h : Sole p alarms) (htick : Tick c p new q e)
    (hdoomed : ∀ id, p.Doomed id → q.Doomed id)
    (hnew : ∀ id, new = some id → ∀ r ∈ p.records, r.id ≠ id) (hdated : Dated e) :
    Sole q (e.foldl Effect.ring alarms) := by
  cases htick with
  | even he hquiet =>
    rw [Effect.foldl_ring_of_not_rings hquiet]
    refine h.of_behind hdoomed fun a _ r hr hid ⟨t, ht, hg⟩ => ?_
    obtain ⟨r', hr', hid', ht'⟩ := he.behind r hr
    exact .inl ⟨r', hr', hid'.trans hid, t, ht'.trans ht, hg⟩
  | @register id port now hid =>
    refine h.of_behind hdoomed fun a _ r hr hra ht => .inl ⟨r, ?_, hra, ht⟩
    exact List.mem_append_left _ (List.mem_filter.2 ⟨hr, bne_iff_ne.2 (hnew id hid r hr)⟩)
  | claim claim hr hid htimer =>
    rw [Record.ring_calm]
    exact h.of_put hd hdoomed hr rfl hid
  | @expire r t hr hp htimer =>
    refine h.of_behind hdoomed fun a _ x hx hxa ht => ?_
    by_cases he : x.id = r.id
    · rw [← hxa, he]
      refine .inr ⟨_, Pool.mem_put_self hr rfl, rfl, .inr ?_⟩
      exact (Pool.claim?_setClaim _ _ _ _).trans (if_pos rfl)
    · exact .inl ⟨x, Pool.mem_put_of_ne hx he, hxa, ht⟩
  | @park r hr hc hs hfit =>
    rw [List.foldl_append, List.foldl_append, Record.ring_calm]
    intro a ha
    rcases List.mem_append.1 ha with ha | ha
    · exact h.of_put hd hdoomed hr rfl rfl a ha
    · obtain rfl := List.mem_singleton.1 ha
      exact .inl ⟨_, Pool.mem_put_self hr rfl, rfl, _, rfl, rfl⟩
  | burst hr hc hs hbeyond => exact absurd hdated (Tick.not_dated_of_burst hbeyond)

/-- A parked sandbox has one end that is set. -/
theorem filter_id (hd : p.Distinct) (ht : Timed p alarms) (h : Sole p alarms) (hr : r ∈ p.records)
    (hlive : ¬ p.Doomed r.id) {a : Alarm} (ha : a ∈ alarms) (hid : a.id = r.id) :
    alarms.filter (·.id == r.id) = [a] := by
  have hknown : ∀ x ∈ alarms, x.id = r.id → r.timer.map (·.generation) = some x.generation := by
    intro x hx hxid
    rcases h x hx with ⟨r₀, hr₀, hid₀, t, htimer, hg⟩ | hdoomed
    · obtain rfl := hd.eq_of_id hr hr₀ (hid₀.trans hxid)
      rw [htimer, ← hg]
      rfl
    · exact absurd (hxid ▸ hdoomed) hlive
  rw [← ht.filter_generation ha]
  refine List.filter_congr fun x hx => ?_
  by_cases he : x.generation = a.generation
  · obtain rfl := ht.eq_of_generation hx ha he
    simp [hid]
  · have hne : x.id ≠ r.id := fun hxid => he
      (Option.some.inj ((hknown x hx hxid).symm.trans (hknown a ha hid)))
    simp [he, hne]

end Sole

end SandboxPool
