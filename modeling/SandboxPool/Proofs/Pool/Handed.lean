import SandboxPool.Proofs.Machine.Endings
import SandboxPool.Proofs.Pool.FirstStates

/-!
# What the scopes of an acquisition do to sandboxes that end

An acquisition takes an idle sandbox that nobody has a claim on, binds a paused one that it has woken
if its claim still stands, publishes a new one for its block, or joins the one that is shared. The
first two ask whether a termination has begun; the last two do not (`Acquire.Point.blind?`).

* `Acquire.hands_out`: a sandbox that goes out runs its block and is not doomed exactly if it was not
  doomed before the scope (`Handed`).
* `Acquire.spares`: the records of other doomed sandboxes stay as they are, unless the acquisition
  itself has entered one or ends it (`Acquire.Point.own?`).
-/

namespace SandboxPool

variable {config : Config} {c : Context} {p q : Pool} {out : Bool} {sig : Option Signal}
  {block id : String} {r r' : Record} {snap : Snapshot}

/-! ## Binding -/

/-- The sandbox that a spawn publishes, whether it is doomed or not. -/
def Spawn.Point.blind? : Spawn.Point → Option String
  | .publish id => some id
  | _ => none

/-- The sandbox that an acquisition publishes or joins, whether it is doomed or not. -/
def Acquire.Point.blind? : Acquire.Point → Option String
  | .cold s | .shared s => s.blind?
  | .join id => some id
  | _ => none

/-- The sandbox whose record a spawn enters, or that it ends. -/
def Spawn.Point.own? : Spawn.Point → Option String
  | .register id _ | .discard id _ (.settle _) => some id
  | _ => none

/-- The sandbox whose record an acquisition enters, or that it ends. -/
def Acquire.Point.own? : Acquire.Point → Option String
  | .retire id _ (.settle _) => some id
  | .cold s | .shared s => s.own?
  | _ => none

/-- The record of a sandbox that goes out for a block: behind the scope it runs and is not doomed
exactly if it was not doomed before. -/
structure Handed (block : String) (snap : Snapshot) (p q : Pool) (r : Record) : Prop where
  mem : r ∈ q.records
  snapshot : r.snapshot = snap
  block : r.block = some block
  alive : r.state = .running ∧ ¬ q.Doomed r.id ↔ ¬ p.Doomed r.id

/-- A record that stays live, with the same claim, is as doomed as it was. -/
theorem Pool.Distinct.doomed_put (hd : p.Distinct) (r' : Record) (hr : r ∈ p.records)
    (hq : q.records = (p.put r').records) (hid : r'.id = r.id)
    (h : r'.live = false ∨ q.claim? r.id = some .terminating ↔
      r.live = false ∨ p.claim? r.id = some .terminating) : q.Doomed r'.id ↔ p.Doomed r.id := by
  have hdistinct : q.Distinct := by
    unfold Pool.Distinct
    rw [hq]
    exact hd.put r'
  have hmem : r' ∈ q.records := (Pool.mem_put hq hr hid).2 (.inl rfl)
  rw [hdistinct.doomed_iff hmem, hd.doomed_iff hr, hid]
  exact h

/-- A sandbox that is made to run for a block is handed out. -/
theorem Handed.of_running (hd : p.Distinct) (hr : r ∈ p.records)
    (hq : q.records = (p.put r').records) (hid : r'.id = r.id) (hs : r'.state = .running)
    (hblock : r'.block = some block) (hl : r.live = true)
    (hc : q.claim? r.id = some .terminating ↔ p.claim? r.id = some .terminating) :
    Handed block r'.snapshot p q r' := by
  have hlive : r'.live = true := Record.live_of_state hs rfl
  have hdoomed : q.Doomed r'.id ↔ p.Doomed r.id := by
    refine hd.doomed_put r' hr hq hid ?_
    simp only [hlive, hl, hc]
  refine ⟨(Pool.mem_put hq hr hid).2 (.inl rfl), rfl, hblock, ?_⟩
  rw [hdoomed, hid]
  exact ⟨fun h => h.2, fun h => ⟨hs, h⟩⟩

/-- A sandbox that is published for a block is handed out, whether it is doomed or not. -/
theorem Spawn.publish_hands_out {job : Job} (hd : p.Distinct) (hj : job.block = some block)
    (h : (publish job id p).result = .done (.ok snap)) :
    ∃ r, Handed block snap p (publish job id p).pool r ∧ r.id = id := by
  cases hf : p.find? id with
  | none => simp [publish, hf] at h
  | some r =>
    obtain ⟨hr, rfl⟩ := Pool.mem_of_find? hf
    cases ha : r.state.admits .idle with
    | false => simp [publish, hf, Record.move_of_not_admits ha] at h
    | true =>
      have hput : ((p.put { r with state := .idle }).put
          { r with state := .running, block := some block }).records
          = (p.put { r with state := .running, block := some block }).records := by
        rw [Pool.put_put]
        rfl
      simp only [publish, hf, Record.move_of_admits ha, hj,
        bind_idle (r := { r with state := .idle }) rfl] at h ⊢
      cases h
      exact ⟨_, Handed.of_running hd hr hput rfl rfl rfl
        (Record.live_of_admits_idle ha) Iff.rfl, rfl⟩

theorem Spawn.hands_out {job : Job} {t : Point} {s : Scope (Option (Next Point Result))}
    (hd : p.Distinct) (hj : job.block = some block)
    (h : (demand config job t).Turn c p out sig s) (hs : s.result = some (.done (.ok snap))) :
    ∃ r, Handed block snap p s.pool r ∧ t.blind? = some r.id := by
  cases t with
  | publish id =>
    obtain ⟨-, -, rfl⟩ := Demand.turn_scope h
    obtain ⟨r, hr, rfl⟩ := publish_hands_out hd hj (Option.some.inj hs)
    exact ⟨r, hr, rfl⟩
  | allocate =>
    obtain ⟨-, -, rfl⟩ := Demand.turn_scope h
    simp only [Scope.map, allocate] at hs
    split at hs <;> cases hs
  | create spec port =>
    rcases Demand.turn_create h with ⟨-, -, rfl⟩ | ⟨r, -, -, rfl⟩
    · cases hs
    · cases r <;> cases hs
  | giveBack port cause =>
    obtain ⟨-, -, rfl⟩ := Demand.turn_scope h
    cases hs
  | register id port =>
    obtain ⟨-, -, rfl⟩ := Demand.turn_scope h
    cases hs
  | start id port =>
    rcases Demand.turn_act h with ⟨-, -, rfl⟩ | ⟨r, -, -, rfl⟩
    · cases hs
    · cases r with
      | ok _ => cases hk : job.kind <;> simp [hk] at hs
      | error e => cases hs
  | probe id port =>
    rcases Demand.turn_health h with ⟨-, -, rfl⟩ | ⟨r, -, -, rfl⟩
    · cases hs
    · cases r <;> cases hs
  | discard id error t =>
    obtain ⟨s₀, -, rfl⟩ := Demand.turn_map h
    obtain ⟨next, -, hnext⟩ := Option.map_eq_some_iff.1 hs
    cases next <;> cases hnext

namespace Acquire

theorem pick_hands_out (hd : p.Distinct) (h : (pick block c p).result = .done (.ok snap)) :
    ∃ r, Handed block snap p (pick block c p).pool r ∧ ¬ p.Doomed r.id := by
  unfold pick at h ⊢
  cases hi : candidate? (·.selectable .idle) c p with
  | some r =>
    obtain ⟨hr, hc, hs⟩ := Acquire.mem_of_selectable hi
    have hl : r.live = true := Record.live_of_state hs rfl
    simp only [hi, take, Spawn.bind_idle hs] at h ⊢
    cases h
    refine ⟨_, Handed.of_running hd hr rfl rfl rfl rfl hl Iff.rfl, ?_⟩
    show ¬ p.Doomed r.id
    rw [hd.doomed_iff hr, hl, hc]
    simp
  | none =>
    cases hs : candidate? (·.selectable .dormant) c p with
    | some r =>
      simp only [hi, hs] at h
      cases h
    | none =>
      simp only [hi, hs, coldOr] at h
      split at h <;> cases h

theorem rebind_hands_out (hd : p.Distinct) (h : (rebind block id p).result = .done (.ok snap)) :
    ∃ r, Handed block snap p (rebind block id p).pool r ∧ ¬ p.Doomed r.id := by
  unfold rebind at h ⊢
  by_cases hc : p.claim? id = some .waking
  · simp only [hc, bne_self_eq_false, Bool.false_eq_true, if_false] at h ⊢
    have hfind : (p.dropClaim id).find? id = p.find? id := rfl
    simp only [hfind] at h ⊢
    cases hf : p.find? id with
    | none => simp [hf] at h
    | some r =>
      obtain ⟨hr, rfl⟩ := Pool.mem_of_find? hf
      cases ha : r.state.admits .idle with
      | false =>
        simp [hf, Record.move_of_not_admits (r := { r with busy := false }) ha] at h
      | true =>
        simp only [hf, Record.move_of_admits (r := { r with busy := false }) ha,
          Spawn.bind_idle (r := { r with busy := false, state := .idle }) rfl] at h ⊢
        cases h
        have hl := Record.live_of_admits_idle ha
        have hput : ((p.put { r with busy := false, state := .idle }).put
            { r with busy := false, state := .running, block := some block }).records
            = (p.put { r with busy := false, state := .running, block := some block }).records := by
          rw [Pool.put_put]
          rfl
        refine ⟨_, Handed.of_running hd hr hput rfl rfl rfl hl ?_, ?_⟩
        · show (p.dropClaim r.id).claim? r.id = _ ↔ _
          rw [Pool.claim?_dropClaim, if_pos rfl, hc]
          simp
        · show ¬ p.Doomed r.id
          rw [hd.doomed_iff hr, hl, hc]
          simp
  · have hne : (p.claim? id != some .waking) = true := by simpa using hc
    simp [hne] at h

/-- A sandbox that is joined goes out as doomed as it is. -/
theorem join_hands_out (hd : p.Distinct)
    (hstate : ∀ r ∈ p.records, r.id = id → p.Doomed r.id ∨ r.state = .idle ∨ r.state = .running)
    (h : (join block id p).result = .done (.ok snap)) :
    ∃ r, Handed block snap p (join block id p).pool r ∧ r.id = id := by
  cases hf : p.find? id with
  | none => simp [join, leave, hf] at h
  | some r =>
    obtain ⟨hr, rfl⟩ := Pool.mem_of_find? hf
    by_cases hs : r.state = .idle
    · simp only [join, leave, hf, hs, if_true] at h ⊢
      cases h
      refine ⟨_, Handed.of_running hd hr rfl rfl rfl rfl ?_ Iff.rfl, rfl⟩
      exact Record.live_of_state hs rfl
    · simp only [join, leave, hf, hs, if_false] at h ⊢
      cases h
      refine ⟨{ r with block := some block, binders := r.binders + 1 },
        ⟨Pool.mem_put_self hr rfl, rfl, rfl, ?_⟩, rfl⟩
      have hdoomed : ({ (p.put { r with block := some block, binders := r.binders + 1 }).count
          fun s => { s with idleHits := s.idleHits + 1 } with gateHeld := false } : Pool).Doomed r.id ↔
          p.Doomed r.id :=
        hd.doomed_put { r with block := some block, binders := r.binders + 1 } hr rfl rfl Iff.rfl
      refine ⟨fun h hno => h.2 (hdoomed.2 hno), fun h => ⟨?_, fun hno => h (hdoomed.1 hno)⟩⟩
      exact ((hstate r hr rfl).resolve_left h).resolve_left hs

/-- **What an acquisition hands out** runs its block and is not doomed, exactly if it was not doomed
before the scope. Only a sandbox that is published or joined may be doomed by then. -/
theorem hands_out {a : Point} {s : Scope (Option (Next Point Result))} (hd : p.Distinct)
    (hstate : ∀ id, a = .join id →
      ∀ r ∈ p.records, r.id = id → p.Doomed r.id ∨ r.state = .idle ∨ r.state = .running)
    (h : (demand config block a).Turn c p out sig s) (hs : s.result = some (.done (.ok snap))) :
    ∃ r, Handed block snap p s.pool r ∧ (p.Doomed r.id → a.blind? = some r.id) := by
  cases a with
  | pick =>
    obtain ⟨-, -, rfl⟩ := Demand.turn_scope h
    obtain ⟨r, hr, halive⟩ := pick_hands_out hd (Option.some.inj hs)
    exact ⟨r, hr, fun hdoomed => absurd hdoomed halive⟩
  | rebind id =>
    obtain ⟨-, -, rfl⟩ := Demand.turn_scope h
    obtain ⟨r, hr, halive⟩ := rebind_hands_out hd (Option.some.inj hs)
    exact ⟨r, hr, fun hdoomed => absurd hdoomed halive⟩
  | cold t =>
    obtain ⟨s₀, h₀, rfl⟩ := Demand.turn_map h
    obtain ⟨next, hnext, hdone⟩ := Option.map_eq_some_iff.1 hs
    cases next with
    | done result =>
      cases hdone
      obtain ⟨r, hr, hblind⟩ := Spawn.hands_out hd rfl h₀ hnext
      exact ⟨r, hr, fun _ => hblind⟩
    | _ => cases hdone
  | join id =>
    obtain ⟨-, -, rfl⟩ := Demand.turn_scope h
    obtain ⟨r, hr, rfl⟩ := join_hands_out hd (hstate id rfl) (Option.some.inj hs)
    exact ⟨r, hr, fun _ => rfl⟩
  -- the other points lead to no sandbox
  | unpause id port =>
    rcases Demand.turn_act h with ⟨-, -, rfl⟩ | ⟨r, -, -, rfl⟩
    · cases hs
    · cases r <;> cases hs
  | probe id port =>
    rcases Demand.turn_health h with ⟨-, -, rfl⟩ | ⟨r, -, -, rfl⟩
    · cases hs
    · cases r <;> cases hs
  | failed error =>
    obtain ⟨-, -, rfl⟩ := Demand.turn_scope h
    cases error <;> cases hs
  | retire id error t =>
    obtain ⟨s₀, -, rfl⟩ := Demand.turn_map h
    obtain ⟨next, -, hdone⟩ := Option.map_eq_some_iff.1 hs
    cases next <;> cases hdone
  | replace error =>
    obtain ⟨-, -, rfl⟩ := Demand.turn_scope h
    simp only [Scope.map, coldOr] at hs
    split at hs <;> cases hs
  | gate =>
    obtain ⟨-, -, -, rfl⟩ := Demand.turn_gate h
    cases hs
  | find =>
    obtain ⟨-, -, rfl⟩ := Demand.turn_scope h
    simp only [Scope.map, find] at hs
    split at hs <;> cases hs
  | reserve =>
    obtain ⟨-, -, rfl⟩ := Demand.turn_scope h
    simp only [Scope.map, reserve] at hs
    split at hs <;> cases hs
  | shared t =>
    obtain ⟨s₀, -, rfl⟩ := Demand.turn_map h
    obtain ⟨next, -, hdone⟩ := Option.map_eq_some_iff.1 hs
    cases next with
    | done result => cases result <;> cases hdone
    | _ => cases hdone
  | leave error =>
    obtain ⟨-, -, rfl⟩ := Demand.turn_scope h
    cases hs

end Acquire

/-! ## Sandboxes that are left alone -/

/-- A live sandbox without a claim for its end is another one than a doomed sandbox. -/
theorem Pool.Distinct.ne_of_doomed (hd : p.Distinct) (hdoomed : p.Doomed id) {r₀ : Record}
    (hr₀ : r₀ ∈ p.records) (hl : r₀.live = true) (hc : p.claim? r₀.id ≠ some .terminating) :
    id ≠ r₀.id := by
  rintro rfl
  rw [hd.doomed_iff hr₀, hl] at hdoomed
  rcases hdoomed with hdead | hclaim
  · cases hdead
  · exact hc hclaim

section Spares

variable (hd : p.Distinct) (hr : r ∈ p.records) (hdoomed : p.Doomed r.id)
include hd hr hdoomed

theorem Termination.claim_spares : r ∈ (claim id p).pool.records := by
  unfold claim
  cases hf : p.find? id with
  | none => exact hr
  | some r₀ =>
    obtain ⟨hr₀, rfl⟩ := Pool.mem_of_find? hf
    simp only
    split
    · exact hr
    · next hyes =>
      simp only [Bool.or_eq_true, Bool.not_eq_true', beq_iff_eq, not_or, Bool.not_eq_false] at hyes
      have hne : r.id ≠ r₀.id := hd.ne_of_doomed hdoomed hr₀ hyes.1 hyes.2
      exact Pool.mem_put_of_ne hr hne

theorem Termination.expire_spares (g : Nat) : r ∈ (expire id g p).pool.records := by
  unfold expire
  cases hf : p.find? id with
  | none => exact hr
  | some r₀ =>
    obtain ⟨hr₀, rfl⟩ := Pool.mem_of_find? hf
    simp only
    split
    · exact hr
    · next hyes =>
      simp only [Bool.or_eq_true, bne_iff_ne, ne_eq, not_or, Decidable.not_not] at hyes
      obtain ⟨⟨hs, hc⟩, -⟩ := hyes
      have hfree : p.claim? r₀.id ≠ some .terminating := fun h => by simp [h] at hc
      have hne : r.id ≠ r₀.id := hd.ne_of_doomed hdoomed hr₀ (Record.live_of_state hs rfl) hfree
      exact Pool.mem_put_of_ne hr hne

omit hd hdoomed in
theorem Termination.settle_spares (hne : r.id ≠ id) (port : UInt16) :
    r ∈ (settle id port p).pool.records := by
  cases hf : p.find? id with
  | none =>
    have hfind :
        (({ p with ports := p.ports.release port } : Pool).dropClaim id).find? id = none := hf
    simp only [settle, hfind]
    exact hr
  | some r₀ =>
    rw [settle_eq hf]
    exact Pool.mem_put_of_ne hr ((Pool.mem_of_find? hf).2 ▸ hne)

/-- A termination leaves other sandboxes alone, and its own one until it settles. -/
theorem Termination.spares {t : Point} {s : Scope (Option (Next Point Result))}
    (h : (demand id t).Turn c p out sig s) :
    r ∈ s.pool.records ∨ (∃ port, t = .settle port) ∧ r.id = id := by
  cases t with
  | claim =>
    obtain ⟨-, -, rfl⟩ := Demand.turn_scope h
    exact .inl (claim_spares hd hr hdoomed)
  | expire g =>
    obtain ⟨-, -, rfl⟩ := Demand.turn_scope h
    exact .inl (expire_spares hd hr hdoomed g)
  | stop port =>
    rcases Demand.turn_act h with ⟨-, -, rfl⟩ | ⟨_, -, -, rfl⟩ <;> exact .inl hr
  | remove port =>
    rcases Demand.turn_act h with ⟨-, -, rfl⟩ | ⟨_, -, -, rfl⟩ <;> exact .inl hr
  | settle port =>
    obtain ⟨-, -, rfl⟩ := Demand.turn_scope h
    by_cases he : r.id = id
    · exact .inr ⟨⟨port, rfl⟩, he⟩
    · exact .inl (settle_spares hr he port)

omit hd hdoomed in
theorem Spawn.publish_spares (job : Job) (hne : r.id ≠ id) :
    r ∈ (publish job id p).pool.records := by
  cases hf : p.find? id with
  | none => simpa [publish, hf] using hr
  | some r₀ =>
    obtain ⟨-, rfl⟩ := Pool.mem_of_find? hf
    cases ha : r₀.state.admits .idle with
    | false => simpa [publish, hf, Record.move_of_not_admits ha] using hr
    | true =>
      have hidle : r ∈ (p.put { r₀ with state := .idle }).records := Pool.mem_put_of_ne hr hne
      simp only [publish, hf, Record.move_of_admits ha]
      cases job.block with
      | none => exact hidle
      | some block =>
        simp only [bind_idle (r := { r₀ with state := .idle }) rfl]
        exact Pool.mem_put_of_ne hidle hne

/-- A spawn leaves doomed sandboxes alone, except for the one that it publishes and its own. -/
theorem Spawn.spares {job : Job} {t : Point} {s : Scope (Option (Next Point Result))}
    (h : (demand config job t).Turn c p out sig s) :
    r ∈ s.pool.records ∨ t.blind? = some r.id ∨ t.own? = some r.id := by
  cases t with
  | allocate =>
    obtain ⟨-, -, rfl⟩ := Demand.turn_scope h
    refine .inl ?_
    show r ∈ (allocate job p).pool.records
    unfold allocate
    split <;> exact hr
  | create spec port =>
    rcases Demand.turn_create h with ⟨-, -, rfl⟩ | ⟨_, -, -, rfl⟩ <;> exact .inl hr
  | giveBack port cause =>
    obtain ⟨-, -, rfl⟩ := Demand.turn_scope h
    exact .inl hr
  | register id port =>
    obtain ⟨-, -, rfl⟩ := Demand.turn_scope h
    by_cases he : r.id = id
    · exact .inr (.inr (congrArg some he.symm))
    · exact .inl (List.mem_append_left _ (List.mem_filter.2 ⟨hr, by simpa [Record.new] using he⟩))
  | start id port =>
    rcases Demand.turn_act h with ⟨-, -, rfl⟩ | ⟨_, -, -, rfl⟩ <;> exact .inl hr
  | probe id port =>
    rcases Demand.turn_health h with ⟨-, -, rfl⟩ | ⟨_, -, -, rfl⟩ <;> exact .inl hr
  | discard id error t =>
    obtain ⟨s₀, h₀, rfl⟩ := Demand.turn_map h
    rcases Termination.spares hd hr hdoomed h₀ with hmem | ⟨⟨port, rfl⟩, he⟩
    · exact .inl hmem
    · exact .inr (.inr (congrArg some he.symm))
  | publish id =>
    obtain ⟨-, -, rfl⟩ := Demand.turn_scope h
    by_cases he : r.id = id
    · exact .inr (.inl (congrArg some he.symm))
    · exact .inl (publish_spares hr job he)

namespace Acquire

omit hd hdoomed in
theorem coldOr_spares (error : PoolError) : r ∈ (coldOr error p).pool.records := by
  unfold coldOr
  split
  · exact hr
  · next q hq =>
    obtain ⟨-, rfl⟩ := Pool.reserve?_eq_some_iff.1 hq
    exact hr

theorem pick_spares (block : String) : r ∈ (pick block c p).pool.records := by
  have hother : ∀ {r₀ : Record} {st : State}, st.terminal = false →
      Acquire.candidate? (·.selectable st) c p = some r₀ → r₀.state = st ∧ r.id ≠ r₀.id := by
    intro r₀ st hst hf
    obtain ⟨hr₀, hc, hs⟩ := Acquire.mem_of_selectable hf
    exact ⟨hs, hd.ne_of_doomed hdoomed hr₀ (Record.live_of_state hs hst) (by simp [hc])⟩
  unfold pick
  cases hi : candidate? (·.selectable .idle) c p with
  | some r₀ =>
    obtain ⟨hs, hne⟩ := hother rfl hi
    simp only [take, Spawn.bind_idle hs]
    exact Pool.mem_put_of_ne hr hne
  | none =>
    cases hf : candidate? (·.selectable .dormant) c p with
    | some r₀ => exact Pool.mem_put_of_ne hr (hother rfl hf).2
    | none => exact coldOr_spares hr _

theorem rebind_spares (halert : p.Alert) (block id : String) :
    r ∈ (rebind block id p).pool.records := by
  unfold rebind
  by_cases hc : p.claim? id = some .waking
  · simp only [hc, bne_self_eq_false, Bool.false_eq_true, if_false]
    have hfind : (p.dropClaim id).find? id = p.find? id := rfl
    simp only [hfind]
    cases hf : p.find? id with
    | none => exact hr
    | some r₀ =>
      obtain ⟨hr₀, rfl⟩ := Pool.mem_of_find? hf
      have hne := hd.ne_of_doomed hdoomed hr₀ (halert r₀ hr₀ hc) (by simp [hc])
      cases ha : r₀.state.admits .idle with
      | false =>
        simp only [Record.move_of_not_admits (r := { r₀ with busy := false }) ha]
        exact Pool.mem_put_of_ne hr hne
      | true =>
        simp only [Record.move_of_admits (r := { r₀ with busy := false }) ha,
          Spawn.bind_idle (r := { r₀ with busy := false, state := .idle }) rfl]
        have hidle : r ∈ (p.put { r₀ with busy := false, state := .idle }).records :=
          Pool.mem_put_of_ne hr hne
        exact Pool.mem_put_of_ne hidle hne
  · have hbne : (p.claim? id != some .waking) = true := by simpa using hc
    simp only [hbne, if_true]
    exact hr

omit hd hdoomed in
theorem join_spares (block : String) (hne : r.id ≠ id) : r ∈ (join block id p).pool.records := by
  unfold join
  cases hf : p.find? id with
  | none => exact hr
  | some r₀ =>
    obtain ⟨-, rfl⟩ := Pool.mem_of_find? hf
    simp only
    split <;> exact Pool.mem_put_of_ne hr hne

/-- **An acquisition leaves doomed sandboxes alone**, except for one that it publishes or joins, and
its own. -/
theorem spares {a : Point} {s : Scope (Option (Next Point Result))} (halert : p.Alert)
    (h : (demand config block a).Turn c p out sig s) :
    r ∈ s.pool.records ∨ a.blind? = some r.id ∨ a.own? = some r.id := by
  cases a with
  | pick =>
    obtain ⟨-, -, rfl⟩ := Demand.turn_scope h
    exact .inl (pick_spares hd hr hdoomed block)
  | unpause id port =>
    rcases Demand.turn_act h with ⟨-, -, rfl⟩ | ⟨_, -, -, rfl⟩ <;> exact .inl hr
  | probe id port =>
    rcases Demand.turn_health h with ⟨-, -, rfl⟩ | ⟨_, -, -, rfl⟩ <;> exact .inl hr
  | rebind id =>
    obtain ⟨-, -, rfl⟩ := Demand.turn_scope h
    exact .inl (rebind_spares hd hr hdoomed halert block id)
  | failed error =>
    obtain ⟨-, -, rfl⟩ := Demand.turn_scope h
    exact .inl hr
  | retire id error t =>
    obtain ⟨s₀, h₀, rfl⟩ := Demand.turn_map h
    rcases Termination.spares hd hr hdoomed h₀ with hmem | ⟨⟨port, rfl⟩, he⟩
    · exact .inl hmem
    · exact .inr (.inr (congrArg some he.symm))
  | replace error =>
    obtain ⟨-, -, rfl⟩ := Demand.turn_scope h
    exact .inl (coldOr_spares hr error)
  | cold t =>
    obtain ⟨s₀, h₀, rfl⟩ := Demand.turn_map h
    exact Spawn.spares hd hr hdoomed h₀
  | gate =>
    obtain ⟨-, -, -, rfl⟩ := Demand.turn_gate h
    exact .inl hr
  | find =>
    obtain ⟨-, -, rfl⟩ := Demand.turn_scope h
    refine .inl ?_
    show r ∈ (find c p).pool.records
    unfold find
    split <;> exact hr
  | reserve =>
    obtain ⟨-, -, rfl⟩ := Demand.turn_scope h
    refine .inl ?_
    show r ∈ (reserve p).pool.records
    unfold reserve
    split
    · exact hr
    · next q hq =>
      obtain ⟨-, rfl⟩ := Pool.reserve?_eq_some_iff.1 hq
      exact hr
  | shared t =>
    obtain ⟨s₀, h₀, rfl⟩ := Demand.turn_map h
    exact Spawn.spares hd hr hdoomed h₀
  | join id =>
    obtain ⟨-, -, rfl⟩ := Demand.turn_scope h
    by_cases he : r.id = id
    · exact .inr (.inl (congrArg some he.symm))
    · exact .inl (join_spares hr block he)
  | leave error =>
    obtain ⟨-, -, rfl⟩ := Demand.turn_scope h
    exact .inl hr

end Acquire

end Spares

end SandboxPool
