import SandboxPool.Proofs.Pool.FirstStates

/-!
# Records that fit their states

Each operation changes some of the fields of a record and the claim on its sandbox, now before and now
behind a call to the daemon. Where every block has a sandbox of its own, the fields of a record fit its
state and the claim at the end of every scope all the same (`Record.Coherent`), and only live sandboxes
are claimed (`Pool.Coherent`). A terminated sandbox keeps its record for good (`Act.mem_of_ended`).

Who has a sandbox in hand decides which act can meet which record: a sandbox that is started is in its
first state, one that is woken is paused, and one that is terminated is claimed for that.
-/

namespace SandboxPool

variable {ids : List String} {p q : Pool} {x y rest : List Hand} {sig : Option Signal}
  {r r' : Record} {id : String} {claim : Option Claim}

/-- The fields of a record fit its state and the claim on its sandbox. -/
structure Record.Coherent (claim : Option Claim) (r : Record) : Prop where
  busy : r.busy = claim.isSome
  live : claim.isSome = true → r.live = true
  waking : claim = some .waking → r.state = .dormant ∧ r.dormantSince = none
  block : r.block.isSome = true ↔ r.state = .running
  timer : r.timer.isSome = true → r.state = .dormant ∧ claim = none
  since : r.dormantSince.isSome = true → r.state = .dormant
  binders : r.binders = 0

/-- The fields of every record fit, and only sandboxes with a record are claimed. -/
structure Pool.Coherent (p : Pool) : Prop where
  records : ∀ r ∈ p.records, r.Coherent (p.claim? r.id)
  claims : ∀ id, (p.claim? id).isSome = true → ∃ r ∈ p.records, r.id = id

namespace Record.Coherent

theorem new (id : String) (port : UInt16) (now : Instant) : (Record.new id port now).Coherent none :=
  ⟨rfl, by simp, by simp, by simp [Record.new], by simp [Record.new], by simp [Record.new], rfl⟩

/-- A sandbox that is not paused has no end, nor a time since when it is. -/
theorem awake (h : r.Coherent claim) (hs : r.state ≠ .dormant) :
    r.timer = none ∧ r.dormantSince = none := by
  refine ⟨?_, ?_⟩
  · cases ht : r.timer with
    | none => rfl
    | some t => exact absurd (h.timer (by simp [ht])).1 hs
  · cases ht : r.dormantSince with
    | none => rfl
    | some t => exact absurd (h.since (by simp [ht])) hs

/-- A sandbox that is not running has no block. -/
theorem unbound (h : r.Coherent claim) (hs : r.state ≠ .running) : r.block = none := by
  cases hb : r.block with
  | none => rfl
  | some block => exact absurd (h.block.1 (by simp [hb])) hs

/-- A sandbox that is started becomes idle. -/
theorem publish (h : r.Coherent claim) (hs : r.state = .starting) :
    { r with state := .idle }.Coherent claim := by
  obtain ⟨ht, hsince⟩ := h.awake (by simp [hs])
  refine ⟨h.busy, fun _ => rfl, fun hc => ?_, ?_, by simp [ht], by simp [hsince], h.binders⟩
  · have hdormant := (h.waking hc).1
    rw [hs] at hdormant
    cases hdormant
  · simp [h.unbound (by simp [hs])]

/-- A sandbox that is not paused begins to run a block. -/
theorem bind (h : r.Coherent claim) (hs : r.state ≠ .dormant) (block : String) :
    { r with state := .running, block := some block }.Coherent claim := by
  obtain ⟨ht, hsince⟩ := h.awake hs
  exact ⟨h.busy, fun _ => rfl, fun hc => absurd (h.waking hc).1 hs, by simp, by simp [ht],
    by simp [hsince], h.binders⟩

/-- A sandbox that is woken runs a block. -/
theorem rebind (h : r.Coherent (some .waking)) (block : String) :
    { r with busy := false, state := .running, block := some block }.Coherent none := by
  have ht : r.timer = none := by
    cases ht : r.timer with
    | none => rfl
    | some t => cases (h.timer (by simp [ht])).2
  exact ⟨rfl, by simp, by simp, by simp, by simp [ht], by simp [(h.waking rfl).2], h.binders⟩

/-- A paused sandbox is claimed to be woken. -/
theorem wake (h : r.Coherent none) (hs : r.state = .dormant) :
    { r with timer := none, busy := true, dormantSince := none }.Coherent (some .waking) :=
  ⟨rfl, fun _ => Record.live_of_state (s := .dormant) hs rfl, fun _ => ⟨hs, rfl⟩, h.block, by simp,
    by simp, h.binders⟩

/-- A live sandbox is claimed for its end. -/
theorem doom (h : r.Coherent claim) (hl : r.live = true) :
    { r with timer := none, busy := true }.Coherent (some .terminating) :=
  ⟨rfl, fun _ => hl, by simp, h.block, by simp, h.since, h.binders⟩

/-- A sandbox is terminated that was claimed for that. -/
theorem settle (h : r.Coherent (some .terminating)) :
    { r with
      state := .terminated, block := none, binders := 0, dormantSince := none,
      busy := false }.Coherent none := by
  have ht : r.timer = none := by
    cases ht : r.timer with
    | none => rfl
    | some t => cases (h.timer (by simp [ht])).2
  exact ⟨rfl, by simp, by simp, by simp, by simp [ht], by simp, rfl⟩

/-- A sandbox that runs is parked. -/
theorem park (h : r.Coherent none) (timer : Option Timer) (since : Option Instant) :
    { r with timer := timer, state := .dormant, block := none, dormantSince := since }.Coherent none :=
  ⟨h.busy, by simp, by simp, by simp, fun _ => ⟨rfl, rfl⟩, fun _ => rfl, h.binders⟩

end Record.Coherent

namespace Pool.Coherent

theorem alike (h : p.Coherent) (ha : p.Alike q) : q.Coherent := by
  refine ⟨fun r hr => ?_, fun id hid => ?_⟩
  · rw [ha.claim?]
    exact h.records r (ha.records ▸ hr)
  · rw [ha.claim?] at hid
    rw [ha.records]
    exact h.claims id hid

/-- A record and the claim on its sandbox are replaced. -/
theorem put (h : p.Coherent) (hq : q.records = (p.put r').records) (hr : r ∈ p.records)
    (hid : r'.id = r.id) (hc : ∀ id, id ≠ r.id → q.claim? id = p.claim? id)
    (hnew : r'.Coherent (q.claim? r.id)) : q.Coherent := by
  refine ⟨fun z hz => ?_, fun id hclaim => ?_⟩
  · rcases (Pool.mem_put hq hr hid).1 hz with rfl | ⟨hold, hne⟩
    · rwa [hid]
    · rw [hc _ hne]
      exact h.records z hold
  · by_cases he : id = r.id
    · exact ⟨r', (Pool.mem_put hq hr hid).2 (.inl rfl), hid.trans he.symm⟩
    · rw [hc id he] at hclaim
      obtain ⟨z, hz, rfl⟩ := h.claims id hclaim
      exact ⟨z, (Pool.mem_put hq hr hid).2 (.inr ⟨hz, he⟩), rfl⟩

/-- A claim is given up on a sandbox without a record. -/
theorem drop (h : p.Coherent) (hnone : p.find? id = none) (hq : q.records = p.records)
    (hc : ∀ id', q.claim? id' = if id' = id then none else p.claim? id') : q.Coherent := by
  refine ⟨fun r hr => ?_, fun id' hclaim => ?_⟩
  · rw [hq] at hr
    rw [hc, if_neg (Pool.find?_eq_none.1 hnone r hr)]
    exact h.records r hr
  · rw [hc] at hclaim
    split at hclaim
    · cases hclaim
    · rw [hq]
      exact h.claims id' hclaim

/-- **Every act keeps the fields of records fit**, where every block has a sandbox of its own. -/
theorem act (hn : Named ids p (x ++ rest)) (hclaimed : Claimed p (x ++ rest))
    (hwoken : Woken p (x ++ rest)) (hsharing : .sharing ∉ x) (h : p.Coherent) (ha : Act p x sig q y) :
    q.Coherent := by
  have hd := hn.distinct
  have hother : ∀ {id : String}, ∀ id', id' ≠ id → (p.dropClaim id).claim? id' = p.claim? id' :=
    fun id' hne => (Pool.claim?_dropClaim p _ id').trans (if_neg hne)
  have hdropped : ∀ (p : Pool) (id : String), (p.dropClaim id).claim? id = none := fun p id =>
    (Pool.claim?_dropClaim p id id).trans (if_pos rfl)
  have hset : ∀ {r₁ : Record} {id : String} {c : Claim}, ∀ id', id' ≠ id →
      ((p.put r₁).setClaim id c).claim? id' = p.claim? id' :=
    fun id' hne => (Pool.claim?_setClaim _ _ id' _).trans (if_neg hne)
  have hnew : ∀ {r₁ : Record} {id : String} {c : Claim},
      ((p.put r₁).setClaim id c).claim? id = some c :=
    (Pool.claim?_setClaim _ _ _ _).trans (if_pos rfl)
  cases ha with
  | register id port now =>
    have hrecords := hn.register_records now
    refine ⟨fun r hr => ?_, fun id' hclaim => ?_⟩
    · rw [hrecords] at hr
      rcases List.mem_append.1 hr with hr | hr
      · exact h.records r hr
      · obtain rfl := List.mem_singleton.1 hr
        -- nobody claims a sandbox that has no record yet
        have hfree : p.claim? id = none := by
          cases hc : p.claim? id with
          | none => rfl
          | some c =>
            obtain ⟨r, hr, hid⟩ := h.claims id (by simp [hc])
            exact absurd hid (hn.ne_of_made (List.mem_cons_self ..) hr)
        show Record.Coherent (p.claim? id) _
        rw [hfree]
        exact .new id port now
    · obtain ⟨r, hr, hid⟩ := h.claims id' hclaim
      rw [hrecords]
      exact ⟨r, List.mem_append_left _ hr, hid⟩
  | publish hr hs =>
    have hfirst := (hwoken.starting hd hr (Record.live_of_admits_idle hs)).1
    exact h.put rfl hr rfl (fun _ _ => rfl) ((h.records _ hr).publish hfirst)
  | deliver block hr hs =>
    have hfirst := (hwoken.starting hd hr (Record.live_of_admits_idle hs)).1
    exact h.put rfl hr rfl (fun _ _ => rfl) ((h.records _ hr).bind (by simp [hfirst]) block)
  | take block hr hc hs =>
    exact h.put rfl hr rfl (fun _ _ => rfl) ((h.records _ hr).bind (by simp [hs]) block)
  | wake hr hc hs =>
    refine h.put rfl hr rfl hset ?_
    rw [hnew]
    exact (hc ▸ h.records _ hr).wake hs
  | rebind block hr hc hs =>
    refine h.put rfl hr rfl hother ?_
    rw [Pool.claim?_put, hdropped]
    exact (hc ▸ h.records _ hr).rebind block
  | lose hc hnone => exact h.drop hnone rfl (Pool.claim?_dropClaim p _)
  | @stray r hr hc hs =>
    -- this cannot happen, since the sandbox is paused
    rw [hwoken.dormant hd hr hc] at hs
    cases hs
  | claim hb hr hl hc =>
    refine h.put rfl hr rfl hset ?_
    rw [hnew]
    exact (h.records _ hr).doom hl
  | @settle r port hr giver hg =>
    have hc : p.claim? r.id = some .terminating :=
      hclaimed.claim _ (Claimed.mem_ending (List.mem_cons_self ..))
    refine h.put rfl hr rfl hother ?_
    rw [Pool.claim?_put, hdropped]
    exact (hc ▸ h.records _ hr).settle
  | vanish port hnone hg => exact h.drop hnone rfl (Pool.claim?_dropClaim p _)
  | park hg hr hc hs since timer =>
    refine h.put rfl hr rfl (fun _ _ => rfl) ?_
    rw [Pool.claim?_put, hc]
    exact (hc ▸ h.records _ hr).park timer since
  | join => exact absurd (List.mem_singleton_self _) hsharing
  | leave => exact absurd (List.mem_singleton_self _) hsharing
  | drop => exact absurd (List.mem_cons_self ..) hsharing
  | skip => exact absurd (List.mem_cons_self ..) hsharing
  -- all others leave records and claims as they are
  | _ => exact ⟨h.records, h.claims⟩

theorem moves {p' : Pool} {before after : List Hand} (hn : Named ids p before)
    (hclaimed : Claimed p before) (hwoken : Woken p before) (hsharing : .sharing ∉ before)
    (h : p.Coherent) (hm : Moves p before sig p' after) : p'.Coherent := by
  obtain ⟨x, y, rest, q, hb, -, hact, hq⟩ := hm
  have hnone : .sharing ∉ x := fun hx => hsharing (hb.mem_iff.2 (List.mem_append_left _ hx))
  exact (h.act (hn.perm hb) (hclaimed.perm hb) (hwoken.perm hb) hnone hact).alike hq

end Pool.Coherent

/-! ## Terminated sandboxes -/

/-- **The record of a terminated sandbox stays as it is**, where every block has a sandbox of its own. -/
theorem Act.mem_of_ended (hn : Named ids p (x ++ rest)) (hclaimed : Claimed p (x ++ rest))
    (hwoken : Woken p (x ++ rest)) (hsharing : .sharing ∉ x) (ha : Act p x sig q y)
    (hr : r ∈ p.records) (hend : r.live = false) : r ∈ q.records := by
  have hd := hn.distinct
  have hput : ∀ {r₀ r₁ : Record}, r₀ ∈ p.records → r₁.id = r₀.id → r₀.live = true →
      r ∈ (p.put r₁).records := by
    intro r₀ r₁ hr₀ hid hl
    refine Pool.mem_put_of_ne hr fun he => ?_
    obtain rfl := hd.eq_of_id hr₀ hr (he.trans hid)
    rw [hend] at hl
    cases hl
  cases ha with
  | register id port now =>
    rw [hn.register_records]
    exact List.mem_append_left _ hr
  | publish hr₀ hs => exact hput hr₀ rfl (Record.live_of_admits_idle hs)
  | deliver block hr₀ hs => exact hput hr₀ rfl (Record.live_of_admits_idle hs)
  | take block hr₀ hc hs => exact hput hr₀ rfl (Record.live_of_state (s := .idle) hs rfl)
  | wake hr₀ hc hs => exact hput hr₀ rfl (Record.live_of_state (s := .dormant) hs rfl)
  | rebind block hr₀ hc hs => exact hput hr₀ rfl (Record.live_of_admits_idle hs)
  | stray hr₀ hc hs =>
    exact hput hr₀ rfl (Record.live_of_state (s := .dormant) (hwoken.dormant hd hr₀ hc) rfl)
  | claim hb hr₀ hl hc => exact hput hr₀ rfl hl
  | @settle r₀ port hr₀ giver hg =>
    obtain ⟨r₁, hr₁, hid, hl, -⟩ := hclaimed.record _ (Claimed.mem_ending (List.mem_cons_self ..))
    obtain rfl := hd.eq_of_id hr₀ hr₁ hid
    exact hput hr₀ rfl hl
  | park hg hr₀ hc hs => exact hput hr₀ rfl (Record.live_of_state (s := .running) hs rfl)
  | join => exact absurd (List.mem_singleton_self _) hsharing
  | leave => exact absurd (List.mem_singleton_self _) hsharing
  | drop => exact absurd (List.mem_cons_self ..) hsharing
  | skip => exact absurd (List.mem_cons_self ..) hsharing
  -- all others leave the records as they are
  | _ => exact hr

end SandboxPool
