import SandboxPool.Proofs.Pool.Claims

/-!
# Sandboxes that are started and sandboxes that are woken

A sandbox that a process starts is in its first state or terminated, and a sandbox that is claimed
to be woken is paused (`Woken`). So nothing but a termination can come between a wake and its end.

A sandbox that is `Pool.Doomed` is terminated or claimed for that, and stays so.
-/

namespace SandboxPool

/-- What is known of sandboxes that processes start or wake. -/
structure Woken (p : Pool) (l : List Hand) : Prop where
  nodup : (l.filterMap Hand.raising?).Nodup
  raising : ∀ id ∈ l.filterMap Hand.raising?,
    ∃ r ∈ p.records, r.id = id ∧ (r.state = .starting ∨ r.live = false)
  claim : ∀ id, p.claim? id = some .waking → ∃ r ∈ p.records, r.id = id ∧ r.state = .dormant
  waking : ∀ id, .waking id ∈ l → ∃ r ∈ p.records, r.id = id

namespace Woken

variable {ids : List String} {p q : Pool} {l l' x y rest : List Hand} {sig : Option Signal}
  {r r' : Record} {id : String}

theorem perm (h : Woken p l) (hp : l.Perm l') : Woken p l' := by
  have hperm := hp.filterMap Hand.raising?
  exact ⟨hperm.nodup_iff.1 h.nodup, fun id hid => h.raising id (hperm.mem_iff.2 hid), h.claim,
    fun id hid => h.waking id (hp.mem_iff.2 hid)⟩

theorem alike (h : Woken p l) (ha : p.Alike q) : Woken q l := by
  refine ⟨h.nodup, ?_, fun id hid => ?_, ?_⟩
  · rw [ha.records]
    exact h.raising
  · rw [ha.claim?] at hid
    rw [ha.records]
    exact h.claim id hid
  · rw [ha.records]
    exact h.waking

/-- The records stay as they are. -/
theorem keep (h : Woken p (x ++ rest)) (hq : q.records = p.records)
    (hc : ∀ id, q.claim? id = some .waking → p.claim? id = some .waking)
    (hr : y.filterMap Hand.raising? = []) (hw : ∀ id, .waking id ∈ y → .waking id ∈ x) :
    Woken q (y ++ rest) := by
  have hsub : ((y ++ rest).filterMap Hand.raising?).Sublist ((x ++ rest).filterMap Hand.raising?) := by
    rw [List.filterMap_append, List.filterMap_append, hr]
    exact List.sublist_append_right _ _
  refine ⟨h.nodup.sublist hsub, fun id hid => ?_, fun id hid => ?_, fun id hid => ?_⟩
  · rw [hq]
    exact h.raising id (hsub.subset hid)
  · rw [hq]
    exact h.claim id (hc id hid)
  · rw [hq]
    rcases List.mem_append.1 hid with hid | hid
    · exact h.waking id (List.mem_append_left _ (hw id hid))
    · exact h.waking id (List.mem_append_right _ hid)

/-- The record of a sandbox is replaced. -/
theorem put (h : Woken p (x ++ rest)) (hr : r ∈ p.records)
    (hq : q.records = (p.put r').records) (hid : r'.id = r.id)
    (hs : r.id ∈ rest.filterMap Hand.raising? → r'.state = .starting ∨ r'.live = false)
    (hc : ∀ id, q.claim? id = some .waking →
      id = r.id ∧ r'.state = .dormant ∨ id ≠ r.id ∧ p.claim? id = some .waking)
    (hy : y.filterMap Hand.raising? = []) (hw : ∀ id, .waking id ∈ y → id = r.id) :
    Woken q (y ++ rest) := by
  have hraising : (y ++ rest).filterMap Hand.raising? = rest.filterMap Hand.raising? := by
    rw [List.filterMap_append, hy, List.nil_append]
  have hsub : (rest.filterMap Hand.raising?).Sublist ((x ++ rest).filterMap Hand.raising?) := by
    rw [List.filterMap_append]
    exact List.sublist_append_right _ _
  have hnew : r' ∈ q.records := (Pool.mem_put hq hr hid).2 (.inl rfl)
  have hold : ∀ x ∈ p.records, x.id ≠ r.id → x ∈ q.records :=
    fun x hx hne => (Pool.mem_put hq hr hid).2 (.inr ⟨hx, hne⟩)
  refine ⟨?_, fun id' hid' => ?_, fun id' hid' => ?_, fun id' hid' => ?_⟩
  · rw [hraising]
    exact h.nodup.sublist hsub
  · rw [hraising] at hid'
    by_cases he : id' = r.id
    · subst he
      exact ⟨r', hnew, hid, hs hid'⟩
    · obtain ⟨r₀, hr₀, hid₀, hs₀⟩ := h.raising id' (hsub.subset hid')
      exact ⟨r₀, hold r₀ hr₀ (by rwa [hid₀]), hid₀, hs₀⟩
  · rcases hc id' hid' with ⟨rfl, hs'⟩ | ⟨hne, hclaim⟩
    · exact ⟨r', hnew, hid, hs'⟩
    · obtain ⟨r₀, hr₀, hid₀, hs₀⟩ := h.claim id' hclaim
      exact ⟨r₀, hold r₀ hr₀ (by rwa [hid₀]), hid₀, hs₀⟩
  · by_cases he : id' = r.id
    · exact ⟨r', hnew, hid.trans he.symm⟩
    · rcases List.mem_append.1 hid' with hid' | hid'
      · exact absurd (hw id' hid') he
      · obtain ⟨r₀, hr₀, hid₀⟩ := h.waking id' (List.mem_append_right _ hid')
        exact ⟨r₀, hold r₀ hr₀ (by rwa [hid₀]), hid₀⟩

/-- A sandbox in another state than the first is not one that is started. -/
theorem not_raising (h : Woken p l) (hd : p.Distinct) (hr : r ∈ p.records) (hl : r.live = true)
    (hs : r.state ≠ .starting) : r.id ∉ l.filterMap Hand.raising? := by
  intro hm
  obtain ⟨r₀, hr₀, hid, hraised⟩ := h.raising _ hm
  obtain rfl := hd.eq_of_id hr hr₀ hid
  rcases hraised with hstarting | hend
  · exact hs hstarting
  · rw [hl] at hend
    cases hend

/-- A sandbox in another state than a pause is not one that is woken. -/
theorem ne_of_claim (h : Woken p l) (hd : p.Distinct) (hr : r ∈ p.records) (hs : r.state ≠ .dormant)
    (hc : p.claim? id = some .waking) : id ≠ r.id := by
  rintro rfl
  obtain ⟨r₀, hr₀, hid, hdormant⟩ := h.claim _ hc
  obtain rfl := hd.eq_of_id hr hr₀ hid
  exact hs hdormant

/-- A sandbox that is claimed to be woken is paused. -/
theorem dormant (h : Woken p l) (hd : p.Distinct) (hr : r ∈ p.records)
    (hc : p.claim? r.id = some .waking) : r.state = .dormant := by
  obtain ⟨r₀, hr₀, hid, hs⟩ := h.claim _ hc
  obtain rfl := hd.eq_of_id hr hr₀ hid
  exact hs

/-- A sandbox that is started and not terminated is in its first state, and nobody else starts it. -/
theorem starting (h : Woken p ([.raising r.id] ++ rest)) (hd : p.Distinct) (hr : r ∈ p.records)
    (hl : r.live = true) : r.state = .starting ∧ r.id ∉ rest.filterMap Hand.raising? := by
  have hcons : ([Hand.raising r.id] ++ rest).filterMap Hand.raising?
      = r.id :: rest.filterMap Hand.raising? := rfl
  refine ⟨?_, ?_⟩
  · obtain ⟨r₀, hr₀, hid, hs⟩ := h.raising r.id (by rw [hcons]; exact List.mem_cons_self ..)
    obtain rfl := hd.eq_of_id hr hr₀ hid
    rcases hs with hs | hend
    · exact hs
    · rw [hl] at hend
      cases hend
  · have hnodup := h.nodup
    rw [hcons] at hnodup
    exact (List.nodup_cons.1 hnodup).1

/-- Every act leaves alone what is started or woken, unless it ends that. -/
theorem act (hn : Named ids p (x ++ rest)) (hsharing : .sharing ∉ x) (h : Woken p (x ++ rest))
    (ha : Act p x sig q y) : Woken q (y ++ rest) := by
  have hd := hn.distinct
  have hrest : ∀ {id : String}, id ∈ rest.filterMap Hand.raising? →
      id ∈ (x ++ rest).filterMap Hand.raising? := by
    intro id hid
    rw [List.filterMap_append]
    exact List.mem_append_right _ hid
  have hquiet : ∀ {r : Record}, r ∈ p.records → r.live = true → r.state ≠ .starting →
      r.id ∉ rest.filterMap Hand.raising? :=
    fun hr hl hs hm => h.not_raising hd hr hl hs (hrest hm)
  have hother : ∀ {r r' : Record}, r ∈ p.records → r.state ≠ .dormant → ∀ id,
      p.claim? id = some .waking →
      id = r.id ∧ r'.state = .dormant ∨ id ≠ r.id ∧ p.claim? id = some .waking :=
    fun hr hs id hc => .inr ⟨h.ne_of_claim hd hr hs hc, hc⟩
  have hdrop : ∀ {id id' : String}, (p.dropClaim id).claim? id' = some .waking →
      id' ≠ id ∧ p.claim? id' = some .waking := by
    intro id id' hc
    rw [Pool.claim?_dropClaim] at hc
    split at hc
    · cases hc
    · next hne => exact ⟨hne, hc⟩
  cases ha with
  | register id port now =>
    have hrecords := hn.register_records now
    have hold : ∀ r ∈ p.records, r ∈ (p.unreserve.insert (.new id port now)).records := by
      intro r hr
      rw [hrecords]
      exact List.mem_append_left _ hr
    have hnew : Record.new id port now ∈ (p.unreserve.insert (.new id port now)).records := by
      rw [hrecords]
      exact List.mem_append_right _ (List.mem_singleton_self _)
    refine ⟨?_, fun id' hid' => ?_, fun id' hid' => ?_, fun id' hid' => ?_⟩
    · refine List.nodup_cons.2 ⟨fun hm => ?_, h.nodup⟩
      obtain ⟨r, hr, hid, -⟩ := h.raising id hm
      exact hn.ne_of_made (List.mem_cons_self ..) hr hid
    · rcases List.mem_cons.1 hid' with rfl | hid'
      · exact ⟨_, hnew, rfl, .inl rfl⟩
      · obtain ⟨r, hr, hid, hs⟩ := h.raising id' hid'
        exact ⟨r, hold r hr, hid, hs⟩
    · obtain ⟨r, hr, hid, hs⟩ := h.claim id' hid'
      exact ⟨r, hold r hr, hid, hs⟩
    · rcases List.mem_cons.1 hid' with hid' | hid'
      · cases hid'
      · obtain ⟨r, hr, hid⟩ := h.waking id' (List.mem_cons_of_mem _ hid')
        exact ⟨r, hold r hr, hid⟩
  | publish hr hs =>
    obtain ⟨hfirst, hnone⟩ := h.starting hd hr (Record.live_of_admits_idle hs)
    exact h.put hr rfl rfl (fun hm => absurd hm hnone) (hother hr (by simp [hfirst])) rfl (by simp)
  | deliver block hr hs =>
    obtain ⟨hfirst, hnone⟩ := h.starting hd hr (Record.live_of_admits_idle hs)
    exact h.put hr rfl rfl (fun hm => absurd hm hnone) (hother hr (by simp [hfirst])) rfl (by simp)
  | take block hr _ hs =>
    have hnone := hquiet hr (by simp [Record.live, State.terminal, hs]) (by simp [hs])
    exact h.put hr rfl rfl (fun hm => absurd hm hnone) (hother hr (by simp [hs])) rfl (by simp)
  | wake hr _ hs =>
    have hnone := hquiet hr (by simp [Record.live, State.terminal, hs]) (by simp [hs])
    refine h.put hr rfl rfl (fun hm => absurd hm hnone) (fun id hc => ?_) rfl (by simp)
    rw [Pool.claim?_setClaim] at hc
    split at hc
    · next he => exact .inl ⟨he, hs⟩
    · next hne => exact .inr ⟨hne, hc⟩
  | rebind block hr hc hs =>
    have hdormant := h.dormant hd hr hc
    have hnone := hquiet hr (Record.live_of_admits_idle hs) (by simp [hdormant])
    exact h.put hr rfl rfl (fun hm => absurd hm hnone) (fun id hc => .inr (hdrop hc)) rfl
      (by simp)
  | @stray r hr hc hs =>
    -- this cannot happen, since the sandbox is paused
    rw [h.dormant hd hr hc] at hs
    cases hs
  | claim hb hr hl hc =>
    refine h.put hr rfl rfl (fun hm => ?_) (fun id hc => ?_) rfl (by simp)
    · obtain ⟨r₀, hr₀, hid, hs⟩ := h.raising _ (hrest hm)
      obtain rfl := hd.eq_of_id hr hr₀ hid
      exact hs
    · rw [Pool.claim?_setClaim] at hc
      split at hc
      · cases hc
      · next hne => exact .inr ⟨hne, hc⟩
  | settle port hr =>
    exact h.put hr rfl rfl (fun _ => .inr rfl) (fun id hc => .inr (hdrop hc)) rfl (by simp)
  | park hg hr _ hs =>
    have hnone := hquiet hr (by simp [Record.live, State.terminal, hs]) (by simp [hs])
    exact h.put hr rfl rfl (fun hm => absurd hm hnone) (hother hr (by simp [hs])) rfl (by simp)
  | lose => exact h.keep rfl (fun id hc => (hdrop hc).2) rfl (by simp)
  | vanish => exact h.keep rfl (fun id hc => (hdrop hc).2) rfl (by simp)
  | join => exact absurd (List.mem_singleton_self _) hsharing
  | leave => exact absurd (List.mem_singleton_self _) hsharing
  | drop => exact absurd (List.mem_cons_self ..) hsharing
  | skip => exact absurd (List.mem_cons_self ..) hsharing
  | enter l hl =>
    refine h.keep rfl (fun _ hc => hc) (List.filterMap_eq_nil_iff.2 fun t ht => ?_) fun id hid => ?_
    · rcases (hl t ht).cases with ⟨id, rfl⟩ | ⟨rfl, -⟩ <;> rfl
    · rcases (hl _ hid).cases with ⟨id', he⟩ | ⟨he, -⟩ <;> cases he
  | reserve n =>
    refine h.keep rfl (fun _ hc => hc) (List.filterMap_eq_nil_iff.2 fun t ht => ?_) fun id hid => ?_
    · rw [List.eq_of_mem_replicate ht]
      rfl
    · cases List.eq_of_mem_replicate hid
  -- all others leave records and claims as they are
  | _ => exact h.keep rfl (fun _ hc => hc) rfl (by simp)

theorem moves {p' : Pool} {before after : List Hand} (hn : Named ids p before)
    (hs : .sharing ∉ before) (h : Woken p before) (hm : Moves p before sig p' after) :
    Woken p' after := by
  obtain ⟨x, y, rest, q, hb, ha, hact, hq⟩ := hm
  have hsharing : .sharing ∉ x := fun hx => hs (hb.mem_iff.2 (List.mem_append_left _ hx))
  exact (((h.perm hb).act (hn.perm hb) hsharing hact).alike hq).perm ha.symm

end Woken

/-! ## Sandboxes that end -/

/-- A sandbox is terminated, or claimed for that. -/
def Pool.Doomed (p : Pool) (id : String) : Prop :=
  ∃ r ∈ p.records, r.id = id ∧ (r.live = false ∨ p.claim? id = some .terminating)

section Doomed

variable {ids : List String} {p q : Pool} {x y rest : List Hand} {sig : Option Signal} {id : String}

/-- A claim for the end of a sandbox stays until the sandbox is terminated. -/
theorem Act.claim_or (h : Act p x sig q y) (hc : p.claim? id = some .terminating) :
    q.claim? id = some .terminating ∨ ∀ r ∈ q.records, r.id = id → r.live = false := by
  have hne : ∀ {id' : String} {c : Option Claim}, p.claim? id' = c → c ≠ some .terminating →
      id ≠ id' := by
    rintro id' c hc' hno rfl
    exact hno (hc'.symm.trans hc)
  cases h with
  | wake hr hfree =>
    refine .inl ?_
    rw [Pool.claim?_setClaim, if_neg (hne hfree (by simp))]
    exact hc
  | rebind block hr hwaking =>
    refine .inl ?_
    rw [Pool.claim?_put, Pool.claim?_dropClaim, if_neg (hne hwaking (by simp))]
    exact hc
  | lose hwaking =>
    refine .inl ?_
    rw [Pool.claim?_dropClaim, if_neg (hne hwaking (by simp))]
    exact hc
  | stray hr hwaking =>
    refine .inl ?_
    rw [Pool.claim?_put, Pool.claim?_dropClaim, if_neg (hne hwaking (by simp))]
    exact hc
  | claim =>
    refine .inl ?_
    rw [Pool.claim?_setClaim]
    split
    · rfl
    · exact hc
  | @settle r port hr giver hg =>
    by_cases he : id = r.id
    · subst he
      refine .inr fun x hx hid => ?_
      obtain ⟨old, -, rfl⟩ := List.mem_map.1 hx
      by_cases hold : old.id = r.id
      · simp only [hold, beq_self_eq_true, if_true]
        rfl
      · simp only [beq_iff_eq, hold, if_false] at hid
    · refine .inl ?_
      rw [Pool.claim?_put, Pool.claim?_dropClaim, if_neg he]
      exact hc
  | @vanish id' port hnone giver hg =>
    by_cases he : id = id'
    · subst he
      exact .inr fun x hx hid => absurd hid (Pool.find?_eq_none.1 hnone x hx)
    · refine .inl ?_
      rw [Pool.claim?_dropClaim, if_neg he]
      exact hc
  -- all others leave the claims as they are
  | _ => exact .inl hc

/-- A sandbox that is doomed stays so. -/
theorem Pool.Doomed.act (hn : Named ids p (x ++ rest)) (ha : Act p x sig q y) (h : p.Doomed id) :
    q.Doomed id := by
  obtain ⟨r, hr, rfl, hend⟩ := h
  obtain ⟨r', hr', hid, -, hlive⟩ := hn.successor ha hr
  refine ⟨r', hr', hid, ?_⟩
  rcases hend with hend | hc
  · rcases hlive with hsame | ⟨hend', -⟩
    · exact .inl (hsame.trans hend)
    · exact .inl hend'
  · rcases ha.claim_or hc with hclaim | hall
    · exact .inr hclaim
    · exact .inl (hall r' hr' hid)

/-- A termination that goes on has its stop or its removal behind it. -/
theorem Act.ending_or (h : Act p x sig q y) {port : UInt16} {stage : Stage}
    (hm : .ending id port stage ∈ y) :
    stage = .stop ∨ (∃ s, sig = some s ∧ s.stopped? = some id ∧ stage = .remove) ∨
      ∃ s, sig = some s ∧ s.removed? = some id ∧ stage = .settle ∧ .ending id port .remove ∈ x := by
  cases h with
  | claim =>
    simp only [List.mem_singleton, Hand.ending.injEq] at hm
    exact .inl hm.2.2
  | stopped id' port' r =>
    simp only [List.mem_singleton, Hand.ending.injEq] at hm
    obtain ⟨rfl, rfl, rfl⟩ := hm
    exact .inr (.inl ⟨_, rfl, rfl, rfl⟩)
  | removed id' port' r =>
    simp only [List.mem_singleton, Hand.ending.injEq] at hm
    obtain ⟨rfl, rfl, rfl⟩ := hm
    exact .inr (.inr ⟨_, rfl, rfl, rfl, List.mem_singleton_self _⟩)
  | enter l hl => rcases (hl _ hm).cases with ⟨id', he⟩ | ⟨he, -⟩ <;> cases he
  | reserve n => cases List.eq_of_mem_replicate hm
  | _ => simp at hm

/-- A termination that settles gives back the port. -/
theorem Act.ports_settle {port : UInt16} {giver : List Hand}
    (h : Act p (.ending id port .settle :: giver) sig q y) : q.ports = p.ports.release port := by
  generalize hx : Hand.ending id port .settle :: giver = x at h
  cases h with
  | settle => cases hx; rfl
  | vanish => cases hx; rfl
  | decline hb => cases hb <;> cases hx
  | claim hb => cases hb <;> cases hx
  | resign hg => cases hg <;> cases hx
  | park hg => cases hg <;> cases hx
  | _ => cases hx

end Doomed

end SandboxPool
