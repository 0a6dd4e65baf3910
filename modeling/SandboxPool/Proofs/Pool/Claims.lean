import SandboxPool.Proofs.Pool.Identities

/-!
# Terminations and their claims

A sandbox is claimed for its end exactly as long as one process terminates it (`Claimed`). Until
that process has settled, the record is live and has the port that the process is going to free.
-/

namespace SandboxPool

/-- The sandboxes that processes terminate are those claimed for that, each by one process. -/
structure Claimed (p : Pool) (l : List Hand) : Prop where
  nodup : ((l.filterMap Hand.ending?).map (·.1)).Nodup
  claim : ∀ x ∈ l.filterMap Hand.ending?, p.claim? x.1 = some .terminating
  record : ∀ x ∈ l.filterMap Hand.ending?,
    ∃ r ∈ p.records, r.id = x.1 ∧ r.live = true ∧ r.port = x.2
  ending : ∀ id, p.claim? id = some .terminating → id ∈ (l.filterMap Hand.ending?).map (·.1)

namespace Claimed

variable {ids : List String} {p q : Pool} {l l' x y rest : List Hand} {sig : Option Signal}

theorem mem_ending {id : String} {port : UInt16} {stage : Stage} (h : Hand.ending id port stage ∈ l) :
    (id, port) ∈ l.filterMap Hand.ending? := List.mem_filterMap.2 ⟨_, h, rfl⟩

theorem perm (h : Claimed p l) (hp : l.Perm l') : Claimed p l' := by
  have hperm := hp.filterMap Hand.ending?
  refine ⟨(hperm.map _).nodup_iff.1 h.nodup, ?_, ?_, ?_⟩
  · intro x hx
    exact h.claim x (hperm.mem_iff.2 hx)
  · intro x hx
    exact h.record x (hperm.mem_iff.2 hx)
  · intro id hid
    exact (hperm.map _).mem_iff.1 (h.ending id hid)

theorem alike (h : Claimed p l) (ha : p.Alike q) : Claimed q l := by
  refine ⟨h.nodup, ?_, ?_, ?_⟩
  · intro x hx
    rw [ha.claim?]
    exact h.claim x hx
  · rw [ha.records]
    exact h.record
  · intro id hid
    rw [ha.claim?] at hid
    exact h.ending id hid

/-- The same terminations and the same claims for them. -/
theorem keep (h : Claimed p (x ++ rest)) (hk : p.Keeps q)
    (hc : ∀ id, q.claim? id = some .terminating ↔ p.claim? id = some .terminating)
    (hxy : y.filterMap Hand.ending? = x.filterMap Hand.ending?) : Claimed q (y ++ rest) := by
  have hsame : (y ++ rest).filterMap Hand.ending? = (x ++ rest).filterMap Hand.ending? := by
    rw [List.filterMap_append, hxy, ← List.filterMap_append]
  refine ⟨?_, ?_, ?_, ?_⟩
  · rw [hsame]
    exact h.nodup
  · intro t ht
    rw [hsame] at ht
    exact (hc _).2 (h.claim t ht)
  · intro t ht
    rw [hsame] at ht
    obtain ⟨r, hr, hid, hl, hp⟩ := h.record t ht
    obtain ⟨r', hr', hid', hl', hp'⟩ := hk r hr hl
    exact ⟨r', hr', hid'.trans hid, hl', hp'.trans hp⟩
  · intro id hid
    rw [hsame]
    exact h.ending id ((hc id).1 hid)

/-- A claim is given up that was not one for an end. -/
theorem dropClaim_iff {id : String} (hc : p.claim? id ≠ some .terminating) (id' : String) :
    (p.dropClaim id).claim? id' = some .terminating ↔ p.claim? id' = some .terminating := by
  rw [Pool.claim?_dropClaim]
  split
  · next h =>
    rw [h]
    exact ⟨fun he => absurd he (by simp), fun he => absurd he hc⟩
  · exact Iff.rfl

/-- A sandbox is claimed, but not for its end. -/
theorem setClaim_iff {id : String} (hc : p.claim? id ≠ some .terminating) (id' : String) :
    (p.setClaim id .waking).claim? id' = some .terminating ↔ p.claim? id' = some .terminating := by
  rw [Pool.claim?_setClaim]
  split
  · next h =>
    rw [h]
    exact ⟨fun he => absurd he (by simp), fun he => absurd he hc⟩
  · exact Iff.rfl

/-- A process claims a sandbox for its end. -/
theorem add (h : Claimed p (x ++ rest)) (hd : p.Distinct) {r r' : Record} (hr : r ∈ p.records)
    (hid : r'.id = r.id) (hl : r.live = true) (hl' : r'.live = true) (hp : r'.port = r.port)
    (hc : p.claim? r.id ≠ some .terminating) (hx : x.filterMap Hand.ending? = []) :
    Claimed ((p.put r').setClaim r.id .terminating) ([.ending r.id r.port .stop] ++ rest) := by
  have hold : (x ++ rest).filterMap Hand.ending? = rest.filterMap Hand.ending? := by
    rw [List.filterMap_append, hx, List.nil_append]
  have hnew : ([Hand.ending r.id r.port .stop] ++ rest).filterMap Hand.ending?
      = (r.id, r.port) :: rest.filterMap Hand.ending? := rfl
  have hkeep : p.Keeps (p.put r') := Pool.keeps_of_put hd rfl hr hid (hl'.trans hl.symm) hp
  have hother : r.id ∉ (rest.filterMap Hand.ending?).map (·.1) := by
    intro hm
    obtain ⟨t, ht, he⟩ := List.mem_map.1 hm
    have hclaim := h.claim t (hold ▸ ht)
    exact hc (he ▸ hclaim)
  refine ⟨?_, ?_, ?_, ?_⟩
  · have hnodup := h.nodup
    rw [hold] at hnodup
    rw [hnew, List.map_cons]
    exact List.nodup_cons.2 ⟨hother, hnodup⟩
  · intro t ht
    rw [hnew, List.mem_cons] at ht
    rw [Pool.claim?_setClaim]
    split
    · rfl
    · next hne =>
      rcases ht with rfl | ht
      · exact absurd rfl hne
      · exact h.claim t (hold ▸ ht)
  · intro t ht
    rw [hnew, List.mem_cons] at ht
    rcases ht with rfl | ht
    · exact ⟨r', (Pool.mem_put rfl hr hid).2 (.inl rfl), hid, hl', hp⟩
    · obtain ⟨r₀, hr₀, hid₀, hl₀, hp₀⟩ := h.record t (hold ▸ ht)
      obtain ⟨r₁, hr₁, hid₁, hl₁, hp₁⟩ := hkeep r₀ hr₀ hl₀
      exact ⟨r₁, hr₁, hid₁.trans hid₀, hl₁, hp₁.trans hp₀⟩
  · intro id hid'
    rw [hnew, List.map_cons, List.mem_cons]
    rw [Pool.claim?_setClaim] at hid'
    split at hid'
    · next he => exact .inl he
    · have hm := h.ending id hid'
      rw [hold] at hm
      exact .inr hm

/-- A termination settles, and its claim goes. -/
theorem remove {id : String} {port : UInt16} {stage : Stage} {giver : List Hand}
    (h : Claimed p (.ending id port stage :: giver ++ rest))
    (hg : giver.filterMap Hand.ending? = []) (hk : ∀ r ∈ p.records, r.id ≠ id → r ∈ q.records)
    (hc : ∀ id', q.claim? id' = if id' = id then none else p.claim? id') : Claimed q ([] ++ rest) := by
  have hold : (Hand.ending id port stage :: giver ++ rest).filterMap Hand.ending?
      = (id, port) :: rest.filterMap Hand.ending? := by
    rw [List.filterMap_append]
    show (id, port) :: giver.filterMap Hand.ending? ++ _ = _
    rw [hg]
    rfl
  have hnodup := h.nodup
  rw [hold, List.map_cons] at hnodup
  obtain ⟨hnot, hnodup⟩ := List.nodup_cons.1 hnodup
  have hne : ∀ t ∈ rest.filterMap Hand.ending?, t.1 ≠ id := by
    intro t ht he
    exact hnot (List.mem_map.2 ⟨t, ht, he⟩)
  rw [List.nil_append]
  refine ⟨hnodup, ?_, ?_, ?_⟩
  · intro t ht
    rw [hc, if_neg (hne t ht)]
    exact h.claim t (hold ▸ List.mem_cons_of_mem _ ht)
  · intro t ht
    obtain ⟨r, hr, hid, hl, hp⟩ := h.record t (hold ▸ List.mem_cons_of_mem _ ht)
    exact ⟨r, hk r hr (hid ▸ hne t ht), hid, hl, hp⟩
  · intro id' hid'
    rw [hc] at hid'
    split at hid'
    · cases hid'
    · next hid =>
      have hm := h.ending id' hid'
      rw [hold, List.map_cons, List.mem_cons] at hm
      exact hm.resolve_left hid

/-- Every act keeps terminations and claims together. -/
theorem act (hn : Named ids p (x ++ rest)) (h : Claimed p (x ++ rest)) (ha : Act p x sig q y) :
    Claimed q (y ++ rest) := by
  have hd := hn.distinct
  have hidle : ∀ {l : List Hand}, (∀ t ∈ l, t.idle = true) → l.filterMap Hand.ending? = [] :=
    Hand.filterMap_idle fun _ => Hand.ending?_idle
  have hsame : ∀ {q : Pool}, q.records = p.records → p.Keeps q := Pool.keeps_of_records
  have hput : ∀ {q : Pool} {r r' : Record}, q.records = (p.put r').records → r ∈ p.records →
      r'.id = r.id → r'.live = r.live → r'.port = r.port → p.Keeps q := Pool.keeps_of_put hd
  have hnone : ∀ {id : String}, p.claim? id = none → p.claim? id ≠ some .terminating := by
    intro id hc he
    rw [hc] at he
    cases he
  have hwaking : ∀ {id : String}, p.claim? id = some .waking → p.claim? id ≠ some .terminating := by
    intro id hc he
    rw [hc] at he
    cases he
  cases ha with
  | register id port now =>
    refine h.keep (fun r hr hl => ⟨r, ?_, rfl, hl, rfl⟩) (fun _ => Iff.rfl) rfl
    rw [hn.register_records]
    exact List.mem_append_left _ hr
  | publish hr hs =>
    exact h.keep (hput rfl hr rfl (Record.live_of_admits_idle hs).symm rfl) (fun _ => Iff.rfl) rfl
  | deliver block hr hs =>
    exact h.keep (hput rfl hr rfl (Record.live_of_admits_idle hs).symm rfl) (fun _ => Iff.rfl) rfl
  | take block hr _ hs =>
    exact h.keep (hput rfl hr rfl (by simp [Record.live, State.terminal, hs]) rfl)
      (fun _ => Iff.rfl) rfl
  | wake hr hc => exact h.keep (hput rfl hr rfl rfl rfl) (setClaim_iff (hnone hc)) rfl
  | rebind block hr hc hs =>
    exact h.keep (hput rfl hr rfl (Record.live_of_admits_idle hs).symm rfl)
      (dropClaim_iff (hwaking hc)) rfl
  | lose hc => exact h.keep (hsame rfl) (dropClaim_iff (hwaking hc)) rfl
  | stray hr hc => exact h.keep (hput rfl hr rfl rfl rfl) (dropClaim_iff (hwaking hc)) rfl
  | claim hb hr hl hc => exact h.add hd hr rfl hl hl rfl hc (hidle hb.idle)
  | @settle r port hr giver hg =>
    refine h.remove (hidle (Giver.idle hg)) (fun r' hr' hne => ?_) (Pool.claim?_dropClaim _ _)
    exact Pool.mem_put_of_ne hr' hne
  | vanish port _ hg =>
    exact h.remove (hidle (Giver.idle hg)) (fun _ hr _ => hr) (Pool.claim?_dropClaim _ _)
  | park hg hr _ hs =>
    exact h.keep (hput rfl hr rfl (by simp [Record.live, State.terminal, hs]) rfl)
      (fun _ => Iff.rfl) (hidle (Giver.idle (.inr hg))).symm
  | @join r block hr =>
    refine h.keep (hput rfl hr rfl ?_ rfl) (fun _ => Iff.rfl) rfl
    by_cases hs : r.state = .idle
    · simp [Record.live, State.terminal, hs]
    · simp [Record.live, hs]
  | drop hg hr =>
    exact h.keep (hput rfl hr rfl rfl rfl) (fun _ => Iff.rfl) (hidle (Giver.idle (.inr hg))).symm
  | enter l hl => exact h.keep (hsame rfl) (fun _ => Iff.rfl) (hidle fun t ht => (hl t ht).idle)
  | reserve n =>
    refine h.keep (hsame rfl) (fun _ => Iff.rfl) ?_
    exact List.filterMap_eq_nil_iff.2 fun t ht => by rw [List.eq_of_mem_replicate ht]; rfl
  | decline hb => exact h.keep (hsame rfl) (fun _ => Iff.rfl) (hidle hb.idle).symm
  | resign hg => exact h.keep (hsame rfl) (fun _ => Iff.rfl) (hidle (Giver.idle (.inr hg))).symm
  | skip hg => exact h.keep (hsame rfl) (fun _ => Iff.rfl) (hidle (Giver.idle (.inr hg))).symm
  -- all others touch neither records nor claims, nor do they begin or end a termination
  | _ => exact h.keep (hsame rfl) (fun _ => Iff.rfl) rfl

end Claimed

end SandboxPool
