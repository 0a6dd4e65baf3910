import SandboxPool.Proofs.Pool.FirstStates

/-!
# Who stands behind claims and containers

Whatever a pool has noted as under way has a process behind it (`Tended`): a claim to wake a sandbox
stands only as long as a process wakes it, a sandbox is marked as busy exactly while it is claimed,
and a container that was created has a record unless its start is still to add it.

The claims to terminate have their processes by `Claimed`, the reserved starts by `Capped`, and the
sandboxes in their first state by `Raised`.
-/

namespace SandboxPool

/-- Who gives a sandbox back neither wakes one nor has created one. -/
theorem Giver.apart {id : String} {l : List Hand} (h : l = [] ∨ Giver id l) :
    (∀ id, .waking id ∉ l) ∧ ∀ id port, .made id port ∉ l := by
  rcases h with rfl | h
  · simp
  · cases h <;> simp

/-- What a pool has noted as under way has a process behind it. -/
structure Tended (ids : List String) (p : Pool) (l : List Hand) : Prop where
  waking : ∀ id, p.claim? id = some .waking → .waking id ∈ l
  recorded : ∀ id, (p.claim? id).isSome = true → ∃ r ∈ p.records, r.id = id
  busy : ∀ r ∈ p.records, r.busy = (p.claim? r.id).isSome
  kept : ∀ id ∈ ids, (∃ r ∈ p.records, r.id = id) ∨ ∃ port, .made id port ∈ l

namespace Tended

variable {ids new : List String} {p q : Pool} {l l' x y rest : List Hand} {sig : Option Signal}
  {r r' : Record} {id : String}

theorem perm (h : Tended ids p l) (hp : l.Perm l') : Tended ids p l' :=
  ⟨fun id hc => hp.mem_iff.1 (h.waking id hc), h.recorded, h.busy,
    fun id hid => (h.kept id hid).imp_right fun ⟨port, hm⟩ => ⟨port, hp.mem_iff.1 hm⟩⟩

theorem alike (h : Tended ids p l) (ha : p.Alike q) : Tended ids q l := by
  refine ⟨fun id hc => ?_, fun id hc => ?_, fun r hr => ?_, fun id hid => ?_⟩
  · rw [ha.claim?] at hc
    exact h.waking id hc
  · rw [ha.claim?] at hc
    rw [ha.records]
    exact h.recorded id hc
  · rw [ha.records] at hr
    rw [ha.claim?]
    exact h.busy r hr
  · rw [ha.records]
    exact h.kept id hid

/-- Containers that were just created are in somebody's hands. -/
theorem grow (h : Tended ids p l) (hn : ∀ id ∈ new, ∃ port, .made id port ∈ l) :
    Tended (ids ++ new) p l := by
  refine ⟨h.waking, h.recorded, h.busy, fun id hid => ?_⟩
  rcases List.mem_append.1 hid with hid | hid
  · exact h.kept id hid
  · exact .inr (hn id hid)

/-- Records and claims stay as they are, and so do those who wake a sandbox. -/
theorem keep (h : Tended ids p (x ++ rest)) (hr : q.records = p.records)
    (hc : ∀ id, q.claim? id = p.claim? id)
    (hw : ∀ id, p.claim? id = some .waking → .waking id ∈ x → .waking id ∈ y)
    (hm : ∀ id port, .made id port ∈ x → .made id port ∈ y) : Tended ids q (y ++ rest) := by
  refine ⟨fun id hid => ?_, fun id hid => ?_, fun r hrec => ?_, fun id hid => ?_⟩
  · rw [hc] at hid
    rcases List.mem_append.1 (h.waking id hid) with hx | hrest
    · exact List.mem_append_left _ (hw id hid hx)
    · exact List.mem_append_right _ hrest
  · rw [hc] at hid
    rw [hr]
    exact h.recorded id hid
  · rw [hr] at hrec
    rw [hc]
    exact h.busy r hrec
  · rw [hr]
    refine (h.kept id hid).imp_right fun ⟨port, hmem⟩ => ⟨port, ?_⟩
    rcases List.mem_append.1 hmem with hx | hrest
    · exact List.mem_append_left _ (hm id port hx)
    · exact List.mem_append_right _ hrest

/-- The record of one sandbox is replaced, and at most its claim changes. -/
theorem put (h : Tended ids p (x ++ rest)) (hr : r ∈ p.records)
    (hq : q.records = (p.put r').records) (hid : r'.id = r.id)
    (hc : ∀ id, id ≠ r.id → q.claim? id = p.claim? id) (hb : r'.busy = (q.claim? r.id).isSome)
    (hw : q.claim? r.id = some .waking →
      .waking r.id ∈ y ∨ p.claim? r.id = some .waking ∧ .waking r.id ∉ x)
    (hx : ∀ id, .waking id ∈ x → id = r.id) (hm : ∀ id port, .made id port ∉ x) :
    Tended ids q (y ++ rest) := by
  have hids : ∀ id, (∃ r ∈ p.records, r.id = id) → ∃ r ∈ q.records, r.id = id := by
    rintro id ⟨r₀, hr₀, rfl⟩
    have hmem : r₀.id ∈ q.records.map (·.id) := by
      rw [hq, Pool.map_id_put]
      exact List.mem_map_of_mem hr₀
    exact List.mem_map.1 hmem
  refine ⟨fun id hclaim => ?_, fun id hclaim => ?_, fun r₀ hr₀ => ?_, fun id hmem => ?_⟩
  · by_cases he : id = r.id
    · subst he
      rcases hw hclaim with hy | ⟨hold, hno⟩
      · exact List.mem_append_left _ hy
      · rcases List.mem_append.1 (h.waking _ hold) with hin | hrest
        · exact absurd hin hno
        · exact List.mem_append_right _ hrest
    · rw [hc id he] at hclaim
      rcases List.mem_append.1 (h.waking _ hclaim) with hin | hrest
      · exact absurd (hx id hin) he
      · exact List.mem_append_right _ hrest
  · by_cases he : id = r.id
    · exact hids id ⟨r, hr, he.symm⟩
    · rw [hc id he] at hclaim
      exact hids id (h.recorded id hclaim)
  · rcases (Pool.mem_put hq hr hid).1 hr₀ with rfl | ⟨hold, hne⟩
    · rw [hid]
      exact hb
    · rw [hc _ hne]
      exact h.busy r₀ hold
  · refine (h.kept id hmem).imp (hids id) fun ⟨port, hin⟩ => ⟨port, ?_⟩
    rcases List.mem_append.1 hin with hin | hrest
    · exact absurd hin (hm id port)
    · exact List.mem_append_right _ hrest

/-- A sandbox without a record is not claimed. -/
theorem claim?_eq_none (h : Tended ids p l) (hf : p.find? id = none) : p.claim? id = none := by
  rw [← Option.not_isSome_iff_eq_none]
  intro hc
  obtain ⟨r, hr, hid⟩ := h.recorded id hc
  exact Pool.find?_eq_none.1 hf r hr hid

/-- Every act leaves a process behind what is under way. -/
theorem act (hn : Named ids p (x ++ rest)) (halert : p.Alert) (h : Tended ids p (x ++ rest))
    (ha : Act p x sig q y) : Tended ids q (y ++ rest) := by
  -- the record is replaced and its claim stays, and nobody wakes a sandbox or has created one
  have hchange : ∀ {q : Pool} {x y : List Hand} {r r' : Record}, Tended ids p (x ++ rest) →
      q.records = (p.put r').records → q.claims = p.claims → r ∈ p.records → r'.id = r.id →
      r'.busy = r.busy → (∀ id, .waking id ∉ x) → (∀ id port, .made id port ∉ x) →
      Tended ids q (y ++ rest) := by
    intro q x y r r' h hq hclaims hr hid hbusy hwaking hmade
    have hsame : ∀ id, q.claim? id = p.claim? id := by
      intro id
      unfold Pool.claim?
      rw [hclaims]
    refine h.put hr hq hid (fun id _ => hsame id) ?_ (fun hc => .inr ⟨?_, hwaking _⟩)
      (fun id hm => absurd hm (hwaking id)) hmade
    · rw [hbusy, hsame]
      exact h.busy r hr
    · rwa [hsame] at hc
  have hfreed : ∀ {id id' : String}, id' ≠ id → (p.dropClaim id).claim? id' = p.claim? id' := by
    intro id id' hne
    rw [Pool.claim?_dropClaim, if_neg hne]
  have hnone : ∀ id : String, (p.dropClaim id).claim? id = none := by
    intro id
    rw [Pool.claim?_dropClaim, if_pos rfl]
  have hset : ∀ {r : Record} {id id' : String} {c : Claim}, id' ≠ id →
      ((p.put r).setClaim id c).claim? id' = p.claim? id' := by
    intro r id id' c hne
    rw [Pool.claim?_setClaim, if_neg hne]
    rfl
  have hnew : ∀ {r : Record} (id : String) (c : Claim),
      ((p.put r).setClaim id c).claim? id = some c := by
    intro r id c
    rw [Pool.claim?_setClaim, if_pos rfl]
  cases ha with
  | register id port now =>
    have hrecords := hn.register_records now
    have hno : p.claim? id = none := h.claim?_eq_none (Pool.find?_eq_none.2 fun r hr =>
      hn.ne_of_made (List.mem_cons_self ..) hr)
    refine ⟨fun id' hc => ?_, fun id' hc => ?_, fun r hr => ?_, fun id' hid' => ?_⟩
    · rcases List.mem_cons.1 (h.waking id' hc) with he | hrest
      · cases he
      · exact List.mem_cons_of_mem _ hrest
    · obtain ⟨r, hr, hid⟩ := h.recorded id' hc
      exact ⟨r, hrecords ▸ List.mem_append_left _ hr, hid⟩
    · rw [hrecords] at hr
      rcases List.mem_append.1 hr with hr | hr
      · exact h.busy r hr
      · obtain rfl := List.mem_singleton.1 hr
        show false = (p.claim? id).isSome
        rw [hno]
        rfl
    · rw [hrecords]
      rcases h.kept id' hid' with ⟨r, hr, hid⟩ | ⟨port', hm⟩
      · exact .inl ⟨r, List.mem_append_left _ hr, hid⟩
      · rcases List.mem_cons.1 hm with he | hrest
        · cases he
          exact .inl ⟨_, List.mem_append_right _ (List.mem_singleton_self _), rfl⟩
        · exact .inr ⟨port', List.mem_cons_of_mem _ hrest⟩
  | publish hr => exact hchange h rfl rfl hr rfl rfl (by simp) (by simp)
  | deliver block hr => exact hchange h rfl rfl hr rfl rfl (by simp) (by simp)
  | take block hr => exact hchange h rfl rfl hr rfl rfl (by simp) (by simp)
  | park hg hr =>
    have hnot := Giver.apart (.inr hg)
    exact hchange h rfl rfl hr rfl rfl hnot.1 hnot.2
  | join block hr => exact hchange h rfl rfl hr rfl rfl (by simp) (by simp)
  | drop hg hr =>
    have hnot := Giver.apart (.inr hg)
    exact hchange h rfl rfl hr rfl rfl (by simp [hnot.1]) (by simp [hnot.2])
  | wake hr =>
    refine h.put hr rfl rfl (fun _ => hset) ?_ (fun _ => .inl (List.mem_singleton_self _))
      (by simp) (by simp)
    rw [hnew]
    rfl
  | rebind block hr =>
    refine h.put hr rfl rfl (fun _ => hfreed) ?_ (fun hc => ?_) (by simp) (by simp)
    · show false = ((p.dropClaim _).claim? _).isSome
      rw [hnone]
      rfl
    · rw [Pool.claim?_put, hnone] at hc
      cases hc
  | stray hr =>
    refine h.put hr rfl rfl (fun _ => hfreed) ?_ (fun hc => ?_) (by simp) (by simp)
    · show false = ((p.dropClaim _).claim? _).isSome
      rw [hnone]
      rfl
    · rw [Pool.claim?_put, hnone] at hc
      cases hc
  | lose hc hf =>
    rw [h.claim?_eq_none hf] at hc
    cases hc
  | decline hb hno =>
    refine h.keep rfl (fun _ => rfl) (fun id hc hm => ?_) fun id port hm => ?_
    · -- a sandbox that is claimed to be woken is neither terminated nor claimed for that
      exfalso
      obtain ⟨r, hr, rfl⟩ := h.recorded id (by rw [hc]; rfl)
      have hlive := halert r hr hc
      cases hb with
      | wake =>
        obtain rfl := Hand.waking.inj (List.mem_singleton.1 hm)
        rcases hno r (hn.distinct.find?_of_mem hr) with hend | hclaim
        · rw [hlive] at hend
          cases hend
        · rw [hc] at hclaim
          cases hclaim
      | _ => simp at hm
    · cases hb <;> simp at hm
  | claim hb hr =>
    refine h.put hr rfl rfl (fun _ => hset) ?_ (fun hc => ?_) (fun id hm => ?_) fun id port hm => ?_
    · rw [hnew]
      rfl
    · rw [hnew] at hc
      cases hc
    · cases hb with
      | wake => exact Hand.waking.inj (List.mem_singleton.1 hm)
      | _ => simp at hm
    · cases hb <;> simp at hm
  | settle port hr hg =>
    have hnot := Giver.apart hg
    refine h.put hr rfl rfl (fun _ => hfreed) ?_ (fun hc => ?_) (by simp [hnot.1]) (by simp [hnot.2])
    · show false = ((p.dropClaim _).claim? _).isSome
      rw [hnone]
      rfl
    · have hgone := hc.symm.trans (hnone _)
      cases hgone
  | @vanish id port hf giver hg =>
    have hnot := Giver.apart hg
    refine h.keep rfl (fun id' => ?_) (by simp [hnot.1]) (by simp [hnot.2])
    by_cases he : id' = id
    · subst he
      exact (hnone _).trans (h.claim?_eq_none hf).symm
    · exact hfreed he
  | resign hg =>
    have hnot := Giver.apart (.inr hg)
    exact h.keep rfl (fun _ => rfl) (by simp [hnot.1]) (by simp [hnot.2])
  | skip hg =>
    have hnot := Giver.apart (.inr hg)
    exact h.keep rfl (fun _ => rfl) (by simp [hnot.1]) (by simp [hnot.2])
  -- all others leave records and claims as they are, and neither wake nor have created a sandbox
  | _ => exact h.keep rfl (fun _ => rfl) (by simp) (by simp)

end Tended

/-- Who has created a container has it in hand. -/
theorem Act.made_of_news {p q : Pool} {x y : List Hand} {sig : Option Signal} {id : String}
    (h : Act p x sig q y) (hid : id ∈ Signal.news sig) : ∃ port, .made id port ∈ y := by
  cases h with
  | aside sig hs =>
    obtain ⟨s, rfl, hcreated⟩ : ∃ s, sig = some s ∧ s.created? = some id := by
      simpa [Signal.news, Option.bind_eq_some_iff] using hid
    have haside := hs s rfl
    unfold Signal.created? at hcreated
    split at hcreated
    · cases haside
    · cases hcreated
  | created spec port id' =>
    obtain rfl := List.mem_singleton.1 hid
    exact ⟨port, List.mem_singleton_self _⟩
  | _ => cases hid

theorem Tended.moves {ids : List String} {p p' : Pool} {before after : List Hand}
    {sig : Option Signal} (hn : Named ids p before) (halert : p.Alert) (h : Tended ids p before)
    (hm : Moves p before sig p' after) : Tended (ids ++ Signal.news sig) p' after := by
  obtain ⟨x, y, rest, q, hb, ha, hact, hq⟩ := hm
  have htended := (h.perm hb).act (hn.perm hb) halert hact
  refine ((htended.grow fun id hid => ?_).alike hq).perm ha.symm
  obtain ⟨port, hmade⟩ := hact.made_of_news hid
  exact ⟨port, List.mem_append_left _ hmade⟩

end SandboxPool
