import SandboxPool.Proofs.Pool.FirstStates

/-!
# Who wakes a sandbox

A sandbox is woken by one process at a time, and the claim of that process stands until it gives it up,
unless somebody claims the sandbox for its end (`Wakeful`). So a process that comes back from a call for
a sandbox that it wakes finds it as it has left it, or doomed.
-/

namespace SandboxPool

/-- The sandbox that is woken. -/
def Hand.waking? : Hand → Option String
  | waking id => some id
  | _ => none

/-- A sandbox is woken by one process only, which has claimed it, or it is doomed. -/
structure Wakeful (p : Pool) (l : List Hand) : Prop where
  nodup : (l.filterMap Hand.waking?).Nodup
  claim : ∀ id ∈ l.filterMap Hand.waking?, p.Doomed id ∨ p.claim? id = some .waking

namespace Wakeful

variable {ids : List String} {p q : Pool} {l l' x y rest : List Hand} {sig : Option Signal}
  {id : String}

theorem mem_waking : id ∈ l.filterMap Hand.waking? ↔ .waking id ∈ l := by
  constructor
  · intro h
    obtain ⟨t, ht, hid⟩ := List.mem_filterMap.1 h
    cases t with
    | waking id' =>
      cases hid
      exact ht
    | _ => cases hid
  · exact fun h => List.mem_filterMap.2 ⟨_, h, rfl⟩

theorem perm (h : Wakeful p l) (hp : l.Perm l') : Wakeful p l' := by
  have hperm := hp.filterMap Hand.waking?
  exact ⟨hperm.nodup_iff.1 h.nodup, fun id hid => h.claim id (hperm.mem_iff.2 hid)⟩

theorem alike (h : Wakeful p l) (ha : p.Alike q) : Wakeful q l := by
  refine ⟨h.nodup, fun id hid => ?_⟩
  rw [ha.doomed_iff, ha.claim?]
  exact h.claim id hid

/-- Who acts wakes nothing behind the act, and the claims of others stand. -/
theorem keep (hn : Named ids p (x ++ rest)) (h : Wakeful p (x ++ rest)) (ha : Act p x sig q y)
    (hy : y.filterMap Hand.waking? = [])
    (hc : ∀ id, .waking id ∈ rest → p.claim? id = some .waking →
      q.Doomed id ∨ q.claim? id = some .waking) : Wakeful q (y ++ rest) := by
  have hsub : ((y ++ rest).filterMap Hand.waking?).Sublist ((x ++ rest).filterMap Hand.waking?) := by
    rw [List.filterMap_append, List.filterMap_append, hy]
    exact List.sublist_append_right _ _
  refine ⟨h.nodup.sublist hsub, fun id hid => ?_⟩
  rcases h.claim id (hsub.subset hid) with hdoomed | hclaim
  · exact .inl (hdoomed.act hn ha)
  · refine hc id ?_ hclaim
    rw [List.filterMap_append, hy, List.nil_append] at hid
    exact mem_waking.1 hid

/-- Nobody else wakes what is woken. -/
theorem not_mem_rest (h : Wakeful p ([.waking id] ++ rest)) : .waking id ∉ rest := by
  have hnodup := h.nodup
  rw [List.filterMap_append] at hnodup
  exact fun hm => (List.nodup_cons.1 hnodup).1 (mem_waking.2 hm)

/-- Every act leaves the claims of those who wake a sandbox, unless it dooms the sandbox. -/
theorem act (hn : Named ids p (x ++ rest)) (hw : Woken p (x ++ rest)) (h : Wakeful p (x ++ rest))
    (ha : Act p x sig q y) : Wakeful q (y ++ rest) := by
  have hd := hn.distinct
  -- a process that gives up its claim was the only one to wake the sandbox
  have hdrop : ∀ {id id' : String}, Wakeful p ([.waking id] ++ rest) → .waking id' ∈ rest →
      (p.dropClaim id).claim? id' = p.claim? id' := by
    intro id id' h hm
    refine (Pool.claim?_dropClaim p id id').trans (if_neg ?_)
    rintro rfl
    exact h.not_mem_rest hm
  have hact := ha
  cases ha with
  | @wake r hr hc hs =>
    have hno : .waking r.id ∉ rest := by
      intro hm
      rcases h.claim r.id (mem_waking.2 hm) with hdoomed | hclaim
      · rcases (hd.doomed_iff hr).1 hdoomed with hend | hclaim
        · rw [Record.live_of_state hs rfl] at hend
          cases hend
        · rw [hc] at hclaim
          cases hclaim
      · rw [hc] at hclaim
        cases hclaim
    refine ⟨List.nodup_cons.2 ⟨fun hm => hno (mem_waking.1 hm), h.nodup⟩, fun id hid => ?_⟩
    rcases List.mem_cons.1 hid with rfl | hid
    · exact .inr (by rw [Pool.claim?_setClaim, if_pos rfl])
    · refine (h.claim id hid).imp (fun hdoomed => hdoomed.act hn hact) fun hclaim => ?_
      rw [Pool.claim?_setClaim]
      split
      · rfl
      · exact hclaim
  | rebind => exact h.keep hn hact rfl fun id hm hc => .inr ((hdrop h hm).trans hc)
  | stray => exact h.keep hn hact rfl fun id hm hc => .inr ((hdrop h hm).trans hc)
  | lose => exact h.keep hn hact rfl fun id hm hc => .inr ((hdrop h hm).trans hc)
  | @claim r before hb hr hl hc =>
    refine h.keep hn hact rfl fun id hm hclaim => ?_
    by_cases he : id = r.id
    · subst he
      exact .inl ⟨_, Pool.mem_put_self hr rfl, rfl, .inr (by rw [Pool.claim?_setClaim, if_pos rfl])⟩
    · refine .inr ?_
      rw [Pool.claim?_setClaim, if_neg he]
      exact hclaim
  | @settle r port hr giver hg =>
    refine h.keep hn hact rfl fun id hm hclaim => ?_
    by_cases he : id = r.id
    · subst he
      exact .inl ⟨_, Pool.mem_put_self hr rfl, rfl, .inl rfl⟩
    · refine .inr ?_
      rw [Pool.claim?_put, Pool.claim?_dropClaim, if_neg he]
      exact hclaim
  | @vanish id' port hf giver hg =>
    refine h.keep hn hact rfl fun id hm hclaim => .inr ?_
    obtain ⟨r, hr, hid⟩ := hw.waking id (List.mem_append_right _ hm)
    rw [Pool.claim?_dropClaim, if_neg (hid ▸ Pool.find?_eq_none.1 hf r hr)]
    exact hclaim
  | enter l hl =>
    refine h.keep hn hact (List.filterMap_eq_nil_iff.2 fun t ht => ?_) fun _ _ hc => .inr hc
    rcases (hl t ht).cases with ⟨id, rfl⟩ | ⟨rfl, -⟩ <;> rfl
  | reserve n =>
    refine h.keep hn hact (List.filterMap_eq_nil_iff.2 fun t ht => ?_) fun _ _ hc => .inr hc
    rw [List.eq_of_mem_replicate ht]
    rfl
  -- all others leave the claims as they are
  | _ => exact h.keep hn hact rfl fun _ _ hc => .inr hc

theorem moves {p' : Pool} {before after : List Hand} (hn : Named ids p before)
    (hw : Woken p before) (h : Wakeful p before) (hm : Moves p before sig p' after) :
    Wakeful p' after := by
  obtain ⟨x, y, rest, q, hb, ha, hact, hq⟩ := hm
  exact (((h.perm hb).act (hn.perm hb) (hw.perm hb) hact).alike hq).perm ha.symm

end Wakeful

end SandboxPool
