import SandboxPool.Proofs.Pool.PortUse

/-!
# Containers and sandboxes

What the signals tell of the containers that exist agrees with what the pool and its processes have:
a container is being created by one start, or it has a record that is live or is about to get one
(`Stocked`).
-/

namespace SandboxPool

/-- The ledger behind a signal, if there is one. -/
def Ledger.after (c : Ledger) (sig : Option Signal) : Ledger := sig.toList.foldl .note c

theorem Ledger.after_aside {sig : Option Signal} (h : ∀ s, sig = some s → s.aside = true)
    (c : Ledger) : c.after sig = c := by
  cases sig with
  | none => rfl
  | some s =>
    have hs := h s rfl
    unfold after
    cases s with
    | sent a =>
      cases a with
      | run sandbox block => rfl
      | daemon call => cases call <;> first | rfl | cases hs
    | got a r =>
      cases a with
      | run sandbox block => rfl
      | daemon call =>
        cases call with
        | act action id => cases action <;> first | rfl | cases hs
        | _ => first | rfl | cases hs

/-- The containers are those that starts create, those that they have created, and those of live
sandboxes whose removal has not returned. -/
structure Stocked (c : Ledger) (p : Pool) (l : List Hand) : Prop where
  creating : c.creating.Perm (l.filterMap Hand.creating?)
  nodup : (c.standing.map (·.1)).Nodup
  standing : ∀ x ∈ c.standing, ∃ port, x.2.hostPort? = some port ∧
    (Hand.made x.1 port ∈ l ∨ ∃ r ∈ p.records, r.id = x.1 ∧ r.live = true ∧ r.port = port)
  removed : ∀ {id : String} {port : UInt16}, Hand.ending id port .settle ∈ l →
    ∀ x ∈ c.standing, x.1 ≠ id

namespace Stocked

variable {config : Config} {ids : List String} {c : Ledger} {p q : Pool}
  {l l' x y rest : List Hand} {sig : Option Signal}

theorem perm (h : Stocked c p l) (hp : l.Perm l') : Stocked c p l' := by
  refine ⟨h.creating.trans (hp.filterMap _), h.nodup, fun t ht => ?_, fun hm => ?_⟩
  · obtain ⟨port, hport, hm | hr⟩ := h.standing t ht
    · exact ⟨port, hport, .inl (hp.mem_iff.1 hm)⟩
    · exact ⟨port, hport, .inr hr⟩
  · exact h.removed (hp.mem_iff.2 hm)

theorem alike (h : Stocked c p l) (ha : p.Alike q) : Stocked c q l := by
  refine ⟨h.creating, h.nodup, fun t ht => ?_, h.removed⟩
  rw [ha.records]
  exact h.standing t ht

/-- A container that is known belongs to an identity that the daemon gave out. -/
theorem standing_created (h : Stocked c p l) (hn : Named ids p l) {t : String × ContainerSpec}
    (ht : t ∈ c.standing) : t.1 ∈ ids := by
  obtain ⟨port, -, hm | ⟨r, hr, hid, -⟩⟩ := h.standing t ht
  · exact hn.made_created hm
  · exact hid ▸ hn.record_created hr

/-- The same containers exist; those that are being created may have changed. -/
theorem restock (h : Stocked c p (x ++ rest)) (hk : p.Keeps q) {creating : List ContainerSpec}
    (hcr : creating.Perm ((y ++ rest).filterMap Hand.creating?))
    (hm : ∀ id port, Hand.made id port ∈ x → Hand.made id port ∈ y)
    (hs : ∀ id port, Hand.ending id port .settle ∈ y → Hand.ending id port .settle ∈ x) :
    Stocked ⟨creating, c.standing⟩ q (y ++ rest) := by
  refine ⟨hcr, h.nodup, fun t ht => ?_, fun {id port} he => ?_⟩
  · obtain ⟨port, hport, hmade | ⟨r, hr, hid, hl, hp⟩⟩ := h.standing t ht
    · refine ⟨port, hport, .inl ?_⟩
      rcases List.mem_append.1 hmade with hmade | hmade
      · exact List.mem_append_left _ (hm _ _ hmade)
      · exact List.mem_append_right _ hmade
    · obtain ⟨r', hr', hid', hl', hp'⟩ := hk r hr hl
      exact ⟨port, hport, .inr ⟨r', hr', hid'.trans hid, hl', hp'.trans hp⟩⟩
  · rcases List.mem_append.1 he with he | he
    · exact h.removed (List.mem_append_left _ (hs id port he))
    · exact h.removed (List.mem_append_right _ he)

/-- The same containers exist. -/
theorem keep (h : Stocked c p (x ++ rest)) (hk : p.Keeps q)
    (hcr : y.filterMap Hand.creating? = x.filterMap Hand.creating?)
    (hm : ∀ id port, Hand.made id port ∈ x → Hand.made id port ∈ y)
    (hs : ∀ id port, Hand.ending id port .settle ∈ y → Hand.ending id port .settle ∈ x) :
    Stocked c q (y ++ rest) := by
  refine h.restock hk ?_ hm hs
  rw [List.filterMap_append, hcr, ← List.filterMap_append]
  exact h.creating

/-- A container is created, with an identity that is new. -/
theorem created {spec : ContainerSpec} {port : UInt16} {id : String}
    (hn : Named ids p ([.naming spec port true] ++ rest))
    (hc : Claimed p ([.naming spec port true] ++ rest))
    (h : Stocked c p ([.naming spec port true] ++ rest)) (hf : id ∉ ids)
    (hs : spec.hostPort? = some port) :
    Stocked ⟨c.creating.erase spec, (id, spec) :: c.standing⟩ p ([.made id port] ++ rest) := by
  refine ⟨?_, ?_, fun t ht => ?_, fun {id' port'} he t ht => ?_⟩
  · have hcreating : c.creating.Perm (spec :: rest.filterMap Hand.creating?) := h.creating
    have herase := hcreating.erase spec
    rwa [List.erase_cons_head] at herase
  · rw [List.map_cons, List.nodup_cons]
    refine ⟨fun hm => ?_, h.nodup⟩
    obtain ⟨t, ht, rfl⟩ := List.mem_map.1 hm
    exact hf (h.standing_created hn ht)
  · rcases List.mem_cons.1 ht with rfl | ht
    · exact ⟨port, hs, .inl (List.mem_append_left _ (List.mem_singleton_self _))⟩
    · obtain ⟨port', hport, hmade | hr⟩ := h.standing t ht
      · refine ⟨port', hport, .inl ?_⟩
        rcases List.mem_append.1 hmade with hmade | hmade
        · simp at hmade
        · exact List.mem_append_right _ hmade
      · exact ⟨port', hport, .inr hr⟩
  · have hrest : Hand.ending id' port' .settle ∈ [Hand.naming spec port true] ++ rest := by
      rcases List.mem_append.1 he with he | he
      · simp at he
      · exact List.mem_append_right _ he
    rcases List.mem_cons.1 ht with rfl | ht
    · rintro rfl
      obtain ⟨r, hr, hrid, -⟩ := hc.record _ (Claimed.mem_ending hrest)
      have hknown := hn.record_created hr
      rw [hrid] at hknown
      exact hf hknown
    · exact h.removed hrest t ht

/-- A removal has returned. -/
theorem remove {id : String} {port : UInt16}
    (h : Stocked c p ([.ending id port .remove] ++ rest)) :
    Stocked ⟨c.creating, c.standing.filter (·.1 != id)⟩ p ([.ending id port .settle] ++ rest) := by
  refine ⟨h.creating, h.nodup.sublist (List.filter_sublist.map _), fun t ht => ?_,
    fun {id' port'} he t ht => ?_⟩
  · obtain ⟨port', hport, hmade | hr⟩ := h.standing t (List.mem_filter.1 ht).1
    · refine ⟨port', hport, .inl ?_⟩
      rcases List.mem_append.1 hmade with hmade | hmade
      · simp at hmade
      · exact List.mem_append_right _ hmade
    · exact ⟨port', hport, .inr hr⟩
  · obtain ⟨hm, hne⟩ := List.mem_filter.1 ht
    rcases List.mem_append.1 he with he | he
    · simp only [List.mem_singleton, Hand.ending.injEq] at he
      obtain ⟨rfl, -, -⟩ := he
      simpa using hne
    · exact h.removed (List.mem_append_right _ he) t hm

/-- The record of a new sandbox is that of a container. -/
theorem register {id : String} {port : UInt16} (hn : Named ids p ([.made id port] ++ rest))
    (h : Stocked c p ([.made id port] ++ rest)) (now : Instant) :
    Stocked c (p.unreserve.insert (.new id port now)) ([.raising id] ++ rest) := by
  refine ⟨h.creating, h.nodup, fun t ht => ?_, fun {id' port'} he => ?_⟩
  · rw [hn.register_records]
    obtain ⟨port', hport, hmade | ⟨r, hr, hid, hl, hp⟩⟩ := h.standing t ht
    · rcases List.mem_append.1 hmade with hmade | hmade
      · simp only [List.mem_singleton, Hand.made.injEq] at hmade
        obtain ⟨hid, rfl⟩ := hmade
        exact ⟨port', hport, .inr ⟨.new id port' now,
          List.mem_append_right _ (List.mem_singleton_self _), hid.symm, rfl, rfl⟩⟩
      · exact ⟨port', hport, .inl (List.mem_append_right _ hmade)⟩
    · exact ⟨port', hport, .inr ⟨r, List.mem_append_left _ hr, hid, hl, hp⟩⟩
  · rcases List.mem_append.1 he with he | he
    · simp at he
    · exact h.removed (List.mem_append_right _ he)

/-- A termination settles, when its container is long gone. -/
theorem settle {id : String} {port : UInt16} {giver : List Hand}
    (h : Stocked c p (.ending id port .settle :: giver ++ rest))
    (hg : ∀ t ∈ giver, t.idle = true)
    (hk : ∀ r ∈ p.records, r.id ≠ id → r ∈ q.records) : Stocked c q ([] ++ rest) := by
  have hnil : giver.filterMap Hand.creating? = [] :=
    Hand.filterMap_idle (fun _ => Hand.creating?_idle) hg
  have hgone : ∀ t ∈ c.standing, t.1 ≠ id := h.removed (List.mem_cons_self ..)
  refine ⟨?_, h.nodup, fun t ht => ?_, fun {id' port'} he => ?_⟩
  · have hcreating := h.creating
    have hcons : (Hand.ending id port .settle :: giver ++ rest).filterMap Hand.creating?
        = giver.filterMap Hand.creating? ++ rest.filterMap Hand.creating? := List.filterMap_append
    rw [hcons, hnil] at hcreating
    exact hcreating
  · obtain ⟨port', hport, hmade | ⟨r, hr, hid, hl, hp⟩⟩ := h.standing t ht
    · refine ⟨port', hport, .inl ?_⟩
      rcases List.mem_cons.1 hmade with hmade | hmade
      · cases hmade
      · rcases List.mem_append.1 hmade with hmade | hmade
        · exact absurd (hg _ hmade) (by simp [Hand.idle])
        · exact hmade
    · exact ⟨port', hport, .inr ⟨r, hk r hr (hid ▸ hgone t ht), hid, hl, hp⟩⟩
  · exact h.removed (List.mem_cons_of_mem _ (List.mem_append_right _ he))

/-- Every act keeps account of the containers, unless the daemon gives out an identity twice. -/
theorem act (hn : Named ids p (x ++ rest)) (hc : Claimed p (x ++ rest))
    (ho : Housed config p (x ++ rest)) (h : Stocked c p (x ++ rest)) (ha : Act p x sig q y)
    (hf : (ids ++ Signal.news sig).Nodup) : Stocked (c.after sig) q (y ++ rest) := by
  have hkeeps : (∀ id port giver, x ≠ .ending id port .settle :: giver) → p.Keeps q := by
    intro hx r hr hl
    obtain ⟨r', hr', hid, hp, hl' | ⟨-, port, giver, he⟩⟩ := hn.successor ha hr
    · exact ⟨r', hr', hid, hl'.trans hl, hp⟩
    · exact absurd he (hx _ _ _)
  have hidle : ∀ {l : List Hand}, (∀ t ∈ l, t.idle = true) → l.filterMap Hand.creating? = [] :=
    Hand.filterMap_idle fun _ => Hand.creating?_idle
  have hmade : ∀ {l l' : List Hand}, (∀ t ∈ l, t.idle = true) →
      ∀ id port, Hand.made id port ∈ l → Hand.made id port ∈ l' :=
    fun hl _ _ hm => absurd (hl _ hm) (by simp [Hand.idle])
  have hclaimant : ∀ {id : String} {l : List Hand}, Claimant id l →
      ∀ id port giver, l ≠ .ending id port .settle :: giver := by
    intro id l hb id' port giver he
    cases hb <;> cases he
  have hgiver : ∀ {id : String} {l : List Hand}, Giver id l →
      ∀ id port giver, l ≠ .ending id port .settle :: giver := by
    intro id l hg id' port giver he
    cases hg <;> cases he
  have hsharing : ∀ {id : String} {l : List Hand}, Giver id l → ∀ t ∈ .sharing :: l, t.idle = true := by
    intro id l hg t ht
    rcases List.mem_cons.1 ht with rfl | ht
    · rfl
    · exact Giver.idle (.inr hg) t ht
  cases ha with
  | aside sig hs =>
    rw [Ledger.after_aside hs]
    exact h
  | call spec port =>
    exact h.restock (hkeeps (by simp)) (h.creating.cons spec) (by simp) (by simp)
  | created spec port id =>
    have hfresh : id ∉ ids := by
      have hsingle : (ids ++ [id]).Nodup := hf
      rw [List.nodup_append] at hsingle
      exact fun hm => hsingle.2.2 id hm id (List.mem_singleton_self id) rfl
    exact h.created hn hc hfresh (ho.spec (List.mem_append_left _ (List.mem_singleton_self _)))
  | refused spec port e =>
    have hcreating : c.creating.Perm (spec :: rest.filterMap Hand.creating?) := h.creating
    have herase := hcreating.erase spec
    rw [List.erase_cons_head] at herase
    exact h.restock (hkeeps (by simp)) herase (by simp) (by simp)
  | removed id port r => exact h.remove
  | register id port now => exact h.register hn now
  | settle port hr hg =>
    exact h.settle (Giver.idle hg) fun r' hr' hne => Pool.mem_put_of_ne hr' hne
  | vanish port _ hg => exact h.settle (Giver.idle hg) fun _ hr _ => hr
  | enter l hl =>
    refine h.keep (hkeeps (by simp)) (hidle fun t ht => (hl t ht).idle) (by simp)
      fun id port hm => absurd (hl _ hm).idle (by simp [Hand.idle])
  | reserve n =>
    refine h.keep (hkeeps (by simp)) ?_ (by simp) fun id port hm => by
      cases List.eq_of_mem_replicate hm
    exact List.filterMap_eq_nil_iff.2 fun t ht => by rw [List.eq_of_mem_replicate ht]; rfl
  | decline hb =>
    exact h.keep (hkeeps (hclaimant hb)) (hidle hb.idle).symm (hmade hb.idle) (by simp)
  | claim hb =>
    exact h.keep (hkeeps (hclaimant hb)) (hidle hb.idle).symm (hmade hb.idle) (by simp)
  | resign hg =>
    exact h.keep (hkeeps (hgiver hg)) (hidle (Giver.idle (.inr hg))).symm
      (hmade (Giver.idle (.inr hg))) (by simp)
  | park hg =>
    exact h.keep (hkeeps (hgiver hg)) (hidle (Giver.idle (.inr hg))).symm
      (hmade (Giver.idle (.inr hg))) (by simp)
  | drop hg =>
    exact h.keep (hkeeps (by simp)) (hidle (Giver.idle (.inr hg))).symm (hmade (hsharing hg))
      (by simp)
  | skip hg =>
    exact h.keep (hkeeps (by simp)) (hidle (Giver.idle (.inr hg))).symm (hmade (hsharing hg))
      (by simp)
  -- all others have nothing to do with containers
  | _ => exact h.keep (hkeeps (by simp)) rfl (by simp) (by simp)

end Stocked

end SandboxPool
