import SandboxPool.Proofs.Pool.Hands

/-!
# Identities

As long as the daemon does not give out an identity twice, the sandboxes with a record and the
containers that have none yet have different identities, all of which the daemon gave out (`Named`).
-/

namespace SandboxPool

/-- The identity that a signal tells of. -/
def Signal.news (sig : Option Signal) : List String := (sig.bind (·.created?)).toList

/-- Records and containers without a record have different identities, which the daemon gave out. -/
structure Named (ids : List String) (p : Pool) (l : List Hand) : Prop where
  nodup : (p.records.map (·.id) ++ l.filterMap Hand.made?).Nodup
  created : ∀ id ∈ p.records.map (·.id) ++ l.filterMap Hand.made?, id ∈ ids

namespace Named

variable {ids new : List String} {p q : Pool} {l l' x y rest : List Hand} {sig : Option Signal}

theorem distinct (h : Named ids p l) : p.Distinct := h.nodup.sublist (List.sublist_append_left _ _)

theorem record_created (h : Named ids p l) {r : Record} (hr : r ∈ p.records) : r.id ∈ ids :=
  h.created _ (List.mem_append_left _ (List.mem_map_of_mem hr))

theorem made_created (h : Named ids p l) {id : String} {port : UInt16}
    (hm : Hand.made id port ∈ l) : id ∈ ids :=
  h.created _ (List.mem_append_right _ (List.mem_filterMap.2 ⟨_, hm, rfl⟩))

/-- A container without a record is not a sandbox that has one. -/
theorem ne_of_made (h : Named ids p l) {id : String} {port : UInt16} (hm : Hand.made id port ∈ l)
    {r : Record} (hr : r ∈ p.records) : r.id ≠ id := by
  have hd := (List.nodup_append.1 h.nodup).2.2
  exact hd r.id (List.mem_map_of_mem hr) id (List.mem_filterMap.2 ⟨_, hm, rfl⟩)

/-- The record of a new sandbox stands behind the others. -/
theorem register_records {id : String} {port : UInt16} (h : Named ids p ([.made id port] ++ rest))
    (now : Instant) : (p.unreserve.insert (.new id port now)).records
      = p.records ++ [.new id port now] :=
  Pool.insert_records fun _ hr => h.ne_of_made (List.mem_cons_self ..) hr

theorem perm (h : Named ids p l) (hp : l.Perm l') : Named ids p l' := by
  have hperm := (hp.filterMap Hand.made?).append_left (p.records.map (·.id))
  exact ⟨hperm.nodup_iff.1 h.nodup, fun id hid => h.created id (hperm.mem_iff.2 hid)⟩

theorem alike (h : Named ids p l) (ha : p.Alike q) : Named ids q l := by
  refine ⟨?_, ?_⟩
  · rw [ha.records]
    exact h.nodup
  · rw [ha.records]
    exact h.created

/-- The same identities. -/
theorem keep (h : Named ids p (x ++ rest)) (hr : q.records.map (·.id) = p.records.map (·.id))
    (hxy : y.filterMap Hand.made? = x.filterMap Hand.made?) : Named (ids ++ new) q (y ++ rest) := by
  refine ⟨?_, fun id hid => List.mem_append_left _ (h.created id ?_)⟩
  · rw [hr, List.filterMap_append, hxy, ← List.filterMap_append]
    exact h.nodup
  · rwa [hr, List.filterMap_append, hxy, ← List.filterMap_append] at hid

/-- Every act keeps identities apart, unless the daemon gives one out twice. -/
theorem act (hn : Named ids p (x ++ rest)) (h : Act p x sig q y) (hf : (ids ++ Signal.news sig).Nodup) :
    Named (ids ++ Signal.news sig) q (y ++ rest) := by
  have hidle : ∀ {l : List Hand}, (∀ t ∈ l, t.idle = true) → l.filterMap Hand.made? = [] :=
    Hand.filterMap_idle fun _ => Hand.made?_idle
  cases h with
  | created spec port id =>
    have hfresh : id ∉ ids := by
      have hsingle : (ids ++ [id]).Nodup := hf
      rw [List.nodup_append] at hsingle
      exact fun hm => hsingle.2.2 id hm id (List.mem_singleton_self id) rfl
    have hnodup := hn.nodup
    have hcreated := hn.created
    have hnil : [Hand.naming spec port true].filterMap Hand.made? = [] := rfl
    have hmade : [Hand.made id port].filterMap Hand.made? = [id] := rfl
    rw [List.filterMap_append, hnil, List.nil_append] at hnodup hcreated
    have hperm : (p.records.map (·.id) ++ ([id] ++ rest.filterMap Hand.made?)).Perm
        (id :: (p.records.map (·.id) ++ rest.filterMap Hand.made?)) := List.perm_middle
    refine ⟨?_, ?_⟩
    · rw [List.filterMap_append, hmade, hperm.nodup_iff]
      exact List.nodup_cons.2 ⟨fun hm => hfresh (hcreated id hm), hnodup⟩
    · intro x hx
      rw [List.filterMap_append, hmade, hperm.mem_iff, List.mem_cons] at hx
      rcases hx with rfl | hx
      · exact List.mem_append_right _ (List.mem_singleton_self _)
      · exact List.mem_append_left _ (hcreated x hx)
  | register id port now =>
    have hperm : (p.records.map (·.id) ++ ([Hand.made id port] ++ rest).filterMap Hand.made?)
        = (p.unreserve.insert (.new id port now)).records.map (·.id)
          ++ ([Hand.raising id] ++ rest).filterMap Hand.made? := by
      rw [hn.register_records, List.map_append, List.append_assoc]
      rfl
    refine ⟨?_, fun x hx => List.mem_append_left _ (hn.created x ?_)⟩
    · rw [← hperm]
      exact hn.nodup
    · rwa [← hperm] at hx
  | aside => exact hn.keep rfl rfl
  | enter l hl => exact hn.keep rfl (hidle fun t ht => (hl t ht).idle)
  | reserve n =>
    refine hn.keep rfl ?_
    exact List.filterMap_eq_nil_iff.2 fun t ht => by rw [List.eq_of_mem_replicate ht]; rfl
  | decline hb => exact hn.keep rfl (hidle hb.idle).symm
  | claim hb => exact hn.keep (Pool.map_id_put _ _) (hidle hb.idle).symm
  | settle port _ hg => exact hn.keep (Pool.map_id_put _ _) (hidle (Giver.idle hg)).symm
  | vanish port _ hg => exact hn.keep rfl (hidle (Giver.idle hg)).symm
  | resign hg => exact hn.keep rfl (hidle (Giver.idle (.inr hg))).symm
  | park hg => exact hn.keep (Pool.map_id_put _ _) (hidle (Giver.idle (.inr hg))).symm
  | drop hg => exact hn.keep (Pool.map_id_put _ _) (hidle (Giver.idle (.inr hg))).symm
  | skip hg => exact hn.keep rfl (hidle (Giver.idle (.inr hg))).symm
  -- all others have no container without a record in hand
  | _ => first | exact hn.keep rfl rfl | exact hn.keep (Pool.map_id_put _ _) rfl

/-- A record has a successor with its identity and its port. It is live as the record was, unless
the termination of the sandbox settles. -/
theorem successor (hn : Named ids p (x ++ rest)) (h : Act p x sig q y) {r : Record}
    (hr : r ∈ p.records) :
    ∃ r' ∈ q.records, r'.id = r.id ∧ r'.port = r.port ∧ (r'.live = r.live ∨
      r'.live = false ∧ ∃ port giver, x = .ending r.id port .settle :: giver) := by
  have hsame : r ∈ q.records → ∃ r' ∈ q.records, r'.id = r.id ∧ r'.port = r.port ∧
      (r'.live = r.live ∨ r'.live = false ∧ ∃ port giver, x = .ending r.id port .settle :: giver) :=
    fun hm => ⟨r, hm, rfl, rfl, .inl rfl⟩
  have hput : ∀ {r₀ r₁ : Record}, q.records = (p.put r₁).records → r₀ ∈ p.records →
      r₁.id = r₀.id → r₁.port = r₀.port → (r₁.live = r₀.live ∨ r₁.live = false ∧
        ∃ port giver, x = .ending r₀.id port .settle :: giver) →
      ∃ r' ∈ q.records, r'.id = r.id ∧ r'.port = r.port ∧ (r'.live = r.live ∨
        r'.live = false ∧ ∃ port giver, x = .ending r.id port .settle :: giver) := by
    intro r₀ r₁ hq hr₀ hid hp hl
    by_cases he : r.id = r₀.id
    · obtain rfl := hn.distinct.eq_of_id hr₀ hr he
      exact ⟨r₁, (Pool.mem_put hq hr hid).2 (.inl rfl), hid, hp, hl⟩
    · exact ⟨r, (Pool.mem_put hq hr₀ hid).2 (.inr ⟨hr, he⟩), rfl, rfl, .inl rfl⟩
  cases h with
  | register id port now =>
    refine hsame ?_
    rw [hn.register_records]
    exact List.mem_append_left _ hr
  | publish hr₀ hs =>
    exact hput rfl hr₀ rfl rfl (.inl (Record.live_of_admits_idle hs).symm)
  | deliver block hr₀ hs =>
    exact hput rfl hr₀ rfl rfl (.inl (Record.live_of_admits_idle hs).symm)
  | take block hr₀ _ hs =>
    exact hput rfl hr₀ rfl rfl (.inl (by simp [Record.live, State.terminal, hs]))
  | wake hr₀ => exact hput rfl hr₀ rfl rfl (.inl rfl)
  | rebind block hr₀ _ hs =>
    exact hput rfl hr₀ rfl rfl (.inl (Record.live_of_admits_idle hs).symm)
  | stray hr₀ => exact hput rfl hr₀ rfl rfl (.inl rfl)
  | claim _ hr₀ => exact hput rfl hr₀ rfl rfl (.inl rfl)
  | settle port hr₀ _ => exact hput rfl hr₀ rfl rfl (.inr ⟨rfl, port, _, rfl⟩)
  | park _ hr₀ _ hs =>
    exact hput rfl hr₀ rfl rfl (.inl (by simp [Record.live, State.terminal, hs]))
  | @join r₀ block hr₀ =>
    refine hput rfl hr₀ rfl rfl (.inl ?_)
    by_cases hs : r₀.state = .idle
    · simp [Record.live, State.terminal, hs]
    · simp [Record.live, hs]
  | drop _ hr₀ => exact hput rfl hr₀ rfl rfl (.inl rfl)
  -- all others leave the records as they are
  | _ => exact hsame hr

/-- The same sandboxes have records, or a new one has got its record. -/
theorem records_or (hn : Named ids p (x ++ rest)) (h : Act p x sig q y) :
    q.records.map (·.id) = p.records.map (·.id) ∨
      ∃ id port now, q.records = p.records ++ [.new id port now] := by
  cases h with
  | register id port now => exact .inr ⟨id, port, now, hn.register_records now⟩
  | _ => first | exact .inl rfl | exact .inl (Pool.map_id_put _ _)

/-- A sandbox that is terminated was so before, or its termination settles. -/
theorem ended (hn : Named ids p (x ++ rest)) (h : Act p x sig q y) {r : Record}
    (hr : r ∈ q.records) (hl : r.live = false) :
    ∃ r₀ ∈ p.records, r₀.id = r.id ∧ r₀.port = r.port ∧
      (r₀.live = false ∨ ∃ port giver, x = .ending r₀.id port .settle :: giver) := by
  rcases hn.records_or h with hids | ⟨id, port, now, hnew⟩
  · have hd : q.Distinct := by
      have hdistinct := hn.distinct
      unfold Pool.Distinct at hdistinct ⊢
      rwa [hids]
    have hid : r.id ∈ p.records.map (·.id) := hids ▸ List.mem_map_of_mem hr
    obtain ⟨r₀, hr₀, hid₀⟩ := List.mem_map.1 hid
    obtain ⟨r₁, hr₁, hid₁, hp₁, hlive⟩ := hn.successor h hr₀
    obtain rfl := hd.eq_of_id hr hr₁ (hid₁.trans hid₀)
    refine ⟨r₀, hr₀, hid₀, hp₁.symm, ?_⟩
    rcases hlive with hlive | ⟨-, hend⟩
    · exact .inl (hlive.symm.trans hl)
    · exact .inr hend
  · rw [hnew] at hr
    rcases List.mem_append.1 hr with hr | hr
    · exact ⟨r, hr, rfl, rfl, .inl hl⟩
    · obtain rfl := List.mem_singleton.1 hr
      cases hl

end Named

/-- No new sandbox gets its record unless its container was created. -/
theorem Act.map_id_eq {p q : Pool} {x y : List Hand} {sig : Option Signal} (h : Act p x sig q y)
    (hx : ∀ id port, Hand.made id port ∉ x) : q.records.map (·.id) = p.records.map (·.id) := by
  cases h with
  | register id port => exact absurd (List.mem_singleton_self _) (hx id port)
  | _ => first | rfl | exact Pool.map_id_put _ _

end SandboxPool
