import SandboxPool.Proofs.Pool.Wakes

/-!
# Sandboxes in their first state, and claims to wake

A sandbox stays in its first state only as long as somebody starts it, unless it is doomed
(`Raised`), and no terminated sandbox is claimed to be woken (`Pool.Alert`). Both are true whatever
identities the daemon gives out.
-/

namespace SandboxPool

/-- A sandbox in its first state is doomed, or somebody starts it. -/
def Raised (p : Pool) (l : List Hand) : Prop :=
  ∀ r ∈ p.records, r.state = .starting → p.Doomed r.id ∨ .raising r.id ∈ l

/-- No sandbox that is claimed to be woken is terminated. -/
def Pool.Alert (p : Pool) : Prop :=
  ∀ r ∈ p.records, p.claim? r.id = some .waking → r.live = true

variable {p q : Pool} {l l' x y rest : List Hand} {sig : Option Signal} {r r' : Record} {id : String}

theorem Record.live_of_state {s : State} (h : r.state = s) (hs : s.terminal = false) :
    r.live = true := by
  unfold Record.live
  rw [h, hs]
  rfl

/-- A live sandbox is doomed exactly if it is claimed for its end. -/
theorem Pool.Distinct.doomed_iff (hd : p.Distinct) (hr : r ∈ p.records) :
    p.Doomed r.id ↔ r.live = false ∨ p.claim? r.id = some .terminating := by
  refine ⟨fun ⟨r₀, hr₀, hid, h⟩ => ?_, fun h => ⟨r, hr, rfl, h⟩⟩
  obtain rfl := hd.eq_of_id hr hr₀ hid
  exact h

theorem Pool.Alike.doomed_iff (ha : p.Alike q) : q.Doomed id ↔ p.Doomed id := by
  unfold Pool.Doomed
  rw [ha.records, ha.claim?]

/-! ## Sandboxes that are started -/

namespace Act

/-- A sandbox in its first state was in it before, or is new. -/
theorem starting_or (h : Act p x sig q y) (hr : r ∈ q.records) (hs : r.state = .starting) :
    .raising r.id ∈ y ∨ ∃ r₀ ∈ p.records, r₀.id = r.id ∧ r₀.state = .starting := by
  have hput : ∀ {r₀ r₁ : Record}, q.records = (p.put r₁).records → r₀ ∈ p.records →
      r₁.id = r₀.id → (r₁.state = .starting → r₀.state = .starting) →
      .raising r.id ∈ y ∨ ∃ r₀ ∈ p.records, r₀.id = r.id ∧ r₀.state = .starting := by
    intro r₀ r₁ hq hr₀ hid hstate
    rcases (Pool.mem_put hq hr₀ hid).1 hr with rfl | ⟨hold, -⟩
    · exact .inr ⟨r₀, hr₀, hid.symm, hstate hs⟩
    · exact .inr ⟨r, hold, rfl, hs⟩
  cases h with
  | register id port now =>
    rcases List.mem_append.1 hr with hr | hr
    · exact .inr ⟨r, (List.mem_filter.1 hr).1, rfl, hs⟩
    · obtain rfl := List.mem_singleton.1 hr
      exact .inl (List.mem_singleton_self _)
  | publish hr₀ => exact hput rfl hr₀ rfl fun h => by cases h
  | deliver block hr₀ => exact hput rfl hr₀ rfl fun h => by cases h
  | take block hr₀ => exact hput rfl hr₀ rfl fun h => by cases h
  | wake hr₀ => exact hput rfl hr₀ rfl id
  | rebind block hr₀ => exact hput rfl hr₀ rfl fun h => by cases h
  | stray hr₀ => exact hput rfl hr₀ rfl id
  | claim _ hr₀ => exact hput rfl hr₀ rfl id
  | settle port hr₀ => exact hput rfl hr₀ rfl fun h => by cases h
  | park _ hr₀ => exact hput rfl hr₀ rfl fun h => by cases h
  | @join r₀ block hr₀ =>
    refine hput rfl hr₀ rfl fun h => ?_
    by_cases hidle : r₀.state = .idle
    · simp [hidle] at h
    · simpa [hidle] using h
  | drop _ hr₀ => exact hput rfl hr₀ rfl id
  -- all others leave the records as they are
  | _ => exact .inr ⟨r, hr, rfl, hs⟩

/-- Who goes on to something else has started the sandbox, or it is doomed. -/
theorem raising_or (hd : p.Distinct) (h : Act p x sig q y) (hx : .raising id ∈ x) :
    q.Doomed id ∨ ∀ r ∈ q.records, r.id = id → r.state ≠ .starting := by
  have hgiver : ∀ {id' : String} {giver : List Hand}, Giver id' giver → .raising id ∉ giver := by
    intro id' giver hg
    cases hg <;> simp
  have hput : ∀ {r₀ r₁ : Record}, q.records = (p.put r₁).records → r₀ ∈ p.records →
      r₁.id = r₀.id → id = r₀.id → r₁.state ≠ .starting →
      ∀ r ∈ q.records, r.id = id → r.state ≠ .starting := by
    intro r₀ r₁ hq hr₀ hid hid₀ hstate r hr he
    rcases (Pool.mem_put hq hr₀ hid).1 hr with rfl | ⟨-, hne⟩
    · exact hstate
    · exact absurd (he.trans hid₀) hne
  cases h with
  | publish hr₀ =>
    have hid := List.mem_singleton.1 hx
    exact .inr (hput rfl hr₀ rfl (Hand.raising.inj hid) (by simp))
  | deliver block hr₀ =>
    have hid := List.mem_singleton.1 hx
    exact .inr (hput rfl hr₀ rfl (Hand.raising.inj hid) (by simp))
  | @miss id' hno =>
    obtain rfl := Hand.raising.inj (List.mem_singleton.1 hx)
    refine .inr fun r hr he hs => ?_
    have hadmits := hno r (he ▸ hd.find?_of_mem hr)
    rw [hs] at hadmits
    cases hadmits
  | @decline id' before hb hno =>
    cases hb with
    | spawn =>
      obtain rfl := Hand.raising.inj (List.mem_singleton.1 hx)
      by_cases hf : ∃ r ∈ p.records, r.id = id
      · obtain ⟨r, hr, rfl⟩ := hf
        exact .inl ((hd.doomed_iff hr).2 (hno r (hd.find?_of_mem hr)))
      · exact .inr fun r hr he => absurd ⟨r, hr, he⟩ hf
    | _ => simp at hx
  | @claim r₀ before hb hr₀ hl hc =>
    cases hb with
    | spawn =>
      obtain rfl := Hand.raising.inj (List.mem_singleton.1 hx)
      refine .inl ⟨_, Pool.mem_put_self hr₀ rfl, rfl, .inr ?_⟩
      rw [Pool.claim?_setClaim, if_pos rfl]
    | _ => simp at hx
  | settle port hr₀ hg =>
    rcases hg with rfl | hg
    · simp at hx
    · simp [hgiver hg] at hx
  | vanish port hno hg =>
    rcases hg with rfl | hg
    · simp at hx
    · simp [hgiver hg] at hx
  | resign hg => exact absurd hx (hgiver hg)
  | park hg => exact absurd hx (hgiver hg)
  | drop hg => simp [hgiver hg] at hx
  | skip hg => simp [hgiver hg] at hx
  | _ => simp at hx

end Act

namespace Raised

theorem perm (h : Raised p l) (hp : l.Perm l') : Raised p l' :=
  fun r hr hs => (h r hr hs).imp_right hp.mem_iff.1

theorem alike (h : Raised p l) (ha : p.Alike q) : Raised q l := by
  intro r hr hs
  rw [ha.doomed_iff]
  exact h r (ha.records ▸ hr) hs

theorem act (hd : p.Distinct) (h : Raised p (x ++ rest)) (ha : Act p x sig q y) :
    Raised q (y ++ rest) := by
  intro r hr hs
  rcases ha.starting_or hr hs with hy | ⟨r₀, hr₀, hid, hs₀⟩
  · exact .inr (List.mem_append_left _ hy)
  · rw [← hid]
    rcases h r₀ hr₀ hs₀ with hdoomed | hmem
    · -- a live sandbox is doomed by its claim, which stays as long as it lives
      have hlive : ∀ {z : Record}, z.state = .starting → z.live ≠ false := by
        intro z hz
        rw [Record.live_of_state hz rfl]
        simp
      have hc := ((hd.doomed_iff hr₀).1 hdoomed).resolve_left (hlive hs₀)
      rcases ha.claim_or hc with hclaim | hdead
      · exact .inl ⟨r, hr, hid.symm, .inr hclaim⟩
      · exact absurd (hdead r hr hid.symm) (hlive hs)
    · rcases List.mem_append.1 hmem with hx | hrest
      · rcases ha.raising_or hd hx with hdoomed | hno
        · exact .inl hdoomed
        · exact absurd hs (hno r hr hid.symm)
      · exact .inr (List.mem_append_right _ hrest)

theorem moves {p' : Pool} (hd : p.Distinct) (h : Raised p l) (hm : Moves p l sig p' l') :
    Raised p' l' := by
  obtain ⟨x, y, rest, q, hb, ha, hact, hq⟩ := hm
  exact (((h.perm hb).act hd hact).alike hq).perm ha.symm

end Raised

/-! ## Claims to wake -/

/-- A claim to wake is given up before its sandbox is terminated. -/
theorem Pool.Alert.act (h : p.Alert) (ha : Act p x sig q y) : q.Alert := by
  intro r hr hc
  have hput : ∀ {r₀ r₁ : Record}, q.records = (p.put r₁).records → r₀ ∈ p.records →
      r₁.id = r₀.id → (q.claim? r₀.id = some .waking → r₁.live = true) →
      (r.id ≠ r₀.id → q.claim? r.id = p.claim? r.id) → r.live = true := by
    intro r₀ r₁ hq hr₀ hid hnew hold
    rcases (Pool.mem_put hq hr₀ hid).1 hr with rfl | ⟨hr', hne⟩
    · exact hnew (hid ▸ hc)
    · exact h r hr' (hold hne ▸ hc)
  have hdropped : ∀ {id : String} {r : Record}, (p.dropClaim id).claim? id = some .waking →
      r.live = true := by
    intro id r hc
    rw [Pool.claim?_dropClaim, if_pos rfl] at hc
    cases hc
  have hother : ∀ {id id' : String}, id' ≠ id → (p.dropClaim id).claim? id' = p.claim? id' := by
    intro id id' hne
    rw [Pool.claim?_dropClaim, if_neg hne]
  have hset : ∀ {r₁ : Record} {id id' : String} {c : Claim}, id' ≠ id →
      ((p.put r₁).setClaim id c).claim? id' = p.claim? id' := by
    intro r₁ id id' c hne
    rw [Pool.claim?_setClaim, if_neg hne]
    rfl
  have hdrop : ∀ {id : String}, r ∈ p.records → (p.dropClaim id).claim? r.id = some .waking →
      r.live = true := by
    intro id hr hc
    rw [Pool.claim?_dropClaim] at hc
    split at hc
    · cases hc
    · exact h r hr hc
  cases ha with
  | register id port now =>
    rcases List.mem_append.1 hr with hr | hr
    · exact h r (List.mem_filter.1 hr).1 hc
    · obtain rfl := List.mem_singleton.1 hr
      rfl
  | publish hr₀ => exact hput rfl hr₀ rfl (fun _ => rfl) fun _ => rfl
  | deliver block hr₀ => exact hput rfl hr₀ rfl (fun _ => rfl) fun _ => rfl
  | take block hr₀ => exact hput rfl hr₀ rfl (fun _ => rfl) fun _ => rfl
  | wake hr₀ _ hs =>
    exact hput rfl hr₀ rfl (fun _ => Record.live_of_state (s := .dormant) hs rfl) hset
  | rebind block hr₀ => exact hput rfl hr₀ rfl (fun _ => rfl) hother
  | stray hr₀ => exact hput rfl hr₀ rfl hdropped hother
  | claim _ hr₀ hl => exact hput rfl hr₀ rfl (fun _ => hl) hset
  | settle port hr₀ => exact hput rfl hr₀ rfl hdropped hother
  | park _ hr₀ => exact hput rfl hr₀ rfl (fun _ => rfl) fun _ => rfl
  | @join r₀ block hr₀ =>
    refine hput rfl hr₀ rfl (fun hc => ?_) fun _ => rfl
    have hl := h r₀ hr₀ hc
    by_cases hs : r₀.state = .idle
    · simp [Record.live, State.terminal, hs]
    · simpa [Record.live, hs] using hl
  | drop _ hr₀ => exact hput rfl hr₀ rfl (h _ hr₀) fun _ => rfl
  | lose => exact hdrop hr hc
  | vanish => exact hdrop hr hc
  -- all others leave records and claims as they are
  | _ => exact h r hr hc

theorem Pool.Alert.moves {p' : Pool} (h : p.Alert) (hm : Moves p l sig p' l') : p'.Alert := by
  obtain ⟨x, y, rest, q, -, -, hact, hq⟩ := hm
  intro r hr hc
  rw [hq.records] at hr
  rw [hq.claim?] at hc
  exact h.act hact r hr hc

end SandboxPool
