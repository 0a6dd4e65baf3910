import SandboxPool.Proofs.Pool.Passages
import SandboxPool.Proofs.Pool.Users

/-!
# Counts of blocks that share a sandbox

Where blocks share a sandbox, its record counts them. `Pool.Counted` says that no record counts more
blocks than use the sandbox; `Pool.Tallied` says that it counts all of them, that it has a block exactly
if it counts any, and that it runs then unless the sandbox is doomed.

A turn that is one of `Pool.Shares` for the process that takes it, and a `Leaf.Passes` for its leaf,
keeps the tally (`Pool.Tallied.turn`). Neither of the two is enough: the one does not say what becomes of
the states, and the other not who uses the sandbox.
-/

namespace SandboxPool

namespace Pool

variable {p q : Pool} {l : Leaf} {e : List Event} {r r' : Record} {o o' : Option String}
  {users users' rest : List String}

/-- All that use a sandbox are counted by its record, as long as it is live. -/
structure Tallied (p : Pool) (users : List String) : Prop where
  recorded : ∀ id ∈ users, ∃ r ∈ p.records, r.id = id
  counts : ∀ r ∈ p.records, r.live = true →
    r.binders = users.count r.id ∧ (r.block.isSome = true ↔ 0 < r.binders)
  running : ∀ r ∈ p.records, 0 < r.binders → r.state = .running ∨ p.Doomed r.id

namespace Tallied

theorem perm (h : p.Tallied users) (hu : users.Perm users') : p.Tallied users' := by
  refine ⟨fun id hid => h.recorded id (hu.mem_iff.2 hid), fun r hr hl => ?_, h.running⟩
  rw [← hu.count_eq]
  exact h.counts r hr hl

/-- A sandbox without a record has no users. -/
theorem count_eq_zero {id : String} (h : p.Tallied users) (hno : ∀ r ∈ p.records, r.id ≠ id) :
    users.count id = 0 := by
  refine List.count_eq_zero.2 fun hid => ?_
  obtain ⟨r, hr, he⟩ := h.recorded id hid
  exact hno r hr he

end Tallied

/-! ## What becomes of a record -/

/-- A new sandbox gets its record behind those that there are. -/
theorem insert_new_records {id : String} (hnew : ∀ r ∈ p.records, r.id ≠ id) (port : UInt16)
    (now : Instant) : (p.unreserve.insert (.new id port now)).records
      = p.records ++ [.new id port now] := insert_records hnew

/-- A sandbox keeps its record. -/
theorem recorded_of_passes (hnew : ∀ id, l.enters? = some id → ∀ r ∈ p.records, r.id ≠ id)
    (h : l.Passes p q e) (hr : r ∈ p.records) : ∃ r' ∈ q.records, r'.id = r.id := by
  cases h with
  | still hq => exact ⟨r, hq ▸ hr, rfl⟩
  | enters hl port now =>
    refine ⟨r, ?_, rfl⟩
    rw [insert_new_records (hnew _ hl)]
    exact List.mem_append_left _ hr
  | @passes _ _ r₀ r' hr₀ hq hpassage =>
    by_cases hid : r.id = r₀.id
    · exact ⟨r', (mem_put hq hr₀ hpassage.id_eq).2 (.inl rfl), hpassage.id_eq.trans hid.symm⟩
    · exact ⟨r, (mem_put hq hr₀ hpassage.id_eq).2 (.inr ⟨hr, hid⟩), rfl⟩

/-- A sandbox that blocks share runs behind a turn, too, unless it is doomed. -/
theorem running_of_passes (hpark : ∀ id, l ≠ .release id .park)
    (hjoin : ∀ id, l.joins? = some id → ∀ r ∈ p.records, r.id = id →
      p.Doomed r.id ∨ r.state = .idle ∨ r.state = .running)
    (hrun : ∀ r ∈ p.records, 0 < r.binders → r.state = .running ∨ p.Doomed r.id)
    (hd : ∀ id, p.Doomed id → q.Doomed id) (h : l.Passes p q e) :
    ∀ r ∈ q.records, 0 < r.binders → r.state = .running ∨ q.Doomed r.id := by
  intro r hr hpos
  have hold : r ∈ p.records → r.state = .running ∨ q.Doomed r.id := fun hr =>
    (hrun r hr hpos).imp_right (hd _)
  cases h with
  | still hq => exact hold (hq ▸ hr)
  | enters hl port now =>
    rcases List.mem_append.1 hr with hr | hr
    · exact hold (List.mem_filter.1 hr).1
    · obtain rfl := List.mem_singleton.1 hr
      exact absurd hpos (Nat.lt_irrefl 0)
  | @passes _ _ r₀ r' hr₀ hq hpassage =>
    rcases (mem_put hq hr₀ hpassage.id_eq).1 hr with rfl | ⟨hr, -⟩
    · cases hpassage with
      | keep hid hs hb hn =>
        rw [hid, hs]
        exact (hrun r₀ hr₀ (hn ▸ hpos)).imp_right (hd _)
      | publish ha =>
        rcases hrun r₀ hr₀ hpos with hs | hdoomed
        · rw [hs] at ha
          cases ha
        · exact .inr (hd _ hdoomed)
      | bind _ _ _ hs => exact .inl hs
      | take _ _ _ hs => exact .inl hs
      | park hl => exact absurd hl (hpark _)
      | settle _ _ _ _ hn => exact absurd (hn ▸ hpos) (Nat.lt_irrefl 0)
      | enter => exact .inl rfl
      | join hl hi block =>
        rcases hjoin _ hl r₀ hr₀ rfl with hdoomed | hs | hs
        · exact .inr (hd _ hdoomed)
        · exact absurd hs hi
        · exact .inl hs
      | drop hl hlive =>
        have hbinders : 0 < r₀.binders - 1 := hpos
        exact (hrun r₀ hr₀ (by omega)).imp_right (hd _)
    · exact hold hr

/-- In a turn in which nobody gets a sandbox or gives one back, the counts stay right. -/
theorem Tallied.counts_level (h : p.Tallied users) (hdistinct : p.Distinct)
    (hbusy : ∀ r ∈ p.records, r.busy = (p.claim? r.id).isSome)
    (hnew : ∀ id, l.enters? = some id → ∀ r ∈ p.records, r.id ≠ id) (hlevel : p.Level q)
    (hp : l.Passes p q e) : ∀ r ∈ q.records, r.live = true →
      r.binders = users.count r.id ∧ (r.block.isSome = true ↔ 0 < r.binders) := by
  intro r hr hl
  cases hp with
  | still hq => exact h.counts r (hq ▸ hr) hl
  | enters he port now =>
    rw [insert_new_records (hnew _ he)] at hr
    rcases List.mem_append.1 hr with hr | hr
    · exact h.counts r hr hl
    · obtain rfl := List.mem_singleton.1 hr
      exact ⟨(h.count_eq_zero (hnew _ he)).symm, by simp [Record.new]⟩
  | @passes _ _ r₀ r' hr₀ hq hpassage =>
    rcases (mem_put hq hr₀ hpassage.id_eq).1 hr with rfl | ⟨hr, -⟩
    · rcases hlevel.counted r hr hl with hrnew | ⟨r₁, hr₁, hid, hl₁, hn, hb⟩
      · -- a record like a new one is no other than before, unless the last block has left it
        have hzero : r.binders = 0 := by
          rw [hrnew]
          rfl
        have hnone : r.block = none := by
          rw [hrnew]
          rfl
        have hstarting : r.state = .starting := by
          rw [hrnew]
          rfl
        have hfree : r.busy = false := by
          rw [hrnew]
          rfl
        have hcount : r₀.live = true → r₀.binders = 0 →
            r.binders = users.count r.id ∧ (r.block.isSome = true ↔ 0 < r.binders) := by
          intro hl₀ hn₀
          rw [hzero, hnone, hpassage.id_eq, ← (h.counts r₀ hr₀ hl₀).1]
          exact ⟨hn₀.symm, by simp⟩
        cases hpassage with
        | keep hid hs hb hn =>
          exact hcount (Record.live_of_state (hs.symm.trans hstarting) rfl) (hn.symm.trans hzero)
        | publish => cases hstarting
        | bind _ _ _ hs => rw [hs] at hstarting; cases hstarting
        | take _ _ _ hs => rw [hs] at hstarting; cases hstarting
        | park _ _ _ hs => rw [hs] at hstarting; cases hstarting
        | settle _ _ hs => rw [hs] at hstarting; cases hstarting
        | enter => cases hstarting
        | join => cases hzero
        | drop hdrops hl₀ =>
          have hstate : r₀.state = .starting := hstarting
          have hbusy₀ : r₀.busy = false := hfree
          refine hcount hl₀ (Nat.eq_zero_of_not_pos fun hpos => ?_)
          -- a block that shared the sandbox kept it running, as long as nobody had claimed it
          rcases h.running r₀ hr₀ hpos with hs | hdoomed
          · rw [hs] at hstate
            cases hstate
          · rcases (hdistinct.doomed_iff hr₀).1 hdoomed with hdead | hclaim
            · rw [hl₀] at hdead
              cases hdead
            · rw [hbusy r₀ hr₀, hclaim] at hbusy₀
              cases hbusy₀
      · obtain rfl := hdistinct.eq_of_id hr₀ hr₁ (hid.trans hpassage.id_eq)
        rw [← hn, ← hb, ← hid]
        exact h.counts r₁ hr₁ hl₁
    · exact h.counts r hr hl

/-- **The tally is right behind the turn of one process, too.** -/
theorem Tallied.turn (h : p.Tallied (o.toList ++ rest)) (hdistinct : p.Distinct)
    (hbusy : ∀ r ∈ p.records, r.busy = (p.claim? r.id).isSome)
    (hd : ∀ id, p.Doomed id → q.Doomed id)
    (hnew : ∀ id, l.enters? = some id → ∀ r ∈ p.records, r.id ≠ id)
    (hpark : ∀ id, l ≠ .release id .park)
    (hjoin : ∀ id, l.joins? = some id → ∀ r ∈ p.records, r.id = id →
      p.Doomed r.id ∨ r.state = .idle ∨ r.state = .running)
    (hs : p.Shares o q o') (hp : l.Passes p q e) : q.Tallied (o'.toList ++ rest) := by
  have hrun := running_of_passes hpark hjoin h.running hd hp
  have hkeeps : ∀ {id : String}, (∃ r ∈ p.records, r.id = id) → ∃ r ∈ q.records, r.id = id := by
    rintro id ⟨r, hr, rfl⟩
    exact recorded_of_passes hnew hp hr
  cases hs with
  | level hlevel =>
    exact ⟨fun id hid => hkeeps (h.recorded id hid),
      h.counts_level hdistinct hbusy hnew hlevel hp, hrun⟩
  | @join r₀ _ hr₀ block hq =>
    refine ⟨fun id hid => ?_, fun r hr hl => ?_, hrun⟩
    · rcases List.mem_cons.1 hid with rfl | hid
      · exact hkeeps ⟨r₀, hr₀, rfl⟩
      · exact hkeeps (h.recorded id hid)
    · have hone : ((some r₀.id).toList ++ rest).count r.id
          = rest.count r.id + if r₀.id = r.id then 1 else 0 := by
        simp [List.count_cons]
      rw [hone]
      rcases (mem_put hq hr₀ rfl).1 hr with rfl | ⟨hold, hne⟩
      · have hl₀ : r₀.live = true := by
          by_cases hi : r₀.state = .idle
          · exact Record.live_of_state hi rfl
          · simpa [Record.live, hi] using hl
        obtain ⟨hcount, -⟩ := h.counts r₀ hr₀ hl₀
        rw [if_pos rfl]
        exact ⟨congrArg (· + 1) hcount, by simp⟩
      · rw [if_neg (Ne.symm hne)]
        exact h.counts r hold hl
  | @drop r₀ _ hr₀ hl₀ hq =>
    refine ⟨fun id hid => hkeeps (h.recorded id (List.mem_cons_of_mem _ hid)), fun r hr hl => ?_, hrun⟩
    rcases (mem_put hq hr₀ rfl).1 hr with rfl | ⟨hold, hne⟩
    · obtain ⟨hcount, hblock⟩ := h.counts r₀ hr₀ hl₀
      have hone : ((some r₀.id).toList ++ rest).count r₀.id = rest.count r₀.id + 1 := by simp
      rw [hone] at hcount
      have hleft : r₀.binders - 1 = rest.count r₀.id := by omega
      refine ⟨hleft, ?_⟩
      by_cases hzero : r₀.binders - 1 = 0
      · simp [hzero]
      · have hsome : r₀.block.isSome = true := hblock.2 (by omega)
        simp [hzero, hsome, Nat.pos_of_ne_zero hzero]
    · have hsame : ((some r₀.id).toList ++ rest).count r.id = rest.count r.id := by
        simp [Ne.symm hne]
      have hcounts := h.counts r hold hl
      rwa [hsame] at hcounts
  | @gone id hgone =>
    refine ⟨fun id hid => h.recorded id (List.mem_cons_of_mem _ hid), fun r hr hl => ?_, hrun⟩
    have hne : r.id ≠ id := by
      intro he
      rw [hgone r hr he] at hl
      cases hl
    have hsame : ((some id).toList ++ rest).count r.id = rest.count r.id := by
      simp [Ne.symm hne]
    have hcounts := h.counts r hr hl
    rwa [hsame] at hcounts

end Pool

end SandboxPool
