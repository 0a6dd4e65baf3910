import SandboxPool.Proofs.Pool.FirstStates

/-!
# Sandboxes in use

Whoever has got a sandbox for a block uses it until it is given back. Where every block has a sandbox
of its own, a sandbox that runs is in use unless it is doomed (`Pool.Rested`). Where blocks share one,
its record counts no more blocks than use it (`Pool.Counted`).

`Pool.Rests` and `Pool.Shares` say what a turn of one process may do about that, where `o` is the
sandbox that the process uses before the turn, and `o'` the one that it uses behind it. An act in which
nobody gets a sandbox or gives one back is one of both kinds (`Act.level`). `Pool.Accounted` and
`Pool.Passes` choose among them by the model of a pool.
-/

namespace SandboxPool

variable {p p' q : Pool} {x y before after : List Hand} {sig : Option Signal} {r r' : Record}
  {id : String} {o o' : Option String} {rest users users' : List String}

/-! ## Acts that leave sandboxes in use alone -/

/-- The thing is a sandbox that somebody uses. -/
def Hand.uses : Hand → Bool
  | holding .. | returning _ => true
  | _ => false

/-- Nobody gets a sandbox and nobody gives one back: no other sandboxes run, and every live record
counts the same blocks as before, or is new. -/
structure Pool.Level (p q : Pool) : Prop where
  running : ∀ r ∈ q.records, r.state = .running →
    ∃ r₀ ∈ p.records, r₀.id = r.id ∧ r₀.state = .running
  counted : ∀ r ∈ q.records, r.live = true → r = .new r.id r.port r.createdAt ∨
    ∃ r₀ ∈ p.records, r₀.id = r.id ∧ r₀.live = true ∧ r₀.binders = r.binders ∧ r₀.block = r.block

theorem Pool.level_of_records (h : q.records = p.records) : p.Level q := by
  refine ⟨fun r hr hs => ?_, fun r hr hl => .inr ?_⟩
  · rw [h] at hr
    exact ⟨r, hr, rfl, hs⟩
  · rw [h] at hr
    exact ⟨r, hr, rfl, hl, rfl, rfl⟩

theorem Pool.Level.refl (p : Pool) : p.Level p := level_of_records rfl

theorem Giver.uses {giver : List Hand} (h : Giver id giver) : ∃ t ∈ giver, t.uses = true := by
  cases h with
  | block block => exact ⟨_, List.mem_singleton_self _, rfl⟩
  | caller => exact ⟨_, List.mem_singleton_self _, rfl⟩

namespace Act

/-- A sandbox that runs behind an act ran before it, or somebody has just got it. -/
theorem running_or (h : Act p x sig q y) (hr : r ∈ q.records) (hs : r.state = .running) :
    (∃ block, .holding r.id block ∈ y) ∨
      ∃ r₀ ∈ p.records, r₀.id = r.id ∧ r₀.state = .running := by
  have hput : ∀ {r₀ r₁ : Record}, q.records = (p.put r₁).records → r₀ ∈ p.records →
      r₁.id = r₀.id → (r₁.state = .running →
        (∃ block, .holding r₀.id block ∈ y) ∨ r₀.state = .running) →
      (∃ block, .holding r.id block ∈ y) ∨
        ∃ r₀ ∈ p.records, r₀.id = r.id ∧ r₀.state = .running := by
    intro r₀ r₁ hq hr₀ hid hstate
    rcases (Pool.mem_put hq hr₀ hid).1 hr with rfl | ⟨hold, -⟩
    · rw [hid]
      exact (hstate hs).imp_right fun hrun => ⟨r₀, hr₀, rfl, hrun⟩
    · exact .inr ⟨r, hold, rfl, hs⟩
  cases h with
  | register id port now =>
    rcases List.mem_append.1 hr with hr | hr
    · exact .inr ⟨r, (List.mem_filter.1 hr).1, rfl, hs⟩
    · obtain rfl := List.mem_singleton.1 hr
      cases hs
  | publish hr₀ => exact hput rfl hr₀ rfl fun h => by cases h
  | deliver block hr₀ => exact hput rfl hr₀ rfl fun _ => .inl ⟨block, List.mem_singleton_self _⟩
  | take block hr₀ => exact hput rfl hr₀ rfl fun _ => .inl ⟨block, List.mem_singleton_self _⟩
  | wake hr₀ => exact hput rfl hr₀ rfl .inr
  | rebind block hr₀ => exact hput rfl hr₀ rfl fun _ => .inl ⟨block, List.mem_singleton_self _⟩
  | stray hr₀ => exact hput rfl hr₀ rfl .inr
  | claim _ hr₀ => exact hput rfl hr₀ rfl .inr
  | settle port hr₀ => exact hput rfl hr₀ rfl fun h => by cases h
  | park _ hr₀ => exact hput rfl hr₀ rfl fun h => by cases h
  | join block hr₀ => exact hput rfl hr₀ rfl fun _ => .inl ⟨block, List.mem_singleton_self _⟩
  | drop _ hr₀ => exact hput rfl hr₀ rfl .inr
  -- all others leave the records as they are
  | _ => exact .inr ⟨r, hr, rfl, hs⟩

/-- **Where nobody gets a sandbox or gives one back, no other sandboxes run, and no other blocks are
counted.** -/
theorem level (h : Act p x sig q y) (hx : ∀ t ∈ x, t.uses = false) (hy : ∀ t ∈ y, t.uses = false) :
    p.Level q := by
  have hgiver : ∀ {id : String} {giver : List Hand}, Giver id giver → ¬ ∀ t ∈ giver, t.uses = false := by
    intro id giver hg hall
    obtain ⟨t, ht, huses⟩ := hg.uses
    rw [hall t ht] at huses
    cases huses
  have hnew : ∀ {id block : String}, .holding id block ∉ y := fun hm => by cases hy _ hm
  refine ⟨fun r hr hs => (h.running_or hr hs).resolve_left fun ⟨_, hm⟩ => hnew hm, fun r hr hl => ?_⟩
  have hput : ∀ {r₀ r₁ : Record}, q.records = (p.put r₁).records → r₀ ∈ p.records →
      r₁.id = r₀.id → (r₁.live = true →
        r₀.live = true ∧ r₀.binders = r₁.binders ∧ r₀.block = r₁.block) →
      r = .new r.id r.port r.createdAt ∨ ∃ r₀ ∈ p.records,
        r₀.id = r.id ∧ r₀.live = true ∧ r₀.binders = r.binders ∧ r₀.block = r.block := by
    intro r₀ r₁ hq hr₀ hid hsame
    rcases (Pool.mem_put hq hr₀ hid).1 hr with rfl | ⟨hold, -⟩
    · exact .inr ⟨r₀, hr₀, hid.symm, hsame hl⟩
    · exact .inr ⟨r, hold, rfl, hl, rfl, rfl⟩
  cases h with
  | register id port now =>
    rcases List.mem_append.1 hr with hr | hr
    · exact .inr ⟨r, (List.mem_filter.1 hr).1, rfl, hl, rfl, rfl⟩
    · obtain rfl := List.mem_singleton.1 hr
      exact .inl rfl
  | publish hr₀ hs =>
    exact hput rfl hr₀ rfl fun _ => ⟨Record.live_of_admits_idle hs, rfl, rfl⟩
  | wake hr₀ => exact hput rfl hr₀ rfl fun h => ⟨h, rfl, rfl⟩
  | stray hr₀ => exact hput rfl hr₀ rfl fun h => ⟨h, rfl, rfl⟩
  | claim _ hr₀ => exact hput rfl hr₀ rfl fun h => ⟨h, rfl, rfl⟩
  | settle port hr₀ => exact hput rfl hr₀ rfl fun h => by cases h
  | deliver => exact absurd (List.mem_singleton_self _) hnew
  | take => exact absurd (List.mem_singleton_self _) hnew
  | rebind => exact absurd (List.mem_singleton_self _) hnew
  | join => exact absurd (List.mem_singleton_self _) hnew
  | park hg => exact absurd hx (hgiver hg)
  | drop hg => exact absurd (fun t ht => hx t (List.mem_cons_of_mem _ ht)) (hgiver hg)
  -- all others leave the records as they are
  | _ => exact .inr ⟨r, hr, rfl, hl, rfl, rfl⟩

end Act

theorem Pool.Level.alike (h : p.Level q) (ha : q.Alike p') : p.Level p' := by
  refine ⟨fun r hr => ?_, fun r hr => ?_⟩
  · rw [ha.records] at hr
    exact h.running r hr
  · rw [ha.records] at hr
    exact h.counted r hr

namespace Moves

theorem running_or (h : Moves p before sig p' after) (hr : r ∈ p'.records)
    (hs : r.state = .running) : (∃ block, .holding r.id block ∈ after) ∨
      ∃ r₀ ∈ p.records, r₀.id = r.id ∧ r₀.state = .running := by
  obtain ⟨x, y, rest, q, -, ha, hact, hq⟩ := h
  rw [hq.records] at hr
  refine (hact.running_or hr hs).imp_left fun ⟨block, hm⟩ => ⟨block, ?_⟩
  exact ha.mem_iff.2 (List.mem_append_left _ hm)

theorem level (h : Moves p before sig p' after) (hb : ∀ t ∈ before, t.uses = false)
    (ha : ∀ t ∈ after, t.uses = false) : p.Level p' := by
  obtain ⟨x, y, rest, q, hbefore, hafter, hact, hq⟩ := h
  refine (hact.level (fun t ht => ?_) fun t ht => ?_).alike hq
  · exact hb t (hbefore.mem_iff.2 (List.mem_append_left _ ht))
  · exact ha t (hafter.mem_iff.2 (List.mem_append_left _ ht))

end Moves

/-! ## A sandbox for each block -/

namespace Pool

/-- What a turn of a process may do where every block has a sandbox of its own: a sandbox that runs
behind the turn ran before it, or the process has just got it; and one that the process has given back
does not run any more, or is doomed. -/
structure Rests (p : Pool) (o : Option String) (q : Pool) (o' : Option String) : Prop where
  running : ∀ r ∈ q.records, r.state = .running →
    o' = some r.id ∨ ∃ r₀ ∈ p.records, r₀.id = r.id ∧ r₀.state = .running
  left : ∀ r ∈ q.records, r.state = .running → o = some r.id → o' = some r.id ∨ q.Doomed r.id

theorem Level.rests (h : p.Level q) (o : Option String) : p.Rests o q o :=
  ⟨fun r hr hs => .inr (h.running r hr hs), fun _ _ _ ho => .inl ho⟩

/-- Nobody uses a sandbox any more that does not run, or is doomed. -/
theorem Level.rests_none (h : p.Level q)
    (hend : ∀ r ∈ q.records, r.state = .running → r.id = id → q.Doomed id) :
    p.Rests (some id) q none := by
  refine ⟨fun r hr hs => .inr (h.running r hr hs), fun r hr hs he => .inr ?_⟩
  obtain rfl := Option.some.inj he
  exact hend r hr hs rfl

/-- Every sandbox that runs is doomed, or somebody uses it. -/
def Rested (p : Pool) (users : List String) : Prop :=
  ∀ r ∈ p.records, r.state = .running → p.Doomed r.id ∨ r.id ∈ users

theorem Rested.perm (h : p.Rested users) (hu : users.Perm users') : p.Rested users' :=
  fun r hr hs => (h r hr hs).imp_right hu.mem_iff.1

/-- The sandboxes that run are in use behind the turn of one process, too. -/
theorem Rested.turn (h : p.Rested (o.toList ++ rest)) (hd : ∀ id, p.Doomed id → q.Doomed id)
    (ht : p.Rests o q o') : q.Rested (o'.toList ++ rest) := by
  have huses : ∀ {id : String}, o' = some id → id ∈ o'.toList ++ rest := by
    rintro id rfl
    exact List.mem_append_left _ (List.mem_singleton_self _)
  intro r hr hs
  rcases ht.running r hr hs with ho' | ⟨r₀, hr₀, hid, hs₀⟩
  · exact .inr (huses ho')
  · rw [← hid]
    rcases h r₀ hr₀ hs₀ with hdoomed | hmem
    · exact .inl (hd _ hdoomed)
    · rcases List.mem_append.1 hmem with ho | hrest
      · rw [hid] at ho ⊢
        exact (ht.left r hr hs (Option.mem_toList.1 ho)).symm.imp_right huses
      · exact .inr (List.mem_append_right _ hrest)

/-! ## One sandbox for all blocks -/

/-- What a turn of a process may do where blocks share a sandbox: leave the counts as they are, join a
sandbox, or leave one that may have gone meanwhile. -/
inductive Shares (p : Pool) : Option String → Pool → Option String → Prop where
  | level {o : Option String} {q : Pool} (h : p.Level q) : Shares p o q o
  | join {r : Record} {q : Pool} (hr : r ∈ p.records) (block : String)
      (hq : q.records = (p.put { r with
        block := some block, binders := r.binders + 1,
        state := if r.state = .idle then .running else r.state }).records) :
      Shares p none q (some r.id)
  | drop {r : Record} {q : Pool} (hr : r ∈ p.records) (hl : r.live = true)
      (hq : q.records = (p.put { r with
        binders := r.binders - 1, block := if r.binders - 1 = 0 then none else r.block }).records) :
      Shares p (some r.id) q none
  | gone {id : String} (h : ∀ r ∈ p.records, r.id = id → r.live = false) : Shares p (some id) p none

/-- No live record counts more blocks than use the sandbox, and one that counts none has no block. -/
def Counted (p : Pool) (users : List String) : Prop :=
  ∀ r ∈ p.records, r.live = true →
    r.binders ≤ users.count r.id ∧ (r.binders = 0 → r.block = none)

theorem Counted.perm (h : p.Counted users) (hu : users.Perm users') : p.Counted users' := by
  intro r hr hl
  rw [← hu.count_eq]
  exact h r hr hl

/-- The counts are right behind the turn of one process, too. -/
theorem Counted.turn (h : p.Counted (o.toList ++ rest)) (ht : p.Shares o q o') :
    q.Counted (o'.toList ++ rest) := by
  intro r hr hl
  cases ht with
  | level hlevel =>
    rcases hlevel.counted r hr hl with hnew | ⟨r₀, hr₀, hid, hl₀, hbinders, hblock⟩
    · rw [hnew]
      exact ⟨Nat.zero_le _, fun _ => rfl⟩
    · rw [← hid, ← hbinders, ← hblock]
      exact h r₀ hr₀ hl₀
  | @join r₀ _ hr₀ block hq =>
    have hone : ((some r₀.id).toList ++ rest).count r.id
        = rest.count r.id + if r₀.id = r.id then 1 else 0 := by
      simp [List.count_cons]
    rw [hone]
    rcases (mem_put hq hr₀ rfl).1 hr with rfl | ⟨hold, hne⟩
    · have hl₀ : r₀.live = true := by
        by_cases hs : r₀.state = .idle
        · exact Record.live_of_state hs rfl
        · simpa [Record.live, hs] using hl
      obtain ⟨hle, -⟩ := h r₀ hr₀ hl₀
      have hle' : r₀.binders ≤ rest.count r₀.id := hle
      rw [if_pos rfl]
      exact ⟨Nat.add_le_add_right hle' 1, fun hzero => absurd hzero (Nat.succ_ne_zero _)⟩
    · rw [if_neg (Ne.symm hne)]
      exact h r hold hl
  | @drop r₀ _ hr₀ hl₀ hq =>
    rcases (mem_put hq hr₀ rfl).1 hr with rfl | ⟨hold, hne⟩
    · obtain ⟨hle, -⟩ := h r₀ hr₀ hl₀
      have hone : ((some r₀.id).toList ++ rest).count r₀.id = rest.count r₀.id + 1 := by
        simp
      rw [hone] at hle
      exact ⟨Nat.sub_le_of_le_add hle, fun hzero => if_pos hzero⟩
    · have hsame : ((some r₀.id).toList ++ rest).count r.id = rest.count r.id := by
        simp [Ne.symm hne]
      have hold' := h r hold hl
      rwa [hsame] at hold'
  | @gone id hgone =>
    have hne : r.id ≠ id := by
      intro he
      rw [hgone r hr he] at hl
      cases hl
    have hsame : ((some id).toList ++ rest).count r.id = rest.count r.id := by
      simp [Ne.symm hne]
    have hold := h r hr hl
    rwa [hsame] at hold

/-! ## Both models -/

/-- What a turn of a process may do in a model. -/
def Passes : (model : Parallelism) → Pool → Option String → Pool → Option String → Prop
  | .multi => Rests
  | .single => Shares

/-- All sandboxes in use are known, in a model. -/
def Accounted : (model : Parallelism) → Pool → List String → Prop
  | .multi => Rested
  | .single => Counted

variable {model : Parallelism}

theorem Level.passes (h : p.Level q) (o : Option String) : Passes model p o q o := by
  cases model with
  | multi => exact h.rests o
  | single => exact .level h

theorem Accounted.perm (h : Accounted model p users) (hu : users.Perm users') :
    Accounted model p users' := by
  cases model with
  | multi => exact Rested.perm h hu
  | single => exact Counted.perm h hu

/-- The sandboxes in use are known behind the turn of one process, too. -/
theorem Accounted.turn (h : Accounted model p (o.toList ++ rest))
    (hd : ∀ id, p.Doomed id → q.Doomed id) (ht : Passes model p o q o') :
    Accounted model q (o'.toList ++ rest) := by
  cases model with
  | multi => exact Rested.turn h hd ht
  | single => exact Counted.turn h ht

/-- They are known when nobody gets a sandbox or gives one back. -/
theorem Accounted.level (h : Accounted model p users) (hd : ∀ id, p.Doomed id → q.Doomed id)
    (hl : p.Level q) : Accounted model q users := by
  have hnone : Accounted model p ((none : Option String).toList ++ users) := h
  exact hnone.turn hd (hl.passes none)

end Pool

end SandboxPool
