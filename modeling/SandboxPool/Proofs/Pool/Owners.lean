import SandboxPool.Proofs.Pool.Identities
import Mathlib.Data.List.Perm.Subperm

/-!
# Sandboxes and the blocks that run in them

Where every block has a sandbox of its own, a sandbox is held for one block at most, and as long as
it is not terminated its record runs that block (`Owned`).

A release keeps the sandbox until its last scope, so that a pause that takes its time does not let
anybody else in: only then is the record paused, and nobody takes a sandbox that runs.
-/

namespace SandboxPool

/-- Sandboxes that are held, each with its block. -/
structure Owned (p : Pool) (held : List (String × String)) : Prop where
  nodup : (held.map (·.1)).Nodup
  record : ∀ x ∈ held, ∃ r ∈ p.records, r.id = x.1 ∧
    (r.state = .running ∧ r.block = some x.2 ∨ r.live = false)

namespace Owned

variable {ids : List String} {p q : Pool} {held held' : List (String × String)} {x y : List Hand}
  {sig : Option Signal} {r r' : Record} {id block : String}

theorem alike (h : Owned p held) (ha : p.Alike q) : Owned q held := by
  refine ⟨h.nodup, ?_⟩
  rw [ha.records]
  exact h.record

/-- Some of the holders may be left out. -/
theorem subperm (h : Owned p held) (hs : held'.Subperm held) : Owned p held' := by
  refine ⟨?_, fun x hx => h.record x (hs.subset hx)⟩
  obtain ⟨l, hl, hsub⟩ := hs
  exact (hl.map (·.1)).nodup_iff.1 (h.nodup.sublist (hsub.map (·.1)))

theorem perm (h : Owned p held) (hp : held.Perm held') : Owned p held' := h.subperm hp.symm.subperm

/-- Records keep their state and their block, or end. -/
theorem keep (h : Owned p held)
    (hk : ∀ r ∈ p.records, ∃ r' ∈ q.records, r'.id = r.id ∧
      (r'.state = r.state ∧ r'.block = r.block ∨ r'.live = false)) : Owned q held := by
  refine ⟨h.nodup, fun x hx => ?_⟩
  obtain ⟨r, hr, hid, hrun⟩ := h.record x hx
  obtain ⟨r', hr', hid', ⟨hs, hb⟩ | hl⟩ := hk r hr
  · refine ⟨r', hr', hid'.trans hid, ?_⟩
    unfold Record.live at hrun ⊢
    rwa [hs, hb]
  · exact ⟨r', hr', hid'.trans hid, .inr hl⟩

/-- The record of a sandbox is replaced by one that is as good for its holder. -/
theorem keep_put (h : Owned p held) (hd : p.Distinct) (hq : q.records = (p.put r').records)
    (hr : r ∈ p.records) (hid : r'.id = r.id)
    (hk : r'.state = r.state ∧ r'.block = r.block ∨ r'.live = false) : Owned q held := by
  refine h.keep fun x hx => ?_
  by_cases he : x.id = r.id
  · obtain rfl := hd.eq_of_id hr hx he
    exact ⟨r', (Pool.mem_put hq hx hid).2 (.inl rfl), hid, hk⟩
  · exact ⟨x, (Pool.mem_put hq hr hid).2 (.inr ⟨hx, he⟩), rfl, .inl ⟨rfl, rfl⟩⟩

/-- Nobody holds a live sandbox that does not run. -/
theorem free (h : Owned p held) (hd : p.Distinct) (hr : r ∈ p.records) (hl : r.live = true)
    (hs : r.state ≠ .running) : ∀ x ∈ held, x.1 ≠ r.id := by
  intro x hx he
  obtain ⟨r₀, hr₀, hid, hrun⟩ := h.record x hx
  obtain rfl := hd.eq_of_id hr hr₀ (hid.trans he)
  rcases hrun with ⟨hrun, -⟩ | hend
  · exact hs hrun
  · rw [hl] at hend
    cases hend

/-- The record of a sandbox that nobody holds is replaced. -/
theorem put (h : Owned p held) (hfree : ∀ x ∈ held, x.1 ≠ r.id)
    (hq : q.records = (p.put r').records) (hid : r'.id = r.id) : Owned q held := by
  refine ⟨h.nodup, fun x hx => ?_⟩
  obtain ⟨r₀, hr₀, hid₀, hrun⟩ := h.record x hx
  have hne : r₀.id ≠ r'.id := by
    rw [hid, hid₀]
    exact hfree x hx
  refine ⟨r₀, ?_, hid₀, hrun⟩
  rw [hq]
  exact Pool.mem_put_of_ne hr₀ hne

/-- A sandbox that nobody holds begins to run a block. -/
theorem hold (h : Owned p held) (hfree : ∀ x ∈ held, x.1 ≠ r.id)
    (hq : q.records = (p.put r').records) (hr : r ∈ p.records) (hid : r'.id = r.id)
    (hs : r'.state = .running) (hb : r'.block = some block) : Owned q ((r.id, block) :: held) := by
  have hrest := h.put hfree hq hid
  refine ⟨?_, fun x hx => ?_⟩
  · rw [List.map_cons, List.nodup_cons]
    refine ⟨fun hm => ?_, h.nodup⟩
    obtain ⟨x, hx, he⟩ := List.mem_map.1 hm
    exact hfree x hx he
  · rcases List.mem_cons.1 hx with rfl | hx
    · exact ⟨r', (Pool.mem_put hq hr hid).2 (.inl rfl), hid, .inl ⟨hs, hb⟩⟩
    · exact hrest.record x hx

/-- A sandbox that can become idle is neither running nor terminated. -/
theorem free_of_admits (h : Owned p held) (hd : p.Distinct) (hr : r ∈ p.records)
    (hs : r.state.admits .idle = true) : ∀ x ∈ held, x.1 ≠ r.id := by
  refine h.free hd hr (Record.live_of_admits_idle hs) fun hrun => ?_
  rw [hrun] at hs
  cases hs

/-- Every act leaves a sandbox to one holder, unless a caller who holds none gives it back. -/
theorem act (hd : p.Distinct) (hnew : ∀ id port, Hand.made id port ∈ x → ∀ r ∈ p.records, r.id ≠ id)
    (hgiver : ∀ id, .returning id ∉ x) (hsharing : .sharing ∉ x)
    (h : Owned p (x.filterMap Hand.holding? ++ held)) (ha : Act p x sig q y) :
    Owned q (y.filterMap Hand.holding? ++ held) := by
  have hheld : Owned p held := h.subperm (List.sublist_append_right _ _).subperm
  have hsame : ∀ {q : Pool}, q.records = p.records → Owned q held := by
    intro q hq
    exact hheld.keep fun r hr => ⟨r, hq ▸ hr, rfl, .inl ⟨rfl, rfl⟩⟩
  cases ha with
  | enter l hl =>
    have hnone : y.filterMap Hand.holding? = [] := by
      refine List.filterMap_eq_nil_iff.2 fun t ht => ?_
      rcases (hl t ht).cases with ⟨id, rfl⟩ | ⟨rfl, -⟩ <;> rfl
    rw [hnone]
    exact hheld
  | reserve n =>
    have hnone : (List.replicate n Hand.reserved).filterMap Hand.holding? = [] :=
      List.filterMap_eq_nil_iff.2 fun t ht => by rw [List.eq_of_mem_replicate ht]; rfl
    rw [hnone]
    exact hsame rfl
  | register id port now =>
    have hrecords : (p.unreserve.insert (.new id port now)).records = p.records ++ [.new id port now] :=
      Pool.insert_records (hnew id port (List.mem_singleton_self _))
    refine hheld.keep fun r hr => ⟨r, ?_, rfl, .inl ⟨rfl, rfl⟩⟩
    rw [hrecords]
    exact List.mem_append_left _ hr
  | publish hr hs => exact hheld.put (hheld.free_of_admits hd hr hs) rfl rfl
  | deliver block hr hs => exact hheld.hold (hheld.free_of_admits hd hr hs) rfl hr rfl rfl rfl
  | take block hr _ hs =>
    have hfree := hheld.free hd hr (by simp [Record.live, State.terminal, hs]) (by simp [hs])
    exact hheld.hold hfree rfl hr rfl rfl rfl
  | wake hr _ hs =>
    have hfree := hheld.free hd hr (by simp [Record.live, State.terminal, hs]) (by simp [hs])
    exact hheld.put hfree rfl rfl
  | rebind block hr _ hs => exact hheld.hold (hheld.free_of_admits hd hr hs) rfl hr rfl rfl rfl
  | stray hr => exact hheld.keep_put hd rfl hr rfl (.inl ⟨rfl, rfl⟩)
  | decline => exact hheld
  | claim _ hr => exact hheld.keep_put hd rfl hr rfl (.inl ⟨rfl, rfl⟩)
  | settle port hr => exact hheld.keep_put hd rfl hr rfl (.inr rfl)
  | resign => exact hheld
  | @park r giver hg hr =>
    cases hg with
    | caller => exact absurd (List.mem_singleton_self _) (hgiver r.id)
    | block block =>
      -- the one who gives the sandbox back was its only holder
      have hnodup := h.nodup
      have hcons : [Hand.holding r.id block].filterMap Hand.holding? ++ held
          = (r.id, block) :: held := rfl
      rw [hcons, List.map_cons] at hnodup
      have hfree : ∀ x ∈ held, x.1 ≠ r.id := by
        intro x hx he
        exact (List.nodup_cons.1 hnodup).1 (List.mem_map.2 ⟨x, hx, he⟩)
      exact hheld.put hfree rfl rfl
  | join => exact absurd (List.mem_singleton_self _) hsharing
  | leave => exact absurd (List.mem_singleton_self _) hsharing
  | drop => exact absurd (List.mem_cons_self ..) hsharing
  | skip => exact absurd (List.mem_cons_self ..) hsharing
  -- all others leave the records as they are, and nobody gets a sandbox
  | _ => exact hsame rfl

end Owned

end SandboxPool
