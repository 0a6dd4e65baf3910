import SandboxPool.Proofs.Machine.Books

/-!
# The cap on sandboxes

However the operations of a pool interleave and whatever fails, the live sandboxes and the reserved
starts together stay within the cap, and so do the containers that exist.
-/

namespace SandboxPool

variable {config : Config} {ids : List String} {c : Ledger} {p : Pool} {l : List Hand}

/-- The containers of starts are at most the starts. -/
theorem Hand.length_creating_made_le (l : List Hand) :
    (l.filterMap creating?).length + (l.filterMap made?).length ≤ l.countP reserves := by
  induction l with
  | nil => simp
  | cons t rest ih =>
    rw [List.filterMap_cons, List.filterMap_cons, List.countP_cons]
    cases t with
    | naming spec port out =>
      cases out <;> simp only [creating?, made?, reserves, List.length_cons, if_true] <;> omega
    | made id port => simp only [creating?, made?, reserves, List.length_cons, if_true]; omega
    | _ => simp only [creating?, made?, reserves]; omega

/-- There are at most as many containers as live sandboxes and reserved starts. -/
theorem Stocked.size_le (h : Stocked c p l) :
    c.size ≤ p.liveCount + l.countP Hand.reserves := by
  have hsub : c.standing.map (·.1) ⊆ p.liveRecords.map (·.id) ++ l.filterMap Hand.made? := by
    intro id hid
    obtain ⟨t, ht, rfl⟩ := List.mem_map.1 hid
    obtain ⟨port, -, hm | ⟨r, hr, hrid, hl, -⟩⟩ := h.standing t ht
    · exact List.mem_append_right _ (List.mem_filterMap.2 ⟨_, hm, rfl⟩)
    · exact List.mem_append_left _ (List.mem_map.2 ⟨r, List.mem_filter.2 ⟨hr, hl⟩, hrid⟩)
  have hstanding := List.Nodup.length_le_of_subset h.nodup hsub
  have hcreating := h.creating.length_eq
  have hle := Hand.length_creating_made_le l
  rw [List.length_append, List.length_map, List.length_map] at hstanding
  unfold Ledger.size Pool.liveCount
  omega

namespace Machine

/-- **The cap is safe.** In every interleaving of operations on a new pool, and whatever the daemon
answers, the live sandboxes and the reserved starts stay within the cap. The reserved starts that
the pool counts are those in the hands of processes, so that none of these gives up a start that is
not counted. If the daemon gives out no identity twice, the containers that were asked for stay
within the cap until their creation fails or the pool's removal returns. -/
theorem within_cap {config : Config} {seed : BitVec 128} {pool : Pool} {now : Instant} {h : History}
    {m : Machine} (hp : Pool.create config seed = .ok pool) (hr : (ofPool pool now).Reaches h m) :
    m.pool.liveCount + m.pool.pending ≤ config.effectiveMax ∧
      m.pool.pending = m.hands.countP (·.2.reserves) ∧
      (∀ t ∈ m.hands, t.2.reserves = true → 0 < m.pool.pending) ∧
      (h.Fresh → h.ledger.size ≤ config.effectiveMax) := by
  have hc := hr.capped hp
  have hpending : m.pool.pending = m.hands.countP (·.2.reserves) := by
    have hcount := hc.pending
    unfold things at hcount
    rw [List.countP_map] at hcount
    exact hcount
  refine ⟨hc.occupancy, hpending, fun t ht hres => ?_, fun hf => ?_⟩
  · rw [hpending]
    exact List.countP_pos_iff.2 ⟨t, ht, hres⟩
  · have hsize := (hr.books hp hf).stocked.size_le
    have hocc := hc.occupancy
    rw [← hc.pending] at hsize
    omega

/-- A container that was just created is one of the start that an acquisition has reserved. -/
theorem within_cap_created :
    let config : Config := { image := "img", maxSandboxes := 2 }
    ∃ pool h m, Pool.create config 0 = .ok pool ∧ (ofPool pool 0).Reaches h m ∧ h.Fresh ∧
      m.pool.pending = 1 ∧ h.ledger.size = 1 ∧ m.pool.liveCount + m.pool.pending ≤ 2 ∧
      h.ledger.size ≤ 2 := by
  intro config
  let moves : List Move := [.order (.acquire "a"), .step 0 0, .step 0 0, .step 0 0,
    .reply 0 0 (.created (.ok "c1"))]
  have hp : Pool.create config 0 = .ok (.ofConfig config 0) :=
    create_eq_ok_iff.2 ⟨by decide +kernel, rfl⟩
  have hrun : ((ofPool (.ofConfig config 0) 0).trace moves).any (fun x =>
      x.1.Fresh ∧ x.2.pool.pending = 1 ∧ x.1.ledger.size = 1) = true := by decide +kernel
  obtain ⟨x, ht, hx⟩ := (Option.any_eq_true _ _).1 hrun
  obtain ⟨hf, hpending, hsize⟩ := of_decide_eq_true hx
  have hr := reaches_of_trace ht
  obtain ⟨hcap, -, -, hcontainers⟩ := within_cap hp hr
  exact ⟨_, x.1, x.2, hp, hr, hf, hpending, hsize, hcap, hcontainers hf⟩

end Machine

end SandboxPool
