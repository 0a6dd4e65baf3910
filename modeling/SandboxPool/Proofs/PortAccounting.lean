import SandboxPool.Proofs.WithinCap

/-!
# Account of the ports

As long as the daemon gives out no identity twice, every port in use belongs to one live sandbox or
to one start, no port is lost, a start always gets one, and a container is created on a port only
when no other container can have it any more.
-/

namespace SandboxPool

variable {config : Config} {ids : List String} {c : Ledger} {p q : Pool} {l x y rest : List Hand}

/-- Who asks for a container has its port in hand. -/
theorem Act.of_create {spec : ContainerSpec}
    (h : Act p x (some (.sent (.daemon (.create spec)))) q y) :
    ∃ port, x = [.naming spec port false] := by
  cases h with
  | aside sig hs => exact absurd (hs _ rfl) (by simp [Signal.aside])
  | call _ port => exact ⟨port, rfl⟩

/-- The port of a container belongs to a live sandbox or to a start. -/
theorem Books.mem_of_hostPorts (h : Books config ids c p l) {port : UInt16}
    (hm : port ∈ c.hostPorts) :
    port ∈ p.livePorts ∨ ∃ t ∈ l, t.port? = some port ∧ ∀ spec, t ≠ .naming spec port false := by
  unfold Ledger.hostPorts at hm
  obtain ⟨spec, hspec, hport⟩ := List.mem_filterMap.1 hm
  rcases List.mem_append.1 hspec with hspec | hspec
  · rw [h.stocked.creating.mem_iff] at hspec
    obtain ⟨t, ht, hcr⟩ := List.mem_filterMap.1 hspec
    refine .inr ⟨t, ht, ?_⟩
    cases t with
    | naming spec' port' out =>
      cases out with
      | false => cases hcr
      | true =>
        cases hcr
        have hp := h.housed.spec ht
        rw [hport] at hp
        cases hp
        exact ⟨rfl, fun spec he => by cases he⟩
    | _ => cases hcr
  · obtain ⟨t, ht, rfl⟩ := List.mem_map.1 hspec
    obtain ⟨port', hport', hmade | ⟨r, hr, -, hl, hp⟩⟩ := h.stocked.standing t ht
    · rw [hport] at hport'
      cases hport'
      exact .inr ⟨_, hmade, rfl, fun spec he => by cases he⟩
    · rw [hport] at hport'
      cases hport'
      exact .inl (Pool.mem_livePorts.2 ⟨r, hr, hl, hp⟩)

/-- A container is asked for on a port that no container can have. -/
theorem Books.create_port (h : Books config ids c p ([.naming spec port false] ++ rest)) :
    port ∉ c.hostPorts := by
  intro hm
  have hnodup := h.housed.holds.nodup
  have hperm : (p.livePorts ++ ([Hand.naming spec port false] ++ rest).filterMap Hand.port?).Perm
      (port :: (p.livePorts ++ rest.filterMap Hand.port?)) := List.perm_middle
  rw [hperm.nodup_iff, List.nodup_cons] at hnodup
  rcases h.mem_of_hostPorts hm with hlive | ⟨t, ht, hport, hne⟩
  · exact hnodup.1 (List.mem_append_left _ hlive)
  · rcases List.mem_append.1 ht with ht | ht
    · exact hne spec (List.mem_singleton.1 ht)
    · exact hnodup.1 (List.mem_append_right _ (List.mem_filterMap.2 ⟨t, ht, hport⟩))

/-- The ports of starts are at most the starts, and fewer if a start has none yet. -/
theorem Hand.length_port_le (l : List Hand) :
    (l.filterMap port?).length + l.count reserved ≤ l.countP reserves := by
  induction l with
  | nil => simp
  | cons t rest ih =>
    rw [List.filterMap_cons, List.countP_cons, List.count_cons]
    cases t <;> simp [port?, reserves] <;> omega

namespace Machine

/-- A start that needs a port gets one. -/
theorem Reaches.allocates {config : Config} {seed : BitVec 128} {pool : Pool} {now : Instant}
    {h : History} {m : Machine} {k : Key} (hp : Pool.create config seed = .ok pool)
    (hr : (ofPool pool now).Reaches h m) (hf : h.Fresh) (hk : (k, .reserved) ∈ m.hands) :
    m.pool.ports.allocate?.isSome = true := by
  have hcap := hr.capped hp
  have hhoused := (hr.books hp hf).housed
  have hbounds := (create_eq_ok_iff.1 hp).1.bounds
  have hone : 0 < m.things.count .reserved :=
    List.count_pos_iff.2 (List.mem_map.2 ⟨(k, .reserved), hk, rfl⟩)
  have hcount := Hand.length_port_le m.things
  have hocc := hcap.occupancy
  have hpending := hcap.pending
  refine hhoused.holds.allocate?_isSome (hhoused.range ▸ hbounds.2.1) ?_
  rw [List.length_append, ← Pool.liveCount_eq, hhoused.range]
  omega

/-- **No port is lost or given out twice.** In every interleaving of operations on a new pool, and
whatever the daemon answers as long as it gives out no identity twice: the ports in use are those of
the live sandboxes and those that starts have in hand, all of them different; together with the
available ones they are the range; a start that needs a port gets one; and a container is asked for
on a port only when no container can have it any more. -/
theorem ports_accounted {config : Config} {seed : BitVec 128} {pool : Pool} {now : Instant}
    {h : History} {m : Machine} (hp : Pool.create config seed = .ok pool)
    (hr : (ofPool pool now).Reaches h m) (hf : h.Fresh) :
    (m.pool.livePorts ++ m.hands.filterMap (·.2.port?)).Nodup ∧
      (∀ port, m.pool.ports.inUse port = true ↔
        port ∈ m.pool.livePorts ++ m.hands.filterMap (·.2.port?)) ∧
      m.pool.ports.available + m.pool.liveCount + (m.hands.filterMap (·.2.port?)).length
        = config.ports.size ∧
      (∀ k, (k, .reserved) ∈ m.hands → m.pool.ports.allocate?.isSome = true) ∧
      ∀ move m' notes spec, m.next move = some (m', notes) →
        m.signal? move = some (.sent (.daemon (.create spec))) →
        ∃ port, spec.hostPort? = some port ∧ port ∉ h.ledger.hostPorts := by
  have hv := (create_eq_ok_iff.1 hp).1
  have hbooks := hr.books hp hf
  have hcap := hr.capped hp
  have hholds := hbooks.housed.holds
  have htaken : m.things.filterMap Hand.port? = m.hands.filterMap (·.2.port?) := by
    unfold things
    rw [List.filterMap_map]
    rfl
  have hcount := Hand.length_port_le m.things
  have hocc := hcap.occupancy
  have hpending := hcap.pending
  have hsize := hholds.size_used
  have hrange := hbooks.housed.range
  have hbounds := hv.bounds
  rw [List.length_append, ← Pool.liveCount_eq] at hsize
  refine ⟨htaken ▸ hholds.nodup, htaken ▸ hholds.inUse, ?_, fun k hk => hr.allocates hp hf hk, ?_⟩
  · rw [← htaken]
    unfold PortAllocator.available
    rw [hrange]
    omega
  · intro move m' notes spec hn hsig
    obtain ⟨x, y, rest, q, hb, -, hact, -⟩ := next_things hr.ordered_ofPool hn
    rw [hsig] at hact
    obtain ⟨port, rfl⟩ := hact.of_create
    have hperm := hbooks.perm hb
    exact ⟨port, hperm.housed.spec (List.mem_append_left _ (List.mem_singleton_self _)),
      hperm.create_port⟩

/-- One sandbox is started and another one is about to be created: each has a port of its own. -/
theorem ports_accounted_two :
    let config : Config := { image := "img", maxSandboxes := 2 }
    ∃ pool h m, Pool.create config 0 = .ok pool ∧ (ofPool pool 0).Reaches h m ∧ h.Fresh ∧
      m.pool.livePorts = [40000] ∧ m.hands.filterMap (·.2.port?) = [40001] ∧
      m.pool.ports.available + 1 + 1 = 100 ∧ m.pool.ports.inUse 40001 = true := by
  intro config
  let moves : List Move := [.order (.acquire "a"), .step 0 0, .step 0 0, .step 0 0,
    .reply 0 0 (.created (.ok "c1")), .step 0 0, .order (.acquire "b"), .step 1 0, .step 1 0]
  have hp : Pool.create config 0 = .ok (.ofConfig config 0) :=
    create_eq_ok_iff.2 ⟨by decide +kernel, rfl⟩
  have hrun : ((ofPool (.ofConfig config 0) 0).trace moves).any (fun x =>
      x.1.Fresh ∧ x.2.pool.livePorts = [40000] ∧ x.2.hands.filterMap (·.2.port?) = [40001])
        = true := by decide +kernel
  obtain ⟨x, ht, hx⟩ := (Option.any_eq_true _ _).1 hrun
  obtain ⟨hf, hlive, htaken⟩ := of_decide_eq_true hx
  have hr := reaches_of_trace ht
  obtain ⟨-, hused, hsum, -⟩ := ports_accounted hp hr hf
  have hsize : config.ports.size = 100 := by decide +kernel
  rw [Pool.liveCount_eq, hlive, htaken, hsize] at hsum
  rw [hlive, htaken] at hused
  exact ⟨_, x.1, x.2, hp, hr, hf, hlive, htaken, hsum, (hused _).2 (by decide)⟩

end Machine

end SandboxPool
