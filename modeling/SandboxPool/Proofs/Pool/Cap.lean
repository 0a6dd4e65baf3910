import SandboxPool.Proofs.Pool.Hands

/-!
# The cap

The number of reserved starts in a pool is the number of those that processes have in hand, and
together with the live sandboxes they stay within the cap (`Capped`). Every act keeps this
(`Capped.act`), whatever identities the daemon gives out.
-/

namespace SandboxPool

instance (c : Config) : Decidable c.Valid := inferInstanceAs (Decidable (c.fault? = none))

/-- What a valid configuration promises about the cap and the ports. -/
theorem Config.Valid.bounds {c : Config} (h : c.Valid) :
    1 ≤ c.effectiveMax ∧ c.ports.ordered = true ∧ c.effectiveMax ≤ c.ports.size := by
  unfold Valid fault? at h
  repeat' split at h
  all_goals cases h
  next hmax _ _ _ hord _ hsize =>
    refine ⟨?_, by simpa using hord, by omega⟩
    unfold effectiveMax
    split <;> omega

theorem Claimant.countP_reserves {id : String} {l : List Hand} (h : Claimant id l) :
    l.countP Hand.reserves = 0 := by
  cases h <;> rfl

theorem Giver.countP_reserves {id : String} {l : List Hand} (h : Giver id l) :
    l.countP Hand.reserves = 0 := by
  cases h <;> rfl

theorem Giver.countP_ending {id id' : String} {port : UInt16} {stage : Stage} {l : List Hand}
    (h : l = [] ∨ Giver id l) : (Hand.ending id' port stage :: l).countP Hand.reserves = 0 := by
  rcases h with rfl | h
  · rfl
  · exact h.countP_reserves

/-- Reserved starts are in the hands of processes, and occupancy is within the cap. -/
structure Capped (config : Config) (p : Pool) (l : List Hand) : Prop where
  config_eq : p.config = config
  distinct : p.Distinct
  pending : p.pending = l.countP Hand.reserves
  occupancy : p.liveCount + p.pending ≤ config.effectiveMax

namespace Capped

variable {config : Config} {p q : Pool} {l l' x y rest : List Hand} {sig : Option Signal}

theorem perm (h : Capped config p l) (hp : l.Perm l') : Capped config p l' :=
  ⟨h.config_eq, h.distinct, by rw [h.pending, hp.countP_eq], h.occupancy⟩

theorem alike (h : Capped config p l) (ha : p.Alike q) : Capped config q l := by
  refine ⟨ha.config.trans h.config_eq, ha.distinct h.distinct, ha.pending.trans h.pending, ?_⟩
  have hlive : q.liveCount = p.liveCount := by
    rw [Pool.liveCount_eq, Pool.liveCount_eq, ha.livePorts]
  rw [hlive, ha.pending]
  exact h.occupancy

/-- Records stay, and as many starts are reserved as before. -/
theorem keep (h : Capped config p (x ++ rest)) (hc : q.config = p.config)
    (hr : q.records = p.records) (hp : q.pending = p.pending)
    (hxy : y.countP Hand.reserves = x.countP Hand.reserves) : Capped config q (y ++ rest) := by
  refine ⟨hc.trans h.config_eq, ?_, ?_, ?_⟩
  · unfold Pool.Distinct
    rw [hr]
    exact h.distinct
  · have hpending := h.pending
    rw [List.countP_append] at hpending ⊢
    omega
  · unfold Pool.liveCount Pool.liveRecords
    rw [hr, hp]
    exact h.occupancy

/-- A record is replaced by one that is not live unless the old one was. -/
theorem put (h : Capped config p (x ++ rest)) {r r' : Record}
    (hq : q.records = (p.put r').records) (hr : r ∈ p.records) (hid : r'.id = r.id)
    (hl : r'.live = true → r.live = true) (hc : q.config = p.config) (hp : q.pending = p.pending)
    (hxy : y.countP Hand.reserves = x.countP Hand.reserves) : Capped config q (y ++ rest) := by
  refine ⟨hc.trans h.config_eq, ?_, ?_, ?_⟩
  · have hd := h.distinct.put r'
    unfold Pool.Distinct at hd ⊢
    rwa [hq]
  · have hpending := h.pending
    rw [List.countP_append] at hpending ⊢
    omega
  · have hle := Pool.liveCount_put_le h.distinct hr hid hl
    have hocc := h.occupancy
    have hlive : q.liveCount = (p.put r').liveCount := by
      unfold Pool.liveCount Pool.liveRecords
      rw [hq]
    omega

/-- A reserved start is given up, in place of at most one new record. -/
theorem unreserve (h : Capped config p (x ++ rest)) (hc : q.config = p.config) (hd : q.Distinct)
    (hx : x.countP Hand.reserves = 1) (hy : y.countP Hand.reserves = 0)
    (hp : q.pending = p.pending - 1) (hl : q.liveCount ≤ p.liveCount + 1) :
    Capped config q (y ++ rest) := by
  have hpending := h.pending
  have hocc := h.occupancy
  rw [List.countP_append] at hpending
  refine ⟨hc.trans h.config_eq, hd, ?_, by omega⟩
  rw [List.countP_append]
  omega

/-- Every act keeps the cap. -/
theorem act (hv : config.Valid) (hc : Capped config p (x ++ rest)) (h : Act p x sig q y) :
    Capped config q (y ++ rest) := by
  cases h with
  | aside => exact hc
  | enter l hl =>
    refine hc.keep rfl rfl rfl ?_
    rw [List.countP_nil, List.countP_eq_zero]
    intro t ht hres
    rcases (hl t ht).cases with ⟨id, rfl⟩ | ⟨rfl, -⟩
    · cases hres
    · cases hres
  | reserve n hn =>
    have hone := hv.bounds.1
    have hocc : p.liveCount + p.pending + n ≤ max 1 p.config.effectiveMax := hn
    rw [hc.config_eq] at hocc
    refine ⟨hc.config_eq, hc.distinct, ?_, ?_⟩
    · have hpending := hc.pending
      rw [List.nil_append] at hpending
      rw [List.countP_append, List.countP_replicate]
      show p.pending + n = _
      simp only [Hand.reserves, if_true]
      omega
    · show p.liveCount + (p.pending + n) ≤ _
      omega
  | exhausted => exact hc.unreserve rfl hc.distinct rfl rfl rfl (Nat.le_succ _)
  | allocate => exact hc.keep rfl rfl rfl rfl
  | call => exact hc.keep rfl rfl rfl rfl
  | created => exact hc.keep rfl rfl rfl rfl
  | refused => exact hc.keep rfl rfl rfl rfl
  | giveBack => exact hc.unreserve rfl hc.distinct rfl rfl rfl (Nat.le_succ _)
  | register id port now =>
    exact hc.unreserve rfl (hc.distinct.insert _) rfl rfl rfl (Pool.liveCount_insert_le _ _)
  | publish hr hs => exact hc.put rfl hr rfl (fun _ => Record.live_of_admits_idle hs) rfl rfl rfl
  | deliver block hr hs =>
    exact hc.put rfl hr rfl (fun _ => Record.live_of_admits_idle hs) rfl rfl rfl
  | miss => exact hc.keep rfl rfl rfl rfl
  | take block hr _ hs =>
    exact hc.put rfl hr rfl (fun _ => by simp [Record.live, State.terminal, hs]) rfl rfl rfl
  | wake hr => exact hc.put rfl hr rfl (fun hl => hl) rfl rfl rfl
  | rebind block hr _ hs =>
    exact hc.put rfl hr rfl (fun _ => Record.live_of_admits_idle hs) rfl rfl rfl
  | lose => exact hc.keep rfl rfl rfl rfl
  | stray hr => exact hc.put rfl hr rfl (fun hl => hl) rfl rfl rfl
  | decline hb => exact hc.keep rfl rfl rfl hb.countP_reserves.symm
  | claim hb hr => exact hc.put rfl hr rfl (fun hl => hl) rfl rfl hb.countP_reserves.symm
  | stopped => exact hc.keep rfl rfl rfl rfl
  | removed => exact hc.keep rfl rfl rfl rfl
  | settle port hr hg =>
    refine hc.put rfl hr rfl (fun hl => by simp [Record.live, State.terminal] at hl) rfl rfl ?_
    exact (Giver.countP_ending hg).symm
  | vanish port _ hg => exact hc.keep rfl rfl rfl (Giver.countP_ending hg).symm
  | resign hg => exact hc.keep rfl rfl rfl hg.countP_reserves.symm
  | park hg hr _ hs =>
    exact hc.put rfl hr rfl (fun _ => by simp [Record.live, State.terminal, hs]) rfl rfl
      hg.countP_reserves.symm
  | @join r block hr =>
    refine hc.put rfl hr rfl (fun hl => ?_) rfl rfl rfl
    by_cases hs : r.state = .idle
    · simp [Record.live, State.terminal, hs]
    · simpa [Record.live, hs] using hl
  | leave => exact hc.keep rfl rfl rfl rfl
  | drop hg hr => exact hc.put rfl hr rfl (fun hl => hl) rfl rfl hg.countP_reserves.symm
  | skip hg => exact hc.keep rfl rfl rfl hg.countP_reserves.symm

end Capped

end SandboxPool
