import SandboxPool.Proofs.Pool.Hands

/-!
# Every turn is an act

Each process takes only turns that are acts with what it has in hand (`Sound`). A process that has
another one inside it has in hand what the inner one has, so that it is enough to look at the scopes
of each process once (`Sound.into`).

* `Termination.sound`, `Spawn.sound`, `Acquire.sound`, `Release.sound` and `BlockRun.sound` are the
  processes of a pool.
* `Machine.next_hands` is about a machine: a move is an act of one process.
-/

namespace SandboxPool

variable {σ α τ β : Type} {config : Config} {c : Context} {p : Pool}

/-- Every turn of a process is an act with what it has in hand, `f` at its points and `g` behind. -/
def Sound (config : Config) (demand : σ → Demand (Next σ α)) (f : Bool → σ → List Hand)
    (g : α → List Hand) : Prop :=
  ∀ ⦃c : Context⦄ ⦃p : Pool⦄ ⦃point : σ⦄ ⦃out : Bool⦄ ⦃sig : Option Signal⦄
    ⦃s : Scope (Option (Next σ α))⦄, p.config = config → (demand point).Turn c p out sig s →
    Moves p (f out point) sig s.pool ((Strand.land point s.result).hand f g)

/-- The process never breaks off. -/
def Steady (demand : σ → Demand (Next σ α)) : Prop :=
  ∀ ⦃c : Context⦄ ⦃p : Pool⦄ ⦃point : σ⦄ ⦃out : Bool⦄ ⦃sig : Option Signal⦄
    ⦃s : Scope (Option (Next σ α))⦄, (demand point).Turn c p out sig s →
    ∀ message, s.result ≠ some (.panic message)

/-- A process inside another one acts as it does by itself, whatever else the other one has. -/
theorem Sound.into {demand : σ → Demand (Next σ α)} {f : Bool → σ → List Hand} {g : α → List Hand}
    (hs : Sound config demand f g) (extra : List Hand) (f' : Bool → τ → List Hand)
    (g' : β → List Hand) {C : σ → τ} {k : α → Next τ β} (hf : ∀ out t, f' out (C t) = f out t ++ extra)
    (hk : ∀ a, (Strand.ofNext (k a)).hand f' g' = g a ++ extra) (hx : extra = [] ∨ Steady demand)
    {point : σ} {out : Bool} {sig : Option Signal} {s : Scope (Option (Next τ β))}
    (hp : p.config = config) (h : ((demand point).map (Next.into C k)).Turn c p out sig s) :
    Moves p (f' out (C point)) sig s.pool ((Strand.land (C point) s.result).hand f' g') := by
  obtain ⟨s₀, h₀, rfl⟩ := Demand.turn_map h
  have hm := (hs hp h₀).frame extra
  rw [hf]
  have hland : (Strand.land (C point) (s₀.map (Option.map (Next.into C k))).result).hand f' g'
      = (Strand.land point s₀.result).hand f g ++ extra := by
    obtain ⟨pool, effects, result⟩ := s₀
    cases result with
    | none => exact hf true point
    | some next =>
      cases next with
      | goto t => exact hf false t
      | done a => exact hk a
      | panic message =>
        rcases hx with rfl | hsteady
        · rfl
        · exact absurd rfl (hsteady h₀ message)
  rw [hland]
  exact hm

/-- A turn of a strand of a sound process is an act. -/
theorem Sound.strand {demand : σ → Demand (Next σ α)} {f : Bool → σ → List Hand}
    {g : α → List Hand} (hs : Sound config demand f g) {st : Strand σ α} {sig : Option Signal}
    {sc : Scope (Strand σ α)} (hp : p.config = config) (h : st.Turn demand c p sig sc) :
    Moves p (st.hand f g) sig sc.pool (sc.result.hand f g) := by
  cases h with
  | ready h => exact hs hp h
  | waiting h => exact hs hp h

/-! ## Terminating -/

namespace Termination

variable {id : String} {before giver : List Hand}

theorem claim_moves
    (hb : Claimant id before ∧ giver = [] ∨ before = [] ∧ Giver id giver) (p : Pool) :
    Moves p (before ++ giver) none (claim id p).pool
      ((Strand.ofNext (claim id p).result).hand (fun _ t => hand before id t ++ giver) fun _ => []) := by
  have hdecline : (∀ r, p.find? id = some r → r.live = false ∨ p.claim? id = some .terminating) →
      Moves p (before ++ giver) none p [] := by
    intro h
    rcases hb with ⟨hb, rfl⟩ | ⟨rfl, hg⟩
    · rw [List.append_nil]
      exact (Act.decline hb h).moves (.refl p)
    · exact (Act.resign hg).moves (.refl p)
  unfold claim
  cases hf : p.find? id with
  | none => exact hdecline fun r hr => by rw [hf] at hr; cases hr
  | some r =>
    obtain ⟨hr, rfl⟩ := Pool.mem_of_find? hf
    simp only
    split
    · next hno =>
      refine hdecline fun x hx => ?_
      obtain rfl : r = x := Option.some.inj (hf.symm.trans hx)
      simpa using hno
    · next hyes =>
      simp only [Bool.or_eq_true, Bool.not_eq_true', beq_iff_eq, not_or, Bool.not_eq_false] at hyes
      obtain ⟨hl, hc⟩ := hyes
      have hclaimant : Claimant r.id before := by
        rcases hb with ⟨hb, -⟩ | ⟨rfl, -⟩
        · exact hb
        · exact .plain
      exact ((Act.claim hclaimant hr hl hc).moves (.refl _)).frame giver

theorem expire_moves
    (hb : Claimant id before ∧ giver = [] ∨ before = [] ∧ Giver id giver) (generation : Nat)
    (p : Pool) :
    Moves p giver none (expire id generation p).pool
      ((Strand.ofNext (expire id generation p).result).hand (fun _ t => hand before id t ++ giver)
        fun _ => []) := by
  have hdecline : Moves p giver none p [] := by
    rcases hb with ⟨-, rfl⟩ | ⟨-, hg⟩
    · exact .aside_none (.refl p) []
    · exact (Act.resign hg).moves (.refl p)
  unfold expire
  cases hf : p.find? id with
  | none => exact hdecline
  | some r =>
    obtain ⟨hr, rfl⟩ := Pool.mem_of_find? hf
    simp only
    split
    · exact hdecline
    · next hyes =>
      simp only [Bool.or_eq_true, bne_iff_ne, ne_eq, not_or, Decidable.not_not] at hyes
      obtain ⟨⟨hs, hc⟩, -⟩ := hyes
      have hl : r.live = true := by simp [Record.live, State.terminal, hs]
      have hnot : p.claim? r.id ≠ some .terminating := fun h => by simp [h] at hc
      exact ((Act.claim .plain hr hl hnot).moves (.refl _)).frame giver

theorem settle_moves
    (hb : Claimant id before ∧ giver = [] ∨ before = [] ∧ Giver id giver) (port : UInt16) (p : Pool) :
    Moves p (.ending id port .settle :: giver) none (settle id port p).pool
      ((Strand.ofNext (settle id port p).result).hand (fun _ t => hand before id t ++ giver)
        fun _ => []) := by
  have hg : giver = [] ∨ Giver id giver := by
    rcases hb with ⟨-, hg⟩ | ⟨-, hg⟩
    · exact .inl hg
    · exact .inr hg
  unfold settle
  have hfind : (({ p with ports := p.ports.release port } : Pool).dropClaim id).find? id
      = p.find? id := rfl
  simp only [hfind]
  cases hf : p.find? id with
  | none => exact (Act.vanish port hf hg).moves (.refl _)
  | some r =>
    obtain ⟨hr, rfl⟩ := Pool.mem_of_find? hf
    have hadmits : r.state.admits .terminated = true := by cases r.state <;> rfl
    simp only [Record.move_of_admits (r := { r with
      block := none, binders := 0, dormantSince := none, busy := false }) hadmits]
    exact (Act.settle port hr hg).moves (Pool.alike_count _ _)

/-- A termination, by a claimant or by somebody who gives the sandbox back with it. -/
theorem sound (config : Config)
    (hb : Claimant id before ∧ giver = [] ∨ before = [] ∧ Giver id giver) :
    Sound config (demand id) (fun _ t => hand before id t ++ giver) fun _ => [] := by
  intro c p point out sig s _ h
  cases point with
  | claim =>
    obtain ⟨rfl, rfl, rfl⟩ := Demand.turn_scope h
    exact claim_moves hb p
  | expire generation =>
    obtain ⟨rfl, rfl, rfl⟩ := Demand.turn_scope h
    exact expire_moves hb generation p
  | stop port =>
    rcases Demand.turn_act h with ⟨rfl, rfl, rfl⟩ | ⟨r, rfl, rfl, rfl⟩
    · exact .aside (by rintro s ⟨⟩; rfl) (.refl p) _
    · exact ((Act.stopped id port (.acted r)).moves (.refl p)).frame giver
  | remove port =>
    rcases Demand.turn_act h with ⟨rfl, rfl, rfl⟩ | ⟨r, rfl, rfl, rfl⟩
    · exact .aside (by rintro s ⟨⟩; rfl) (.refl p) _
    · exact ((Act.removed id port (.acted r)).moves (.refl p)).frame giver
  | settle port =>
    obtain ⟨rfl, rfl, rfl⟩ := Demand.turn_scope h
    exact settle_moves hb port p

/-- A termination that stands by itself. -/
theorem sound_alone (config : Config) (id : String) :
    Sound config (demand id) (fun _ => hand [] id) fun _ => [] := by
  have h : Sound config (demand id) (fun _ t => hand [] id t ++ []) fun _ => [] :=
    sound config (.inl ⟨.plain, rfl⟩)
  simpa only [List.append_nil] using h

theorem steady (id : String) : Steady (demand id) := by
  intro c p point out sig s h message
  cases point with
  | claim =>
    obtain ⟨rfl, rfl, rfl⟩ := Demand.turn_scope h
    simp only [Scope.map, claim]
    split
    · simp
    · split <;> simp
  | expire generation =>
    obtain ⟨rfl, rfl, rfl⟩ := Demand.turn_scope h
    simp only [Scope.map, expire]
    split
    · simp
    · split <;> simp
  | stop port => rcases Demand.turn_act h with ⟨rfl, rfl, rfl⟩ | ⟨r, rfl, rfl, rfl⟩ <;> simp
  | remove port => rcases Demand.turn_act h with ⟨rfl, rfl, rfl⟩ | ⟨r, rfl, rfl, rfl⟩ <;> simp
  | settle port =>
    obtain ⟨rfl, rfl, rfl⟩ := Demand.turn_scope h
    simp only [Scope.map, settle]
    split
    · simp
    · split <;> simp

end Termination

/-! ## Starting -/

namespace Spawn

variable {job : Job} {id block : String} {port : UInt16}

theorem allocate_moves (job : Job) (p : Pool) :
    Moves p [.reserved] none (allocate job p).pool
      ((Strand.ofNext (allocate job p).result).hand hand (gained job.block)) := by
  unfold allocate
  cases ha : p.ports.allocate? with
  | none => exact (Act.exhausted ha).moves (.refl _)
  | some x =>
    obtain ⟨port, ports⟩ := x
    exact (Act.allocate ha (Pool.hostPort?_spec _ _ _ _)).moves ⟨rfl, rfl, rfl, rfl, rfl⟩

/-- A sandbox that has become idle can be bound at once. -/
theorem bind_idle {r : Record} (h : r.state = .idle) (block : String) (p : Pool) :
    bind block r p = .ok ({ r with state := .running, block := some block },
      p.put { r with state := .running, block := some block },
      Record.arrived { r with state := .running, block := some block } .idle) := by
  have hadmits : r.state.admits .running = true := by rw [h]; rfl
  simp only [bind, Record.move_of_admits hadmits, h]

theorem publish_moves (job : Job) (id : String) (p : Pool) :
    Moves p [.raising id] none (publish job id p).pool
      ((Strand.ofNext (publish job id p).result).hand hand (gained job.block)) := by
  unfold publish
  cases hf : p.find? id with
  | none =>
    refine (Act.miss fun r hr => ?_).moves (.refl p)
    rw [hf] at hr
    cases hr
  | some r =>
    obtain ⟨hr, rfl⟩ := Pool.mem_of_find? hf
    cases ha : r.state.admits .idle with
    | false =>
      simp only [Record.move_of_not_admits ha]
      refine (Act.miss fun x hx => ?_).moves (.refl p)
      obtain rfl : r = x := Option.some.inj (hf.symm.trans hx)
      exact ha
    | true =>
      simp only [Record.move_of_admits ha]
      cases hb : job.block with
      | none => exact (Act.publish hr ha).moves ⟨rfl, rfl, rfl, rfl, rfl⟩
      | some block =>
        simp only [bind_idle (r := { r with state := .idle }) rfl]
        have hput : ((p.put { r with state := .idle }).put
            { r with state := .running, block := some block }).records
            = (p.put { r with state := .running, block := some block }).records := by
          rw [Pool.put_put]
          rfl
        exact (Act.deliver block hr ha).moves ⟨rfl, hput, rfl, rfl, rfl⟩

theorem sound (config : Config) (job : Job) :
    Sound config (demand config job) hand (gained job.block) := by
  intro c p point out sig s hp h
  cases point with
  | allocate =>
    obtain ⟨rfl, rfl, rfl⟩ := Demand.turn_scope h
    exact allocate_moves job p
  | create spec port =>
    rcases Demand.turn_create h with ⟨rfl, rfl, rfl⟩ | ⟨r, rfl, rfl, rfl⟩
    · exact (Act.call spec port).moves (.refl p)
    · cases r with
      | ok id => exact (Act.created spec port id).moves (.refl p)
      | error e => exact (Act.refused spec port e).moves (.refl p)
  | giveBack port cause =>
    obtain ⟨rfl, rfl, rfl⟩ := Demand.turn_scope h
    exact (Act.giveBack port).moves (.refl _)
  | register id port =>
    obtain ⟨rfl, rfl, rfl⟩ := Demand.turn_scope h
    exact (Act.register id port c.now).moves (.refl _)
  | start id port =>
    rcases Demand.turn_act h with ⟨rfl, rfl, rfl⟩ | ⟨r, rfl, rfl, rfl⟩
    · exact .aside (by rintro s ⟨⟩; rfl) (.refl p) _
    · cases r with
      | ok _ =>
        cases hk : job.kind with
        | service => simpa [hk] using .aside (by rintro s ⟨⟩; rfl) (.refl p) [.raising id]
        | shared => simpa [hk] using .aside (by rintro s ⟨⟩; rfl) (.refl p) [.raising id]
      | error e => exact .aside (by rintro s ⟨⟩; rfl) (.refl p) _
  | probe id port =>
    rcases Demand.turn_health h with ⟨rfl, rfl, rfl⟩ | ⟨r, rfl, rfl, rfl⟩
    · exact .aside (by rintro s ⟨⟩; rfl) (.refl p) _
    · cases r <;> exact .aside (by rintro s ⟨⟩; rfl) (.refl p) _
  | discard id error t =>
    refine (Termination.sound config (.inl ⟨.spawn, rfl⟩)).into [] _ _ (fun out t => ?_) (fun a => rfl)
      (.inl rfl) hp h
    simp only [hand, List.append_nil]
  | publish id =>
    obtain ⟨rfl, rfl, rfl⟩ := Demand.turn_scope h
    exact publish_moves job id p

/-- A spawn for nobody. -/
theorem sound_alone (config : Config) (kind : SpawnKind) :
    Sound config (demand config ⟨kind, none⟩) hand fun _ => [] := by
  have hgain : gained none = fun _ => [] := by
    funext r
    cases r <;> rfl
  have h := sound config ⟨kind, none⟩
  rwa [hgain] at h

theorem steady (config : Config) (job : Job) : Steady (demand config job) := by
  intro c p point out sig s h message
  cases point with
  | allocate =>
    obtain ⟨rfl, rfl, rfl⟩ := Demand.turn_scope h
    simp only [Scope.map, allocate]
    split <;> simp
  | create spec port =>
    rcases Demand.turn_create h with ⟨rfl, rfl, rfl⟩ | ⟨r, rfl, rfl, rfl⟩
    · simp
    · cases r <;> simp
  | giveBack port cause =>
    obtain ⟨rfl, rfl, rfl⟩ := Demand.turn_scope h
    simp [Scope.map, giveBack]
  | register id port =>
    obtain ⟨rfl, rfl, rfl⟩ := Demand.turn_scope h
    simp [Scope.map, register]
  | start id port =>
    rcases Demand.turn_act h with ⟨rfl, rfl, rfl⟩ | ⟨r, rfl, rfl, rfl⟩
    · simp
    · cases r <;> cases hk : job.kind <;> simp
  | probe id port =>
    rcases Demand.turn_health h with ⟨rfl, rfl, rfl⟩ | ⟨r, rfl, rfl, rfl⟩
    · simp
    · cases r <;> simp
  | discard id error t =>
    obtain ⟨s₀, h₀, rfl⟩ := Demand.turn_map h
    have hsteady := Termination.steady id h₀
    obtain ⟨pool, effects, result⟩ := s₀
    cases result with
    | none => simp [Scope.map]
    | some next =>
      cases next with
      | goto t => simp [Scope.map, Next.into]
      | done a => simp [Scope.map, Next.into]
      | panic message => exact absurd rfl (hsteady message)
  | publish id =>
    obtain ⟨rfl, rfl, rfl⟩ := Demand.turn_scope h
    simp only [Scope.map, publish]
    split
    · simp
    · split
      · simp
      · split
        · simp
        · split <;> simp

end Spawn

/-! ## Acquiring -/

namespace Acquire

/-- What a scope of an acquisition for a block has in hand behind it. -/
abbrev behind (block : String) (next : Next Point Result) : List Hand :=
  (Strand.ofNext next).hand hand (gained (some block))

theorem coldOr_moves (block : String) (error : PoolError) (p : Pool) :
    Moves p [] none (coldOr error p).pool (behind block (coldOr error p).result) := by
  unfold coldOr Pool.reserve?
  by_cases h : p.occupancy < p.config.effectiveMax
  · simp only [h, if_true]
    exact (Act.reserve 1 (by omega)).moves ⟨rfl, rfl, rfl, rfl, rfl⟩
  · simp only [h, if_false]
    exact .aside_none (.refl p) []

theorem pick_moves (block : String) (c : Context) (p : Pool) :
    Moves p [] none (pick block c p).pool (behind block (pick block c p).result) := by
  unfold pick
  cases hi : candidate? (·.selectable .idle) c p with
  | some r =>
    obtain ⟨hr, hc, hs⟩ := Acquire.mem_of_selectable hi
    simp only [take, Spawn.bind_idle hs]
    exact (Act.take block hr hc hs).moves (Pool.alike_count _ _)
  | none =>
    cases hd : candidate? (·.selectable .dormant) c p with
    | some r =>
      obtain ⟨hr, hc, hs⟩ := Acquire.mem_of_selectable hd
      exact (Act.wake hr hc hs).moves (.refl _)
    | none => exact coldOr_moves block _ p

theorem rebind_moves (block id : String) (p : Pool) :
    Moves p [.waking id] none (rebind block id p).pool (behind block (rebind block id p).result) := by
  unfold rebind
  by_cases hc : p.claim? id = some .waking
  · simp only [hc, bne_self_eq_false, Bool.false_eq_true, if_false]
    have hfind : (p.dropClaim id).find? id = p.find? id := rfl
    simp only [hfind]
    cases hf : p.find? id with
    | none => exact (Act.lose hc hf).moves (.refl _)
    | some r =>
      obtain ⟨hr, rfl⟩ := Pool.mem_of_find? hf
      cases ha : r.state.admits .idle with
      | false =>
        simp only [Record.move_of_not_admits (r := { r with busy := false }) ha]
        exact (Act.stray hr hc ha).moves (.refl _)
      | true =>
        simp only [Record.move_of_admits (r := { r with busy := false }) ha]
        simp only [Spawn.bind_idle (r := { r with busy := false, state := .idle }) rfl]
        have hput : (((p.dropClaim r.id).put { r with busy := false, state := .idle }).put
            { r with busy := false, state := .running, block := some block })
            = (p.dropClaim r.id).put
              { r with busy := false, state := .running, block := some block } := Pool.put_put _ rfl
        rw [hput]
        exact (Act.rebind block hr hc ha).moves (Pool.alike_count _ _)
  · have hne : (p.claim? id != some .waking) = true := by simpa using hc
    simp only [hne, if_true]
    exact .aside_none (.refl p) [.waking id]

theorem reserve_moves (block : String) (p : Pool) :
    Moves p [.sharing] none (reserve p).pool (behind block (reserve p).result) := by
  unfold reserve Pool.reserve?
  by_cases h : p.occupancy < 1
  · simp only [h, if_true]
    have hroom : p.occupancy + 1 ≤ max 1 p.config.effectiveMax := by omega
    exact ((Act.reserve 1 hroom).moves (Pool.alike_count _ _)).frame [.sharing]
  · simp only [h, if_false]
    exact Act.leave.moves ⟨rfl, rfl, rfl, rfl, rfl⟩

theorem join_moves (block id : String) (p : Pool) :
    Moves p [.sharing] none (join block id p).pool (behind block (join block id p).result) := by
  unfold join
  cases hf : p.find? id with
  | none => exact Act.leave.moves ⟨rfl, rfl, rfl, rfl, rfl⟩
  | some r =>
    obtain ⟨hr, rfl⟩ := Pool.mem_of_find? hf
    have hjoin := Act.join block hr
    by_cases hs : r.state = .idle
    · simp only [hs, if_true] at hjoin ⊢
      exact hjoin.moves ⟨rfl, rfl, rfl, rfl, rfl⟩
    · simp only [hs, if_false] at hjoin ⊢
      exact hjoin.moves ⟨rfl, rfl, rfl, rfl, rfl⟩

theorem sound (config : Config) (block : String) :
    Sound config (demand config block) hand (gained (some block)) := by
  intro c p point out sig s hp h
  cases point with
  | pick =>
    obtain ⟨rfl, rfl, rfl⟩ := Demand.turn_scope h
    exact pick_moves block c p
  | unpause id port =>
    rcases Demand.turn_act h with ⟨rfl, rfl, rfl⟩ | ⟨r, rfl, rfl, rfl⟩
    · exact .aside (by rintro s ⟨⟩; rfl) (.refl p) _
    · cases r <;> exact .aside (by rintro s ⟨⟩; rfl) (.refl p) _
  | probe id port =>
    rcases Demand.turn_health h with ⟨rfl, rfl, rfl⟩ | ⟨r, rfl, rfl, rfl⟩
    · exact .aside (by rintro s ⟨⟩; rfl) (.refl p) _
    · cases r <;> exact .aside (by rintro s ⟨⟩; rfl) (.refl p) _
  | rebind id =>
    obtain ⟨rfl, rfl, rfl⟩ := Demand.turn_scope h
    exact rebind_moves block id p
  | failed error =>
    obtain ⟨rfl, rfl, rfl⟩ := Demand.turn_scope h
    have ha : p.Alike (failed error p).pool := ⟨rfl, rfl, rfl, rfl, rfl⟩
    cases error <;> exact .aside_none ha _
  | retire id error t =>
    refine (Termination.sound config (.inl ⟨.wake, rfl⟩)).into [] _ _ (fun out t => ?_) (fun a => rfl)
      (.inl rfl) hp h
    simp only [hand, List.append_nil]
  | replace error =>
    obtain ⟨rfl, rfl, rfl⟩ := Demand.turn_scope h
    exact coldOr_moves block error p
  | cold t =>
    refine (Spawn.sound config ⟨.service, some block⟩).into [] _ _ (fun out t => ?_) (fun a => ?_)
      (.inl rfl) hp h
    · simp only [hand, List.append_nil]
    · simp only [Strand.ofNext, Strand.hand, List.append_nil]
  | gate =>
    obtain ⟨rfl, rfl, -, rfl⟩ := Demand.turn_gate h
    have ha : p.Alike { p with gateHeld := true } := ⟨rfl, rfl, rfl, rfl, rfl⟩
    exact .aside_none ha _
  | find =>
    obtain ⟨rfl, rfl, rfl⟩ := Demand.turn_scope h
    simp only [find]
    split <;> exact .aside_none (.refl p) _
  | reserve =>
    obtain ⟨rfl, rfl, rfl⟩ := Demand.turn_scope h
    exact reserve_moves block p
  | shared t =>
    refine (Spawn.sound config ⟨.shared, none⟩).into [.sharing] _ _ (fun out t => rfl) (fun a => ?_)
      (.inr (Spawn.steady config _)) hp h
    cases a <;> rfl
  | join id =>
    obtain ⟨rfl, rfl, rfl⟩ := Demand.turn_scope h
    exact join_moves block id p
  | leave error =>
    obtain ⟨rfl, rfl, rfl⟩ := Demand.turn_scope h
    exact Act.leave.moves ⟨rfl, rfl, rfl, rfl, rfl⟩

end Acquire

/-! ## Releasing -/

namespace Release

variable {id : String} {giver : List Hand}

theorem check_moves (hg : Giver id giver) (p : Pool) :
    Moves p giver none (check id p).pool
      ((Strand.ofNext (check id p).result).hand (fun _ => hand giver id) fun _ => []) := by
  have hend : Moves p giver none p [] := (Act.resign hg).moves (.refl p)
  unfold check
  cases hf : p.find? id with
  | none => exact hend
  | some r =>
    simp only
    split
    · exact hend
    · split
      · exact hend
      · exact .aside_none (.refl p) giver

theorem park_moves (hg : Giver id giver) (c : Context) (p : Pool) :
    Moves p giver none (park id c p).pool
      ((Strand.ofNext (park id c p).result).hand (fun _ => hand giver id) fun _ => []) := by
  have hend : Moves p giver none p [] := (Act.resign hg).moves (.refl p)
  unfold park
  cases hf : p.find? id with
  | none => exact hend
  | some r =>
    obtain ⟨hr, rfl⟩ := Pool.mem_of_find? hf
    simp only
    split
    · exact hend
    · next hyes =>
      simp only [Bool.or_eq_true, bne_iff_ne, ne_eq, not_or, Decidable.not_not] at hyes
      obtain ⟨hs, hc⟩ := hyes
      have hnone : p.claim? r.id = none := by simpa using hc
      split
      · exact (Act.park hg hr hnone hs (some c.now) none).moves ⟨rfl, rfl, rfl, rfl, rfl⟩
      · exact (Act.park hg hr hnone hs (some c.now) (some _)).moves ⟨rfl, rfl, rfl, rfl, rfl⟩

theorem drop_moves (hg : Giver id giver) (p : Pool) :
    Moves p (.sharing :: giver) none (drop id p).pool
      ((Strand.ofNext (drop id p).result).hand (fun _ => hand giver id) fun _ => []) := by
  have hend : Moves p (.sharing :: giver) none p [] := (Act.skip hg).moves (.refl p)
  unfold drop
  cases hf : p.find? id with
  | none => exact hend
  | some r =>
    obtain ⟨hr, rfl⟩ := Pool.mem_of_find? hf
    simp only
    split
    · exact hend
    · exact (Act.drop hg hr _ _).moves (.refl _)

theorem sound (config : Config) (hg : Giver id giver) :
    Sound config (demand id) (fun _ => hand giver id) fun _ => [] := by
  intro c p point out sig s hp h
  cases point with
  | check =>
    obtain ⟨rfl, rfl, rfl⟩ := Demand.turn_scope h
    exact check_moves hg p
  | pause =>
    rcases Demand.turn_act h with ⟨rfl, rfl, rfl⟩ | ⟨r, rfl, rfl, rfl⟩
    · exact .aside (by rintro s ⟨⟩; rfl) (.refl p) _
    · cases r <;> exact .aside (by rintro s ⟨⟩; rfl) (.refl p) _
  | discard cause t =>
    refine (Termination.sound config (.inr ⟨rfl, hg⟩)).into [] (fun _ => hand giver id) (fun _ => [])
      (fun out t => ?_) (fun a => rfl) (.inl rfl) hp h
    simp only [hand, List.append_nil]
  | park =>
    obtain ⟨rfl, rfl, rfl⟩ := Demand.turn_scope h
    exact park_moves hg c p
  | drop =>
    obtain ⟨rfl, rfl, rfl⟩ := Demand.turn_scope h
    exact drop_moves hg p

end Release

/-! ## Running a block -/

/-- An acquisition enters the gate where the sandbox is shared. -/
theorem Acquire.start_moves (hp : p.config = config) :
    Moves p [] none p (Acquire.hand false (Acquire.start config)) := by
  unfold Acquire.start
  cases hc : config.parallelism with
  | multi => exact .aside_none (.refl p) []
  | single =>
    refine (Act.enter [.sharing] fun t ht => ?_).moves (.refl p)
    obtain rfl := List.mem_singleton.1 ht
    show p.config.parallelism = .single
    rw [hp, hc]

/-- A release gives up a part of the sandbox where it is shared. -/
theorem Release.start_moves (hp : p.config = config) (id : String) (giver : List Hand) :
    Moves p giver none p (Release.hand giver id (Release.start config)) := by
  unfold Release.start
  cases hc : config.parallelism with
  | multi => exact .aside_none (.refl p) giver
  | single =>
    refine ((Act.enter [.sharing] fun t ht => ?_).moves (.refl p)).frame giver
    obtain rfl := List.mem_singleton.1 ht
    show p.config.parallelism = .single
    rw [hp, hc]

theorem BlockRun.sound (config : Config) (block : String) :
    Sound config (demand config block) (hand block) fun _ => [] := by
  intro c p point out sig s hp h
  cases point with
  | begin =>
    obtain ⟨rfl, rfl, rfl⟩ := Demand.turn_scope h
    exact Acquire.start_moves hp
  | acquire since a =>
    refine (Acquire.sound config block).into [] _ _ (fun out t => ?_) (fun a => ?_) (.inl rfl) hp h
    · simp only [hand, List.append_nil]
    · cases a <;> rfl
  | refuse since e =>
    obtain ⟨rfl, rfl, rfl⟩ := Demand.turn_scope h
    exact .aside_none (.refl p) []
  | run since sandbox =>
    rcases Demand.turn_run h with ⟨rfl, rfl, rfl⟩ | ⟨r, rfl, rfl, rfl⟩
    · exact .aside (by rintro s ⟨⟩; rfl) (.refl p) _
    · simp only
      split <;> exact .aside (by rintro s ⟨⟩; rfl) (.refl p) _
  | retire since sandbox ending t =>
    refine (Termination.sound config (.inl ⟨.plain, rfl⟩)).into [.holding sandbox.id block] _ _
      (fun out t => ?_) (fun a => rfl) (.inr (Termination.steady _)) hp h
    simp only [hand, List.append_nil]
  | conclude since sandbox ending =>
    obtain ⟨rfl, rfl, rfl⟩ := Demand.turn_scope h
    exact Release.start_moves hp sandbox.id [.holding sandbox.id block]
  | release ran id r =>
    refine (Release.sound config (.block block)).into [] _ _ (fun out t => ?_) (fun a => rfl)
      (.inl rfl) hp h
    simp only [hand, List.append_nil]

theorem Execution.member_sound (config : Config) :
    Sound config (member config) Duty.hand fun _ => [] := by
  intro c p point out sig s hp h
  cases point with
  | run block b =>
    refine (BlockRun.sound config block).into [] _ _ (fun out t => ?_) (fun a => rfl) (.inl rfl) hp h
    simp only [Duty.hand, List.append_nil]
  | terminate id t =>
    refine (Termination.sound config (.inl ⟨.plain, rfl⟩)).into [] _ _ (fun out t => ?_) (fun a => rfl)
      (.inl rfl) hp h
    simp only [Duty.hand, List.append_nil]

end SandboxPool
