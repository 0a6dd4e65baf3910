import SandboxPool.Proofs.Machine.Entrances
import SandboxPool.Proofs.Machine.Standstill
import SandboxPool.Proofs.Pool.Crews
import SandboxPool.Proofs.PortAccounting

/-!
# A prewarm that nobody disturbs

What a prewarm has done is read off the history: which of its spawns have ended (`History.yields`), what
the outside saw of each of them (`History.heard`), and how many turns it took (`History.turns`).
`Prewarm.Stands` ties that to where the prewarm is, to its crew and to the pool, and every move of a
machine in which nothing else goes on keeps it (`Machine.Reaches.prewarming`).
-/

namespace SandboxPool

variable {α β : Type}

/-! ## What the history tells of a prewarm -/

namespace Machine

/-- The spawns of a prewarm that end in a move of it. -/
def yields (m : Machine) (move : Move) : Activity → List (Ended Unit Spawn.Result)
  | .prewarm _ t =>
    match (m.next move).bind fun x => x.1.activity? (m.mover move).1 with
    | some (.prewarm _ t') => t'.ended.drop t.ended.length
    | _ => []
  | _ => []

end Machine

namespace History

variable {h h' : History} {m m' : Machine} {move : Move} {notes : List Note} {n place : Nat} {k : Key}
  {sig : Option Signal} {gone : List (Ended Unit Spawn.Result)}

/-- The spawns of a prewarm that have ended, in that order. -/
def yields (h : History) (n : Nat) : List (Ended Unit Spawn.Result) := h.deeds Machine.yields n

/-- What the outside saw of one post. -/
def heard (h : History) (k : Key) : List Signal :=
  h.filterMap fun x => if x.1.mover x.2 = k then x.1.signal? x.2 else none

/-- How many turns an operation has taken. -/
def turns (h : History) (n : Nat) : Nat := h.countP fun x => (x.1.mover x.2).1 == n

theorem heard_append : (h ++ [(m, move)]).heard k
    = h.heard k ++ if m.mover move = k then (m.signal? move).toList else [] := by
  unfold heard
  rw [List.filterMap_append]
  by_cases hk : m.mover move = k
  · rw [if_pos hk]
    cases hs : m.signal? move <;> simp [hk, hs]
  · simp [hk]

theorem turns_append : (h ++ [(m, move)]).turns n
    = h.turns n + if (m.mover move).1 = n then 1 else 0 := by
  simp [turns, List.countP_append, List.countP_cons]

/-- A history goes on with a turn of one place of a prewarm. -/
structure Grows (h h' : History) (n place : Nat) (sig : Option Signal)
    (gone : List (Ended Unit Spawn.Result)) : Prop where
  yields : h'.yields n = h.yields n ++ gone
  signals : h'.signals = h.signals ++ sig.toList
  heard : ∀ place', h'.heard (n, place')
    = h.heard (n, place') ++ if place' = place then sig.toList else []
  turns : h'.turns n = h.turns n + 1

/-- A move of a prewarm is a turn of one of its places. -/
theorem grows {count count' : Nat} {t t' : Prewarm.Run} (ha : m.activity? n = some (.prewarm count t))
    (hk : m.mover move = (n, place)) (hn : m.next move = some (m', notes))
    (hb : m'.activity? n = some (.prewarm count' t')) :
    h.Grows (h ++ [(m, move)]) n place (m.talk? move) (t'.ended.drop t.ended.length) := by
  have hsignal : m.signal? move = m.talk? move := by
    cases move with
    | step n' place' =>
      obtain ⟨rfl, rfl⟩ := Prod.mk.inj hk
      simp only [Machine.signal?, Machine.talk?, ha, Option.bind_some]
      rfl
    | reply n' place' r =>
      obtain ⟨rfl, rfl⟩ := Prod.mk.inj hk
      simp only [Machine.signal?, Machine.talk?, ha, Option.bind_some]
      rfl
    | _ => rfl
  refine ⟨?_, ?_, fun place' => ?_, ?_⟩
  · unfold yields
    rw [deeds_turn (by rw [hk]) ha]
    simp only [Machine.yields, hn, hk, Option.bind_some, hb]
  · rw [signals_append, hsignal]
  · rw [heard_append, hk, hsignal]
    simp only [Prod.mk.injEq, true_and, eq_comm]
  · rw [turns_append, hk, if_pos rfl]

/-- A move beside a prewarm that is not signalled tells nothing of it. -/
theorem same_of_stay (hm : (m.mover move).1 ≠ n) (hs : m.signal? move = none) :
    (h ++ [(m, move)]).yields n = h.yields n ∧ (h ++ [(m, move)]).signals = h.signals ∧
      (∀ place, (h ++ [(m, move)]).heard (n, place) = h.heard (n, place)) ∧
      (h ++ [(m, move)]).turns n = h.turns n := by
  refine ⟨deeds_stay hm, ?_, fun place => ?_, ?_⟩
  · rw [signals_append, hs]
    exact List.append_nil _
  · rw [heard_append, hs]
    split <;> exact List.append_nil _
  · rw [turns_append, if_neg hm]
    rfl

end History

/-! ## Where a prewarm stands -/

/-- An element of a list that is mapped to the first of others. -/
theorem exists_perm_cons {f : α → β} {l : List α} {y : β} {ys : List β} (h : (l.map f).Perm (y :: ys)) :
    ∃ x rest, l.Perm (x :: rest) ∧ f x = y ∧ (rest.map f).Perm ys := by
  obtain ⟨x, hx, rfl⟩ := List.mem_map.1 (h.mem_iff.2 (List.mem_cons_self ..))
  obtain ⟨l₁, l₂, rfl⟩ := List.append_of_mem hx
  refine ⟨x, l₁ ++ l₂, List.perm_middle, rfl, ?_⟩
  have hmiddle : (l₁ ++ x :: l₂).Perm (x :: (l₁ ++ l₂)) := List.perm_middle
  exact ((hmiddle.map f).symm.trans h).cons_inv

namespace Prewarm

/-- The spawns of a prewarm with their numbers: those under way, and those that are gone. -/
def strands (t : Run) (gone : List (Ended Unit Spawn.Result)) :
    List (Nat × Strand Spawn.Point Spawn.Result) :=
  t.active.map (fun x => (x.serial, x.strand)) ++ gone.map fun e => (e.serial, e.strand)

/-- The members that a turn of one of them ends are those behind the ones that had ended. -/
theorem ended_update (t : Run) (m : Member Unit Spawn.Point Spawn.Result)
    (st : Strand Spawn.Point Spawn.Result) : (t.update m st).ended
      = t.ended ++ (t.update m st).ended.drop t.ended.length := by
  unfold Team.update
  cases Team.outcome? st with
  | none => simp
  | some result => simp

/-- A member that takes a turn is the only one of the spawns that gets elsewhere. -/
theorem strands_update {t : Run} (ho : t.Ordered) {serial : Nat}
    {m : Member Unit Spawn.Point Spawn.Result} (hm : t.member? serial = some m)
    (st : Strand Spawn.Point Spawn.Result) (gone : List (Ended Unit Spawn.Result)) :
    ∃ others, (strands t gone).Perm ((serial, m.strand) :: others) ∧
      (strands (t.update m st) (gone ++ (t.update m st).ended.drop t.ended.length)).Perm
        ((serial, st) :: others) := by
  obtain ⟨rfl, l, r, hsplit, hleft, hright⟩ := Team.member?_split ho hm
  have hactive : ∀ {t' : Run} {m' : Member Unit Spawn.Point Spawn.Result}, t'.active = l ++ m' :: r →
      (strands t' gone).Perm ((m'.serial, m'.strand) ::
        ((l ++ r).map (fun x => (x.serial, x.strand)) ++ gone.map fun e => (e.serial, e.strand))) := by
    intro t' m' ha
    unfold strands
    rw [ha, List.map_append, List.map_cons, List.map_append, List.append_assoc, List.append_assoc,
      List.cons_append]
    exact List.perm_middle
  refine ⟨_, hactive hsplit, ?_⟩
  rcases Team.update_cases hsplit hleft hright st with ⟨ha, he⟩ | ⟨result, hout, ha, he⟩
  · rw [he, List.drop_length, List.append_nil]
    exact hactive ha
  · have hstrand : (⟨m.serial, m.task, result⟩ : Ended Unit Spawn.Result).strand = st := by
      cases st <;> cases hout <;> rfl
    unfold strands
    rw [ha, he, List.drop_left, List.map_append, List.map_append, List.map_singleton, hstrand,
      ← List.append_assoc]
    exact List.perm_append_singleton _ _

/-- How many turns a prewarm with so many spawns takes at most from a point on, those of its spawns
aside that have begun. -/
def due (room : Nat) : Strand Point Result → Nat
  | .ready .gate => 14 * room + 4
  | .ready .reserve => 14 * room + 3
  | .ready .gather => 2
  | .ready (.leave _) => 1
  | _ => 0

/-- How far a prewarm has come on the pool that it found. -/
inductive Phase (p₀ p : Pool) (room : Nat) (t : Run) (serials : List Nat)
    (gone : List (Ended Unit Spawn.Result)) : Prop where
  | gate (hl : t.leader = .ready .gate) (hc : p.config.parallelism = .single) (hp : p = p₀)
      (ht : t.active = [] ∧ t.ended = [] ∧ t.hired = 0) (hs : serials = []) (hg : gone = [])
  | reserve (hl : t.leader = .ready .reserve) (hp : p₀.Alike p)
      (ht : t.active = [] ∧ t.ended = [] ∧ t.hired = 0) (hs : serials = []) (hg : gone = [])
  | gather (hl : t.leader = .ready .gather) (hs : serials.Perm (List.range room)) (hg : t.ended = gone)
  | leave (hl : t.leader = .ready (.leave (result gone))) (hs : serials.Perm (List.range room))
      (ha : t.active = [])
  | done (hl : t.leader = .done (result gone)) (hs : serials.Perm (List.range room))
      (ha : t.active = [])

/-- **Where a prewarm stands**: its spawns are a crew, what was heard of each of them is what it has met,
and what is left to do is bounded. -/
structure Stands (p₀ : Pool) (n room : Nat) (h : History) (p : Pool) (t : Run) (spawns : List Starter) :
    Prop where
  crew : Crew p₀ p spawns
  strands : (spawns.map fun x => (x.serial, x.strand)).Perm (strands t (h.yields n))
  told : ∀ x ∈ spawns, Spawn.fault? x.strand = (h.heard (n, x.serial + 1)).findSome? (·.fault?)
  silent : ∀ serial, serial ∉ spawns.map (·.serial) → h.heard (n, serial + 1) = []
  creates : h.signals.countP (·.creates) = (spawns.map fun x => (Spawn.asked x.strand).toNat).sum
  turns : h.turns n + due room t.leader + (spawns.map fun x => Spawn.due x.strand).sum ≤ 14 * room + 4
  phase : Phase p₀ p room t (spawns.map (·.serial)) (h.yields n)

namespace Stands

variable {config : Config} {c : Context} {p₀ p q : Pool} {n room count place : Nat} {h h' : History}
  {t : Run} {spawns : List Starter} {sig : Option Signal}

/-- A move of somebody else that leaves the pool alone. -/
theorem stay (hs : Stands p₀ n room h p t spawns) (hy : h'.yields n = h.yields n)
    (hsig : h'.signals = h.signals) (hheard : ∀ place, h'.heard (n, place) = h.heard (n, place))
    (hturns : h'.turns n = h.turns n) : Stands p₀ n room h' p t spawns where
  crew := hs.crew
  strands := hy ▸ hs.strands
  told := fun x hx => by rw [hheard, hs.told x hx]
  silent := fun serial hserial => by rw [hheard, hs.silent serial hserial]
  creates := by rw [hsig, hs.creates]
  turns := by rw [hturns]; exact hs.turns
  phase := hy ▸ hs.phase

/-- A turn of the leader that starts nobody. -/
theorem lead {t' : Run} (hs : Stands p₀ n room h p t spawns) (hg : h.Grows h' n 0 none [])
    (hq : p.Same q) (ha : t'.active = t.active) (hdue : due room t'.leader < due room t.leader)
    (hphase : Phase p₀ q room t' (spawns.map (·.serial)) (h.yields n)) :
    Stands p₀ n room h' q t' spawns := by
  have hy : h'.yields n = h.yields n := by rw [hg.yields, List.append_nil]
  have hsig : h'.signals = h.signals := hg.signals.trans (List.append_nil _)
  have hheard : ∀ place, h'.heard (n, place) = h.heard (n, place) := by
    intro place
    rw [hg.heard]
    split <;> exact List.append_nil _
  refine ⟨hs.crew.same hq, ?_, fun x hx => ?_, fun serial hserial => ?_, ?_, ?_, hy ▸ hphase⟩
  · rw [hy]
    unfold Prewarm.strands
    rw [ha]
    exact hs.strands
  · rw [hheard, hs.told x hx]
  · rw [hheard, hs.silent serial hserial]
  · rw [hsig, hs.creates]
  · have hturns := hs.turns
    rw [hg.turns]
    omega

/-- A turn of the leader that starts all spawns. -/
theorem hire {t' : Run} (hs : Stands p₀ n room h p t []) (hg : h.Grows h' n 0 none [])
    (hq : p.Same q) (hl : t.leader = .ready .reserve) (hl' : t'.leader = .ready .gather)
    (ha : t'.active = Team.enrol 0 (List.replicate room ((), .allocate))) (he : t'.ended = [])
    (hgone : h.yields n = []) :
    Stands p₀ n room h' q t' ((List.range room).map fun serial => ⟨serial, .ready .allocate, none⟩) := by
  have hy : h'.yields n = [] := by rw [hg.yields, List.append_nil, hgone]
  have hsig : h'.signals = h.signals := hg.signals.trans (List.append_nil _)
  have hheard : ∀ serial, h'.heard (n, serial + 1) = [] := by
    intro serial
    rw [hg.heard, hs.silent serial List.not_mem_nil, if_neg (Nat.succ_ne_zero serial)]
    rfl
  have henrol : ∀ k m : Nat, (Team.enrol k (List.replicate m ((), Spawn.Point.allocate)) :
      List (Member Unit Spawn.Point Spawn.Result)).map (fun x => (x.serial, x.strand))
        = (List.range' k m).map fun serial => (serial, .ready .allocate) := by
    intro k m
    induction m generalizing k with
    | zero => rfl
    | succ m ih => simp only [List.replicate_succ, Team.enrol, List.map_cons, List.range'_succ, ih]
  refine ⟨(hs.crew.same hq).hire ?_, ?_, ?_, fun serial _ => hheard serial, ?_, ?_, ?_⟩
  · intro x hx
    obtain ⟨serial, -, rfl⟩ := List.mem_map.1 hx
    exact ⟨rfl, rfl⟩
  · unfold Prewarm.strands
    rw [hy, ha, henrol, ← List.range_eq_range', List.map_map, List.map_nil, List.append_nil]
    exact .refl _
  · intro x hx
    obtain ⟨serial, -, rfl⟩ := List.mem_map.1 hx
    rw [hheard]
    rfl
  · rw [hsig, hs.creates, List.map_map]
    simp [Function.comp_def, Spawn.asked]
  · have hturns := hs.turns
    rw [hl] at hturns
    rw [hg.turns, hl', List.map_map]
    simp only [due, List.map_nil, List.sum_nil, Function.comp_def, Spawn.due, Spawn.Point.due,
      List.map_const', List.length_range, List.sum_replicate_nat] at hturns ⊢
    omega
  · refine .gather hl' ?_ (he.trans hy.symm)
    rw [List.map_map]
    simp [Function.comp_def]

/-- While there are members, the prewarm waits for them. -/
theorem gathering (hs : Stands p₀ n room h p t spawns) (ha : t.active ≠ []) :
    t.leader = .ready .gather ∧ (spawns.map (·.serial)).Perm (List.range room) ∧
      t.ended = h.yields n := by
  cases hs.phase with
  | gate _ _ _ ht => exact absurd ht.1 ha
  | reserve _ _ ht => exact absurd ht.1 ha
  | gather hl hserials hg => exact ⟨hl, hserials, hg⟩
  | leave _ _ hnone => exact absurd hnone ha
  | done _ _ hnone => exact absurd hnone ha

/-- A turn of a spawn. -/
theorem member {job : Spawn.Job} {m : Member Unit Spawn.Point Spawn.Result} {serial : Nat}
    {sc : Scope (Strand Spawn.Point Spawn.Result)} (hs : Stands p₀ n room h p t spawns)
    (ho : t.Ordered) (hm : t.member? serial = some m)
    (ht : m.strand.Turn (Spawn.demand config job) c p sig sc)
    (hg : h.Grows h' n (serial + 1) sig ((t.update m sc.result).ended.drop t.ended.length))
    (hd : p.Distinct) (hjob : job.block = none)
    (hports : m.strand = .ready .allocate → p.ports.allocate?.isSome = true)
    (hfresh : ∀ id port, m.strand = .ready (.register id port) → ∀ r ∈ p.records, r.id ≠ id) :
    ∃ spawns', Stands p₀ n room h' sc.pool (t.update m sc.result) spawns' := by
  obtain ⟨hl, hserials, hended⟩ := hs.gathering (List.ne_nil_of_mem (Team.mem_of_member? hm))
  obtain ⟨others, hbefore, hafter⟩ := strands_update ho hm sc.result (h.yields n)
  obtain ⟨⟨number, _, file⟩, rest, hperm, heq, hrest⟩ := exists_perm_cons (hs.strands.trans hbefore)
  obtain ⟨rfl, rfl⟩ := Prod.mk.inj heq
  obtain ⟨file', hgoes, hcrew⟩ := (hs.crew.perm hperm).turn hd hjob ht hports hfresh
  have hsame : (spawns.map (·.serial)).Perm (number :: rest.map (·.serial)) := hperm.map _
  have hne : ∀ y ∈ rest, y.serial ≠ number := by
    intro y hy he
    have hnodup := hsame.nodup_iff.1 (hserials.nodup_iff.2 List.nodup_range)
    exact (List.nodup_cons.1 hnodup).1 (List.mem_map.2 ⟨y, hy, he⟩)
  have hother : ∀ place, place ≠ number → h'.heard (n, place + 1) = h.heard (n, place + 1) := by
    intro place hplace
    rw [hg.heard, if_neg fun he => hplace (Nat.succ.inj he), List.append_nil]
  refine ⟨⟨number, sc.result, file'⟩ :: rest, hcrew, ?_, fun y hy => ?_, fun place hplace => ?_, ?_,
    ?_, ?_⟩
  · rw [hg.yields]
    exact (hrest.cons _).trans hafter.symm
  · rcases List.mem_cons.1 hy with rfl | hy
    · have htold := hs.told ⟨number, m.strand, file⟩ (hperm.mem_iff.2 (List.mem_cons_self ..))
      rw [hg.heard, if_pos rfl, List.findSome?_append, ← htold]
      show Spawn.fault? sc.result = _
      rw [hgoes.fault]
      cases sig with
      | none => rfl
      | some signal => cases hsig : signal.fault? <;> simp [hsig]
    · rw [hother y.serial (hne y hy)]
      exact hs.told y (hperm.mem_iff.2 (List.mem_cons_of_mem _ hy))
  · have hnot : place ∉ number :: rest.map (·.serial) := hplace
    rw [hother place (List.ne_of_not_mem_cons hnot)]
    exact hs.silent place fun hmem => hnot (hsame.mem_iff.1 hmem)
  · have hcreates := hs.creates
    rw [(hperm.map _).sum_nat] at hcreates
    have hasks : (Spawn.asked sc.result).toNat = (Spawn.asked m.strand).toNat + _ := hgoes.asks
    have hcount : sig.toList.countP (·.creates) = (sig.map (·.creates)).elim 0 (·.toNat) := by
      cases sig with
      | none => rfl
      | some signal => cases hsig : signal.creates <;> simp [hsig]
    rw [hg.signals, List.countP_append, hcount]
    simp only [List.map_cons, List.sum_cons] at hcreates ⊢
    omega
  · have hturns := hs.turns
    rw [(hperm.map _).sum_nat] at hturns
    have hdue : Spawn.due sc.result < Spawn.due m.strand := hgoes.due
    rw [hg.turns, Team.update_leader]
    simp only [List.map_cons, List.sum_cons] at hturns ⊢
    omega
  · refine .gather ((Team.update_leader _ _).trans hl) (hsame.symm.trans hserials) ?_
    rw [hg.yields, ← hended]
    exact ended_update t m sc.result

/-- A turn of the leader. -/
theorem leader {s : Scope Run} (hs : Stands p₀ n room h p t spawns)
    (hroom : room = min count (p₀.config.effectiveMax - p₀.occupancy))
    (ht : t.Turn (conduct config count) c p 0 sig s)
    (hg : h.Grows h' n 0 sig (s.result.ended.drop t.ended.length)) :
    ∃ spawns', Stands p₀ n room h' s.pool s.result spawns' := by
  cases ht with
  | @demand point d out sig s₀ hl hd hturn =>
    simp only [Scope.map, List.drop_length] at hg
    cases point with
    | gate =>
      cases hd
      obtain ⟨rfl, rfl, -, rfl⟩ := Demand.turn_gate hturn
      cases hs.phase with
      | gate _ _ hp hempty hserials hgone =>
        subst hp
        refine ⟨spawns, hs.lead hg ⟨rfl, rfl⟩ rfl ?_ ?_⟩
        · rw [hl]
          exact Nat.lt_succ_self _
        · exact .reserve rfl ⟨rfl, rfl, rfl, rfl, rfl⟩ hempty hserials hgone
      | _ hl' => cases hl.symm.trans hl'
    | leave r =>
      cases hd
      obtain ⟨rfl, rfl, rfl⟩ := Demand.turn_scope hturn
      cases hs.phase with
      | leave hl' hserials hnone =>
        cases hl.symm.trans hl'
        have hleave : ∃ q, p.Same q ∧ Prewarm.leave (result (h.yields n)) p
            = ⟨q, [], .done (result (h.yields n))⟩ := by
          unfold Prewarm.leave
          split
          · exact ⟨p, ⟨rfl, rfl⟩, rfl⟩
          · exact ⟨{ p with gateHeld := false }, ⟨rfl, rfl⟩, rfl⟩
        obtain ⟨q, hq, hleave⟩ := hleave
        simp only [Scope.map, hleave]
        refine ⟨spawns, hs.lead hg hq rfl ?_ (.done rfl hserials hnone)⟩
        rw [hl]
        exact Nat.lt_succ_self 0
      | _ hl' => cases hl.symm.trans hl'
    | _ => cases hd
  | @hire point body hl hd =>
    cases point with
    | reserve =>
      cases hd
      cases hs.phase with
      | reserve hl' halike hempty hserials hgone =>
        obtain ⟨hactive, hended, hhired⟩ := hempty
        have hsame : Prewarm.room count p = room := by
          have hocc : p.occupancy = p₀.occupancy := by
            unfold Pool.occupancy Pool.liveCount Pool.liveRecords
            rw [halike.records, halike.pending]
          unfold Prewarm.room
          rw [hocc, halike.config, hroom]
        obtain rfl := List.map_eq_nil_iff.1 hserials
        simp only [Scope.map, List.drop_length] at hg
        simp only [Scope.map, Prewarm.reserve, hsame]
        split
        · next hzero =>
          refine ⟨[], hs.lead hg ⟨rfl, rfl⟩ (by simp [hactive, Team.enrol]) ?_ ?_⟩
          · rw [hl]
            simp only [Strand.ofNext, due]
            omega
          · refine .leave ?_ (by simp [hzero]) (by simp [hactive, Team.enrol])
            have hnothing : result [] = .ok 0 := result_eq_ok_iff.2 ⟨rfl, fun e he => by cases he⟩
            rw [hgone, hnothing]
            rfl
        · exact ⟨_, hs.hire hg ⟨rfl, rfl⟩ hl rfl (by simp [hactive, hhired]) hended hgone⟩
      | _ hl' => cases hl.symm.trans hl'
    | _ => cases hd
  | @join point next hl hd hnone =>
    cases point with
    | gather =>
      cases hd
      cases hs.phase with
      | gather hl' hserials hended =>
        simp only [List.drop_nil] at hg
        refine ⟨spawns, hs.lead hg ⟨rfl, rfl⟩ rfl ?_ ?_⟩
        · rw [hl]
          exact Nat.lt_succ_self 1
        · rw [← hended]
          exact .leave rfl hserials hnone
      | _ hl' => cases hl.symm.trans hl'
    | _ => cases hd

end Stands

end Prewarm

/-! ## The machine -/

namespace Machine

variable {config : Config} {seed : BitVec 128} {pool : Pool} {now : Instant} {h₁ h : History}
  {m₁ m m' : Machine} {count room : Nat} {move : Move} {notes : List Note}

/-- A prewarm at its start. -/
theorem Reaches.stands_start (hp : Pool.create config seed = .ok pool)
    (hr : (ofPool pool now).Reaches h₁ m₁) (hf : h₁.Fresh) (hq : m₁.quiet = true)
    (room : Nat) (n : Nat) :
    Prewarm.Stands m₁.pool n room [] m₁.pool (Prewarm.start m₁.pool.config) [] := by
  have hheld := hr.holding_of_calm (hr.calm_of_quiet hq)
  have hempty : ∀ config, (Prewarm.start config).active = [] ∧ (Prewarm.start config).ended = [] ∧
      (Prewarm.start config).hired = 0 := fun _ => ⟨rfl, rfl, rfl⟩
  refine ⟨.nil (hr.unclaimed_of_held hp hf hheld), .nil, fun x hx => (by cases hx), fun _ _ => rfl, rfl,
    ?_, ?_⟩
  · show 0 + Prewarm.due room (Strand.ready _) + 0 ≤ _
    split
    · simp only [Prewarm.due]
      omega
    · simp only [Prewarm.due]
      omega
  · cases hc : m₁.pool.config.parallelism with
    | multi => exact .reserve (by simp [Prewarm.start, Team.start, hc]) (.refl _) (hempty _) rfl rfl
    | single => exact .gate (by simp [Prewarm.start, Team.start, hc]) hc rfl (hempty _) rfl rfl

/-- **Every move of a machine in which a prewarm goes on and nothing else does keeps what is known of
it.** -/
theorem Reaches.stands_next (hp : Pool.create config seed = .ok pool)
    (hr : (ofPool pool now).Reaches h₁ m) (hf : h₁.Fresh) (hn : m.next move = some (m', notes))
    {n : Nat} (hsole : m.Sole n) (hmove : move.starts = false) {p₀ : Pool}
    (hroom : room = min count (p₀.config.effectiveMax - p₀.occupancy)) {t : Prewarm.Run}
    (ha : m.activity? n = some (.prewarm count t)) {spawns : List Starter}
    (hs : Prewarm.Stands p₀ n room h m.pool t spawns) : ∃ t' spawns',
      m'.activity? n = some (.prewarm count t') ∧
        Prewarm.Stands p₀ n room (h ++ [(m, move)]) m'.pool t' spawns' := by
  have ho := hr.ordered_ofPool
  obtain ⟨b, hb⟩ := exists_activity (next_posts ho hn).1
    (Nat.lt_of_lt_of_le (activity?_lt ho ha) (Machine.started_le hn))
  have hlt := activity?_lt ho ha
  cases next_course ho hn hb with
  | order o he => omega
  | fire he => omega
  | stay hb' hk =>
    cases ha.symm.trans hb'
    rcases (next_sole ho hsole hn hmove).2 with hmover | ⟨hpool, hsig⟩
    · exact absurd hmover hk
    · obtain ⟨hy, hsignals, hheard, hturns⟩ := History.same_of_stay (h := h) hk hsig
      rw [hpool]
      exact ⟨t, spawns, hb, hs.stay hy hsignals hheard hturns⟩
  | @turn place a sig s ha' hk hturn hpool hnotes htalk =>
    cases ha.symm.trans ha'
    cases hturn with
    | @prewarm _ _ _ s hturn =>
      have hg := History.grows (h := h) ha hk hn hb
      rw [htalk] at hg
      rw [hpool]
      have hot : t.Ordered := ho.members _ (activity?_mem ha)
      cases place with
      | zero =>
        obtain ⟨spawns', hs'⟩ := hs.leader hroom hturn hg
        exact ⟨_, spawns', hb, hs'⟩
      | succ serial =>
        cases hturn with
        | @member _ x _ sc hx hturn =>
          have hpost : ((n, serial + 1), Post.spawn x.strand) ∈ m.posts := by
            refine mem_posts.2 ⟨_, activity?_mem ha, ?_⟩
            obtain ⟨rfl, -⟩ := Team.member?_split hot hx
            exact List.mem_cons_of_mem _ (List.mem_map.2 ⟨x, Team.mem_of_member? hx, rfl⟩)
          have hports : x.strand = .ready .allocate → m.pool.ports.allocate?.isSome = true := by
            intro hready
            refine hr.allocates hp hf (k := (n, serial + 1)) (mem_hands.2 ⟨_, hpost, ?_⟩)
            rw [hready]
            exact List.mem_singleton_self _
          have hfresh : ∀ id port, x.strand = .ready (.register id port) →
              ∀ r ∈ m.pool.records, r.id ≠ id := by
            intro id port hready r hrec
            have hmade : Hand.made id port ∈ m.things := by
              refine List.mem_map.2 ⟨((n, serial + 1), .made id port), mem_hands.2 ⟨_, hpost, ?_⟩, rfl⟩
              rw [hready]
              exact List.mem_singleton_self _
            exact (hr.books hp hf).named.ne_of_made hmade hrec
          obtain ⟨spawns', hs'⟩ :=
            hs.member hot hx hturn hg (hr.capped hp).distinct rfl hports hfresh
          exact ⟨_, spawns', hb, hs'⟩

/-- **As long as nothing starts beside a prewarm that found nothing under way**, it makes all turns, and
what is known of it stays so. -/
theorem Reaches.prewarming (hp : Pool.create config seed = .ok pool)
    (hr₁ : (ofPool pool now).Reaches h₁ m₁) (hq : m₁.quiet = true)
    (hr : (m₁.start (.ofOrder m₁.pool.config (.prewarm count))).Reaches h m)
    (hf : (h₁ ++ (m₁, .order (.prewarm count)) :: h).Fresh)
    (hmove : ∀ x ∈ h, x.2.starts = false)
    (hroom : room = min count (m₁.pool.config.effectiveMax - m₁.pool.occupancy)) :
    m.Sole m₁.started ∧ ∃ t spawns, m.activity? m₁.started = some (.prewarm count t) ∧
      Prewarm.Stands m₁.pool m₁.started room h m.pool t spawns := by
  induction hr with
  | start =>
    exact ⟨hr₁.sole_of_quiet hq _, _, [], activity?_started hr₁.ordered_ofPool _,
      hr₁.stands_start hp hf.of_prefix hq room _⟩
  | @next h m m' move notes hr hn ih =>
    have hf' : (h₁ ++ (m₁, .order (.prewarm count)) :: h).Fresh := by
      rw [← List.cons_append, ← List.append_assoc] at hf
      exact History.fresh_of_append hf
    have hall : (ofPool pool now).Reaches (h₁ ++ (m₁, .order (.prewarm count)) :: h) m := by
      have hn₁ : m₁.next (.order (.prewarm count))
        = some (m₁.start (.ofOrder m₁.pool.config (.prewarm count)), []) := rfl
      have hall := (hr₁.next hn₁).append hr
      rwa [List.append_assoc] at hall
    obtain ⟨hsole, t, spawns, ha, hs⟩ :=
      ih hf' fun x hx => hmove x (List.mem_append_left _ hx)
    have hstarts := hmove (m, move) (List.mem_append_right _ (List.mem_singleton_self _))
    exact ⟨(next_sole hall.ordered_ofPool hsole hn hstarts).1,
      hall.stands_next hp hf' hn hsole hstarts hroom ha hs⟩

end Machine

end SandboxPool
