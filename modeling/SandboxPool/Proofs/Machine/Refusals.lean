import SandboxPool.Proofs.HandedOut

/-!
# Acquisitions that are refused for want of room

An acquisition fails for many reasons, but it says that no sandbox is available only where it has
picked none, or has not reserved the start of the one that is shared: no other error that it carries
along says so (`Acquire.Point.Tells`). At both points it could not reserve a start
(`Machine.Reaches.refused_at`).
-/

namespace SandboxPool

variable {config : Config} {p : Pool} {block : String} {error : PoolError}

/-- The error says that no sandbox is available. -/
def PoolError.isFull : PoolError → Bool
  | .noSandboxAvailable _ => true
  | _ => false

/-- The start of a sandbox may fail of the error. -/
def PoolError.isStart : PoolError → Bool
  | .portsExhausted _ | .daemon _ _ | .invalidTransition _ _ | .notFound _ => true
  | _ => false

theorem PoolError.isFull_of_isStart (h : error.isStart = true) : error.isFull = false := by
  cases error with
  | noSandboxAvailable max => cases h
  | _ => rfl

theorem Record.isStart_of_move {r : Record} {target : State} (h : r.move target = .error error) :
    error.isStart = true := by
  unfold move State.check at h
  cases ha : r.state.admits target with
  | true =>
    simp only [ha, if_true] at h
    cases h
  | false =>
    simp only [ha, Bool.false_eq_true, if_false] at h
    cases h
    rfl

theorem Spawn.isStart_of_bind {r : Record} (h : bind block r p = .error error) :
    error.isStart = true := by
  unfold bind at h
  cases hm : r.move .running with
  | error e =>
    rw [hm] at h
    cases h
    exact Record.isStart_of_move hm
  | ok running =>
    rw [hm] at h
    cases h

/-! ## What errors say -/

/-- A result that is an error says something else. -/
def Other {α : Type} : Except PoolError α → Prop
  | .error e => e.isFull = false
  | .ok _ => True

/-- The error that a spawn carries along says something else. -/
def Spawn.Point.Tells : Spawn.Point → Prop
  | .discard _ error _ => error.isFull = false
  | _ => True

/-- The error that an acquisition carries along says something else. -/
def Acquire.Point.Tells : Acquire.Point → Prop
  | .failed error | .retire _ error _ | .replace error | .leave error => error.isFull = false
  | .cold s | .shared s => s.Tells
  | _ => True

/-- An acquisition may find at the point that there is no room. -/
def Acquire.Point.seeks : Acquire.Point → Bool
  | .pick | .reserve => true
  | _ => false

/-- A result that is an error has the property. -/
def Failing {α : Type} (P : PoolError → Prop) : Except PoolError α → Prop
  | .error e => P e
  | .ok _ => True

/-- The error that a spawn carries along has the property. -/
def Spawn.Point.Carries (P : PoolError → Prop) : Spawn.Point → Prop
  | .discard _ error _ => P error
  | _ => True

/-- **What a spawn fails of.** -/
theorem Spawn.ensures_carries {P : PoolError → Prop} (hP : ∀ e : PoolError, e.isStart = true → P e)
    {job : Job} {s : Point} (hs : s.Carries P) : (demand config job s).Ensures
    fun next => (Strand.ofNext next).Keeps (Point.Carries P) (Failing P) := by
  cases s with
  | allocate =>
    refine Demand.ensures_scope fun _ p => ?_
    unfold allocate
    split
    · exact hP _ rfl
    · trivial
  | create spec port =>
    refine Demand.ensures_create fun r => ?_
    cases r <;> trivial
  | giveBack port cause => exact Demand.ensures_scope fun _ _ => hP _ rfl
  | register id port => exact Demand.ensures_scope fun _ _ => trivial
  | start id port =>
    refine Demand.ensures_act fun r => ?_
    cases r with
    | error cause => exact hP _ rfl
    | ok u => cases job.kind <;> trivial
  | probe id port =>
    refine Demand.ensures_health fun r => ?_
    cases r with
    | error cause => exact hP _ rfl
    | ok u => trivial
  | discard id error t => exact (Demand.ensures_true _).into (fun _ _ => hs) fun _ _ => hs
  | publish id =>
    refine Demand.ensures_scope fun _ p => ?_
    unfold publish
    split
    · exact hP _ rfl
    · split
      · next e hm => exact hP _ (Record.isStart_of_move hm)
      · simp only
        split
        · trivial
        · split
          · next e hb => exact hP _ (isStart_of_bind hb)
          · trivial

/-- A spawn has its reserved start: whatever it fails of, it is not for want of room. -/
theorem Spawn.ensures_tells {job : Job} {s : Point} (hs : s.Tells) :
    (demand config job s).Ensures fun next => (Strand.ofNext next).Keeps Point.Tells Other := by
  have hpoint : ∀ t : Point, t.Carries (·.isFull = false) ↔ t.Tells := fun t => by
    cases t <;> exact Iff.rfl
  have hcarries : (demand config job s).Ensures fun next =>
      (Strand.ofNext next).Keeps (Point.Carries (·.isFull = false)) (Failing (·.isFull = false)) :=
    ensures_carries (fun _ => PoolError.isFull_of_isStart) ((hpoint s).2 hs)
  refine ⟨fun ht b hb => ?_⟩
  have hkeeps := hcarries.of_turn ht b hb
  cases b with
  | goto t => exact (hpoint t).1 hkeeps
  | done r => cases r <;> exact hkeeps
  | panic message => trivial

/-- **Only where it seeks a place does an acquisition find that there is none.** -/
theorem Acquire.ensures_tells {a : Point} (ha : a.Tells) :
    (demand config block a).Ensures fun next => (Strand.ofNext next).Keeps Point.Tells
      fun r => a.seeks = true ∨ Other r := by
  cases a with
  | pick =>
    refine Demand.ensures_scope fun _ p => ?_
    unfold pick
    split
    · unfold take
      split <;> exact .inl rfl
    · trivial
    · unfold coldOr
      split
      · exact .inl rfl
      · trivial
  | unpause id port =>
    refine Demand.ensures_act fun r => ?_
    cases r with
    | error cause => exact rfl
    | ok u => trivial
  | probe id port =>
    refine Demand.ensures_health fun r => ?_
    cases r with
    | error cause => exact rfl
    | ok u => trivial
  | rebind id =>
    refine Demand.ensures_scope fun _ p => ?_
    unfold rebind
    split
    · exact rfl
    · simp only
      split
      · exact rfl
      · split
        · next e hm => exact PoolError.isFull_of_isStart (Record.isStart_of_move hm)
        · split
          · next e hb => exact PoolError.isFull_of_isStart (Spawn.isStart_of_bind hb)
          · exact .inr trivial
  | failed error =>
    refine Demand.ensures_scope fun _ p => ?_
    unfold failed
    cases error <;> exact ha
  | retire id error t => exact (Demand.ensures_true _).into (fun _ _ => ha) fun _ _ => ha
  | replace error =>
    refine Demand.ensures_scope fun _ p => ?_
    unfold coldOr
    split
    · exact .inr ha
    · trivial
  | cold s => exact (Spawn.ensures_tells ha).into (fun _ h => h) fun _ h => .inr h
  | gate => exact Demand.ensures_gate trivial
  | find =>
    refine Demand.ensures_scope fun _ p => ?_
    unfold find
    split <;> trivial
  | reserve =>
    refine Demand.ensures_scope fun _ p => ?_
    unfold reserve leave
    split
    · exact .inl rfl
    · trivial
  | shared s =>
    refine (Spawn.ensures_tells ha).into (fun _ h => h) fun r h => ?_
    cases r with
    | error e => exact h
    | ok snap => trivial
  | join id =>
    refine Demand.ensures_scope fun _ p => ?_
    unfold join leave
    split
    · exact .inr rfl
    · simp only
      split <;> exact .inr trivial
  | leave error => exact Demand.ensures_scope fun _ _ => .inr ha

/-! ## No room -/

/-- There is nothing to pick: no sandbox that nobody has claimed is idle or paused, and no start can be
reserved. -/
structure Pool.Spent (p : Pool) : Prop where
  idle : ∀ r ∈ p.unclaimed, r.selectable .idle = false
  dormant : ∀ r ∈ p.unclaimed, r.selectable .dormant = false
  occupied : p.config.effectiveMax ≤ p.occupancy

namespace Acquire

theorem spent_of_pick {max : Nat}
    (h : (pick block c p).result = .done (.error (.noSandboxAvailable max))) : p.Spent := by
  unfold pick at h
  split at h
  · next r _ _ =>
    unfold take at h
    split at h
    · next e hb =>
      cases h
      cases Spawn.isStart_of_bind hb
    · cases h
  · cases h
  · next hidle hdormant =>
    refine ⟨candidate?_eq_none.1 hidle, candidate?_eq_none.1 hdormant, ?_⟩
    unfold coldOr Pool.reserve? at h
    split at h
    · next hno =>
      split at hno
      · cases hno
      · next hlt => exact Nat.le_of_not_lt hlt
    · cases h

theorem occupied_of_reserve {max : Nat}
    (h : (reserve p).result = .done (.error (.noSandboxAvailable max))) : 1 ≤ p.occupancy := by
  unfold reserve Pool.reserve? at h
  split at h
  · next hno =>
    split at hno
    · cases hno
    · next hlt => exact Nat.le_of_not_lt hlt
  · cases h

end Acquire

/-! ## The machine -/

namespace Machine

variable {pool : Pool} {now : Instant} {h : History} {m m' : Machine} {move : Move}
  {notes : List Note} {k : Key} {x : Post} {a : Acquire.Point} {max : Nat}

/-- The error that an acquisition on its way carries along says something else. -/
theorem Reaches.tells (hr : (ofPool pool now).Reaches h m) (hx : (k, x) ∈ m.posts)
    (ha : x.acquiring? = some a) : a.Tells := by
  induction hr generalizing k x a with
  | start =>
    rw [posts_ofPool] at hx
    cases hx
  | @next h m m' move notes hr hn ih =>
    have hstart : ∀ config : Config, (Acquire.start config).Tells := by
      intro config
      unfold Acquire.start
      split <;> trivial
    cases next_post hr.ordered_ofPool hn hx with
    | stay hx => exact ih hx ha
    | order o _ hx =>
      rw [acquiring?_ofOrder hx ha]
      exact hstart _
    | turn hk hold hp ht hx =>
      obtain ⟨-, out, hfollows⟩ := ht.follows hx ha
      rcases hfollows with rfl | ⟨block, a₀, s, ha₀, hturn, -, hland⟩
      · exact hstart _
      · have htells : a₀.Tells := by
          rcases hold with hold | ⟨id, g, rfl⟩
          · exact ih hold ha₀
          · cases ha₀
        cases hres : s.result with
        | none =>
          rw [hres] at hland
          cases hland
          exact htells
        | some next =>
          rw [hres] at hland
          exact Strand.Keeps.of_point? ((Acquire.ensures_tells htells).of_turn hturn next hres) hland

/-- **Where an acquisition finds that there is no room.** It could not reserve a start there: it has
picked nothing where every block has a sandbox of its own, and is behind the gate where blocks share
one. -/
theorem Reaches.refused_at (hr : (ofPool pool now).Reaches h m) (hn : m.next move = some (m', notes))
    {block : String} (ha : m.acquisition? k = some (block, a))
    (he : m'.upshot? k = some (.error (.noSandboxAvailable max))) :
    m.mover move = k ∧ (a = .pick ∧ m.pool.Spent ∨ a = .reserve ∧ 1 ≤ m.pool.occupancy) := by
  have ho := hr.ordered_ofPool
  obtain ⟨x, hx, hxa⟩ := mem_of_acquisition? ha
  obtain ⟨y, hy, hye⟩ := mem_of_upshot? he
  by_cases hk : m.mover move = k
  · subst hk
    refine ⟨rfl, ?_⟩
    obtain ⟨sig, e, after, ht, hafter⟩ := turned_of_mover ho hn hx
    obtain ⟨out, sig₀, s, hturn, -, hupshot⟩ := ht.attains hxa
    have hres := hupshot _ (hafter y hy) _ hye
    have htells := hr.tells hx (Post.acquiring?_of_acquisition? hxa)
    rcases (Acquire.ensures_tells htells).of_turn hturn _ hres with hseeks | hother
    · cases a with
      | pick =>
        obtain ⟨-, -, rfl⟩ := Demand.turn_scope hturn
        exact .inl ⟨rfl, Acquire.spent_of_pick (Option.some.inj hres)⟩
      | reserve =>
        obtain ⟨-, -, rfl⟩ := Demand.turn_scope hturn
        exact .inr ⟨rfl, Acquire.occupied_of_reserve (Option.some.inj hres)⟩
      | _ => cases hseeks
    · cases hother
  · -- an acquisition that does not move has come to nothing yet
    rw [post_unique (next_posts ho hn).1 hy (post_next ho hn hx hk),
      Post.upshot?_of_acquisition? hxa] at hye
    cases hye

end Machine

end SandboxPool
