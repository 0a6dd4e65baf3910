import SandboxPool.Proofs.Execution.Strides
import SandboxPool.Proofs.Machine.Endings
import SandboxPool.Proofs.Machine.Models
import SandboxPool.Proofs.Pool.Users

/-!
# The sandboxes that an execution uses

A block uses a sandbox from its acquisition to the end of its release (`BlockRun.Point.uses?`), and an
execution uses the sandboxes of its blocks (`Execution.users`). However the block goes on, with its
runner's outcome, its error or its panic, and whatever the daemon answers, every turn of it is
`Pool.Rests` where every block has a sandbox of its own (`BlockRun.rests`), and `Pool.Shares` where
blocks share one (`BlockRun.shares`). So is every stride of an execution, for one of its blocks
(`Execution.Stride.uses`).
-/

namespace SandboxPool

variable {config : Config} {c : Context} {p : Pool} {out : Bool} {sig : Option Signal}
  {block id : String}

/-! ## Processes that use no sandbox -/

section Hands

theorem Termination.hand_uses {before : List Hand} (hb : ∀ t ∈ before, t.uses = false) (t : Point) :
    ∀ x ∈ hand before id t, x.uses = false := by
  cases t with
  | claim => exact hb
  | expire g => simp [hand]
  | _ => simp [hand, Hand.uses]

theorem Spawn.hand_uses (out : Bool) (s : Point) : ∀ x ∈ hand out s, x.uses = false := by
  cases s with
  | discard id error t => exact Termination.hand_uses (by simp [Hand.uses]) t
  | _ => simp [hand, Hand.uses]

theorem Acquire.hand_uses (out : Bool) (a : Point) : ∀ x ∈ hand out a, x.uses = false := by
  cases a with
  | failed error => cases error <;> simp [hand, Hand.uses]
  | retire id error t => exact Termination.hand_uses (by simp [Hand.uses]) t
  | cold s => exact Spawn.hand_uses out s
  | shared s =>
    intro x hx
    rcases List.mem_append.1 hx with hx | hx
    · exact Spawn.hand_uses out s x hx
    · obtain rfl := List.mem_singleton.1 hx
      rfl
  | _ => simp [hand, Hand.uses]

theorem Strand.hand_uses {σ α : Type} {f : Bool → σ → List Hand} {g : α → List Hand}
    (hf : ∀ out point, ∀ x ∈ f out point, x.uses = false) {s : Strand σ α}
    (hg : ∀ a, s = .done a → ∀ x ∈ g a, x.uses = false) : ∀ x ∈ s.hand f g, x.uses = false := by
  cases s with
  | ready point => exact hf false point
  | waiting point => exact hf true point
  | done a => exact hg a rfl
  | panicked message => exact fun x hx => by cases hx

end Hands

/-- A termination takes no sandbox into use and gives none back. -/
theorem Termination.level {t : Point} {s : Scope (Option (Next Point Result))}
    (h : (demand id t).Turn c p out sig s) : p.Level s.pool := by
  have hhand : ∀ t, ∀ x ∈ hand [] id t, x.uses = false := hand_uses (by simp)
  exact (sound_alone p.config id rfl h).level (hhand t)
    (Strand.hand_uses (fun _ => hhand) fun _ _ _ hx => by cases hx)

/-! ## Acquiring -/

namespace Acquire

variable {a : Point} {s : Scope (Option (Next Point Result))}

/-- As long as an acquisition has not got a sandbox it takes none into use. -/
theorem level (h : (demand p.config block a).Turn c p out sig s)
    (hno : ∀ snap, s.result ≠ some (.done (.ok snap))) : p.Level s.pool := by
  refine (sound p.config block rfl h).level (hand_uses out a) (Strand.hand_uses hand_uses ?_)
  intro r hr x hx
  cases r with
  | error e => cases hx
  | ok snap =>
    obtain ⟨pool, effects, result⟩ := s
    refine absurd ?_ (hno snap)
    cases result with
    | none => cases hr
    | some next =>
      cases next with
      | done r =>
        cases hr
        rfl
      | _ => cases hr

/-- Where blocks share a sandbox, an acquisition gets it when it joins. -/
theorem join_of_done (ha : a.Fits .single) (h : (demand config block a).Turn c p out sig s)
    {snap : Snapshot} (hr : s.result = some (.done (.ok snap))) : ∃ id, a = .join id := by
  cases a with
  | join id => exact ⟨id, rfl⟩
  | gate =>
    obtain ⟨-, -, -, rfl⟩ := Demand.turn_gate h
    cases hr
  | find =>
    obtain ⟨-, -, rfl⟩ := Demand.turn_scope h
    simp only [Scope.map, find] at hr
    split at hr <;> cases hr
  | reserve =>
    obtain ⟨-, -, rfl⟩ := Demand.turn_scope h
    simp only [Scope.map, reserve] at hr
    split at hr <;> cases hr
  | shared t =>
    obtain ⟨s₀, -, rfl⟩ := Demand.turn_map h
    obtain ⟨next, -, hnext⟩ := Option.map_eq_some_iff.1 hr
    cases next with
    | done r => cases r <;> cases hnext
    | _ => cases hnext
  | leave error =>
    obtain ⟨-, -, rfl⟩ := Demand.turn_scope h
    cases hr
  | _ => cases ha

/-- Whoever has joined a sandbox is counted by its record. -/
theorem join_shares {snap : Snapshot} (h : (join block id p).result = .done (.ok snap)) :
    p.Shares none (join block id p).pool (some snap.id) := by
  unfold join at h ⊢
  cases hf : p.find? id with
  | none =>
    rw [hf] at h
    cases h
  | some r =>
    obtain ⟨hr, rfl⟩ := Pool.mem_of_find? hf
    simp only [hf] at h ⊢
    by_cases hs : r.state = .idle
    · rw [if_pos hs] at h ⊢
      cases h
      refine .join hr block ?_
      rw [if_pos hs]
      rfl
    · rw [if_neg hs] at h ⊢
      cases h
      refine .join hr block ?_
      rw [if_neg hs]
      rfl

end Acquire

/-! ## Blocks -/

/-- The sandbox that a block uses at a point. There is no release that comes to the end of a pause. -/
def BlockRun.Point.uses? : BlockRun.Point → Option String
  | .run _ s | .retire _ s _ _ | .conclude _ s _ => some s.id
  | .release _ _ (.discard _ (.expire _)) => none
  | .release _ id _ => some id
  | _ => none

/-- The sandbox that a block uses behind a turn. -/
def BlockRun.usedBehind (b : Point) (s : Scope (Option (Next Point BlockResult))) : Option String :=
  (Strand.land b s.result).point?.bind (·.uses?)

theorem BlockRun.uses?_discard {ran : BlockResult} {cause : DaemonError} {t : Termination.Point}
    (ht : ∀ g, t ≠ .expire g) : (Point.release ran id (.discard cause t)).uses? = some id := by
  cases t with
  | expire g => exact absurd rfl (ht g)
  | _ => rfl

/-- The sandbox that a block uses behind a turn of its release. -/
def Release.usedBehind (ran : BlockResult) (id : String) (r : Point)
    (s : Scope (Option (Next Point Result))) : Option String :=
  (Strand.land r s.result).point?.bind fun r => (BlockRun.Point.release ran id r).uses?

namespace Release

variable {r : Point} {ran : BlockResult} {s : Scope (Option (Next Point Result))}

/-- A release that does not go on has found no sandbox that runs, or one that is doomed. -/
theorem check_rests (hd : p.Distinct) : p.Rests (some id) (check id p).pool
    (usedBehind ran id .check ((check id p).map some)) := by
  unfold check
  cases hf : p.find? id with
  | none =>
    exact (Pool.Level.refl p).rests_none fun x hx _ hid => absurd hid (Pool.find?_eq_none.1 hf x hx)
  | some r =>
    obtain ⟨hr, rfl⟩ := Pool.mem_of_find? hf
    simp only
    split
    · next hc =>
      refine (Pool.Level.refl p).rests_none fun x hx _ hid => ⟨x, hx, hid, .inr ?_⟩
      simpa using hc
    · split
      · next e hcheck =>
        refine (Pool.Level.refl p).rests_none fun x hx hs hid => ?_
        obtain rfl := hd.eq_of_id hr hx hid
        rw [hs] at hcheck
        cases hcheck
      · exact (Pool.Level.refl p).rests _

/-- A release that could not pause the sandbox has it terminated. -/
theorem discard_rests (hd : p.Distinct) {cause : DaemonError} {t : Termination.Point}
    {s : Scope (Option (Next Termination.Point Termination.Result))}
    (h : (Termination.demand id t).Turn c p out sig s) :
    p.Rests (BlockRun.Point.release ran id (.discard cause t)).uses? s.pool
      (usedBehind ran id (.discard cause t) (s.map fun next => next.map
        (.into (.discard cause) fun _ => .done (.error (.daemon .pause cause))))) := by
  have hlevel := Termination.level h
  refine ⟨fun x hx hs => .inr (hlevel.running x hx hs), fun x hx hs ho => ?_⟩
  have hnot : ∀ g, t ≠ .expire g := by
    rintro g rfl
    cases ho
  rw [BlockRun.uses?_discard hnot] at ho
  obtain rfl := Option.some.inj ho
  obtain ⟨r₀, hr₀, hid, -⟩ := hlevel.running x hx hs
  rcases Termination.goes_or (hid ▸ hd.find?_of_mem hr₀) hnot h with ⟨t', ht', hnot'⟩ | ⟨-, hdoomed⟩
  · refine .inl ?_
    have hland := Strand.point?_land_into (C := Point.discard cause)
      (k := fun _ => (.done (.error (.daemon .pause cause)) : Next Point Result)) ht'
    simp only [usedBehind, Scope.map] at hland ⊢
    rw [hland, Option.bind_some, BlockRun.uses?_discard hnot']
  · exact .inr hdoomed

/-- A release that parks the sandbox leaves it paused, unless it is terminated or claimed for that. -/
theorem park_rests (hd : p.Distinct)
    (hw : ∀ id, p.claim? id = some .waking → ∃ r ∈ p.records, r.id = id ∧ r.state = .dormant) :
    p.Rests (some id) (park id c p).pool (usedBehind ran id .park ((park id c p).map some)) := by
  unfold park
  cases hf : p.find? id with
  | none =>
    exact (Pool.Level.refl p).rests_none fun x hx _ hid => absurd hid (Pool.find?_eq_none.1 hf x hx)
  | some r =>
    obtain ⟨hr, rfl⟩ := Pool.mem_of_find? hf
    have hparked : ∀ {q : Pool} {r' : Record}, q.records = (p.put r').records → r'.id = r.id →
        r'.state = .dormant → p.Rests (some r.id) q none := by
      intro q r' hq hid hdormant
      have hold : ∀ x ∈ q.records, x.state = .running → x ∈ p.records ∧ x.id ≠ r.id := by
        intro x hx hs
        rcases (Pool.mem_put hq hr hid).1 hx with rfl | hold
        · rw [hs] at hdormant
          cases hdormant
        · exact hold
      refine ⟨fun x hx hs => .inr ⟨x, (hold x hx hs).1, rfl, hs⟩, fun x hx hs he => ?_⟩
      exact absurd (Option.some.inj he).symm (hold x hx hs).2
    simp only
    split
    · next hno =>
      refine (Pool.Level.refl p).rests_none fun x hx hs hid => ?_
      obtain rfl := hd.eq_of_id hr hx hid
      rw [hs] at hno
      obtain ⟨claim, hclaim⟩ := Option.isSome_iff_exists.1 (by simpa using hno)
      cases claim with
      | terminating => exact ⟨x, hx, rfl, .inr hclaim⟩
      | waking =>
        obtain ⟨r₀, hr₀, hid₀, hdormant⟩ := hw _ hclaim
        obtain rfl := hd.eq_of_id hx hr₀ hid₀
        rw [hs] at hdormant
        cases hdormant
    · split
      · exact hparked rfl rfl rfl
      · exact hparked rfl rfl rfl

/-- Where every block has a sandbox of its own, a release goes on, or the sandbox does not run any
more, or is doomed. -/
theorem rests (hd : p.Distinct)
    (hw : ∀ id, p.claim? id = some .waking → ∃ r ∈ p.records, r.id = id ∧ r.state = .dormant)
    (hr : r.Fits .multi) (h : (demand id r).Turn c p out sig s) :
    p.Rests (BlockRun.Point.release ran id r).uses? s.pool (usedBehind ran id r s) := by
  cases r with
  | check =>
    obtain ⟨-, -, rfl⟩ := Demand.turn_scope h
    exact check_rests hd
  | pause =>
    rcases Demand.turn_act h with ⟨-, -, rfl⟩ | ⟨reply, -, -, rfl⟩
    · exact (Pool.Level.refl p).rests _
    · cases reply <;> exact (Pool.Level.refl p).rests _
  | discard cause t =>
    obtain ⟨s₀, h₀, rfl⟩ := Demand.turn_map h
    exact discard_rests hd h₀
  | park =>
    obtain ⟨-, -, rfl⟩ := Demand.turn_scope h
    exact park_rests hd hw
  | drop => cases hr

/-- Where blocks share a sandbox, a release takes its block from those that the record counts. -/
theorem shares (hd : p.Distinct) (hr : r.Fits .single) (h : (demand id r).Turn c p out sig s) :
    p.Shares (BlockRun.Point.release ran id r).uses? s.pool (usedBehind ran id r s) := by
  cases r with
  | drop =>
    obtain ⟨-, -, rfl⟩ := Demand.turn_scope h
    show p.Shares (some id) (drop id p).pool _
    unfold drop
    cases hf : p.find? id with
    | none => exact .gone fun x hx hid => absurd hid (Pool.find?_eq_none.1 hf x hx)
    | some r =>
      obtain ⟨hr, rfl⟩ := Pool.mem_of_find? hf
      simp only
      split
      · next hend =>
        refine .gone fun x hx hid => ?_
        obtain rfl := hd.eq_of_id hr hx hid
        simpa using hend
      · next hlive => exact .drop hr (by simpa using hlive) rfl
  | _ => cases hr

end Release

namespace BlockRun

variable {b : Point} {s : Scope (Option (Next Point BlockResult))}

/-- A block that acquires has got nothing yet, or its acquisition has just come to a sandbox. -/
theorem acquire_or {since : Instant} {a : Acquire.Point} (hp : p.config = config)
    (h : (demand config block (.acquire since a)).Turn c p out sig s) :
    p.Level s.pool ∧ usedBehind (.acquire since a) s = none ∨
      ∃ s₀ snap, (Acquire.demand config block a).Turn c p out sig s₀ ∧ s.pool = s₀.pool ∧
        s₀.result = some (.done (.ok snap)) ∧ usedBehind (.acquire since a) s = some snap.id := by
  subst hp
  obtain ⟨s₀, h₀, rfl⟩ := Demand.turn_map h
  cases hr : s₀.result with
  | none =>
    refine .inl ⟨Acquire.level h₀ (by simp [hr]), ?_⟩
    simp only [usedBehind, Scope.map, hr]
    rfl
  | some next =>
    cases next with
    | goto a' =>
      refine .inl ⟨Acquire.level h₀ (by simp [hr]), ?_⟩
      simp only [usedBehind, Scope.map, hr]
      rfl
    | panic message =>
      refine .inl ⟨Acquire.level h₀ (by simp [hr]), ?_⟩
      simp only [usedBehind, Scope.map, hr]
      rfl
    | done r =>
      cases r with
      | error e =>
        refine .inl ⟨Acquire.level h₀ (by simp [hr]), ?_⟩
        simp only [usedBehind, Scope.map, hr]
        rfl
      | ok snap =>
        refine .inr ⟨s₀, snap, h₀, rfl, hr, ?_⟩
        simp only [usedBehind, Scope.map, hr]
        rfl

/-- A block that releases uses the sandbox as long as its release does. -/
theorem release_turn {ran : BlockResult} {r : Release.Point}
    (h : (demand config block (.release ran id r)).Turn c p out sig s) :
    ∃ s₀, (Release.demand id r).Turn c p out sig s₀ ∧ s.pool = s₀.pool ∧
      usedBehind (.release ran id r) s = Release.usedBehind ran id r s₀ := by
  obtain ⟨s₀, h₀, rfl⟩ := Demand.turn_map h
  refine ⟨s₀, h₀, rfl, ?_⟩
  obtain ⟨pool, effects, result⟩ := s₀
  cases result with
  | none => rfl
  | some next => cases next <;> rfl

/-- A block that neither acquires a sandbox nor gives one back uses the one that it has. -/
theorem level (ha : ∀ since a, b ≠ .acquire since a) (hr : ∀ ran id r, b ≠ .release ran id r)
    (h : (demand config block b).Turn c p out sig s) :
    p.Level s.pool ∧ usedBehind b s = b.uses? := by
  cases b with
  | begin =>
    obtain ⟨-, -, rfl⟩ := Demand.turn_scope h
    exact ⟨.refl p, rfl⟩
  | acquire since a => exact absurd rfl (ha since a)
  | refuse since e =>
    obtain ⟨-, -, rfl⟩ := Demand.turn_scope h
    exact ⟨.refl p, rfl⟩
  | run since sandbox =>
    rcases Demand.turn_run h with ⟨-, -, rfl⟩ | ⟨reply, -, -, rfl⟩
    · exact ⟨.refl p, rfl⟩
    · refine ⟨.refl p, ?_⟩
      simp only [usedBehind]
      split <;> rfl
  | retire since sandbox ending t =>
    obtain ⟨s₀, h₀, rfl⟩ := Demand.turn_map h
    refine ⟨Termination.level h₀, ?_⟩
    have hsteady := Termination.steady sandbox.id h₀
    obtain ⟨pool, effects, result⟩ := s₀
    cases result with
    | none => rfl
    | some next =>
      cases next with
      | panic message => exact absurd rfl (hsteady message)
      | _ => rfl
  | conclude since sandbox ending =>
    obtain ⟨-, -, rfl⟩ := Demand.turn_scope h
    refine ⟨.refl p, ?_⟩
    simp only [usedBehind, Scope.map, Release.start]
    cases config.parallelism <;> rfl
  | release ran id r => exact absurd rfl (hr ran id r)

/-- **Where every block has a sandbox of its own, a block that does not use its sandbox any more has
given it back**: the sandbox is paused, or it is doomed. -/
theorem rests (hp : p.config = config) (hd : p.Distinct)
    (hw : ∀ id, p.claim? id = some .waking → ∃ r ∈ p.records, r.id = id ∧ r.state = .dormant)
    (hb : b.Fits .multi) (h : (demand config block b).Turn c p out sig s) :
    p.Rests b.uses? s.pool (usedBehind b s) := by
  have hcalm : (∀ since a, b ≠ .acquire since a) → (∀ ran id r, b ≠ .release ran id r) →
      p.Rests b.uses? s.pool (usedBehind b s) := by
    intro ha hr
    obtain ⟨hlevel, huses⟩ := level ha hr h
    rw [huses]
    exact hlevel.rests _
  cases b with
  | acquire since a =>
    rcases acquire_or hp h with ⟨hlevel, hnone⟩ | ⟨s₀, snap, h₀, hpool, hr, huses⟩
    · rw [hnone]
      exact hlevel.rests none
    · rw [huses, hpool]
      refine ⟨fun x hx hs => ?_, fun x hx hs he => by cases he⟩
      refine ((Acquire.sound config block hp h₀).running_or hx hs).imp_left fun ⟨name, hm⟩ => ?_
      rw [hr] at hm
      exact congrArg some (Hand.holding.inj (List.mem_singleton.1 hm)).1.symm
  | release ran id r =>
    obtain ⟨s₀, h₀, hpool, huses⟩ := release_turn h
    rw [huses, hpool]
    exact Release.rests hd hw hb h₀
  | _ => exact hcalm (by simp) (by simp)

/-- **Where blocks share a sandbox, the record counts a block from the end of its acquisition to its
release.** -/
theorem shares (hp : p.config = config) (hd : p.Distinct) (hb : b.Fits .single)
    (h : (demand config block b).Turn c p out sig s) :
    p.Shares b.uses? s.pool (usedBehind b s) := by
  have hcalm : (∀ since a, b ≠ .acquire since a) → (∀ ran id r, b ≠ .release ran id r) →
      p.Shares b.uses? s.pool (usedBehind b s) := by
    intro ha hr
    obtain ⟨hlevel, huses⟩ := level ha hr h
    rw [huses]
    exact .level hlevel
  cases b with
  | acquire since a =>
    rcases acquire_or hp h with ⟨hlevel, hnone⟩ | ⟨s₀, snap, h₀, hpool, hr, huses⟩
    · rw [hnone]
      exact .level hlevel
    · obtain ⟨id, rfl⟩ := Acquire.join_of_done hb h₀ hr
      obtain ⟨-, -, rfl⟩ := Demand.turn_scope h₀
      have hdone : (Acquire.join block id p).result = .done (.ok snap) := Option.some.inj hr
      rw [huses, hpool]
      exact Acquire.join_shares hdone
  | release ran id r =>
    obtain ⟨s₀, h₀, hpool, huses⟩ := release_turn h
    rw [huses, hpool]
    exact Release.shares hd hb h₀
  | _ => exact hcalm (by simp) (by simp)

/-- Every turn of a block is one that the model of the pool allows. -/
theorem passes (hp : p.config = config) (hd : p.Distinct)
    (hw : config.parallelism = .multi → ∀ id, p.claim? id = some .waking →
      ∃ r ∈ p.records, r.id = id ∧ r.state = .dormant)
    (hb : b.Fits config.parallelism) (h : (demand config block b).Turn c p out sig s) :
    Pool.Passes config.parallelism p b.uses? s.pool (usedBehind b s) := by
  cases hmodel : config.parallelism with
  | multi => exact rests hp hd (hw hmodel) (hmodel ▸ hb) h
  | single => exact shares hp hd (hmodel ▸ hb) h

end BlockRun

/-! ## Executions -/

namespace Execution

/-- The sandbox that the member of an execution uses. -/
def Duty.uses? : Duty → Option String
  | .run _ b => b.uses?
  | .terminate .. => none

/-- The sandbox that an execution itself uses. -/
def Point.uses? : Point → Option String
  | .solo _ _ b => b.uses?
  | _ => none

/-- The sandboxes that an execution uses, once for each block. -/
def users (t : Run) : List String :=
  (t.leader.point?.bind (·.uses?)).toList
    ++ t.active.filterMap fun x => x.strand.point?.bind (·.uses?)

variable {plan : Plan} {t : Run} {place : Nat} {R : Option String → Pool → Option String → Prop}

theorem uses?_land_solo (s : Progress) (block : String) (b : BlockRun.Point)
    (s₀ : Scope (Option (Next BlockRun.Point BlockResult))) :
    (Strand.land (Point.solo s block b) (s₀.result.map (Next.into (Point.solo s block)
      fun r => (.goto (.settle s [r] false) : Next Point Result)))).point?.bind (·.uses?)
      = BlockRun.usedBehind b s₀ := by
  obtain ⟨pool, effects, result⟩ := s₀
  cases result with
  | none => rfl
  | some next => cases next <;> rfl

/-- A turn of a member is one of its block. -/
theorem Duty.uses {d : Duty} {s : Scope (Option (Next Duty Yield))}
    (hlevel : ∀ {q o}, p.Level q → R o q o)
    (hblock : ∀ {block b out sig s}, b.Fits config.parallelism →
      (BlockRun.demand config block b).Turn c p out sig s →
      R b.uses? s.pool (BlockRun.usedBehind b s))
    (hd : d.Fits config.parallelism) (h : (member config d).Turn c p out sig s) :
    R d.uses? s.pool ((Strand.land d s.result).point?.bind (·.uses?)) := by
  cases d with
  | run block b =>
    obtain ⟨s₀, h₀, rfl⟩ := Demand.turn_map h
    have hturn := hblock hd h₀
    obtain ⟨pool, effects, result⟩ := s₀
    cases result with
    | none => exact hturn
    | some next => cases next <;> exact hturn
  | terminate id point =>
    obtain ⟨s₀, h₀, rfl⟩ := Demand.turn_map h
    have hturn : R none s₀.pool none := hlevel (Termination.level h₀)
    obtain ⟨pool, effects, result⟩ := s₀
    cases result with
    | none => exact hturn
    | some next => cases next <;> exact hturn

/-- A member between others uses its sandbox beside them. -/
theorem users_split {m : Member String Duty Yield} {left right : List (Member String Duty Yield)}
    (h : t.active = left ++ m :: right) :
    (users t).Perm ((m.strand.point?.bind (·.uses?)).toList
      ++ ((t.leader.point?.bind (·.uses?)).toList
        ++ (left.filterMap (fun x => x.strand.point?.bind (·.uses?))
          ++ right.filterMap fun x => x.strand.point?.bind (·.uses?)))) := by
  have hcons : (m :: right).filterMap (fun x => x.strand.point?.bind (·.uses?))
      = (m.strand.point?.bind (·.uses?)).toList
        ++ right.filterMap fun x => x.strand.point?.bind (·.uses?) := by
    rw [List.filterMap_cons]
    cases m.strand.point?.bind (·.uses?) <;> rfl
  unfold users
  rw [h, List.filterMap_append, hcons]
  exact ((List.perm_append_comm_assoc ..).append_left _).trans (List.perm_append_comm_assoc ..)

/-- New members use no sandbox yet. -/
theorem users_enrol {n : Nat} {tasks : List (String × Duty)} (h : ∀ x ∈ tasks, x.2.uses? = none) :
    (Team.enrol n tasks : List (Member String Duty Yield)).filterMap
      (fun x => x.strand.point?.bind (·.uses?)) = [] := by
  refine List.filterMap_eq_nil_iff.2 fun x hx => ?_
  obtain ⟨task, htask, -, hready⟩ := Team.mem_enrol hx
  rw [hready]
  exact h task htask

/-- **A stride of an execution is a turn of one of its blocks**, as far as sandboxes in use go; the
others use the sandboxes that they had. -/
theorem Stride.uses {s : Scope Run} (hlevel : ∀ {q o}, p.Level q → R o q o)
    (hblock : ∀ {block b out sig s}, b.Fits config.parallelism →
      (BlockRun.demand config block b).Turn c p out sig s →
      R b.uses? s.pool (BlockRun.usedBehind b s))
    (ho : t.Ordered) (hl : t.leader.Keeps (Point.Fits config.parallelism) fun _ => True)
    (hm : ∀ x ∈ t.active, x.strand.Keeps (Duty.Fits config.parallelism) fun _ => True)
    (hs : Stride config plan c p t place sig s) : ∃ o o' rest,
      (users t).Perm (o.toList ++ rest) ∧ (users s.result).Perm (o'.toList ++ rest) ∧
        R o s.pool o' := by
  have hsame : ∀ {s : Scope Run}, s.pool.records = p.records → users s.result = users t →
      ∃ o o' rest, (users t).Perm (o.toList ++ rest) ∧
        (users s.result).Perm (o'.toList ++ rest) ∧ R o s.pool o' :=
    fun hp hu => ⟨none, none, users t, .refl _, .of_eq hu, hlevel (Pool.level_of_records hp)⟩
  have hleads : ∀ {point : Point} {t' : Run}, t.leader = .ready point → point.uses? = none →
      t'.leader.point?.bind (·.uses?) = none →
      t'.active.filterMap (fun x => x.strand.point?.bind (·.uses?))
        = t.active.filterMap (fun x => x.strand.point?.bind (·.uses?)) → users t' = users t := by
    intro point t' hleader hnone hnone' hactive
    have hnow : t.leader.point?.bind (·.uses?) = none := by
      rw [hleader]
      exact hnone
    unfold users
    rw [hnow, hnone', hactive]
  cases hs with
  | @solo progress block b out sig s₀ hleader h =>
    refine ⟨b.uses?, BlockRun.usedBehind b s₀, t.active.filterMap fun x =>
      x.strand.point?.bind (·.uses?), ?_, ?_, hblock ?_ h⟩
    · unfold users
      rw [hleader, Strand.point?_standing]
      exact .refl _
    · unfold users
      simp only [Scope.map, uses?_land_solo]
      exact .refl _
    · have hpoint : t.leader.point? = some (.solo progress block b) := by
        rw [hleader, Strand.point?_standing]
      have hfits : (Point.solo progress block b).Fits config.parallelism :=
        Strand.Keeps.of_point? hl hpoint
      exact hfits
  | @member n m sig sc hmember h =>
    obtain ⟨d, out, s₀, hstrand, h₀, rfl⟩ := h.at_point
    have hpoint : m.strand.point? = some d := by rw [hstrand, Strand.point?_standing]
    have hd := Strand.Keeps.of_point? (hm m (Team.mem_of_member? hmember)) hpoint
    have hturn := Duty.uses hlevel hblock hd h₀
    obtain ⟨rfl, left, right, hactive, hleft, hright⟩ := Team.member?_split ho hmember
    have hbefore := users_split (t := t) hactive
    rw [hpoint, Option.bind_some] at hbefore
    refine ⟨d.uses?, (Strand.land d s₀.result).point?.bind (·.uses?), _, hbefore, ?_, hturn⟩
    rcases Team.update_cases hactive hleft hright (Strand.land d s₀.result) with
      ⟨hactive', -⟩ | ⟨result, hended, hactive', -⟩
    · have hafter := users_split hactive'
      rwa [Team.update_leader] at hafter
    · have hends : (Strand.land d s₀.result).ended = true := by
        rw [← Team.outcome?_isSome, hended]
        rfl
      rw [Strand.point?_of_ended hends]
      refine .of_eq ?_
      show users (t.update m (Strand.land d s₀.result)) = _
      unfold users
      rw [hactive', Team.update_leader, List.filterMap_append]
      rfl
  | hire hleader =>
    refine hsame rfl (hleads hleader rfl rfl ?_)
    rw [List.filterMap_append, users_enrol (by simp [Duty.uses?, BlockRun.Point.uses?]),
      List.append_nil]
  | collect hleader =>
    refine hsame rfl (hleads hleader rfl rfl ?_)
    rw [List.filterMap_append, users_enrol, List.append_nil]
    intro x hx
    obtain ⟨r, -, rfl⟩ := List.mem_map.1 hx
    rfl
  | _ hleader => exact hsame rfl (hleads hleader rfl rfl rfl)

/-- **Behind every stride of an execution, the sandboxes in use are known if they were before.** -/
theorem Stride.accounted {s : Scope Run} (hp : p.config = config) (hd : p.Distinct)
    (hw : config.parallelism = .multi → ∀ id, p.claim? id = some .waking →
      ∃ r ∈ p.records, r.id = id ∧ r.state = .dormant)
    (hdoom : ∀ id, p.Doomed id → s.pool.Doomed id) (ho : t.Ordered)
    (hl : t.leader.Keeps (Point.Fits config.parallelism) fun _ => True)
    (hm : ∀ x ∈ t.active, x.strand.Keeps (Duty.Fits config.parallelism) fun _ => True)
    (hs : Stride config plan c p t place sig s)
    (h : Pool.Accounted config.parallelism p (users t)) :
    Pool.Accounted config.parallelism s.pool (users s.result) := by
  obtain ⟨o, o', rest, hbefore, hbehind, hpasses⟩ :=
    hs.uses (R := fun o q o' => Pool.Passes config.parallelism p o q o') (fun hlevel => hlevel.passes _)
      (fun hb ht => BlockRun.passes hp hd hw hb ht) ho hl hm
  exact ((h.perm hbefore).turn hdoom hpasses).perm hbehind.symm

end Execution

end SandboxPool
