import SandboxPool.Proofs.Machine.Books

/-!
# The innermost process of a post

Processes contain others: a block acquires a sandbox, an acquisition starts or terminates one, and so
on. Whatever a post does in a turn, the innermost of them does it. A `Leaf` is such a process at its
point, and `Leaf.demand` what it wants there, where it does not matter how it goes on.

* A turn of a post is a turn of its leaf (`Post.Turned.leaf`): the same happens to the pool, and the
  same is seen.
* A post has a sandbox to terminate in hand exactly if its leaf is a termination behind its claim
  (`Post.ending_iff`).
* A move is a turn of one leaf, or does nothing to the pool (`Machine.next_leaf`).
-/

namespace SandboxPool

variable {config : Config} {c : Context} {p p' : Pool} {out : Bool} {sig : Option Signal}
  {e : List Effect}

/-! ## Demands without what follows -/

namespace Demand

variable {β γ : Type}

/-- What is wanted, where it does not matter how the process goes on. -/
abbrev bare (d : Demand β) : Demand Unit := d.map fun _ => ()

theorem bare_map (f : β → γ) (d : Demand β) : (d.map f).bare = d.bare := by
  cases d <;> rfl

/-- A turn is one where it does not matter how the process goes on. -/
theorem Turn.bare {d : Demand β} {s : Scope (Option β)} (h : d.Turn c p out sig s) :
    d.bare.Turn c p out sig (s.map (Option.map fun _ => ())) := by
  cases h with
  | scope body => exact .scope fun c p => (body c p).map fun _ => ()
  | gate next h => exact .gate () h
  | send d a h => exact .send d.bare a ((ask?_map _ d).trans h)
  | receive d a r b ha hb =>
    refine .receive d.bare a r () ((ask?_map _ d).trans ha) ?_
    rw [answer?_map, hb]
    rfl

end Demand

/-- What a leader wants, where it does not matter how it goes on and whom it hires. -/
def Intent.bare {κ σ α τ β : Type} : Intent κ σ α τ β → Demand Unit
  | .demand d => d.bare
  | .hire body => .scope fun c p => (body c p).map fun _ => ()
  | .join _ => .scope fun _ p => ⟨p, [], ()⟩

theorem Intent.Turn.bare {κ σ α τ β : Type} {i : Intent κ σ α τ β} {s : Scope (Option (Next τ β))}
    {tasks : List (κ × σ)} (h : i.Turn c p out sig s tasks) :
    i.bare.Turn c p out sig (s.map (Option.map fun _ => ())) := by
  cases h with
  | demand h => exact h.bare
  | hire body => exact .scope fun c p => (body c p).map fun _ => ()
  | join next ended => exact .scope fun _ p => ⟨p, [], ()⟩

/-! ## Leaves -/

/-- An innermost process at its point. -/
inductive Leaf where
  | termination (id : String) (t : Termination.Point)
  | spawn (job : Spawn.Job) (s : Spawn.Point)
  | acquire (block : String) (a : Acquire.Point)
  | release (id : String) (r : Release.Point)
  | run (block : String) (b : BlockRun.Point)
  | prewarm (count : Nat) (point : Prewarm.Point)
  | teardown (point : Teardown.Point)
  | cleanup (point : Cleanup.Point)
  | reclaim (id : String) (point : Reclaim.Point)
  | execute (plan : Plan) (point : Execution.Point)

/-- The leaf of a spawn. -/
def Spawn.Point.leaf (job : Spawn.Job) : Spawn.Point → Leaf
  | .discard id _ t => .termination id t
  | s => .spawn job s

/-- The leaf of an acquisition. -/
def Acquire.Point.leaf (block : String) : Acquire.Point → Leaf
  | .retire id _ t => .termination id t
  | .cold s => s.leaf ⟨.service, some block⟩
  | .shared s => s.leaf ⟨.shared, none⟩
  | a => .acquire block a

/-- The leaf of a release. -/
def Release.Point.leaf (id : String) : Release.Point → Leaf
  | .discard _ t => .termination id t
  | r => .release id r

/-- The leaf of a block. -/
def BlockRun.Point.leaf (block : String) : BlockRun.Point → Leaf
  | .acquire _ a => a.leaf block
  | .retire _ sandbox _ t => .termination sandbox.id t
  | .release _ id r => r.leaf id
  | b => .run block b

/-- The leaf of a member of an execution. -/
def Execution.Duty.leaf : Execution.Duty → Leaf
  | .run block b => b.leaf block
  | .terminate id t => .termination id t

/-- The leaf of an execution itself. -/
def Execution.Point.leaf (plan : Plan) : Execution.Point → Leaf
  | .solo _ block b => b.leaf block
  | point => .execute plan point

theorem Acquire.Point.leaf_ne_run (block : String) (a : Acquire.Point) {name : String}
    {b : BlockRun.Point} : a.leaf block ≠ .run name b := by
  cases a with
  | cold s => cases s <;> simp [leaf, Spawn.Point.leaf]
  | shared s => cases s <;> simp [leaf, Spawn.Point.leaf]
  | _ => simp [leaf]

theorem Release.Point.leaf_ne_run (id : String) (r : Release.Point) {name : String}
    {b : BlockRun.Point} : r.leaf id ≠ .run name b := by
  cases r <;> simp [leaf]

/-- The run of a block is not an execution itself. -/
theorem BlockRun.Point.leaf_ne_execute (block : String) (b : BlockRun.Point) {plan : Plan}
    {point : Execution.Point} : b.leaf block ≠ .execute plan point := by
  cases b with
  | acquire since a =>
    cases a with
    | cold s => cases s <;> simp [leaf, Acquire.Point.leaf, Spawn.Point.leaf]
    | shared s => cases s <;> simp [leaf, Acquire.Point.leaf, Spawn.Point.leaf]
    | _ => simp [leaf, Acquire.Point.leaf]
  | release ran id r => cases r <;> simp [leaf, Release.Point.leaf]
  | _ => simp [leaf]

/-- What the members of a prewarm start. -/
def Prewarm.job (config : Config) : Spawn.Job :=
  ⟨match config.parallelism with
    | .multi => .service
    | .single => .shared, none⟩

/-- The leaf of a post that is not at its end. -/
def Post.leaf? (config : Config) : Post → Option Leaf
  | acquire block s => s.point?.map (·.leaf block)
  | release id s => s.point?.map (·.leaf id)
  | terminate id s => s.point?.map (.termination id)
  | prewarm count s => s.point?.map (.prewarm count)
  | spawn s => s.point?.map (·.leaf (Prewarm.job config))
  | teardown s => s.point?.map .teardown
  | cleanup s => s.point?.map .cleanup
  | reclaim id s => s.point?.map (.reclaim id)
  | execute plan s => s.point?.map (·.leaf plan)
  | duty s => s.point?.map (·.leaf)

namespace Leaf

/-- What a leaf wants. -/
def demand (config : Config) : Leaf → Demand Unit
  | termination id t => (Termination.demand id t).bare
  | spawn job s => (Spawn.demand config job s).bare
  | acquire block a => (Acquire.demand config block a).bare
  | release id r => (Release.demand id r).bare
  | run block b => (BlockRun.demand config block b).bare
  | prewarm count point => ((Prewarm.conduct config count).leader point).bare
  | teardown point => (Teardown.conduct.leader point).bare
  | cleanup point => (Cleanup.conduct.leader point).bare
  | reclaim id point => (Reclaim.demand id point).bare
  | execute plan point => (Execution.leader config plan point).bare

/-- What is signalled of a turn of a leaf: nothing of a cleanup. -/
def heard : Leaf → Option Signal → Option Signal
  | cleanup _, _ => none
  | reclaim _ _, _ => none
  | _, sig => sig

/-- What a leaf wants that is not part of a cleanup. -/
structure Wants (config : Config) (l : Leaf) (d : Demand Unit) : Prop where
  demand : l.demand config = d
  heard : ∀ sig, l.heard sig = sig

/-- A process that contains another one wants what that one does. -/
theorem Wants.into {β γ : Type} {l : Leaf} {d : Demand β} (h : l.Wants config d.bare) (f : β → γ) :
    l.Wants config (d.map f).bare :=
  ⟨h.demand.trans (Demand.bare_map f d).symm, h.heard⟩

theorem termination_wants (config : Config) (id : String) (t : Termination.Point) :
    (termination id t).Wants config (Termination.demand id t).bare := ⟨rfl, fun _ => rfl⟩

theorem spawn_wants (config : Config) (job : Spawn.Job) (s : Spawn.Point) :
    (s.leaf job).Wants config (Spawn.demand config job s).bare := by
  cases s with
  | discard id error t => exact (termination_wants config id t).into _
  | _ => exact ⟨rfl, fun _ => rfl⟩

theorem acquire_wants (config : Config) (block : String) (a : Acquire.Point) :
    (a.leaf block).Wants config (Acquire.demand config block a).bare := by
  cases a with
  | retire id error t => exact (termination_wants config id t).into _
  | cold s => exact (spawn_wants config _ s).into _
  | shared s => exact (spawn_wants config _ s).into _
  | _ => exact ⟨rfl, fun _ => rfl⟩

theorem release_wants (config : Config) (id : String) (r : Release.Point) :
    (r.leaf id).Wants config (Release.demand id r).bare := by
  cases r with
  | discard cause t => exact (termination_wants config id t).into _
  | _ => exact ⟨rfl, fun _ => rfl⟩

theorem run_wants (config : Config) (block : String) (b : BlockRun.Point) :
    (b.leaf block).Wants config (BlockRun.demand config block b).bare := by
  cases b with
  | acquire since a => exact (acquire_wants config block a).into _
  | retire since sandbox ending t => exact (termination_wants config sandbox.id t).into _
  | release ran id r => exact (release_wants config id r).into _
  | _ => exact ⟨rfl, fun _ => rfl⟩

theorem duty_wants (config : Config) (d : Execution.Duty) :
    d.leaf.Wants config (Execution.member config d).bare := by
  cases d with
  | run block b => exact (run_wants config block b).into _
  | terminate id t => exact (termination_wants config id t).into _

theorem execute_wants (config : Config) (plan : Plan) (point : Execution.Point) :
    (point.leaf plan).Wants config (Execution.leader config plan point).bare := by
  cases point with
  | solo progress block b => exact (run_wants config block b).into _
  | _ => exact ⟨rfl, fun _ => rfl⟩

end Leaf

/-! ## Turns of leaves -/

/-- The strand waits for a reply. -/
def Strand.awaits {σ α : Type} : Strand σ α → Bool
  | waiting _ => true
  | _ => false

/-- The post waits for a reply. -/
def Post.awaits : Post → Bool
  | acquire _ s => s.awaits
  | release _ s => s.awaits
  | terminate _ s => s.awaits
  | prewarm _ s => s.awaits
  | spawn s => s.awaits
  | teardown s => s.awaits
  | cleanup s => s.awaits
  | reclaim _ s => s.awaits
  | execute _ s => s.awaits
  | duty s => s.awaits

section Turns

variable {σ α τ β κ : Type} {place : Nat} {x : Post} {after : List (Nat × Post)}

theorem Strand.awaits_standing (point : σ) (out : Bool) :
    (standing point out : Strand σ α).awaits = out := by
  cases out <;> rfl

theorem Strand.awaits_ofNext (next : Next σ α) : (ofNext next).awaits = false := by
  cases next <;> rfl

/-- A turn of a strand is one at its point, where it does not matter how the process goes on. -/
theorem Strand.Turn.bare {demand : σ → Demand (Next σ α)} {st : Strand σ α} {sc : Scope (Strand σ α)}
    (h : st.Turn demand c p sig sc) : ∃ point r, st.point? = some point ∧
      (demand point).bare.Turn c p st.awaits sig ⟨sc.pool, sc.effects, r⟩ ∧
      ((r = none ∧ sc.result = .waiting point) ∨ (r = some () ∧ sc.result.awaits = false)) := by
  obtain ⟨point, out, s, rfl, ht, rfl⟩ := h.at_point
  refine ⟨point, s.result.map fun _ => (), point?_standing point out, ?_, ?_⟩
  · rw [awaits_standing]
    exact ht.bare
  · obtain ⟨pool, effects, result⟩ := s
    cases result with
    | none => exact .inl ⟨rfl, rfl⟩
    | some next => exact .inr ⟨rfl, awaits_ofNext next⟩

/-- A turn of a leader is one where it does not matter how the leader goes on. -/
theorem Intent.Turn.lands {i : Intent κ σ α τ β} {s : Scope (Option (Next τ β))}
    {tasks : List (κ × σ)} (h : i.Turn c p out sig s tasks) (point : τ) : ∃ r,
      i.bare.Turn c p out sig ⟨s.pool, s.effects, r⟩ ∧
      ((r = none ∧ Strand.land point s.result = .waiting point ∧ tasks = []) ∨
        (r = some () ∧ (Strand.land point s.result).awaits = false)) := by
  refine ⟨s.result.map fun _ => (), h.bare, ?_⟩
  cases h with
  | @demand d out sig s h =>
    obtain ⟨pool, effects, result⟩ := s
    cases result with
    | none => exact .inl ⟨rfl, rfl, rfl⟩
    | some next => exact .inr ⟨rfl, Strand.awaits_ofNext next⟩
  | hire body => exact .inr ⟨rfl, Strand.awaits_ofNext _⟩
  | join next ended => exact .inr ⟨rfl, Strand.awaits_ofNext _⟩

theorem Strand.Lead.bare {leader : τ → Intent κ σ α τ β} {st : Strand τ β} {sc : Scope (Strand τ β)}
    {tasks : List (κ × σ)} (h : st.Lead leader c p sig sc tasks) : ∃ point r,
      st.point? = some point ∧ (leader point).bare.Turn c p st.awaits sig ⟨sc.pool, sc.effects, r⟩ ∧
      ((r = none ∧ sc.result = .waiting point ∧ tasks = []) ∨
        (r = some () ∧ sc.result.awaits = false)) := by
  cases h with
  | @ready point _ s _ ht =>
    obtain ⟨r, hr⟩ := ht.lands point
    exact ⟨point, r, rfl, hr⟩
  | @waiting point _ s _ ht =>
    obtain ⟨r, hr⟩ := ht.lands point
    exact ⟨point, r, rfl, hr⟩

/-- Where a turn takes a post: it waits for the reply to what its leaf has asked for, or no post waits
behind the turn. -/
def Post.Lands (config : Config) (place : Nat) (l : Leaf) (after : List (Nat × Post)) :
    Option Unit → Prop
  | none => ∃ x', after = [(place, x')] ∧ x'.leaf? config = some l ∧ x'.awaits = true
  | some _ => ∀ y ∈ after, y.2.awaits = false

/-- A turn of a post is one of its leaf. -/
structure Post.Takes (config : Config) (c : Context) (p : Pool) (place : Nat) (x : Post)
    (sig : Option Signal) (p' : Pool) (e : List Effect) (after : List (Nat × Post)) (l : Leaf)
    (r : Option Unit) : Prop where
  leaf : x.leaf? config = some l
  turn : (l.demand config).Turn c p x.awaits sig ⟨p', e, r⟩
  lands : Post.Lands config place l after r

namespace Post.Takes

variable {leaf : σ → Leaf}

/-- A turn of a post that is a strand by itself, or a member of a team. -/
theorem strand (post : Strand σ α → Post) {demand : σ → Demand (Next σ α)}
    (hleaf : ∀ st, (post st).leaf? config = st.point?.map leaf)
    (hawaits : ∀ st, (post st).awaits = st.awaits)
    (hdemand : ∀ point, (leaf point).demand config = (demand point).bare) {st : Strand σ α}
    {sc : Scope (Strand σ α)} (h : st.Turn demand c p sig sc)
    (ha : after = [(place, post sc.result)] ∨ sc.result.ended = true ∧ after = []) :
    ∃ point r, Takes config c p place (post st) sig sc.pool sc.effects after (leaf point) r := by
  obtain ⟨point, r, hpoint, ht, hr⟩ := h.bare
  refine ⟨point, r, ?_, ?_, ?_⟩
  · rw [hleaf, hpoint]
    rfl
  · rw [hdemand, hawaits]
    exact ht
  · rcases hr with ⟨rfl, hwait⟩ | ⟨rfl, hno⟩
    · rcases ha with rfl | ⟨hended, -⟩
      · refine ⟨_, rfl, ?_, ?_⟩
        · rw [hwait, hleaf]
          rfl
        · rw [hawaits, hwait]
          rfl
      · rw [hwait] at hended
        cases hended
    · intro y hy
      rcases ha with rfl | ⟨-, rfl⟩
      · obtain rfl := List.mem_singleton.1 hy
        rw [hawaits]
        exact hno
      · cases hy

/-- A turn of a leader. -/
theorem lead (post : Strand τ β → Post) (member : κ → Strand σ α → Post)
    {leader : τ → Intent κ σ α τ β} {leaf : τ → Leaf}
    (hleaf : ∀ st, (post st).leaf? config = st.point?.map leaf)
    (hawaits : ∀ st, (post st).awaits = st.awaits)
    (hdemand : ∀ point, (leaf point).demand config = (leader point).bare)
    (hmember : ∀ task st, (member task st).awaits = st.awaits) {st : Strand τ β}
    {sc : Scope (Strand τ β)} {tasks : List (κ × σ)} (h : st.Lead leader c p sig sc tasks) (n : Nat) :
    ∃ point r, Takes config c p place (post st) sig sc.pool sc.effects
      ((place, post sc.result) :: Team.stand member (Team.enrol n tasks)) (leaf point) r := by
  obtain ⟨point, r, hpoint, ht, hr⟩ := h.bare
  refine ⟨point, r, ?_, ?_, ?_⟩
  · rw [hleaf, hpoint]
    rfl
  · rw [hdemand, hawaits]
    exact ht
  · rcases hr with ⟨rfl, hwait, rfl⟩ | ⟨rfl, hno⟩
    · refine ⟨_, rfl, ?_, ?_⟩
      · rw [hwait, hleaf]
        rfl
      · rw [hawaits, hwait]
        rfl
    · intro y hy
      rcases List.mem_cons.1 hy with rfl | hy
      · rw [hawaits]
        exact hno
      · obtain ⟨m, hm, rfl⟩ := List.mem_map.1 hy
        obtain ⟨task, -, -, hready⟩ := Team.mem_enrol hm
        rw [hmember, hready]
        rfl

end Post.Takes

/-- **A turn of a post is one of its leaf**: the same happens to the pool, and the same is seen. -/
theorem Post.Turned.leaf {sig : Option Signal}
    (h : x.Turned config c p place sig p' e after) : ∃ l r sig₀,
      Post.Takes config c p place x sig₀ p' e after l r ∧ l.heard sig₀ = sig := by
  cases h with
  | @acquire block _ _ _ h =>
    obtain ⟨point, r, ht⟩ := Post.Takes.strand (.acquire block) (fun _ => rfl) (fun _ => rfl)
      (fun a => (Leaf.acquire_wants config block a).demand) h (.inl rfl)
    exact ⟨_, r, _, ht, (Leaf.acquire_wants config block point).heard _⟩
  | @release id _ _ _ h =>
    obtain ⟨point, r, ht⟩ := Post.Takes.strand (.release id) (fun _ => rfl) (fun _ => rfl)
      (fun a => (Leaf.release_wants config id a).demand) h (.inl rfl)
    exact ⟨_, r, _, ht, (Leaf.release_wants config id point).heard _⟩
  | @terminate id _ _ _ h =>
    obtain ⟨point, r, ht⟩ := Post.Takes.strand (.terminate id) (fun _ => rfl) (fun _ => rfl)
      (fun _ => rfl) h (.inl rfl)
    exact ⟨_, r, _, ht, rfl⟩
  | @prewarm count _ _ _ _ _ h =>
    cases h with
    | leader h n =>
      obtain ⟨point, r, ht⟩ := Post.Takes.lead (.prewarm count) (fun _ => .spawn) (fun _ => rfl)
        (fun _ => rfl) (fun _ => rfl) (fun _ _ => rfl) h n
      exact ⟨_, r, _, ht, rfl⟩
    | member h ha =>
      obtain ⟨point, r, ht⟩ := Post.Takes.strand .spawn (fun _ => rfl) (fun _ => rfl)
        (fun s => (Leaf.spawn_wants config (Prewarm.job config) s).demand) h ha
      exact ⟨_, r, _, ht, (Leaf.spawn_wants config _ point).heard _⟩
  | teardown h =>
    cases h with
    | leader h n =>
      obtain ⟨point, r, ht⟩ := Post.Takes.lead .teardown .terminate (fun _ => rfl) (fun _ => rfl)
        (fun _ => rfl) (fun _ _ => rfl) h n
      exact ⟨_, r, _, ht, rfl⟩
    | @member id _ _ _ _ h ha =>
      obtain ⟨point, r, ht⟩ := Post.Takes.strand (.terminate id) (fun _ => rfl)
        (fun _ => rfl) (fun _ => rfl) h ha
      exact ⟨_, r, _, ht, rfl⟩
  | cleanup h =>
    cases h with
    | leader h n =>
      obtain ⟨point, r, ht⟩ := Post.Takes.lead .cleanup .reclaim (fun _ => rfl) (fun _ => rfl)
        (fun _ => rfl) (fun _ _ => rfl) h n
      exact ⟨_, r, _, ht, rfl⟩
    | @member id _ _ _ _ h ha =>
      obtain ⟨point, r, ht⟩ := Post.Takes.strand (.reclaim id) (fun _ => rfl) (fun _ => rfl)
        (fun _ => rfl) h ha
      exact ⟨_, r, _, ht, rfl⟩
  | @execute plan _ _ _ _ _ h =>
    cases h with
    | leader h n =>
      obtain ⟨point, r, ht⟩ := Post.Takes.lead (.execute plan) (fun _ => .duty) (fun _ => rfl)
        (fun _ => rfl) (fun point => (Leaf.execute_wants config plan point).demand)
        (fun _ _ => rfl) h n
      exact ⟨_, r, _, ht, (Leaf.execute_wants config plan point).heard _⟩
    | member h ha =>
      obtain ⟨point, r, ht⟩ := Post.Takes.strand .duty (fun _ => rfl) (fun _ => rfl)
        (fun d => (Leaf.duty_wants config d).demand) h ha
      exact ⟨_, r, _, ht, (Leaf.duty_wants config point).heard _⟩

end Turns

/-! ## What an execution starts -/

namespace Execution

variable {plan : Plan} {point : Point} {s : Scope (Option (Next Point Result))}
  {tasks : List (String × Duty)}

/-- Where an execution does not run a block by itself, it goes on to no point inside of one. -/
theorem eq_begin_of_lead (hp : ∀ progress block b, point ≠ .solo progress block b)
    (h : (leader config plan point).Turn c p out sig s tasks) {progress : Progress} {block : String}
    {b : BlockRun.Point}
    (hb : (Strand.land point s.result).point? = some (.solo progress block b)) : b = .begin := by
  cases point with
  | begin =>
    obtain ⟨-, -, rfl⟩ := Demand.turn_scope (Intent.turn_demand h).1
    simp only [Scope.map, begin] at hb
    split at hb <;> cases hb
  | lane progress =>
    obtain ⟨-, -, rfl⟩ := Demand.turn_scope (Intent.turn_demand h).1
    simp only [Scope.map, lane] at hb
    split at hb
    · cases hb
    · next first _ _ =>
      split at hb
      · cases hb
      · cases first <;> cases hb
        rfl
  | solo progress block b => exact absurd rfl (hp progress block b)
  | dispatch progress sent waiting =>
    obtain ⟨-, -, rfl, -⟩ := Intent.turn_hire h
    simp only [Scope.map, dispatch] at hb
    split at hb
    · cases hb
    · split at hb <;> cases hb
  | gather progress sent interrupted =>
    obtain ⟨-, -, ⟨ended, rfl⟩, -⟩ := Intent.turn_join h
    cases hb
  | settle progress ran interrupted =>
    obtain ⟨-, -, rfl⟩ := Demand.turn_scope (Intent.turn_demand h).1
    simp only [Scope.map, settle] at hb
    split at hb
    · cases hb
    · split at hb
      · cases hb
      · split at hb <;> cases hb
  | abort progress index =>
    obtain ⟨-, -, rfl⟩ := Demand.turn_scope (Intent.turn_demand h).1
    cases hb
  | teardown progress index =>
    obtain ⟨-, -, rfl, -⟩ := Intent.turn_hire h
    simp only [Scope.map, teardown] at hb
    split at hb <;> cases hb
  | cleared progress index =>
    obtain ⟨-, -, ⟨ended, rfl⟩, -⟩ := Intent.turn_join h
    cases hb
  | finish progress status =>
    obtain ⟨-, -, rfl⟩ := Demand.turn_scope (Intent.turn_demand h).1
    cases hb

/-- The members of an execution start with a block or with a termination. -/
theorem duty_of_hired (h : (leader config plan point).Turn c p out sig s tasks) :
    ∀ x ∈ tasks, (∃ block, x.2 = .run block .begin) ∨ ∃ id, x.2 = .terminate id .claim := by
  intro x hx
  cases point with
  | dispatch progress sent waiting =>
    obtain ⟨-, -, -, rfl⟩ := Intent.turn_hire h
    simp only [dispatch] at hx
    split at hx
    · cases hx
    · split at hx
      · cases hx
      · obtain rfl := List.mem_singleton.1 hx
        exact .inl ⟨_, rfl⟩
  | teardown progress index =>
    obtain ⟨-, -, -, rfl⟩ := Intent.turn_hire h
    simp only [teardown] at hx
    split at hx
    · cases hx
    · obtain ⟨r, -, rfl⟩ := List.mem_map.1 hx
      exact .inr ⟨_, rfl⟩
  | gather progress sent interrupted =>
    obtain ⟨-, -, -, rfl⟩ := Intent.turn_join h
    cases hx
  | cleared progress index =>
    obtain ⟨-, -, -, rfl⟩ := Intent.turn_join h
    cases hx
  | _ =>
    obtain ⟨-, rfl⟩ := Intent.turn_demand h
    cases hx

end Execution

/-! ## Terminations in hand -/

/-- The point of a termination at a stage. -/
def Stage.point (port : UInt16) : Stage → Termination.Point
  | stop => .stop port
  | remove => .remove port
  | settle => .settle port

section Endings

variable {id id' : String} {port : UInt16} {stage : Stage}

theorem Termination.ending_iff {before : List Hand} (hb : ∀ t ∈ before, t.ending? = none) (t : Point) :
    .ending id port stage ∈ hand before id' t ↔
      Leaf.termination id' t = .termination id (stage.point port) := by
  cases t with
  | claim =>
    have hno : .ending id port stage ∉ before := fun hm => by cases hb _ hm
    cases stage <;> simp [hand, hno, Stage.point]
  | _ => cases stage <;> simp [hand, Stage.point, eq_comm, and_comm]

theorem Spawn.ending_iff (job : Job) (s : Point) :
    .ending id port stage ∈ hand out s ↔ s.leaf job = .termination id (stage.point port) := by
  cases s with
  | discard id' error t => exact Termination.ending_iff (by simp [Hand.ending?]) t
  | _ => simp [hand, Spawn.Point.leaf]

theorem Acquire.ending_iff (block : String) (a : Point) :
    .ending id port stage ∈ hand out a ↔ a.leaf block = .termination id (stage.point port) := by
  cases a with
  | retire id' error t => exact Termination.ending_iff (by simp [Hand.ending?]) t
  | cold s => exact Spawn.ending_iff _ s
  | shared s =>
    have hmem : .ending id port stage ∈ hand out (.shared s) ↔
        .ending id port stage ∈ Spawn.hand out s := by simp [hand]
    exact hmem.trans (Spawn.ending_iff _ s)
  | failed error => cases error <;> simp [hand, Acquire.Point.leaf]
  | _ => simp [hand, Acquire.Point.leaf]

theorem Release.ending_iff {giver : List Hand} (hg : ∀ t ∈ giver, t.ending? = none) (r : Point) :
    .ending id port stage ∈ hand giver id' r ↔ r.leaf id' = .termination id (stage.point port) := by
  have hno : .ending id port stage ∉ giver := fun hm => by cases hg _ hm
  cases r with
  | discard cause t =>
    have hmem : .ending id port stage ∈ hand giver id' (.discard cause t) ↔
        .ending id port stage ∈ Termination.hand [] id' t := by simp [hand, hno]
    exact hmem.trans (Termination.ending_iff (by simp) t)
  | _ => simp [hand, Release.Point.leaf, hno]

theorem BlockRun.ending_iff (block : String) (b : Point) :
    .ending id port stage ∈ hand block out b ↔ b.leaf block = .termination id (stage.point port) := by
  cases b with
  | acquire since a => exact Acquire.ending_iff block a
  | retire since sandbox ending t =>
    have hmem : .ending id port stage ∈ hand block out (.retire since sandbox ending t) ↔
        .ending id port stage ∈ Termination.hand [] sandbox.id t := by simp [hand]
    exact hmem.trans (Termination.ending_iff (by simp) t)
  | release ran id' r => exact Release.ending_iff (by simp [Hand.ending?]) r
  | _ => simp [hand, BlockRun.Point.leaf]

theorem Execution.Duty.ending_iff (d : Duty) :
    .ending id port stage ∈ d.hand out ↔ d.leaf = .termination id (stage.point port) := by
  cases d with
  | run block b => exact BlockRun.ending_iff block b
  | terminate id' t => exact Termination.ending_iff (by simp) t

theorem Execution.ending_iff (plan : Plan) (point : Point) :
    .ending id port stage ∈ hand out point ↔
      point.leaf plan = .termination id (stage.point port) := by
  cases point with
  | solo progress block b => exact BlockRun.ending_iff block b
  | _ => simp [hand, Execution.Point.leaf]

theorem Strand.ending_iff {σ α : Type} {f : Bool → σ → List Hand} {g : α → List Hand}
    {leaf : σ → Leaf} (hf : ∀ out point, .ending id port stage ∈ f out point ↔
      leaf point = .termination id (stage.point port)) (hg : ∀ a, .ending id port stage ∉ g a)
    (st : Strand σ α) : .ending id port stage ∈ st.hand f g ↔
      st.point?.map leaf = some (.termination id (stage.point port)) := by
  cases st with
  | ready point => exact (hf false point).trans (Option.some_inj).symm
  | waiting point => exact (hf true point).trans (Option.some_inj).symm
  | done a => simp [hand, hg, point?]
  | panicked message => simp [hand, point?]

/-- **A post terminates a sandbox exactly if its leaf does**, behind its claim. -/
theorem Post.ending_iff (config : Config) (x : Post) :
    .ending id port stage ∈ x.hand ↔
      x.leaf? config = some (.termination id (stage.point port)) := by
  have hnone : ∀ {β : Type} (_ : β), Hand.ending id port stage ∉ ([] : List Hand) := by simp
  cases x with
  | acquire block st =>
    refine Strand.ending_iff (f := Acquire.hand) (fun _ => Acquire.ending_iff block) (fun r => ?_) st
    cases r <;> simp [gained]
  | release id' st =>
    exact Strand.ending_iff (fun _ => Release.ending_iff (by simp [Hand.ending?])) hnone st
  | terminate id' st => exact Strand.ending_iff (fun _ => Termination.ending_iff (by simp)) hnone st
  | spawn st => exact Strand.ending_iff (f := Spawn.hand) (fun _ => Spawn.ending_iff _) hnone st
  | execute plan st =>
    exact Strand.ending_iff (f := Execution.hand) (fun _ => Execution.ending_iff plan) hnone st
  | duty st =>
    exact Strand.ending_iff (f := Execution.Duty.hand) (fun _ => Execution.Duty.ending_iff) hnone st
  | prewarm count st => simp [hand, leaf?]
  | teardown st => simp [hand, leaf?]
  | cleanup st => simp [hand, leaf?]
  | reclaim id' st => simp [hand, leaf?]

end Endings

/-! ## The leaf of a move -/

namespace Machine

variable {m m' : Machine} {move : Move} {notes : List Note} {k : Key} {x : Post}

/-- The leaf of the post with a key. -/
def leaf? (m : Machine) (k : Key) : Option Leaf :=
  (m.posts.find? (·.1 == k)).bind (·.2.leaf? m.pool.config)

/-- The post with a key waits for a reply. -/
def awaits (m : Machine) (k : Key) : Bool := (m.posts.find? (·.1 == k)).any (·.2.awaits)

theorem leaf?_eq (ho : m.Ordered) (hx : (k, x) ∈ m.posts) :
    m.leaf? k = x.leaf? m.pool.config := by
  unfold leaf?
  rw [find?_post ho hx]
  rfl

theorem mem_of_leaf? {l : Leaf} (h : m.leaf? k = some l) :
    ∃ x, (k, x) ∈ m.posts ∧ x.leaf? m.pool.config = some l := mem_of_bind_find? h

theorem awaits_eq (ho : m.Ordered) (hx : (k, x) ∈ m.posts) : m.awaits k = x.awaits := by
  unfold awaits
  rw [find?_post ho hx]
  rfl

/-- A move that is no turn: an order, an abort, or time that passes. -/
structure Still (m : Machine) (move : Move) (m' : Machine) (notes : List Note) : Prop where
  pool : m'.pool = m.pool
  signal : m.signal? move = none
  events : notes.filterMap (·.event?) = []
  leaf : m.leaf? (m.mover move) = none

/-- A move that is a turn of a leaf. A termination whose time has come is new. -/
structure Takes (m : Machine) (move : Move) (m' : Machine) (notes : List Note) (l : Leaf)
    (sig : Option Signal) (r : Option Unit) : Prop where
  turn : ∃ e, (l.demand m.pool.config).Turn m.context m.pool (m.awaits (m.mover move)) sig
    ⟨m'.pool, e, r⟩ ∧ notes.filterMap (·.event?) = e.filterMap (·.event?)
  heard : l.heard sig = m.signal? move
  awaits : m'.awaits (m.mover move) = r.isNone
  stays : r = none → m'.leaf? (m.mover move) = some l
  leaf : (∃ x : Post, x.leaf? m.pool.config = some l) ∧ (m.leaf? (m.mover move) = some l ∨
    m.leaf? (m.mover move) = none ∧ ∃ id g, l = .termination id (.expire g))

/-- Only the post that moves is taken away. -/
theorem Shift.key_of_gone {gone gone' : List (Key × Post)} {p' : Pool}
    (hs : m.Shift move gone p' e gone') : ∀ y ∈ gone, y.1 = m.mover move := by
  intro y hy
  cases hs with
  | step =>
    obtain rfl := List.mem_singleton.1 hy
    rfl
  | reply =>
    obtain rfl := List.mem_singleton.1 hy
    rfl
  | _ => cases hy

/-- The posts that do not move stay as they are. -/
theorem post_next (ho : m.Ordered) (hn : m.next move = some (m', notes)) (hx : (k, x) ∈ m.posts)
    (hk : m.mover move ≠ k) : (k, x) ∈ m'.posts := by
  obtain ⟨-, before, e, after, rest, hb, ha, hs⟩ := next_posts ho hn
  rcases List.mem_append.1 (hb.mem_iff.1 hx) with hx' | hx'
  · exact absurd (hs.key_of_gone _ hx').symm hk
  · exact ha.mem_iff.2 (List.mem_append_right _ hx')

theorem awaits_next (ho : m.Ordered) (hn : m.next move = some (m', notes)) (hx : (k, x) ∈ m.posts)
    (hk : m.mover move ≠ k) : m'.awaits k = m.awaits k := by
  rw [awaits_eq (next_posts ho hn).1 (post_next ho hn hx hk), awaits_eq ho hx]

/-- Behind a turn of a post it waits for a reply exactly if it has put a question; then its leaf is
still the same. -/
theorem awaits_of_lands {l : Leaf} {r : Option Unit} {n place : Nat} {after : List (Nat × Post)}
    {rest : List (Key × Post)} (ho : m'.Ordered)
    (ha : m'.posts.Perm (Activity.keyed n after ++ rest)) (hrest : ∀ y ∈ rest, y.1 ≠ (n, place))
    (hl : Post.Lands m'.pool.config place l after r) :
    m'.awaits (n, place) = r.isNone ∧ (r = none → m'.leaf? (n, place) = some l) := by
  cases r with
  | none =>
    obtain ⟨x', rfl, hleaf, hawaits⟩ := hl
    have hmem : ((n, place), x') ∈ m'.posts :=
      ha.mem_iff.2 (List.mem_append_left _ (List.mem_singleton_self _))
    refine ⟨?_, fun _ => ?_⟩
    · rw [awaits_eq ho hmem, hawaits]
      rfl
    · rw [leaf?_eq ho hmem, hleaf]
  | some u =>
    refine ⟨?_, fun he => by cases he⟩
    unfold awaits
    cases hf : m'.posts.find? (·.1 == (n, place)) with
    | none => rfl
    | some y =>
      obtain ⟨hkey, -⟩ := mem_of_find?_key hf
      rcases List.mem_append.1 (ha.mem_iff.1 (List.mem_of_find?_eq_some hf)) with hy | hy
      · obtain ⟨y₀, hy₀, rfl⟩ := List.mem_map.1 hy
        exact hl y₀ hy₀
      · exact absurd hkey (hrest y hy)

/-- **A move is a turn of one leaf, or changes nothing but the time, an abort or a new operation.** -/
theorem next_leaf (ho : m.Ordered) (hn : m.next move = some (m', notes)) :
    m.Still move m' notes ∨ ∃ l sig r, m.Takes move m' notes l sig r := by
  have hnone : ∀ place, m.leaf? (m.started, place) = none := by
    intro place
    unfold leaf?
    rw [find?_started ho]
    rfl
  obtain ⟨ho', before, e, after, rest, hb, ha, hs, hev⟩ := next_shift ho hn
  have hconfig : m.pool.config = m'.pool.config := (next_things ho hn).config_eq.symm
  have hturned : ∀ {n place : Nat} {x : Post} {after' : List (Nat × Post)},
      m.mover move = (n, place) → before = [((n, place), x)] → after = Activity.keyed n after' →
      x.Turned m.pool.config m.context m.pool place (m.signal? move) m'.pool e after' →
      ∃ l sig r, m.Takes move m' notes l sig r := by
    rintro n place x after' hk rfl rfl ht
    obtain ⟨l, r, sig, htakes, hheard⟩ := ht.leaf
    have hx : ((n, place), x) ∈ m.posts :=
      hb.mem_iff.2 (List.mem_append_left _ (List.mem_singleton_self _))
    have hrest : ∀ y ∈ rest, y.1 ≠ (n, place) := by
      intro y hy hkey
      have hnodup := (hb.map (·.1)).nodup_iff.1 (posts_nodup ho)
      exact (List.nodup_cons.1 hnodup).1 (List.mem_map.2 ⟨y, hy, hkey⟩)
    obtain ⟨hawaits, hstays⟩ := awaits_of_lands ho' ha hrest (hconfig ▸ htakes.lands)
    refine ⟨l, sig, r, ⟨e, ?_, hev⟩, hheard, hk ▸ hawaits, hk ▸ hstays, ⟨x, htakes.leaf⟩, .inl ?_⟩
    · rw [hk, awaits_eq ho hx]
      exact htakes.turn
    · rw [hk, leaf?_eq ho hx]
      exact htakes.leaf
  generalize hp' : m'.pool = p' at hs hturned
  cases hs with
  | abort | advance | vary => exact .inl ⟨hp', rfl, hev, hnone 0⟩
  | order o => exact .inl ⟨hp', rfl, hev, hnone 0⟩
  | step h => exact .inr (hturned rfl rfl rfl h)
  | reply h => exact .inr (hturned rfl rfl rfl h)
  | @fire id g _ e after h =>
    subst hp'
    obtain ⟨l, r, sig, htakes, hheard⟩ := h.leaf
    obtain rfl : Leaf.termination id (.expire g) = l := Option.some.inj htakes.leaf
    have hrest : ∀ y ∈ rest, y.1 ≠ (m.started, 0) := by
      intro y hy hkey
      have hlt := key_lt ho (k := y.1) (x := y.2) (hb.mem_iff.2 hy)
      rw [hkey] at hlt
      exact Nat.lt_irrefl _ hlt
    obtain ⟨hawaits, hstays⟩ := awaits_of_lands ho' ha hrest (hconfig ▸ htakes.lands)
    refine .inr ⟨_, sig, r, ⟨e, ?_, hev⟩, hheard, hawaits, hstays, ⟨_, htakes.leaf⟩,
      .inr ⟨hnone 0, id, g, rfl⟩⟩
    have hready : m.awaits (m.started, 0) = false := by
      unfold awaits
      rw [find?_started ho]
      rfl
    show Demand.Turn _ _ _ (m.awaits (m.started, 0)) _ _
    rw [hready]
    exact htakes.turn

/-- A post terminates a sandbox behind its claim exactly if its leaf does. -/
theorem ending_iff (ho : m.Ordered) {id : String} {port : UInt16} {stage : Stage} :
    (k, .ending id port stage) ∈ m.hands ↔
      m.leaf? k = some (.termination id (stage.point port)) := by
  rw [mem_hands]
  constructor
  · rintro ⟨x, hx, hend⟩
    rw [leaf?_eq ho hx]
    exact (Post.ending_iff m.pool.config x).1 hend
  · intro hl
    obtain ⟨x, hmem, hx⟩ := mem_of_leaf? hl
    exact ⟨x, hmem, (Post.ending_iff m.pool.config x).2 hx⟩

end Machine

end SandboxPool
