import SandboxPool.Proofs.Machine.Acquisitions
import SandboxPool.Proofs.Machine.Events
import SandboxPool.Proofs.Machine.Models
import SandboxPool.Proofs.Pool.FirstStates

/-!
# The gate

Where blocks share a sandbox, it is looked for and started behind a gate. Whoever is there holds the
gate, and is the only one (`Machine.Reaches.gated`). So an acquisition that joins a sandbox, or looks
for one, does not meet any that somebody still starts (`Machine.Reaches.doomed_of_starting`). Nor does
it meet a paused one, since no sandbox that is shared is ever paused (`Machine.Reaches.awake`).
-/

namespace SandboxPool

variable {config : Config} {c : Context} {p p' q : Pool} {out : Bool} {sig : Option Signal}
  {e : List Effect} {place : Nat} {block id : String}

/-! ## Behind the gate -/

/-- An acquisition at the point is behind the gate. -/
def Acquire.Point.inside : Acquire.Point → Bool
  | .find | .reserve | .shared _ | .join _ | .leave _ => true
  | _ => false

/-- A prewarm at the point is behind the gate, if there is one. -/
def Prewarm.Point.inside : Prewarm.Point → Bool
  | .gate => false
  | _ => true

/-- The leaf is behind the gate, and may open it. -/
def Leaf.inside : Leaf → Bool
  | acquire _ a => a.inside
  | prewarm _ point => point.inside
  | _ => false

/-- The post is behind the gate. -/
def Post.inside : Post → Bool
  | prewarm _ s => s.point?.any (·.inside)
  | x => x.acquiring?.any (·.inside)

theorem Post.inside_of_acquiring? {x : Post} {a : Acquire.Point} (ha : x.acquiring? = some a)
    (hi : a.inside = true) : x.inside = true := by
  have hany : x.acquiring?.any (·.inside) = true := by
    rw [ha]
    exact hi
  cases x with
  | prewarm => cases ha
  | _ => exact hany

section Leaves

theorem Spawn.leaf_inside (job : Job) (s : Point) : (s.leaf job).inside = false := by
  cases s <;> rfl

theorem Acquire.inside_of_leaf {a : Point} (h : (a.leaf block).inside = true) : a.inside = true := by
  cases a with
  | cold s => exact absurd (h.symm.trans (Spawn.leaf_inside _ s)) (by simp)
  | shared s => rfl
  | retire => cases h
  | _ => exact h

theorem Release.leaf_inside (r : Point) : (r.leaf id).inside = false := by
  cases r <;> rfl

theorem BlockRun.inside_of_leaf {b : Point} (h : (b.leaf block).inside = true) :
    b.acquiring?.any (·.inside) = true := by
  cases b with
  | acquire since a => exact Acquire.inside_of_leaf (a := a) h
  | release ran id r => exact absurd (h.symm.trans (Release.leaf_inside r)) (by simp)
  | _ => cases h

/-- A post whose leaf is behind the gate is so itself. -/
theorem Post.inside_of_leaf {x : Post} {l : Leaf} (hl : x.leaf? config = some l)
    (h : l.inside = true) : x.inside = true := by
  cases x with
  | acquire block s =>
    obtain ⟨a, ha, rfl⟩ := Option.map_eq_some_iff.1 hl
    exact Post.inside_of_acquiring? ha (Acquire.inside_of_leaf h)
  | release id s =>
    obtain ⟨r, -, rfl⟩ := Option.map_eq_some_iff.1 hl
    exact absurd (h.symm.trans (Release.leaf_inside r)) (by simp)
  | prewarm count s =>
    obtain ⟨point, hp, rfl⟩ := Option.map_eq_some_iff.1 hl
    show s.point?.any (·.inside) = true
    rw [hp]
    exact h
  | spawn s =>
    obtain ⟨t, -, rfl⟩ := Option.map_eq_some_iff.1 hl
    exact absurd (h.symm.trans (Spawn.leaf_inside _ t)) (by simp)
  | execute plan s =>
    obtain ⟨point, hp, rfl⟩ := Option.map_eq_some_iff.1 hl
    show (s.point?.bind (·.acquiring?)).any (·.inside) = true
    rw [hp]
    cases point with
    | solo progress block b => exact BlockRun.inside_of_leaf (b := b) h
    | _ => cases h
  | duty s =>
    obtain ⟨d, hd, rfl⟩ := Option.map_eq_some_iff.1 hl
    show (s.point?.bind (·.acquiring?)).any (·.inside) = true
    rw [hd]
    cases d with
    | run block b => exact BlockRun.inside_of_leaf (b := b) h
    | terminate id t => cases h
  | _ =>
    obtain ⟨point, -, rfl⟩ := Option.map_eq_some_iff.1 hl
    cases h

end Leaves

/-! ## Scopes that leave the gate as it is -/

/-- No sandbox is paused. -/
def Pool.Awake (p : Pool) : Prop := ∀ r ∈ p.records, r.state ≠ .dormant

/-- Nobody opens the gate who is not `inside`, and no sandbox is paused. -/
structure Pool.Guards (inside : Bool) (p q : Pool) : Prop where
  gate : inside = false → p.gateHeld = true → q.gateHeld = true
  awake : p.Awake → q.Awake

namespace Pool

variable {inside : Bool} {r : Record}

theorem Guards.refl (inside : Bool) (p : Pool) : p.Guards inside p := ⟨fun _ h => h, fun h => h⟩

theorem Guards.trans {p₁ : Pool} (h : Guards inside p p₁) (h' : Guards inside p₁ q) :
    Guards inside p q :=
  ⟨fun hi hg => h'.gate hi (h.gate hi hg), fun ha => h'.awake (h.awake ha)⟩

theorem guards_of_records (hr : q.records = p.records) (hg : q.gateHeld = p.gateHeld) :
    Guards inside p q := by
  refine ⟨fun _ h => hg.trans h, fun h r hmem => ?_⟩
  rw [hr] at hmem
  exact h r hmem

theorem Awake.put (h : p.Awake) (hq : q.records = (p.put r).records) (hs : r.state ≠ .dormant) :
    q.Awake := by
  intro x hx
  rw [hq] at hx
  obtain ⟨old, hold, rfl⟩ := List.mem_map.1 hx
  split
  · exact hs
  · exact h old hold

theorem guards_put (hq : q.records = (p.put r).records) (hg : q.gateHeld = p.gateHeld)
    (hs : p.Awake → r.state ≠ .dormant) : Guards inside p q :=
  ⟨fun _ h => hg.trans h, fun h => h.put hq (hs h)⟩

/-- A record that was found is not paused if none is. -/
theorem Awake.of_find? (h : p.Awake) (hf : p.find? id = some r) : r.state ≠ .dormant :=
  h r (mem_of_find? hf).1

end Pool

section Scopes

variable {β : Type} {inside : Bool}

theorem Demand.Turn.guards {d : Demand β} {s : Scope (Option Unit)}
    (h : d.bare.Turn c p out sig s)
    (hscope : ∀ body, d = .scope body → p.Guards inside (body c p).pool) :
    p.Guards inside s.pool := by
  obtain ⟨s₀, h₀, rfl⟩ := Demand.turn_map h
  cases h₀ with
  | scope body => exact hscope body rfl
  | gate next h => exact ⟨fun _ _ => rfl, fun h => h⟩
  | send d a h => exact .refl _ p
  | receive d a r b ha hb => exact .refl _ p

theorem Termination.guards {t : Point} {body : Context → Pool → Scope (Next Point Result)}
    (h : demand id t = .scope body) : p.Guards inside (body c p).pool := by
  cases t with
  | claim =>
    cases h
    show p.Guards inside (claim id p).pool
    unfold claim
    cases hf : p.find? id with
    | none => exact .refl _ p
    | some r =>
      simp only
      split
      · exact .refl _ p
      · exact Pool.guards_put rfl rfl fun ha => (ha.of_find? hf : r.state ≠ .dormant)
  | expire g =>
    cases h
    show p.Guards inside (expire id g p).pool
    unfold expire
    cases hf : p.find? id with
    | none => exact .refl _ p
    | some r =>
      simp only
      split
      · exact .refl _ p
      · exact Pool.guards_put rfl rfl fun ha => (ha.of_find? hf : r.state ≠ .dormant)
  | settle port =>
    cases h
    show p.Guards inside (settle id port p).pool
    cases hf : p.find? id with
    | none =>
      have hfind :
        (({ p with ports := p.ports.release port } : Pool).dropClaim id).find? id = none := hf
      simp only [settle, hfind]
      exact Pool.guards_of_records rfl rfl
    | some r =>
      rw [settle_eq hf]
      exact Pool.guards_put rfl rfl fun _ => by simp
  | _ => cases h

theorem Spawn.publish_guards (job : Job) (id : String) (p : Pool) :
    p.Guards inside (publish job id p).pool := by
  unfold publish
  split
  · exact .refl _ p
  · split
    · exact .refl _ p
    · next r _ _ idle hmove =>
      have hidle : idle.state = .idle := Record.state_of_move hmove
      have hput : p.Guards inside
          ((p.put idle).count fun s => { s with spawned := s.spawned + 1 }) :=
        Pool.guards_put rfl rfl fun _ => by simp [hidle]
      simp only
      split
      · exact hput
      · rw [bind_idle hidle]
        exact hput.trans (Pool.guards_put rfl rfl fun _ => by simp)

theorem Spawn.guards {job : Job} {s : Point} {body : Context → Pool → Scope (Next Point Result)}
    (hs : s.leaf job = .spawn job s) (h : demand config job s = .scope body) :
    p.Guards inside (body c p).pool := by
  cases s with
  | allocate =>
    cases h
    show p.Guards inside (allocate job p).pool
    unfold allocate
    split <;> exact Pool.guards_of_records rfl rfl
  | giveBack port cause =>
    cases h
    exact Pool.guards_of_records rfl rfl
  | register id port =>
    cases h
    refine ⟨fun _ h => h, fun ha r hr => ?_⟩
    rcases List.mem_append.1 hr with hr | hr
    · exact ha r (List.mem_filter.1 hr).1
    · obtain rfl := List.mem_singleton.1 hr
      simp [Record.new]
  | discard id error t => cases hs
  | publish id =>
    cases h
    exact publish_guards job id p
  | _ => cases h

/-- What an acquisition does behind the gate. -/
theorem Acquire.guards {a : Point} {body : Context → Pool → Scope (Next Point Result)}
    (ha : a.Fits .single) (hl : a.leaf block = .acquire block a)
    (h : demand config block a = .scope body) : p.Guards a.inside (body c p).pool := by
  have hinside : ∀ {q : Pool}, (p.Awake → q.Awake) → p.Guards true q :=
    fun h => ⟨fun hi => (by cases hi), h⟩
  cases a with
  | find =>
    cases h
    show p.Guards true (find c p).pool
    unfold find
    split <;> exact .refl _ p
  | reserve =>
    cases h
    show p.Guards true (reserve p).pool
    unfold reserve
    split
    · exact hinside fun h => h
    · next q hq =>
      obtain ⟨-, rfl⟩ := Pool.reserve?_eq_some_iff.1 hq
      exact Pool.guards_of_records rfl rfl
  | join id =>
    cases h
    show p.Guards true (join block id p).pool
    refine hinside fun hawake => ?_
    unfold join
    cases hf : p.find? id with
    | none => exact hawake
    | some r =>
      simp only
      split
      · exact hawake.put rfl (by simp)
      · exact hawake.put rfl (hawake.of_find? hf : r.state ≠ .dormant)
  | leave error =>
    cases h
    exact hinside fun h => h
  | gate => cases h
  | shared s => cases s <;> cases hl
  | _ => cases ha

theorem Release.guards {r : Point} {body : Context → Pool → Scope (Next Point Result)}
    (hr : r.Fits .single) (hl : r.leaf id = .release id r) (h : demand id r = .scope body) :
    p.Guards inside (body c p).pool := by
  cases r with
  | drop =>
    cases h
    show p.Guards inside (drop id p).pool
    unfold drop
    cases hf : p.find? id with
    | none => exact .refl _ p
    | some r =>
      simp only
      split
      · exact .refl _ p
      · exact Pool.guards_put rfl rfl fun ha => (ha.of_find? hf : r.state ≠ .dormant)
  | discard cause t => cases hl
  | _ => cases hr

theorem BlockRun.guards {b : Point} {body : Context → Pool → Scope (Next Point BlockResult)}
    (hb : b.leaf block = .run block b) (h : demand config block b = .scope body) :
    p.Guards inside (body c p).pool := by
  cases b with
  | acquire since a => exact absurd hb (a.leaf_ne_run block)
  | run since sandbox => cases h
  | retire since sandbox ending t => cases hb
  | release ran id r => exact absurd hb (r.leaf_ne_run id)
  | _ =>
    cases h
    exact .refl _ p

/-- A prewarm opens the gate when it leaves, and starts members behind it. -/
theorem Prewarm.guards {count : Nat} {point : Point} {s : Scope (Option Unit)}
    (h : ((conduct config count).leader point).bare.Turn c p out sig s) :
    p.Guards point.inside s.pool := by
  cases point with
  | gate =>
    obtain ⟨-, -, -, rfl⟩ := Demand.turn_gate h
    exact ⟨fun _ _ => rfl, fun h => h⟩
  | reserve =>
    obtain ⟨-, -, rfl⟩ := Demand.turn_scope h
    show p.Guards true (reserve count p).pool
    unfold reserve
    simp only
    split <;> exact Pool.guards_of_records rfl rfl
  | gather =>
    obtain ⟨-, -, rfl⟩ := Demand.turn_scope h
    exact .refl _ p
  | leave r =>
    obtain ⟨-, -, rfl⟩ := Demand.turn_scope h
    show p.Guards true (leave r p).pool
    unfold leave
    split
    · exact .refl _ p
    · exact ⟨fun hi => (by cases hi), fun h => h⟩

theorem Teardown.guards {point : Point} {s : Scope (Option Unit)}
    (h : (conduct.leader point).bare.Turn c p out sig s) : p.Guards inside s.pool := by
  cases point with
  | collect =>
    obtain ⟨-, -, rfl⟩ := Demand.turn_scope h
    show p.Guards inside (collect p).pool
    unfold collect
    split <;> exact .refl _ p
  | gather =>
    obtain ⟨-, -, rfl⟩ := Demand.turn_scope h
    exact .refl _ p

theorem Cleanup.guards {point : Point} {s : Scope (Option Unit)}
    (h : (conduct.leader point).bare.Turn c p out sig s) : p.Guards inside s.pool := by
  cases point with
  | list => rcases Demand.turn_list h with ⟨-, -, rfl⟩ | ⟨r, -, -, rfl⟩ <;> exact .refl _ p
  | compare containers =>
    obtain ⟨-, -, rfl⟩ := Demand.turn_scope h
    show p.Guards inside (compare containers p).pool
    unfold compare
    split <;> exact .refl _ p
  | gather =>
    obtain ⟨-, -, rfl⟩ := Demand.turn_scope h
    exact .refl _ p

/-- An execution itself changes nothing about sandboxes. -/
theorem Execution.guards {plan : Plan} {point : Point} {s : Scope (Option Unit)}
    (hp : point.leaf plan = .execute plan point)
    (h : (leader config plan point).bare.Turn c p out sig s) : p.Guards inside s.pool := by
  cases point with
  | begin =>
    obtain ⟨-, -, rfl⟩ := Demand.turn_scope h
    show p.Guards inside (begin plan p).pool
    unfold begin
    split <;> exact Pool.guards_of_records rfl rfl
  | lane progress =>
    obtain ⟨-, -, rfl⟩ := Demand.turn_scope h
    show p.Guards inside (lane progress c p).pool
    unfold lane
    split
    · exact .refl _ p
    · split <;> exact .refl _ p
  | solo progress block b => exact absurd hp (b.leaf_ne_execute block)
  | dispatch progress sent waiting =>
    obtain ⟨-, -, rfl⟩ := Demand.turn_scope h
    show p.Guards inside (dispatch progress sent waiting c p).pool
    unfold dispatch
    split
    · exact .refl _ p
    · split <;> exact .refl _ p
  | settle progress ran interrupted =>
    obtain ⟨-, -, rfl⟩ := Demand.turn_scope h
    show p.Guards inside (settle progress ran interrupted c p).pool
    unfold settle
    simp only
    split
    · exact .refl _ p
    · split
      · exact .refl _ p
      · split <;> exact .refl _ p
  | teardown progress index =>
    obtain ⟨-, -, rfl⟩ := Demand.turn_scope h
    show p.Guards inside (teardown progress index p).pool
    unfold teardown
    split <;> exact .refl _ p
  | _ =>
    obtain ⟨-, -, rfl⟩ := Demand.turn_scope h
    exact .refl _ p

/-- **Where blocks share a sandbox, only those inside open the gate, and nobody pauses a sandbox.** -/
theorem Leaf.guards {l : Leaf} {s : Scope (Option Unit)} (hl : l.Innermost) (hf : l.Fits .single)
    (h : (l.demand config).Turn c p out sig s) : p.Guards l.inside s.pool := by
  cases l with
  | termination id t => exact Demand.Turn.guards h fun _ => Termination.guards
  | spawn job s => exact Demand.Turn.guards h fun _ => Spawn.guards hl
  | acquire block a => exact Demand.Turn.guards h fun _ => Acquire.guards hf hl
  | release id r => exact Demand.Turn.guards h fun _ => Release.guards hf hl
  | run block b => exact Demand.Turn.guards h fun _ => BlockRun.guards hl
  | prewarm count point => exact Prewarm.guards h
  | teardown point => exact Teardown.guards h
  | cleanup point => exact Cleanup.guards h
  | reclaim id point =>
    refine Demand.Turn.guards h fun body hbody => ?_
    cases point <;> cases hbody
  | execute plan point => exact Execution.guards hl h

end Scopes

/-! ## Turns -/

/-- An acquisition is behind the gate where it was so before, or it enters. -/
theorem Acquire.inside_or {a a' : Point} {s : Scope (Option (Next Point Result))}
    (hf : a.Fits .single) (h : (demand config block a).Turn c p out sig s)
    (ha : (Strand.land a s.result).point? = some a') :
    a.inside = true ∧ (p.gateHeld = true → s.pool.gateHeld = true) ∨
      p.gateHeld = false ∧ s.pool.gateHeld = true := by
  cases a with
  | gate =>
    obtain ⟨-, -, hopen, rfl⟩ := Demand.turn_gate h
    exact .inr ⟨hopen, rfl⟩
  | find =>
    obtain ⟨-, -, rfl⟩ := Demand.turn_scope h
    refine .inl ⟨rfl, ?_⟩
    show p.gateHeld = true → (find c p).pool.gateHeld = true
    unfold find
    split <;> exact fun h => h
  | reserve =>
    obtain ⟨-, -, rfl⟩ := Demand.turn_scope h
    refine .inl ⟨rfl, fun hheld => ?_⟩
    simp only [Scope.map, reserve] at ha ⊢
    split at ha
    · cases ha
    · next q hq =>
      obtain ⟨-, rfl⟩ := Pool.reserve?_eq_some_iff.1 hq
      exact hheld
  | shared t =>
    have hinner := Leaf.innermost_acquire block (.shared t)
    have hwants := (Leaf.acquire_wants config block (.shared t)).demand
    have hturn := h.bare
    rw [← hwants] at hturn
    have hguards := Leaf.guards hinner (leaf_fits hf) hturn
    exact .inl ⟨rfl, hguards.gate (Spawn.leaf_inside _ t)⟩
  | join id =>
    obtain ⟨-, -, rfl⟩ := Demand.turn_scope h
    simp only [Scope.map, join] at ha
    split at ha
    · cases ha
    · split at ha <;> cases ha
  | leave error =>
    obtain ⟨-, -, rfl⟩ := Demand.turn_scope h
    cases ha
  | _ => cases hf

/-- A prewarm is behind the gate where it was so before, or it enters. -/
theorem Prewarm.inside_or {count : Nat} {point point' : Point}
    {s : Scope (Option (Next Point Result))} {tasks : List (Unit × Spawn.Point)}
    (h : ((conduct config count).leader point).Turn c p out sig s tasks)
    (hp : (Strand.land point s.result).point? = some point') :
    point.inside = true ∧ (p.gateHeld = true → s.pool.gateHeld = true) ∨
      p.gateHeld = false ∧ s.pool.gateHeld = true := by
  cases point with
  | gate =>
    obtain ⟨hd, -⟩ := Intent.turn_demand h
    obtain ⟨-, -, hopen, rfl⟩ := Demand.turn_gate hd
    exact .inr ⟨hopen, rfl⟩
  | reserve =>
    obtain ⟨-, -, rfl, -⟩ := Intent.turn_hire h
    refine .inl ⟨rfl, ?_⟩
    show p.gateHeld = true → (reserve count p).pool.gateHeld = true
    unfold reserve
    simp only
    split <;> exact fun h => h
  | gather =>
    obtain ⟨-, -, ⟨ended, rfl⟩, -⟩ := Intent.turn_join h
    exact .inl ⟨rfl, fun h => h⟩
  | leave r =>
    obtain ⟨hd, -⟩ := Intent.turn_demand h
    obtain ⟨-, -, rfl⟩ := Demand.turn_scope hd
    simp only [Scope.map, leave] at hp
    split at hp <;> cases hp

namespace Post

variable {x : Post} {a : Acquire.Point} {after : List (Nat × Post)} {y : Nat × Post}

/-- The acquisition of a post is on the path that the post is on. -/
theorem Fits.acquiring {model : Parallelism} (hx : x.Fits model) (ha : x.acquiring? = some a) :
    a.Fits model := by
  have hrun : ∀ {b : BlockRun.Point}, b.Fits model → b.acquiring? = some a → a.Fits model := by
    intro b hb ha
    cases b with
    | acquire since a' => exact Option.some.inj ha ▸ hb
    | _ => cases ha
  cases x with
  | acquire block s => exact Strand.Keeps.of_point? hx ha
  | execute plan s =>
    obtain ⟨point, hp, ha⟩ := Option.bind_eq_some_iff.1 ha
    have hfits := Strand.Keeps.of_point? hx hp
    cases point with
    | solo progress block b => exact hrun hfits ha
    | _ => cases ha
  | duty s =>
    obtain ⟨d, hd, ha⟩ := Option.bind_eq_some_iff.1 ha
    have hfits := Strand.Keeps.of_point? hx hd
    cases d with
    | run block b => exact hrun hfits ha
    | terminate id t => cases ha
  | _ => cases ha

/-- A post behind the gate prewarms or acquires. -/
theorem inside_cases (hi : x.inside = true) :
    (∃ count s, x = prewarm count s) ∨ ∃ a, x.acquiring? = some a ∧ a.inside = true := by
  cases x with
  | prewarm count s => exact .inl ⟨count, s, rfl⟩
  | _ => exact .inr ((Option.any_eq_true ..).1 hi)

/-- Only a turn of the leader of a prewarm leads to one. -/
theorem Turned.lead_of_prewarm (h : x.Turned config c p place sig p' e after) (hy : y ∈ after)
    {count : Nat} {st : Strand Prewarm.Point Prewarm.Result} (hst : y.2 = .prewarm count st) :
    y.1 = place ∧ ∃ s sc tasks, x = .prewarm count s ∧
      s.Lead (Prewarm.conduct config count).leader c p sig sc tasks ∧ p' = sc.pool ∧
      st = sc.result := by
  have hnone : ∀ {κ σ α τ β : Type} {conduct : Conduct κ σ α τ β} {leader : Strand τ β → Post}
      {member : κ → Strand σ α → Post} {sig : Option Signal},
      Team.Acted conduct leader member c p place x sig p' e after →
      (∀ s, leader s ≠ .prewarm count st) → (∀ task s, member task s ≠ .prewarm count st) → False :=
    fun ht hl hm => (ht.forall (· ≠ .prewarm count st) hl hm).2 y hy hst
  cases h with
  | acquire =>
    obtain rfl := List.mem_singleton.1 hy
    cases hst
  | release =>
    obtain rfl := List.mem_singleton.1 hy
    cases hst
  | terminate =>
    obtain rfl := List.mem_singleton.1 hy
    cases hst
  | prewarm ht =>
    cases ht with
    | leader hlead n =>
      rcases List.mem_cons.1 hy with rfl | hy
      · cases hst
        exact ⟨rfl, _, _, _, rfl, hlead, rfl, rfl⟩
      · obtain ⟨t, -, rfl⟩ := List.mem_map.1 hy
        cases hst
    | member _ hafter =>
      rcases hafter with rfl | ⟨-, rfl⟩
      · obtain rfl := List.mem_singleton.1 hy
        cases hst
      · cases hy
  | teardown ht => exact (hnone ht (by simp) (by simp)).elim
  | cleanup ht => exact (hnone ht (by simp) (by simp)).elim
  | execute ht => exact (hnone ht (by simp) (by simp)).elim

/-- A post behind the gate was there before, or it enters. -/
theorem Turned.inside_or (hc : config.parallelism = .single)
    (h : x.Turned config c p place sig p' e after) (hx : x.Fits .single) (hy : y ∈ after)
    (hi : y.2.inside = true) : y.1 = place ∧
      (x.inside = true ∧ (p.gateHeld = true → p'.gateHeld = true) ∨
        p.gateHeld = false ∧ p'.gateHeld = true) := by
  rcases inside_cases hi with ⟨count, st, hst⟩ | ⟨a', ha', hin⟩
  · obtain ⟨hplace, s, sc, tasks, rfl, hlead, rfl, rfl⟩ := h.lead_of_prewarm hy hst
    refine ⟨hplace, ?_⟩
    rw [hst] at hi
    obtain ⟨point', hp', -⟩ := (Option.any_eq_true ..).1 hi
    obtain ⟨point, out, s₀, rfl, ht, rfl⟩ := hlead.at_point
    cases out with
    | false => exact Prewarm.inside_or ht hp'
    | true => exact Prewarm.inside_or ht hp'
  · obtain ⟨hplace, out, hstart | ⟨block, a, s, hxa, ht, rfl, hland⟩⟩ := h.follows hy ha'
    · rw [hstart] at hin
      simp only [Acquire.start, hc] at hin
      cases hin
    · refine ⟨hplace, (Acquire.inside_or (hx.acquiring hxa) ht hland).imp_left ?_⟩
      exact fun h => ⟨inside_of_acquiring? hxa h.1, h.2⟩

end Post

/-! ## Prewarms that wait -/

namespace Activity

/-- The members of a prewarm are there only while it waits for them. -/
def Awaited : Activity → Prop
  | prewarm _ t => t.Gathered fun
    | .gather => true
    | _ => false
  | _ => True

theorem awaited_ofOrder (config : Config) (o : Order) : (ofOrder config o).Awaited := by
  cases o with
  | prewarm count => exact .inl rfl
  | _ => trivial

theorem Turn.awaited {a : Activity} {s : Scope Activity} (ht : a.Turn config c p place sig s)
    (h : a.Awaited) : s.result.Awaited := by
  cases ht with
  | @prewarm count _ _ _ ht =>
    refine Team.Turn.gathered ⟨fun {point d} hd => ?_, fun {point body} hd c p => ?_⟩ ht h
    · cases point with
      | gather => cases hd
      | _ => rfl
    · cases point with
      | reserve =>
        cases hd
        unfold Prewarm.reserve
        simp only
        split
        · exact .inl ⟨rfl, trivial⟩
        · exact .inr ⟨.gather, rfl, rfl⟩
      | _ => cases hd
  | _ => trivial

end Activity

/-! ## Who starts a sandbox -/

section Raising

theorem Strand.exists_of_mem_hand {σ α : Type} {f : Bool → σ → List Hand} {g : α → List Hand}
    {s : Strand σ α} {t : Hand} (h : t ∈ s.hand f g) (hg : ∀ a, t ∉ g a) :
    ∃ out point, s.point? = some point ∧ t ∈ f out point := by
  cases s with
  | ready point => exact ⟨false, point, rfl, h⟩
  | waiting point => exact ⟨true, point, rfl, h⟩
  | done a => exact absurd h (hg a)
  | panicked message => cases h

theorem Acquire.raising_or {a : Point} (h : .raising id ∈ hand out a) :
    (∃ s, a = .cold s) ∨ ∃ s, a = .shared s := by
  cases a with
  | cold s => exact .inl ⟨s, rfl⟩
  | shared s => exact .inr ⟨s, rfl⟩
  | retire id' error t => cases t <;> simp [hand, Termination.hand] at h
  | failed error => cases error <;> simp [hand] at h
  | _ => simp [hand] at h

theorem Release.raising_notMem {giver : List Hand} {id' : String} (hg : .raising id ∉ giver)
    (r : Point) : .raising id ∉ hand giver id' r := by
  cases r with
  | discard cause t => cases t <;> simpa [hand, Termination.hand] using hg
  | drop => simpa [hand] using hg
  | _ => exact hg

theorem BlockRun.raising_or {b : Point} (h : .raising id ∈ hand block out b) :
    ∃ a, b.acquiring? = some a ∧ .raising id ∈ Acquire.hand out a := by
  cases b with
  | acquire since a => exact ⟨a, rfl, h⟩
  | retire since sandbox ending t => cases t <;> simp [hand, Termination.hand] at h
  | release ran id' r => exact absurd h (Release.raising_notMem (by simp) r)
  | _ => simp [hand] at h

/-- Only spawns start sandboxes: those of a prewarm and those of acquisitions. -/
theorem Post.raising_or {x : Post} (h : .raising id ∈ x.hand) : (∃ s, x = .spawn s) ∨
    ∃ a, x.acquiring? = some a ∧ ((∃ s, a = .cold s) ∨ ∃ s, a = .shared s) := by
  have hnone : ∀ {β : Type} (a : β), Hand.raising id ∉ (fun _ : β => ([] : List Hand)) a := by simp
  cases x with
  | spawn s => exact .inl ⟨s, rfl⟩
  | acquire block s =>
    obtain ⟨out, a, ha, hmem⟩ := Strand.exists_of_mem_hand (f := Acquire.hand) h fun r => by
      cases r <;> simp [gained]
    exact .inr ⟨a, ha, Acquire.raising_or hmem⟩
  | release id' s =>
    obtain ⟨-, r, -, hmem⟩ := Strand.exists_of_mem_hand
      (f := fun _ => Release.hand [.returning id'] id') h hnone
    exact absurd hmem (Release.raising_notMem (by simp) r)
  | terminate id' s =>
    obtain ⟨-, t, -, hmem⟩ := Strand.exists_of_mem_hand
      (f := fun _ => Termination.hand [] id') h hnone
    cases t <;> simp [Termination.hand] at hmem
  | execute plan s =>
    obtain ⟨out, point, hp, hmem⟩ := Strand.exists_of_mem_hand h hnone
    cases point with
    | solo progress block b =>
      obtain ⟨a, ha, hmem⟩ := BlockRun.raising_or hmem
      refine .inr ⟨a, ?_, Acquire.raising_or hmem⟩
      show s.point?.bind (·.acquiring?) = some a
      rw [hp]
      exact ha
    | _ => cases hmem
  | duty s =>
    obtain ⟨out, d, hd, hmem⟩ := Strand.exists_of_mem_hand h hnone
    cases d with
    | run block b =>
      obtain ⟨a, ha, hmem⟩ := BlockRun.raising_or hmem
      refine .inr ⟨a, ?_, Acquire.raising_or hmem⟩
      show s.point?.bind (·.acquiring?) = some a
      rw [hd]
      exact ha
    | terminate id' t => cases t <;> simp [Execution.Duty.hand, Termination.hand] at hmem
  | _ => cases h

end Raising

/-! ## The machine -/

namespace Machine

variable {pool : Pool} {now : Instant} {h : History} {m m' : Machine} {move : Move}
  {notes : List Note} {k : Key} {x y : Post}

section Single

variable (hc : pool.config.parallelism = .single) (hr : (ofPool pool now).Reaches h m)
include hc hr

/-- Where blocks share a sandbox, only those inside open the gate, and nobody pauses a sandbox. -/
theorem Reaches.guards (hn : m.next move = some (m', notes)) :
    m.pool.Guards ((m.leaf? (m.mover move)).any (·.inside)) m'.pool := by
  rcases next_leaf hr.ordered_ofPool hn with hs | ⟨l, sig, r, ⟨e, hturn, -⟩, -, -, -, ⟨x, hx⟩, hl⟩
  · rw [hs.pool]
    exact .refl _ _
  · have hinner := Leaf.innermost_of_leaf? hx
    rcases hl with hl | ⟨hl, id, g, rfl⟩
    · obtain ⟨x', hx', hleaf⟩ := mem_of_leaf? hl
      rw [hl]
      exact Leaf.guards hinner (hc ▸ (hr.fits hx').leaf hleaf) hturn
    · rw [hl]
      exact Leaf.guards hinner trivial hturn

/-- No sandbox that is shared is ever paused. -/
theorem Reaches.awake (hp : pool.records = []) : m.pool.Awake := by
  induction hr with
  | start =>
    intro r hmem
    have hnone : r ∈ pool.records := hmem
    rw [hp] at hnone
    cases hnone
  | next hr hn ih => exact (hr.guards hc hn).awake ih

end Single

/-- Whoever is behind the gate holds it and is the only one there. -/
def Gated (m : Machine) : Prop :=
  ∀ k x, (k, x) ∈ m.posts → x.inside = true →
    m.pool.gateHeld = true ∧ ∀ k' y, (k', y) ∈ m.posts → y.inside = true → k' = k

/-- An operation starts before the gate. -/
theorem inside_ofOrder (hc : config.parallelism = .single) {o : Order} {y : Nat × Post}
    (hy : y ∈ (Activity.ofOrder config o).posts) : y.2.inside = false := by
  cases o with
  | acquire block =>
    obtain rfl := List.mem_singleton.1 hy
    show (Acquire.start config).inside = false
    simp only [Acquire.start, hc]
    rfl
  | prewarm count =>
    obtain rfl := List.mem_singleton.1 hy
    simp only [Prewarm.start, Team.start, hc]
    rfl
  | _ =>
    obtain rfl := List.mem_singleton.1 hy
    rfl

section Single

variable (hc : pool.config.parallelism = .single) (hr : (ofPool pool now).Reaches h m)
include hc hr

/-- Behind a move a post is inside that was so before and has not moved, or that has moved from
inside, or that has entered. -/
theorem Reaches.inside_next (hn : m.next move = some (m', notes)) (hy : (k, y) ∈ m'.posts)
    (hi : y.inside = true) : m.mover move ≠ k ∧ (k, y) ∈ m.posts ∨
      m.mover move = k ∧ ((∃ x, (k, x) ∈ m.posts ∧ x.inside = true) ∧
          (m.pool.gateHeld = true → m'.pool.gateHeld = true) ∨
        m.pool.gateHeld = false ∧ m'.pool.gateHeld = true) := by
  have hconfig : m.pool.config.parallelism = .single := by rw [hr.config_eq, hc]
  cases next_post hr.ordered_ofPool hn hy with
  | stay hx hk => exact .inl ⟨hk, hx⟩
  | order o _ hx =>
    rw [inside_ofOrder hconfig hx] at hi
    cases hi
  | @turn place x sig p' e after hk hx hp ht hmem =>
    obtain rfl := hp
    have hfits : x.Fits .single := by
      rcases hx with hx | ⟨id, g, rfl⟩
      · exact hc ▸ hr.fits hx
      · trivial
    obtain ⟨hplace, hor⟩ := ht.inside_or hconfig hfits hmem hi
    obtain ⟨n, place'⟩ := k
    obtain rfl : place' = place := hplace
    refine .inr ⟨hk, hor.imp_left fun ⟨hin, hgate⟩ => ⟨?_, hgate⟩⟩
    rcases hx with hx | ⟨id, g, rfl⟩
    · exact ⟨x, hx, hin⟩
    · cases hin

/-- **Whoever is behind the gate holds it and is the only one there.** -/
theorem Reaches.gated : m.Gated := by
  induction hr with
  | start =>
    intro k x hx
    rw [posts_ofPool] at hx
    cases hx
  | @next h m m' move notes hr hn ih =>
    intro k x hx hi
    rcases hr.inside_next hc hn hx hi with ⟨hk, hx⟩ | ⟨rfl, ⟨⟨x₀, hx₀, hi₀⟩, hgate⟩ | ⟨hopen, hheld⟩⟩
    · -- somebody else moves, who is not inside and does not enter
      obtain ⟨hheld, honly⟩ := ih k x hx hi
      have hleaf : ((m.leaf? (m.mover move)).any (·.inside)) = false := by
        rw [Bool.eq_false_iff]
        intro hany
        obtain ⟨l, hl, hin⟩ := (Option.any_eq_true ..).1 hany
        obtain ⟨z, hz, hzl⟩ := mem_of_leaf? hl
        exact hk (honly _ z hz (Post.inside_of_leaf hzl hin))
      refine ⟨(hr.guards hc hn).gate hleaf hheld, fun k' y hy hyi => ?_⟩
      rcases hr.inside_next hc hn hy hyi with ⟨-, hy⟩ | ⟨rfl, ⟨⟨y₀, hy₀, hyi₀⟩, -⟩ | ⟨hopen, -⟩⟩
      · exact honly k' y hy hyi
      · exact honly _ y₀ hy₀ hyi₀
      · rw [hheld] at hopen
        cases hopen
    · obtain ⟨hheld, honly⟩ := ih _ x₀ hx₀ hi₀
      refine ⟨hgate hheld, fun k' y hy hyi => ?_⟩
      rcases hr.inside_next hc hn hy hyi with ⟨-, hy⟩ | ⟨rfl, -⟩
      · exact honly k' y hy hyi
      · rfl
    · refine ⟨hheld, fun k' y hy hyi => ?_⟩
      rcases hr.inside_next hc hn hy hyi with ⟨-, hy⟩ | ⟨rfl, -⟩
      · rw [(ih k' y hy hyi).1] at hopen
        cases hopen
      · rfl

end Single

/-- A spawn that stands by itself is a member of a prewarm that waits for it. -/
theorem Reaches.prewarm_of_spawn (hr : (ofPool pool now).Reaches h m)
    {s : Strand Spawn.Point Spawn.Result} (hx : (k, .spawn s) ∈ m.posts) :
    ∃ count, ((k.1, 0), .prewarm count (.ready .gather)) ∈ m.posts := by
  obtain ⟨a, ha, hx⟩ := mem_posts.1 hx
  have hawaited : a.Awaited := hr.forall_activity Activity.awaited_ofOrder (fun _ _ => trivial)
    (fun _ h ht => ht.awaited h) (activity?_of_mem hr.ordered_ofPool ha)
  have hno : ∀ {κ σ α τ β : Type} {t : Team κ σ α τ β} {leader : Strand τ β → Post}
      {member : κ → Strand σ α → Post}, (∀ s', leader s' ≠ .spawn s) →
      (∀ task s', member task s' ≠ .spawn s) → (k.2, Post.spawn s) ∉ t.posts leader member := by
    intro κ σ α τ β t leader member hl hm hx
    rcases List.mem_cons.1 hx with heq | hx
    · exact hl _ (Prod.mk.inj heq).2.symm
    · obtain ⟨z, -, heq⟩ := List.mem_map.1 hx
      exact hm _ _ (Prod.mk.inj heq).2
  cases a with
  | prewarm count t =>
    rcases hawaited with hnone | ⟨point, hl, hwaits⟩
    · simp [Activity.posts, Team.posts, Team.stand, hnone] at hx
    · cases point with
      | gather =>
        refine ⟨count, mem_posts.2 ⟨_, ha, ?_⟩⟩
        show (0, _) ∈ t.posts _ _
        rw [← hl]
        exact List.mem_cons_self ..
      | _ => cases hwaits
  | teardown t => exact absurd hx (hno (by simp) (by simp))
  | cleanup t => exact absurd hx (hno (by simp) (by simp))
  | execute plan t => exact absurd hx (hno (by simp) (by simp))
  | _ => simp [Activity.posts] at hx

/-- A sandbox that is not doomed stays in its first state only while somebody starts it. -/
theorem Reaches.raised {seed : BitVec 128} (hp : Pool.create config seed = .ok pool)
    (hr : (ofPool pool now).Reaches h m) : Raised m.pool m.things := by
  induction hr with
  | start =>
    obtain ⟨-, rfl⟩ := create_eq_ok_iff.1 hp
    intro r hmem
    cases hmem
  | next hr hn ih => exact ih.moves (hr.capped hp).distinct (next_things hr.ordered_ofPool hn)

/-- No sandbox that is claimed to be woken is terminated. -/
theorem Reaches.alert {seed : BitVec 128} (hp : Pool.create config seed = .ok pool)
    (hr : (ofPool pool now).Reaches h m) : m.pool.Alert := by
  induction hr with
  | start =>
    obtain ⟨-, rfl⟩ := create_eq_ok_iff.1 hp
    intro r hmem
    cases hmem
  | next hr hn ih => exact ih.moves (next_things hr.ordered_ofPool hn)

/-- Nobody starts a sandbox while somebody behind the gate looks for the one that is shared, or joins
it. -/
theorem Reaches.spawnless (hc : pool.config.parallelism = .single) (hr : (ofPool pool now).Reaches h m)
    {a : Acquire.Point} (hx : (k, x) ∈ m.posts) (ha : x.acquiring? = some a) (hi : a.inside = true)
    (hno : ∀ s, a ≠ .shared s) {k' : Key} (hy : (k', y) ∈ m.posts) :
    (∀ s, y ≠ .spawn s) ∧ (∀ s, y.acquiring? ≠ some (.cold s)) ∧
      ∀ s, y.acquiring? ≠ some (.shared s) := by
  have honly := (hr.gated hc k x hx (Post.inside_of_acquiring? ha hi)).2
  refine ⟨fun s he => ?_, fun s ha' => ?_, fun s ha' => ?_⟩
  · -- a prewarm waits behind the gate for the member that starts the sandbox
    subst he
    obtain ⟨count, hlead⟩ := hr.prewarm_of_spawn hy
    have hkey := honly _ _ hlead rfl
    rw [hkey] at hlead
    rw [post_unique hr.ordered_ofPool hx hlead] at ha
    cases ha
  · have hfits := (hr.fits hy).acquiring ha'
    rw [hc] at hfits
    cases hfits
  · have hkey := honly k' y hy (Post.inside_of_acquiring? ha' rfl)
    rw [hkey] at hy
    rw [post_unique hr.ordered_ofPool hx hy, ha'] at ha
    exact hno s (Option.some.inj ha).symm

/-- **Whoever looks for the shared sandbox, or joins it, meets none that somebody starts**: a sandbox
in its first state is doomed by then. -/
theorem Reaches.doomed_of_starting {seed : BitVec 128} (hp : Pool.create config seed = .ok pool)
    (hc : config.parallelism = .single) (hr : (ofPool pool now).Reaches h m) {a : Acquire.Point}
    (hx : (k, x) ∈ m.posts) (ha : x.acquiring? = some a) (hi : a.inside = true)
    (hno : ∀ s, a ≠ .shared s) {r : Record} (hrec : r ∈ m.pool.records)
    (hs : r.state = .starting) : m.pool.Doomed r.id := by
  have hsingle : pool.config.parallelism = .single := by
    obtain ⟨-, rfl⟩ := create_eq_ok_iff.1 hp
    exact hc
  rcases hr.raised hp r hrec hs with hdoomed | hraising
  · exact hdoomed
  · exfalso
    obtain ⟨⟨k', t⟩, hmem, rfl⟩ := List.mem_map.1 hraising
    obtain ⟨y, hy, hhand⟩ := mem_hands.1 hmem
    obtain ⟨hspawn, hcold, hshared⟩ := hr.spawnless hsingle hx ha hi hno hy
    rcases Post.raising_or hhand with ⟨s, he⟩ | ⟨a', ha', ⟨s, rfl⟩ | ⟨s, rfl⟩⟩
    · exact hspawn s he
    · exact hcold s ha'
    · exact hshared s ha'

end Machine

end SandboxPool
