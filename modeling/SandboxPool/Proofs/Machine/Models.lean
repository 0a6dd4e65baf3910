import SandboxPool.Proofs.Machine.Course
import SandboxPool.Proofs.Machine.Leaves
import SandboxPool.Proofs.Machine.Promises

/-!
# The points of the two models

Acquisitions and releases take other paths where every block has a sandbox of its own than where all
blocks share one. `Post.Fits` says that a post is on the paths of a model, and all posts of a pool are
on those of its model (`Machine.Reaches.fits`).

* `Machine.turned_of_mover`: a post that moves takes a turn.
* `Machine.next_post`: every post behind a move was there, comes from a turn or is new.
-/

namespace SandboxPool

variable {config : Config} {c : Context} {p p' : Pool} {sig : Option Signal} {e : List Effect}
  {place : Nat} {block id : String} {model : Parallelism}

/-! ## Posts that keep what is known -/

section Posts

variable {κ σ α τ β : Type} {conduct : Conduct κ σ α τ β}

/-- A leader keeps what every point of it leads to. -/
theorem Intent.Turn.keeps {i : Intent κ σ α τ β} {out : Bool} {s : Scope (Option (Next τ β))}
    {tasks : List (κ × σ)} (h : i.Turn c p out sig s tasks) {R : Next τ β → Prop} {H : κ → σ → Prop}
    (hi : i.Ensures R H) : (∀ next, s.result = some next → R next) ∧ ∀ x ∈ tasks, H x.1 x.2 := by
  cases h with
  | demand h => exact ⟨fun next hnext => Demand.Ensures.of_turn hi h next hnext, fun x hx => by cases hx⟩
  | hire body =>
    refine ⟨fun next hnext => ?_, (hi c p).2⟩
    obtain rfl := Option.some.inj hnext
    exact (hi c p).1
  | join next ended =>
    refine ⟨fun n hn => ?_, fun x hx => by cases hx⟩
    obtain rfl := Option.some.inj hn
    exact hi c ended

/-- The posts of a team keep what is known of the leader and of the members. -/
theorem Team.Acted.keeps {leader : Strand τ β → Post} {member : κ → Strand σ α → Post} {x : Post}
    {after : List (Nat × Post)} (h : Acted conduct leader member c p place x sig p' e after)
    {F : Post → Prop} {P : κ → σ → Prop} {Q : κ → α → Prop} {P' : τ → Prop} {Q' : β → Prop}
    (hl : ∀ s, F (leader s) ↔ s.Keeps P' Q')
    (hm : ∀ task s, F (member task s) ↔ s.Keeps (P task) (Q task))
    (hlead : ∀ point, P' point → (conduct.leader point).Ensures
      (fun next => (Strand.ofNext next).Keeps P' Q') P)
    (hmember : ∀ task point, P task point → (conduct.member task point).Ensures fun next =>
      (Strand.ofNext next).Keeps (P task) (Q task))
    (hx : F x) : ∀ y ∈ after, F y.2 := by
  cases h with
  | @leader st _ sc tasks hturn n =>
    have hst : st.Keeps P' Q' := (hl _).1 hx
    have hgoes : sc.result.Keeps P' Q' ∧ ∀ x ∈ tasks, P x.1 x.2 := by
      cases hturn with
      | @ready point _ s _ ht =>
        obtain ⟨hnext, htasks⟩ := ht.keeps (hlead point hst)
        refine ⟨?_, htasks⟩
        show (Strand.land point s.result).Keeps P' Q'
        cases hres : s.result with
        | none => exact hst
        | some next => exact hnext next hres
      | @waiting point _ s _ ht =>
        obtain ⟨hnext, htasks⟩ := ht.keeps (hlead point hst)
        refine ⟨?_, htasks⟩
        show (Strand.land point s.result).Keeps P' Q'
        cases hres : s.result with
        | none => exact hst
        | some next => exact hnext next hres
    intro y hy
    rcases List.mem_cons.1 hy with rfl | hy
    · exact (hl _).2 hgoes.1
    · obtain ⟨new, hnew, rfl⟩ := List.mem_map.1 hy
      exact (hm _ _).2 (Team.each_enrol hgoes.2 new hnew)
  | @member task s _ sc _ ht ha =>
    have hgoes : F (member task sc.result) :=
      (hm _ _).2 (ht.keeps ((hm _ _).1 hx) (hmember task))
    intro y hy
    rcases ha with rfl | ⟨-, rfl⟩
    · obtain rfl := List.mem_singleton.1 hy
      exact hgoes
    · cases hy

end Posts

/-! ## Paths -/

/-- An acquisition is on the path of a model. -/
def Acquire.Point.Fits (model : Parallelism) : Acquire.Point → Prop
  | .gate | .find | .reserve | .shared _ | .join _ | .leave _ => model = .single
  | _ => model = .multi

/-- A release is on the path of a model. -/
def Release.Point.Fits (model : Parallelism) : Release.Point → Prop
  | .drop => model = .single
  | _ => model = .multi

/-- The acquisition or the release of a block is on the path of a model. -/
def BlockRun.Point.Fits (model : Parallelism) : BlockRun.Point → Prop
  | .acquire _ a => a.Fits model
  | .release _ _ r => r.Fits model
  | _ => True

/-- A member of an execution is on the path of a model. -/
def Execution.Duty.Fits (model : Parallelism) : Execution.Duty → Prop
  | .run _ b => b.Fits model
  | .terminate .. => True

/-- An execution itself is on the path of a model. -/
def Execution.Point.Fits (model : Parallelism) : Execution.Point → Prop
  | .solo _ _ b => b.Fits model
  | _ => True

/-- A post is on the paths of a model. -/
def Post.Fits (model : Parallelism) : Post → Prop
  | acquire _ s => s.Keeps (Acquire.Point.Fits model) fun _ => True
  | release _ s => s.Keeps (Release.Point.Fits model) fun _ => True
  | execute _ s => s.Keeps (Execution.Point.Fits model) fun _ => True
  | duty s => s.Keeps (Execution.Duty.Fits model) fun _ => True
  | _ => True

theorem Acquire.fits_start (config : Config) : (start config).Fits config.parallelism := by
  unfold start
  split
  · next h => exact h
  · next h => exact h

theorem Release.fits_start (config : Config) : (start config).Fits config.parallelism := by
  unfold start
  split
  · next h => exact h
  · next h => exact h

theorem Acquire.ensures_fits {a : Point} (ha : a.Fits model) : (demand config block a).Ensures
    fun next => (Strand.ofNext next).Keeps (Point.Fits model) fun _ => True := by
  have hcold : ∀ (error : PoolError) (p : Pool), model = .multi →
      (Strand.ofNext (coldOr error p).result).Keeps (Point.Fits model) fun _ => True := by
    intro error p hm
    unfold coldOr
    split
    · trivial
    · exact hm
  cases a with
  | pick =>
    refine Demand.ensures_scope fun _ p => ?_
    unfold pick
    split
    · unfold take
      split <;> trivial
    · exact ha
    · exact hcold _ p ha
  | unpause id port =>
    refine Demand.ensures_act fun r => ?_
    cases r <;> exact ha
  | probe id port =>
    refine Demand.ensures_health fun r => ?_
    cases r <;> exact ha
  | rebind id =>
    refine Demand.ensures_scope fun _ p => ?_
    unfold rebind
    split
    · exact ha
    · simp only
      split
      · exact ha
      · split
        · exact ha
        · split
          · exact ha
          · trivial
  | failed error =>
    refine Demand.ensures_scope fun _ p => ?_
    unfold failed
    cases error <;> exact ha
  | retire id error t => exact (Demand.ensures_true _).into (fun _ _ => ha) fun _ _ => ha
  | replace error => exact Demand.ensures_scope fun _ p => hcold error p ha
  | cold s => exact (Demand.ensures_true _).into (fun _ _ => ha) fun _ _ => trivial
  | gate => exact Demand.ensures_gate ha
  | find =>
    refine Demand.ensures_scope fun _ p => ?_
    unfold find
    split <;> exact ha
  | reserve =>
    refine Demand.ensures_scope fun _ p => ?_
    unfold reserve leave
    split
    · trivial
    · exact ha
  | shared s =>
    refine (Demand.ensures_true _).into (fun _ _ => ha) fun r _ => ?_
    cases r <;> exact ha
  | join id =>
    refine Demand.ensures_scope fun _ p => ?_
    unfold join leave
    split
    · trivial
    · simp only
      split <;> trivial
  | leave error => exact Demand.ensures_scope fun _ _ => trivial

theorem Release.ensures_fits {r : Point} (hr : r.Fits model) : (demand id r).Ensures
    fun next => (Strand.ofNext next).Keeps (Point.Fits model) fun _ => True := by
  cases r with
  | check =>
    refine Demand.ensures_scope fun _ p => ?_
    unfold check
    split
    · trivial
    · split
      · trivial
      · split
        · trivial
        · exact hr
  | pause =>
    refine Demand.ensures_act fun r => ?_
    cases r <;> exact hr
  | discard cause t => exact (Demand.ensures_true _).into (fun _ _ => hr) fun _ _ => trivial
  | park =>
    refine Demand.ensures_scope fun c p => ?_
    unfold park
    split
    · trivial
    · split
      · trivial
      · simp only
        split <;> trivial
  | drop =>
    refine Demand.ensures_scope fun _ p => ?_
    unfold drop
    split
    · trivial
    · split <;> trivial

theorem BlockRun.ensures_fits {b : Point} (hb : b.Fits config.parallelism) :
    (demand config block b).Ensures fun next =>
      (Strand.ofNext next).Keeps (Point.Fits config.parallelism) fun _ => True := by
  cases b with
  | begin => exact Demand.ensures_scope fun _ _ => Acquire.fits_start config
  | acquire since a =>
    refine (Acquire.ensures_fits hb).into (fun _ h => h) fun r _ => ?_
    cases r <;> trivial
  | refuse since e => exact Demand.ensures_scope fun _ _ => trivial
  | run since sandbox =>
    refine Demand.ensures_run fun r => ?_
    split <;> trivial
  | retire since sandbox ending t =>
    exact (Demand.ensures_true _).into (fun _ _ => trivial) fun _ _ => trivial
  | conclude since sandbox ending => exact Demand.ensures_scope fun _ _ => Release.fits_start config
  | release ran id r => exact (Release.ensures_fits hb).into (fun _ h => h) fun _ _ => trivial

namespace Execution

theorem member_fits {d : Duty} (hd : d.Fits config.parallelism) : (member config d).Ensures
    fun next => (Strand.ofNext next).Keeps (Duty.Fits config.parallelism) fun _ => True := by
  cases d with
  | run block b => exact (BlockRun.ensures_fits hd).into (fun _ h => h) fun _ _ => trivial
  | terminate id t => exact (Demand.ensures_true _).into (fun _ _ => trivial) fun _ _ => trivial

theorem leader_fits {plan : Plan} {point : Point} (hp : point.Fits config.parallelism) :
    (leader config plan point).Ensures
      (fun next => (Strand.ofNext next).Keeps (Point.Fits config.parallelism) fun _ => True)
      fun _ => Duty.Fits config.parallelism := by
  cases point with
  | begin =>
    refine Demand.ensures_scope fun _ p => ?_
    unfold begin
    split <;> trivial
  | lane s =>
    refine Demand.ensures_scope fun c p => ?_
    unfold lane
    split
    · trivial
    · split
      · trivial
      · next first _ _ _ => cases first <;> trivial
  | solo s block b => exact (BlockRun.ensures_fits hp).into (fun _ h => h) fun _ _ => trivial
  | dispatch s sent waiting =>
    intro c p
    simp only [dispatch]
    split
    · exact ⟨trivial, fun x hx => by cases hx⟩
    · split
      · exact ⟨trivial, fun x hx => by cases hx⟩
      · refine ⟨trivial, fun x hx => ?_⟩
        obtain rfl := List.mem_singleton.1 hx
        trivial
  | gather s sent interrupted => exact fun _ _ => trivial
  | settle s ran interrupted =>
    refine Demand.ensures_scope fun c p => ?_
    unfold settle
    simp only
    split
    · trivial
    · split
      · trivial
      · split <;> trivial
  | abort s index => exact Demand.ensures_scope fun _ _ => trivial
  | teardown s index =>
    intro c p
    simp only [teardown]
    split
    · exact ⟨trivial, fun x hx => by cases hx⟩
    · refine ⟨trivial, fun x hx => ?_⟩
      obtain ⟨r, -, rfl⟩ := List.mem_map.1 hx
      trivial
  | cleared s index => exact fun _ _ => trivial
  | finish s status => exact Demand.ensures_scope fun _ _ => trivial

end Execution

/-- A post keeps to the paths of the model. -/
theorem Post.Turned.fits {x : Post} {after : List (Nat × Post)}
    (h : x.Turned config c p place sig p' e after) (hx : x.Fits config.parallelism) :
    ∀ y ∈ after, y.2.Fits config.parallelism := by
  have hteam : ∀ {κ σ α τ β : Type} {conduct : Conduct κ σ α τ β} {leader : Strand τ β → Post}
      {member : κ → Strand σ α → Post} {sig : Option Signal},
      Team.Acted conduct leader member c p place x sig p' e after →
      (∀ s, (leader s).Fits config.parallelism) → (∀ task s, (member task s).Fits config.parallelism) →
      ∀ y ∈ after, y.2.Fits config.parallelism :=
    fun h hl hm => (h.forall (·.Fits config.parallelism) hl hm).2
  cases h with
  | acquire ht =>
    intro y hy
    obtain rfl := List.mem_singleton.1 hy
    exact ht.keeps hx fun a ha => Acquire.ensures_fits ha
  | release ht =>
    intro y hy
    obtain rfl := List.mem_singleton.1 hy
    exact ht.keeps hx fun r hr => Release.ensures_fits hr
  | terminate =>
    intro y hy
    obtain rfl := List.mem_singleton.1 hy
    trivial
  | prewarm ht => exact hteam ht (fun _ => trivial) fun _ _ => trivial
  | teardown ht => exact hteam ht (fun _ => trivial) fun _ _ => trivial
  | cleanup ht => exact hteam ht (fun _ => trivial) fun _ _ => trivial
  | execute ht =>
    exact ht.keeps (fun _ => Iff.rfl) (fun _ _ => Iff.rfl) (fun _ => Execution.leader_fits)
      (fun _ _ => Execution.member_fits) hx

theorem Activity.fits_ofOrder (config : Config) (o : Order) :
    ∀ y ∈ (ofOrder config o).posts, y.2.Fits config.parallelism := by
  intro y hy
  cases o with
  | acquire block =>
    obtain rfl := List.mem_singleton.1 hy
    exact Acquire.fits_start config
  | release id =>
    obtain rfl := List.mem_singleton.1 hy
    exact Release.fits_start config
  | _ =>
    obtain rfl := List.mem_singleton.1 hy
    trivial

/-! ## Leaves -/

/-- A leaf is on the path of a model. -/
def Leaf.Fits (model : Parallelism) : Leaf → Prop
  | acquire _ a => a.Fits model
  | release _ r => r.Fits model
  | _ => True

theorem Strand.Keeps.of_point? {σ α : Type} {P : σ → Prop} {Q : α → Prop} {st : Strand σ α}
    {point : σ} (h : st.Keeps P Q) (hp : st.point? = some point) : P point := by
  cases st with
  | ready => exact Option.some.inj hp ▸ h
  | waiting => exact Option.some.inj hp ▸ h
  | _ => cases hp

theorem Spawn.leaf_fits (job : Job) (s : Point) : (s.leaf job).Fits model := by
  cases s <;> trivial

theorem Acquire.leaf_fits {a : Point} (ha : a.Fits model) : (a.leaf block).Fits model := by
  cases a with
  | cold s => exact Spawn.leaf_fits _ s
  | shared s => exact Spawn.leaf_fits _ s
  | _ => first | exact ha | trivial

theorem Release.leaf_fits {r : Point} (hr : r.Fits model) : (r.leaf id).Fits model := by
  cases r <;> first | exact hr | trivial

theorem BlockRun.leaf_fits {b : Point} (hb : b.Fits model) : (b.leaf block).Fits model := by
  cases b with
  | acquire since a => exact Acquire.leaf_fits hb
  | release ran id r => exact Release.leaf_fits hb
  | _ => trivial

/-- The leaf of a post is on the paths that the post is on. -/
theorem Post.Fits.leaf {x : Post} {l : Leaf} (hx : x.Fits model) (hl : x.leaf? config = some l) :
    l.Fits model := by
  cases x with
  | acquire block s =>
    obtain ⟨a, ha, rfl⟩ := Option.map_eq_some_iff.1 hl
    exact Acquire.leaf_fits (Strand.Keeps.of_point? hx ha)
  | release id s =>
    obtain ⟨r, hr, rfl⟩ := Option.map_eq_some_iff.1 hl
    exact Release.leaf_fits (Strand.Keeps.of_point? hx hr)
  | spawn s =>
    obtain ⟨t, -, rfl⟩ := Option.map_eq_some_iff.1 hl
    exact Spawn.leaf_fits _ t
  | execute plan s =>
    obtain ⟨point, hp, rfl⟩ := Option.map_eq_some_iff.1 hl
    have hfits := Strand.Keeps.of_point? hx hp
    cases point with
    | solo progress block b => exact BlockRun.leaf_fits hfits
    | _ => trivial
  | duty s =>
    obtain ⟨d, hd, rfl⟩ := Option.map_eq_some_iff.1 hl
    have hfits := Strand.Keeps.of_point? hx hd
    cases d with
    | run block b => exact BlockRun.leaf_fits hfits
    | terminate id t => trivial
  | _ =>
    obtain ⟨point, -, rfl⟩ := Option.map_eq_some_iff.1 hl
    trivial

/-! ## The posts of a machine -/

namespace Machine

variable {pool : Pool} {now : Instant} {h : History} {m m' : Machine} {move : Move}
  {notes : List Note} {k : Key} {x y : Post}

/-- A post that moves takes a turn, and those that do not move stay. -/
theorem posts_of_mover (ho : m.Ordered) (hn : m.next move = some (m', notes))
    (hx : (m.mover move, x) ∈ m.posts) : ∃ sig e after rest,
      x.Turned m.pool.config m.context m.pool (m.mover move).2 sig m'.pool e after ∧
      m.posts.Perm ((m.mover move, x) :: rest) ∧
      m'.posts.Perm (Activity.keyed (m.mover move).1 after ++ rest) := by
  obtain ⟨-, before, e, after, rest, hb, ha, hs⟩ := next_posts ho hn
  have hnew : (m.mover move).1 ≠ m.started := Nat.ne_of_lt (key_lt ho hx)
  have hstep : ∀ {n place : Nat} {z : Post} {sig : Option Signal} {after' : List (Nat × Post)},
      m.mover move = (n, place) → before = [((n, place), z)] → after = Activity.keyed n after' →
      z.Turned m.pool.config m.context m.pool place sig m'.pool e after' → ∃ sig e after rest,
        x.Turned m.pool.config m.context m.pool (m.mover move).2 sig m'.pool e after ∧
        m.posts.Perm ((m.mover move, x) :: rest) ∧
        m'.posts.Perm (Activity.keyed (m.mover move).1 after ++ rest) := by
    rintro n place z sig after' hk rfl rfl ht
    rw [hk] at hx ⊢
    obtain rfl := post_unique ho hx (hb.mem_iff.2 (List.mem_append_left _ (List.mem_singleton_self _)))
    exact ⟨sig, e, after', rest, ht, hb, ha⟩
  generalize hp : m'.pool = p' at hs hstep
  cases hs with
  | step ht => exact hstep rfl rfl rfl ht
  | reply ht => exact hstep rfl rfl rfl ht
  | _ => exact absurd rfl hnew

/-- A post that moves takes a turn, and stands behind it where the turn takes it. -/
theorem turned_of_mover (ho : m.Ordered) (hn : m.next move = some (m', notes))
    (hx : (m.mover move, x) ∈ m.posts) : ∃ sig e after,
      x.Turned m.pool.config m.context m.pool (m.mover move).2 sig m'.pool e after ∧
      ∀ y, (m.mover move, y) ∈ m'.posts → ((m.mover move).2, y) ∈ after := by
  obtain ⟨sig, e, after, rest, ht, hb, ha⟩ := posts_of_mover ho hn hx
  refine ⟨sig, e, after, ht, fun y hy => ?_⟩
  rcases List.mem_append.1 (ha.mem_iff.1 hy) with hy | hy
  · obtain ⟨y₀, hy₀, heq⟩ := List.mem_map.1 hy
    obtain ⟨hkey, rfl⟩ := Prod.mk.inj heq
    rw [← hkey]
    exact hy₀
  · have hnodup := (hb.map (·.1)).nodup_iff.1 (posts_nodup ho)
    exact absurd (List.mem_map.2 ⟨_, hy, rfl⟩) (List.nodup_cons.1 hnodup).1

/-- A post behind a move: it is as it was, its operation has just started, or it comes from a turn. A
termination whose time has come is new. -/
inductive Comes (m : Machine) (move : Move) (m' : Machine) (k : Key) (y : Post) : Prop where
  | stay (hy : (k, y) ∈ m.posts) (hk : m.mover move ≠ k)
  | order (o : Order) (hk : k.1 = m.started)
      (hy : (k.2, y) ∈ (Activity.ofOrder m.pool.config o).posts) (hp : m'.pool = m.pool)
      (hm : move = .order o)
  | turn {place : Nat} {x : Post} {sig : Option Signal} {p' : Pool} {e : List Effect}
      {after : List (Nat × Post)} (hk : m.mover move = (k.1, place))
      (hx : ((k.1, place), x) ∈ m.posts ∨ ∃ id g, x = .terminate id (.ready (.expire g)))
      (hp : m'.pool = p') (ht : x.Turned m.pool.config m.context m.pool place sig p' e after)
      (hy : (k.2, y) ∈ after)

/-- **Where a post comes from.** -/
theorem next_post (ho : m.Ordered) (hn : m.next move = some (m', notes)) (hy : (k, y) ∈ m'.posts) :
    m.Comes move m' k y := by
  obtain ⟨-, before, e, after, rest, hb, ha, hs⟩ := next_posts ho hn
  have hkeyed : ∀ {n : Nat} {posts : List (Nat × Post)}, (k, y) ∈ Activity.keyed n posts →
      k.1 = n ∧ (k.2, y) ∈ posts := by
    intro n posts hmem
    obtain ⟨y₀, hy₀, heq⟩ := List.mem_map.1 hmem
    obtain ⟨rfl, rfl⟩ := Prod.mk.inj heq
    exact ⟨rfl, hy₀⟩
  rcases List.mem_append.1 (ha.mem_iff.1 hy) with hy | hy
  · have hbefore : ∀ z ∈ before, z ∈ m.posts := fun z hz =>
      hb.mem_iff.2 (List.mem_append_left _ hz)
    generalize hp : m'.pool = p' at hs
    cases hs with
    | abort | advance | vary => cases hy
    | order o =>
      obtain ⟨hk, hmem⟩ := hkeyed hy
      exact .order o hk hmem hp rfl
    | step ht =>
      obtain ⟨hk, hmem⟩ := hkeyed hy
      subst hk
      exact .turn rfl (.inl (hbefore _ (List.mem_singleton_self _))) hp ht hmem
    | reply ht =>
      obtain ⟨hk, hmem⟩ := hkeyed hy
      subst hk
      exact .turn rfl (.inl (hbefore _ (List.mem_singleton_self _))) hp ht hmem
    | fire ht =>
      obtain ⟨hk, hmem⟩ := hkeyed hy
      exact .turn (by rw [hk]; rfl) (.inr ⟨_, _, rfl⟩) hp ht hmem
  · refine .stay (hb.mem_iff.2 (List.mem_append_right _ hy)) fun hk => ?_
    rcases hs.mover with hnew | ⟨z, rfl⟩
    · have hlt := key_lt ho (hb.mem_iff.2 (List.mem_append_right _ hy))
      rw [← hk, hnew] at hlt
      exact Nat.lt_irrefl _ hlt
    · have hnodup := (hb.map (·.1)).nodup_iff.1 (posts_nodup ho)
      rw [hk] at hnodup
      exact (List.nodup_cons.1 hnodup).1 (List.mem_map.2 ⟨_, hy, rfl⟩)

/-- Every post is on the paths of the model of the pool. -/
theorem Reaches.fits (hr : (ofPool pool now).Reaches h m) (hx : (k, x) ∈ m.posts) :
    x.Fits pool.config.parallelism := by
  induction hr generalizing k x with
  | start =>
    rw [posts_ofPool] at hx
    cases hx
  | next hr hn ih =>
    cases next_post hr.ordered_ofPool hn hx with
    | stay hx => exact ih hx
    | order o _ hx =>
      rw [hr.config_eq] at hx
      exact Activity.fits_ofOrder _ o _ hx
    | turn _ hold _ ht hx =>
      rw [hr.config_eq] at ht
      refine ht.fits ?_ _ hx
      rcases hold with hold | ⟨id, g, rfl⟩
      · exact ih hold
      · trivial

end Machine

end SandboxPool
