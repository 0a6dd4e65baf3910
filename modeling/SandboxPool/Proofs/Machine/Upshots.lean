import SandboxPool.Proofs.HandedOut

/-!
# One turn of an acquisition

Whoever makes an acquisition, one turn of it is one of the post that makes it, and behind the turn
the post shows where the acquisition stands, or what it has come to.

* `Post.Turned.acquires_to` says so of a post.
* `Machine.Acquires` says what a move does to an acquisition, and `Machine.next_acquisition` that it
  does so.
-/

namespace SandboxPool

variable {σ α τ β : Type} {config : Config} {c : Context} {p p' : Pool} {out : Bool}
  {sig : Option Signal} {e : List Effect} {place : Nat} {block : String} {a : Acquire.Point}

/-- What a strand has come to. -/
def Strand.result? : Strand σ α → Option α
  | done a => some a
  | _ => none

/-- An acquisition never breaks off. -/
theorem Acquire.steady (config : Config) (block : String) : Steady (demand config block) := by
  intro c p a out sig s h message
  have hcold : ∀ (error : PoolError) (p : Pool), (coldOr error p).result ≠ .panic message := by
    intro error p
    unfold coldOr
    split <;> simp
  cases a with
  | pick =>
    obtain ⟨-, -, rfl⟩ := Demand.turn_scope h
    simp only [Scope.map, pick, ne_eq, Option.some.injEq]
    split
    · unfold take
      split <;> simp
    · simp [claim]
    · exact hcold _ _
  | unpause id port =>
    rcases Demand.turn_act h with ⟨-, -, rfl⟩ | ⟨r, -, -, rfl⟩
    · simp
    · cases r <;> simp
  | probe id port =>
    rcases Demand.turn_health h with ⟨-, -, rfl⟩ | ⟨r, -, -, rfl⟩
    · simp
    · cases r <;> simp
  | rebind id =>
    obtain ⟨-, -, rfl⟩ := Demand.turn_scope h
    simp only [Scope.map, rebind]
    split
    · simp
    · split
      · simp
      · split
        · simp
        · split <;> simp
  | failed error =>
    obtain ⟨-, -, rfl⟩ := Demand.turn_scope h
    cases error <;> simp [Scope.map, failed]
  | retire id error t =>
    obtain ⟨s₀, h₀, rfl⟩ := Demand.turn_map h
    intro hs
    obtain ⟨next, hnext, hinto⟩ := Option.map_eq_some_iff.1 hs
    cases next with
    | panic m => exact Termination.steady id h₀ m hnext
    | _ => cases hinto
  | replace error =>
    obtain ⟨-, -, rfl⟩ := Demand.turn_scope h
    simpa [Scope.map] using hcold error p
  | cold t =>
    obtain ⟨s₀, h₀, rfl⟩ := Demand.turn_map h
    intro hs
    obtain ⟨next, hnext, hinto⟩ := Option.map_eq_some_iff.1 hs
    cases next with
    | panic m => exact Spawn.steady config _ h₀ m hnext
    | _ => cases hinto
  | gate =>
    obtain ⟨-, -, -, rfl⟩ := Demand.turn_gate h
    simp
  | find =>
    obtain ⟨-, -, rfl⟩ := Demand.turn_scope h
    simp only [Scope.map, find]
    split <;> simp
  | reserve =>
    obtain ⟨-, -, rfl⟩ := Demand.turn_scope h
    simp only [Scope.map, reserve]
    split <;> simp [leave]
  | shared t =>
    obtain ⟨s₀, h₀, rfl⟩ := Demand.turn_map h
    intro hs
    obtain ⟨next, hnext, hinto⟩ := Option.map_eq_some_iff.1 hs
    cases next with
    | goto t' => cases hinto
    | done r => cases r <;> cases hinto
    | panic m => exact Spawn.steady config _ h₀ m hnext
  | join id =>
    obtain ⟨-, -, rfl⟩ := Demand.turn_scope h
    simp only [Scope.map, join]
    split
    · simp [leave]
    · split <;> simp [leave]
  | leave error =>
    obtain ⟨-, -, rfl⟩ := Demand.turn_scope h
    simp [Scope.map, leave]

/-! ## Blocks and posts -/

/-- A turn of a block that acquires is one of its acquisition, and the block stands behind it where
that takes it. -/
theorem BlockRun.acquires_to {b : Point} {s : Scope (Option (Next Point BlockResult))}
    (h : (demand config block b).Turn c p out sig s) (ha : b.acquiring? = some a) :
    ∃ s₀, (Acquire.demand config block a).Turn c p out sig s₀ ∧ s.pool = s₀.pool ∧
      ∃ b', (Strand.land b s.result).point? = some b' ∧
        b'.acquiring? = (Strand.land a s₀.result).point? ∧
        b'.upshot? = (Strand.land a s₀.result).result? := by
  cases b with
  | acquire since a' =>
    obtain rfl : a' = a := Option.some.inj ha
    obtain ⟨s₀, h₀, rfl⟩ := Demand.turn_map h
    refine ⟨s₀, h₀, rfl, ?_⟩
    have hsteady := Acquire.steady config block h₀
    obtain ⟨pool, effects, result⟩ := s₀
    cases result with
    | none => exact ⟨_, rfl, rfl, rfl⟩
    | some next =>
      cases next with
      | goto a'' => exact ⟨_, rfl, rfl, rfl⟩
      | done r => cases r <;> exact ⟨_, rfl, rfl, rfl⟩
      | panic message => exact absurd rfl (hsteady message)
  | _ => cases ha

theorem Execution.Duty.acquires_to {d : Duty} {s : Scope (Option (Next Duty Yield))}
    (h : (member config d).Turn c p out sig s) (ha : d.acquisition? = some (block, a)) :
    ∃ s₀, (Acquire.demand config block a).Turn c p out sig s₀ ∧ s.pool = s₀.pool ∧
      ∃ d', (Strand.land d s.result).point? = some d' ∧
        d'.acquisition? = (Strand.land a s₀.result).point?.map (block, ·) ∧
        d'.upshot? = (Strand.land a s₀.result).result? := by
  cases d with
  | run name b =>
    obtain ⟨a', ha', heq⟩ := Option.map_eq_some_iff.1 ha
    cases heq
    obtain ⟨s₁, h₁, rfl⟩ := Demand.turn_map h
    obtain ⟨s₀, h₀, hpool, b', hb, hacq, hup⟩ := BlockRun.acquires_to h₁ ha'
    exact ⟨s₀, h₀, hpool, .run block b', Strand.point?_land_into hb,
      congrArg (Option.map (block, ·)) hacq, hup⟩
  | terminate id t => cases ha

theorem Execution.Point.acquires_to {plan : Plan} {point : Point}
    {s : Scope (Option (Next Point Result))} {tasks : List (String × Duty)}
    (h : (leader config plan point).Turn c p out sig s tasks)
    (ha : point.acquisition? = some (block, a)) :
    tasks = [] ∧ ∃ s₀, (Acquire.demand config block a).Turn c p out sig s₀ ∧ s.pool = s₀.pool ∧
      ∃ point', (Strand.land point s.result).point? = some point' ∧
        point'.acquisition? = (Strand.land a s₀.result).point?.map (block, ·) ∧
        point'.upshot? = (Strand.land a s₀.result).result? := by
  cases point with
  | solo progress name b =>
    obtain ⟨a', ha', heq⟩ := Option.map_eq_some_iff.1 ha
    cases heq
    obtain ⟨hd, rfl⟩ := Intent.turn_demand h
    obtain ⟨s₁, h₁, rfl⟩ := Demand.turn_map hd
    obtain ⟨s₀, h₀, hpool, b', hb, hacq, hup⟩ := BlockRun.acquires_to h₁ ha'
    exact ⟨rfl, s₀, h₀, hpool, .solo progress block b', Strand.point?_land_into hb,
      congrArg (Option.map (block, ·)) hacq, hup⟩
  | _ => cases ha

/-- **A turn of a post that acquires** is one of its acquisition, and the post stands behind it where
that takes it. -/
theorem Post.Turned.acquires_to {x : Post} {after : List (Nat × Post)}
    (h : x.Turned config c p place sig p' e after) (ha : x.acquisition? = some (block, a)) :
    ∃ out sig₀ s y, (Acquire.demand config block a).Turn c p out sig₀ s ∧ p' = s.pool ∧
      after = [(place, y)] ∧
      y.acquisition? = (Strand.land a s.result).point?.map (block, ·) ∧
      y.upshot? = (Strand.land a s.result).result? := by
  have hnone : ∀ {κ σ α τ β : Type} {conduct : Conduct κ σ α τ β} {leader : Strand τ β → Post}
      {member : κ → Strand σ α → Post} {sig : Option Signal},
      Team.Acted conduct leader member c p place x sig p' e after →
      (∀ s, (leader s).acquisition? = none) → (∀ task s, (member task s).acquisition? = none) →
      False := by
    intro κ σ α τ β conduct leader member sig ht hl hm
    rw [(ht.forall (·.acquisition? = none) hl hm).1] at ha
    cases ha
  cases h with
  | acquire ht =>
    obtain ⟨point, out, s, rfl, hturn, rfl⟩ := ht.at_point
    simp only [acquisition?, Strand.point?_standing, Option.map_some, Option.some.injEq,
      Prod.mk.injEq] at ha
    obtain ⟨rfl, rfl⟩ := ha
    refine ⟨out, _, s, _, hturn, rfl, rfl, rfl, ?_⟩
    obtain ⟨pool, effects, result⟩ := s
    cases result with
    | none => rfl
    | some next => cases next <;> rfl
  | release => cases ha
  | terminate => cases ha
  | prewarm ht => exact (hnone ht (fun _ => rfl) fun _ _ => rfl).elim
  | teardown ht => exact (hnone ht (fun _ => rfl) fun _ _ => rfl).elim
  | cleanup ht => exact (hnone ht (fun _ => rfl) fun _ _ => rfl).elim
  | @execute plan _ _ _ _ _ ht =>
    cases ht with
    | @leader st _ sc tasks hl n =>
      obtain ⟨point, out, s, rfl, hturn, rfl⟩ := hl.at_point
      simp only [acquisition?, Strand.point?_standing, Option.bind_some] at ha
      obtain ⟨rfl, s₀, h₀, hpool, point', hp', hacq, hup⟩ :=
        Execution.Point.acquires_to hturn ha
      refine ⟨out, _, s₀, _, h₀, hpool, rfl, ?_, ?_⟩
      · simp only [acquisition?, Scope.map, hp', Option.bind_some, hacq]
      · simp only [upshot?, Scope.map, hp', Option.bind_some, hup]
    | @member task st _ sc _ ht hafter =>
      obtain ⟨d, out, s, rfl, hturn, rfl⟩ := ht.at_point
      simp only [acquisition?, Strand.point?_standing, Option.bind_some] at ha
      obtain ⟨s₀, h₀, hpool, d', hd', hacq, hup⟩ := Execution.Duty.acquires_to hturn ha
      rcases hafter with rfl | ⟨hended, -⟩
      · refine ⟨out, _, s₀, _, h₀, hpool, rfl, ?_, ?_⟩
        · simp only [acquisition?, Scope.map, hd', Option.bind_some, hacq]
        · simp only [upshot?, Scope.map, hd', Option.bind_some, hup]
      · have hstill : (Strand.land d s.result).ended = false := Strand.ended_of_point? hd'
        exact Bool.noConfusion (hstill.symm.trans hended)

/-! ## The machine -/

namespace Machine

variable {m m' : Machine} {k : Key} {x : Post} {move : Move} {notes : List Note}

theorem acquisition?_eq (ho : m.Ordered) (hx : (k, x) ∈ m.posts) :
    m.acquisition? k = x.acquisition? := by
  unfold acquisition?
  rw [find?_post ho hx]
  rfl

theorem upshot?_eq (ho : m.Ordered) (hx : (k, x) ∈ m.posts) : m.upshot? k = x.upshot? := by
  unfold upshot?
  rw [find?_post ho hx]
  rfl

/-- What a move does to the acquisition of a post: it takes a turn at the point where it is, or it
stays there. -/
inductive Acquires (m : Machine) (move : Move) (m' : Machine) (k : Key) (block : String)
    (a : Acquire.Point) : Prop where
  | stay (hk : m.mover move ≠ k) (ha : m'.acquisition? k = some (block, a))
      (hu : m'.upshot? k = none)
  | turn {out : Bool} {sig : Option Signal}
      {s : Scope (Option (Next Acquire.Point Acquire.Result))} (hk : m.mover move = k)
      (ht : (Acquire.demand m.pool.config block a).Turn m.context m.pool out sig s)
      (hp : m'.pool = s.pool)
      (ha : m'.acquisition? k = (Strand.land a s.result).point?.map (block, ·))
      (hu : m'.upshot? k = (Strand.land a s.result).result?)

/-- **What becomes of an acquisition.** -/
theorem next_acquisition (ho : m.Ordered) (hn : m.next move = some (m', notes))
    (ha : m.acquisition? k = some (block, a)) : m.Acquires move m' k block a := by
  have ho' := (next_posts ho hn).1
  obtain ⟨x, hx, hxa⟩ := mem_of_acquisition? ha
  by_cases hk : m.mover move = k
  · subst hk
    obtain ⟨sig, e, after, rest, ht, -, hafter⟩ := posts_of_mover ho hn hx
    obtain ⟨out, sig₀, s, y, hturn, hpool, rfl, hya, hyu⟩ := ht.acquires_to hxa
    have hy : (m.mover move, y) ∈ m'.posts :=
      hafter.mem_iff.2 (List.mem_append_left _ (List.mem_singleton_self _))
    exact .turn rfl hturn hpool ((acquisition?_eq ho' hy).trans hya) ((upshot?_eq ho' hy).trans hyu)
  · have hx' := post_next ho hn hx hk
    exact .stay hk ((acquisition?_eq ho' hx').trans hxa)
      ((upshot?_eq ho' hx').trans (Post.upshot?_of_acquisition? hxa))

end Machine

end SandboxPool
