import SandboxPool.Proofs.Machine.Gate
import SandboxPool.Proofs.Pool.Handed

/-!
# What an acquisition hands out

A sandbox that an acquisition hands out runs the block of the acquisition. It is not terminated, nor
has its termination begun, exactly if that was so before the scope that hands it out: most scopes see
to it, but one that publishes a new sandbox for its block, or joins the sandbox that is shared, does
not. So a teardown that comes while a new sandbox is started has a block run in a sandbox that ends.

* `Machine.acquisition?` and `Machine.obtained?` say where the acquisition of a post is, and what it
  has come to.
* `Machine.handed_out_alive_iff` is the main result, for both models.
-/

namespace SandboxPool

variable {config : Config} {c : Context} {p p' : Pool} {out : Bool} {sig : Option Signal}
  {e : List Effect} {place : Nat} {block : String} {a : Acquire.Point} {snap : Snapshot}

/-! ## Acquisitions and what they come to -/

/-- The acquisition that a member makes: its block, and the point where it is. -/
def Execution.Duty.acquisition? : Execution.Duty → Option (String × Acquire.Point)
  | .run block b => b.acquiring?.map (block, ·)
  | _ => none

/-- The acquisition that an execution itself makes. -/
def Execution.Point.acquisition? : Execution.Point → Option (String × Acquire.Point)
  | .solo _ block b => b.acquiring?.map (block, ·)
  | _ => none

/-- The acquisition that a post makes. -/
def Post.acquisition? : Post → Option (String × Acquire.Point)
  | acquire block s => s.point?.map (block, ·)
  | execute _ s => s.point?.bind (·.acquisition?)
  | duty s => s.point?.bind (·.acquisition?)
  | _ => none

/-- The sandbox that a block runs in, as its acquisition has shown it. -/
def BlockRun.Point.obtained? : BlockRun.Point → Option Snapshot
  | .run _ s => some s
  | _ => none

/-- The sandbox that the block of a member runs in. -/
def Execution.Duty.obtained? : Execution.Duty → Option Snapshot
  | .run _ b => b.obtained?
  | _ => none

/-- The sandbox that the block runs in that the execution itself runs. -/
def Execution.Point.obtained? : Execution.Point → Option Snapshot
  | .solo _ _ b => b.obtained?
  | _ => none

/-- The sandbox that a post has acquired, as its acquisition has shown it. -/
def Post.obtained? : Post → Option Snapshot
  | acquire _ (.done (.ok s)) => some s
  | execute _ s => s.point?.bind (·.obtained?)
  | duty s => s.point?.bind (·.obtained?)
  | _ => none

/-- What the acquisition of a block has come to, as long as the block stands right behind it. -/
def BlockRun.Point.upshot? : BlockRun.Point → Option Acquire.Result
  | .run _ s => some (.ok s)
  | .refuse _ e => some (.error e)
  | _ => none

/-- What the acquisition of a member has come to. -/
def Execution.Duty.upshot? : Execution.Duty → Option Acquire.Result
  | .run _ b => b.upshot?
  | _ => none

/-- What the acquisition has come to that an execution itself has made. -/
def Execution.Point.upshot? : Execution.Point → Option Acquire.Result
  | .solo _ _ b => b.upshot?
  | _ => none

/-- What the acquisition of a post has come to: a sandbox or an error. -/
def Post.upshot? : Post → Option Acquire.Result
  | acquire _ (.done r) => some r
  | execute _ s => s.point?.bind (·.upshot?)
  | duty s => s.point?.bind (·.upshot?)
  | _ => none

namespace Machine

/-- The acquisition that the post with a key makes: its block, and the point where it is. -/
def acquisition? (m : Machine) (k : Key) : Option (String × Acquire.Point) :=
  (m.posts.find? (·.1 == k)).bind (·.2.acquisition?)

/-- The sandbox that the post with a key has acquired, as its acquisition has shown it. -/
def obtained? (m : Machine) (k : Key) : Option Snapshot :=
  (m.posts.find? (·.1 == k)).bind (·.2.obtained?)

/-- What the acquisition of the post with a key has come to. -/
def upshot? (m : Machine) (k : Key) : Option Acquire.Result :=
  (m.posts.find? (·.1 == k)).bind (·.2.upshot?)

end Machine

namespace Post

variable {x : Post}

theorem acquiring?_of_acquisition? (h : x.acquisition? = some (block, a)) :
    x.acquiring? = some a := by
  have hrun : ∀ {name : String} {b : BlockRun.Point},
      b.acquiring?.map (name, ·) = some (block, a) → b.acquiring? = some a := by
    intro name b h
    obtain ⟨a', ha', heq⟩ := Option.map_eq_some_iff.1 h
    cases heq
    exact ha'
  cases x with
  | acquire name s =>
    obtain ⟨a', ha', heq⟩ := Option.map_eq_some_iff.1 h
    cases heq
    exact ha'
  | execute plan s =>
    obtain ⟨point, hp, h⟩ := Option.bind_eq_some_iff.1 h
    show s.point?.bind (·.acquiring?) = some a
    rw [hp]
    cases point with
    | solo progress name b => exact hrun h
    | _ => cases h
  | duty s =>
    obtain ⟨d, hd, h⟩ := Option.bind_eq_some_iff.1 h
    show s.point?.bind (·.acquiring?) = some a
    rw [hd]
    cases d with
    | run name b => exact hrun h
    | terminate id t => cases h
  | _ => cases h

/-- The acquisition of a post that still acquires has come to nothing yet. -/
theorem upshot?_of_acquisition? (h : x.acquisition? = some (block, a)) : x.upshot? = none := by
  have hrun : ∀ {name : String} {b : BlockRun.Point},
      b.acquiring?.map (name, ·) = some (block, a) → b.upshot? = none := by
    intro name b h
    cases b with
    | acquire => rfl
    | _ => cases h
  cases x with
  | acquire name s =>
    cases s with
    | done r => cases h
    | _ => rfl
  | execute plan s =>
    obtain ⟨point, hp, h⟩ := Option.bind_eq_some_iff.1 h
    show s.point?.bind (·.upshot?) = none
    rw [hp]
    cases point with
    | solo progress name b => exact hrun h
    | _ => rfl
  | duty s =>
    obtain ⟨d, hd, h⟩ := Option.bind_eq_some_iff.1 h
    show s.point?.bind (·.upshot?) = none
    rw [hd]
    cases d with
    | run name b => exact hrun h
    | terminate id t => rfl
  | _ => rfl

/-- Whoever has got a sandbox shows so. -/
theorem upshot?_of_obtained? (h : x.obtained? = some snap) : x.upshot? = some (.ok snap) := by
  have hrun : ∀ {b : BlockRun.Point}, b.obtained? = some snap → b.upshot? = some (.ok snap) := by
    intro b h
    cases b with
    | run since s => exact congrArg (fun s => some (Except.ok s)) (Option.some.inj h)
    | _ => cases h
  cases x with
  | acquire name s =>
    cases s with
    | done r =>
      cases r with
      | ok s => exact congrArg (fun s => some (Except.ok s)) (Option.some.inj h)
      | error e => cases h
    | _ => cases h
  | execute plan s =>
    obtain ⟨point, hp, h⟩ := Option.bind_eq_some_iff.1 h
    refine Option.bind_eq_some_iff.2 ⟨point, hp, ?_⟩
    cases point with
    | solo progress name b => exact hrun h
    | _ => cases h
  | duty s =>
    obtain ⟨d, hd, h⟩ := Option.bind_eq_some_iff.1 h
    refine Option.bind_eq_some_iff.2 ⟨d, hd, ?_⟩
    cases d with
    | run name b => exact hrun h
    | terminate id t => cases h
  | _ => cases h

/-- A post that still acquires has got nothing yet. -/
theorem obtained?_of_acquisition? (h : x.acquisition? = some (block, a)) : x.obtained? = none := by
  cases ho : x.obtained? with
  | none => rfl
  | some snap =>
    have hnone := upshot?_of_acquisition? h
    rw [upshot?_of_obtained? ho] at hnone
    cases hnone

end Post

/-! ## Turns -/

/-- A turn of a block that acquires is one of its acquisition, which comes to what the block shows of it
behind the turn. -/
theorem BlockRun.acquires {b : Point} {s : Scope (Option (Next Point BlockResult))}
    (h : (demand config block b).Turn c p out sig s) (ha : b.acquiring? = some a) :
    ∃ s₀, (Acquire.demand config block a).Turn c p out sig s₀ ∧ s.pool = s₀.pool ∧
      ∀ b', (Strand.land b s.result).point? = some b' → ∀ r, b'.upshot? = some r →
        s₀.result = some (.done r) := by
  cases b with
  | acquire since a' =>
    obtain rfl : a' = a := Option.some.inj ha
    obtain ⟨s₀, h₀, rfl⟩ := Demand.turn_map h
    refine ⟨s₀, h₀, rfl, fun b' hb r hs => ?_⟩
    rcases Strand.point?_map hb with ⟨a'', -, rfl⟩ | ⟨r', hr, hk⟩
    · cases hs
    · cases r' <;> (cases hk; cases hs; exact hr)
  | _ => cases ha

theorem Execution.Duty.acquires {d : Duty} {s : Scope (Option (Next Duty Yield))}
    (h : (member config d).Turn c p out sig s) (ha : d.acquisition? = some (block, a)) :
    ∃ s₀, (Acquire.demand config block a).Turn c p out sig s₀ ∧ s.pool = s₀.pool ∧
      ∀ d', (Strand.land d s.result).point? = some d' → ∀ r, d'.upshot? = some r →
        s₀.result = some (.done r) := by
  cases d with
  | run name b =>
    obtain ⟨a', ha', heq⟩ := Option.map_eq_some_iff.1 ha
    cases heq
    obtain ⟨s₁, h₁, rfl⟩ := Demand.turn_map h
    obtain ⟨s₀, h₀, hpool, hgot⟩ := BlockRun.acquires h₁ ha'
    refine ⟨s₀, h₀, hpool, fun d' hd r hs => ?_⟩
    rcases Strand.point?_map hd with ⟨b', hb, rfl⟩ | ⟨r, -, hk⟩
    · exact hgot b' hb r hs
    · cases hk
  | terminate id t => cases ha

theorem Execution.Point.acquires {plan : Plan} {point : Point}
    {s : Scope (Option (Next Point Result))} {tasks : List (String × Duty)}
    (h : (leader config plan point).Turn c p out sig s tasks)
    (ha : point.acquisition? = some (block, a)) :
    tasks = [] ∧ ∃ s₀, (Acquire.demand config block a).Turn c p out sig s₀ ∧ s.pool = s₀.pool ∧
      ∀ point', (Strand.land point s.result).point? = some point' →
        ∀ r, point'.upshot? = some r → s₀.result = some (.done r) := by
  cases point with
  | solo progress name b =>
    obtain ⟨a', ha', heq⟩ := Option.map_eq_some_iff.1 ha
    cases heq
    obtain ⟨hd, rfl⟩ := Intent.turn_demand h
    obtain ⟨s₁, h₁, rfl⟩ := Demand.turn_map hd
    obtain ⟨s₀, h₀, hpool, hgot⟩ := BlockRun.acquires h₁ ha'
    refine ⟨rfl, s₀, h₀, hpool, fun point' hp r hs => ?_⟩
    rcases Strand.point?_map hp with ⟨b', hb, rfl⟩ | ⟨r, -, hk⟩
    · exact hgot b' hb r hs
    · cases hk
      cases hs
  | _ => cases ha

/-- A turn of a post that acquires is one of its acquisition, which comes to what the post shows of it
behind the turn. -/
theorem Post.Turned.attains {x : Post} {after : List (Nat × Post)}
    (h : x.Turned config c p place sig p' e after) (ha : x.acquisition? = some (block, a)) :
    ∃ out sig₀ s, (Acquire.demand config block a).Turn c p out sig₀ s ∧ p' = s.pool ∧
      ∀ y ∈ after, ∀ r, y.2.upshot? = some r → s.result = some (.done r) := by
  have hnone : ∀ {κ σ α τ β : Type} {conduct : Conduct κ σ α τ β} {leader : Strand τ β → Post}
      {member : κ → Strand σ α → Post} {sig : Option Signal},
      Team.Acted conduct leader member c p place x sig p' e after →
      (∀ s, (leader s).acquisition? = none) → (∀ task s, (member task s).acquisition? = none) →
      False := by
    intro κ σ α τ β conduct leader member sig ht hl hm
    rw [(ht.forall (·.acquisition? = none) hl hm).1] at ha
    cases ha
  cases h with
  | acquire ht =>
    obtain ⟨point, out, s, rfl, hturn, rfl⟩ := ht.at_point
    simp only [acquisition?, Strand.point?_standing, Option.map_some, Option.some.injEq,
      Prod.mk.injEq] at ha
    obtain ⟨rfl, rfl⟩ := ha
    refine ⟨out, _, s, hturn, rfl, fun y hy r hs => ?_⟩
    obtain rfl := List.mem_singleton.1 hy
    obtain ⟨pool, effects, result⟩ := s
    cases result with
    | none => cases out <;> cases hs
    | some next =>
      cases next with
      | done r =>
        cases hs
        rfl
      | _ => cases hs
  | release => cases ha
  | terminate => cases ha
  | prewarm ht => exact (hnone ht (fun _ => rfl) fun _ _ => rfl).elim
  | teardown ht => exact (hnone ht (fun _ => rfl) fun _ _ => rfl).elim
  | cleanup ht => exact (hnone ht (fun _ => rfl) fun _ _ => rfl).elim
  | @execute plan _ _ _ _ _ ht =>
    cases ht with
    | @leader st _ sc tasks hl n =>
      obtain ⟨point, out, s, rfl, hturn, rfl⟩ := hl.at_point
      simp only [acquisition?, Strand.point?_standing, Option.bind_some] at ha
      obtain ⟨rfl, s₀, h₀, hpool, hgot⟩ := Execution.Point.acquires hturn ha
      refine ⟨out, _, s₀, h₀, hpool, fun y hy r hs => ?_⟩
      obtain rfl := List.mem_singleton.1 hy
      obtain ⟨point', hp', hs⟩ := Option.bind_eq_some_iff.1 hs
      exact hgot point' hp' r hs
    | @member task st _ sc _ ht hafter =>
      obtain ⟨d, out, s, rfl, hturn, rfl⟩ := ht.at_point
      simp only [acquisition?, Strand.point?_standing, Option.bind_some] at ha
      obtain ⟨s₀, h₀, hpool, hgot⟩ := Execution.Duty.acquires hturn ha
      refine ⟨out, _, s₀, h₀, hpool, fun y hy r hs => ?_⟩
      rcases hafter with rfl | ⟨-, rfl⟩
      · obtain rfl := List.mem_singleton.1 hy
        obtain ⟨d', hd', hs⟩ := Option.bind_eq_some_iff.1 hs
        exact hgot d' hd' r hs
      · cases hy

/-- The acquisition has got the sandbox that the post has behind the turn. -/
theorem Post.Turned.acquires {x : Post} {after : List (Nat × Post)}
    (h : x.Turned config c p place sig p' e after) (ha : x.acquisition? = some (block, a)) :
    ∃ out sig₀ s, (Acquire.demand config block a).Turn c p out sig₀ s ∧ p' = s.pool ∧
      ∀ y ∈ after, ∀ snap, y.2.obtained? = some snap → s.result = some (.done (.ok snap)) := by
  obtain ⟨out, sig₀, s, hturn, hpool, hgot⟩ := h.attains ha
  exact ⟨out, sig₀, s, hturn, hpool, fun y hy snap hs => hgot y hy _ (upshot?_of_obtained? hs)⟩

/-! ## The machine -/

namespace Machine

variable {m m' : Machine} {k : Key} {move : Move} {notes : List Note}

theorem mem_of_acquisition? (h : m.acquisition? k = some (block, a)) :
    ∃ x, (k, x) ∈ m.posts ∧ x.acquisition? = some (block, a) := mem_of_bind_find? h

theorem mem_of_obtained? (h : m.obtained? k = some snap) :
    ∃ x, (k, x) ∈ m.posts ∧ x.obtained? = some snap := mem_of_bind_find? h

theorem mem_of_upshot? {r : Acquire.Result} (h : m.upshot? k = some r) :
    ∃ x, (k, x) ∈ m.posts ∧ x.upshot? = some r := mem_of_bind_find? h

/-- A sandbox that is about to be joined is doomed, idle or running. -/
theorem Reaches.state_of_join {config : Config} {seed : BitVec 128} {pool : Pool} {now : Instant}
    {h : History} (hp : Pool.create config seed = .ok pool) (hr : (ofPool pool now).Reaches h m)
    {x : Post} {id : String} (hx : (k, x) ∈ m.posts) (ha : x.acquiring? = some (.join id))
    {r : Record} (hrec : r ∈ m.pool.records) :
    m.pool.Doomed r.id ∨ r.state = .idle ∨ r.state = .running := by
  have hpool : pool.config = config ∧ pool.records = [] := by
    obtain ⟨-, rfl⟩ := create_eq_ok_iff.1 hp
    exact ⟨rfl, rfl⟩
  have hsingle : pool.config.parallelism = .single := (hr.fits hx).acquiring ha
  cases hs : r.state with
  | starting =>
    refine .inl (hr.doomed_of_starting hp (hpool.1 ▸ hsingle) hx ha rfl (fun s => ?_) hrec hs)
    simp
  | idle => exact .inr (.inl rfl)
  | running => exact .inr (.inr rfl)
  | dormant => exact absurd hs (hr.awake hsingle hpool.2 r hrec)
  | terminated =>
    refine .inl ⟨r, hrec, rfl, .inl ?_⟩
    simp [Record.live, State.terminal, hs]

/-- **What an acquisition hands out.** In every interleaving of operations on a new pool of either
model, and whatever the daemon answers: if a move brings an acquisition for a block to its end with a
sandbox, then behind the move the sandbox has the record that was shown, bound to the block; and it
runs, with no termination of it begun, exactly if none had begun before the move. That one has begun
by then is only possible where the acquisition publishes a new sandbox for its block or joins the one
that is shared. In every other turn an acquisition leaves each record alone whose termination has
begun, but for a sandbox whose record it enters itself or that it ends. -/
theorem handed_out_alive_iff {config : Config} {seed : BitVec 128} {pool : Pool} {now : Instant}
    {h : History} {m m' : Machine} {move : Move} {notes : List Note} {k : Key} {block : String}
    {a : Acquire.Point} (hp : Pool.create config seed = .ok pool)
    (hr : (ofPool pool now).Reaches h m) (hn : m.next move = some (m', notes))
    (ha : m.acquisition? k = some (block, a)) :
    (∀ snap, m'.obtained? k = some snap → ∃ r, Handed block snap m.pool m'.pool r ∧
        (m.pool.Doomed r.id → a.blind? = some r.id)) ∧
      (m.mover move = k → ∀ r ∈ m.pool.records, m.pool.Doomed r.id →
        r ∈ m'.pool.records ∨ a.blind? = some r.id ∨ a.own? = some r.id) := by
  have ho := hr.ordered_ofPool
  have hd := (hr.capped hp).distinct
  obtain ⟨x, hx, hxa⟩ := mem_of_acquisition? ha
  have hacquiring := Post.acquiring?_of_acquisition? hxa
  by_cases hk : m.mover move = k
  · subst hk
    obtain ⟨sig, e, after, ht, hafter⟩ := turned_of_mover ho hn hx
    obtain ⟨out, sig₀, s, hturn, hpool, hgot⟩ := ht.acquires hxa
    rw [hpool]
    refine ⟨fun snap hs => ?_, fun _ r hrec hdoomed => ?_⟩
    · obtain ⟨y, hy, hys⟩ := mem_of_obtained? hs
      refine Acquire.hands_out hd (fun id hjoin r hrec _ => ?_) hturn (hgot _ (hafter y hy) snap hys)
      rw [hjoin] at hacquiring
      exact hr.state_of_join hp hx hacquiring hrec
    · exact Acquire.spares hd hrec hdoomed (hr.alert hp) hturn
  · refine ⟨fun snap hs => ?_, fun he => absurd he hk⟩
    -- an acquisition that does not move still has got nothing
    obtain ⟨y, hy, hys⟩ := mem_of_obtained? hs
    rw [post_unique (next_posts ho hn).1 hy (post_next ho hn hx hk),
      Post.obtained?_of_acquisition? hxa] at hys
    cases hys

/-- A teardown comes while a new sandbox is probed, and claims it. When the probe has succeeded the
acquisition hands the sandbox out, which runs its block while it is stopped. -/
theorem handed_out_dying :
    let config : Config := { image := "img", maxSandboxes := 2 }
    ∃ pool h m m' notes snap r, Pool.create config 0 = .ok pool ∧ (ofPool pool 0).Reaches h m ∧
      m.next (.step 0 0) = some (m', notes) ∧
      m.acquisition? (0, 0) = some ("a", .cold (.publish "c1")) ∧
      m'.obtained? (0, 0) = some snap ∧ r ∈ m'.pool.records ∧ r.snapshot = snap ∧
      r.block = some "a" ∧ r.state = .running ∧ m'.pool.Doomed r.id := by
  intro config
  let moves : List Move := [.order (.acquire "a"), .step 0 0, .step 0 0, .step 0 0,
    .reply 0 0 (.created (.ok "c1")), .step 0 0, .step 0 0, .reply 0 0 (.acted (.ok ())), .step 0 0,
    .order .teardown, .step 1 0, .step 1 1, .reply 0 0 (.acted (.ok ()))]
  have hp : Pool.create config 0 = .ok (.ofConfig config 0) :=
    create_eq_ok_iff.2 ⟨by decide +kernel, rfl⟩
  have hrun : ((ofPool (.ofConfig config 0) 0).trace moves).any (fun x =>
      x.2.acquisition? (0, 0) = some ("a", .cold (.publish "c1")) ∧
        (∃ r ∈ x.2.pool.records, r.id = "c1" ∧ x.2.pool.claim? "c1" = some .terminating) ∧
        (x.2.next (.step 0 0)).any (fun y => (y.1.obtained? (0, 0)).any fun s =>
          s.id = "c1" ∧ s.state = .running) = true) = true := by decide +kernel
  obtain ⟨x, ht, hx⟩ := (Option.any_eq_true _ _).1 hrun
  obtain ⟨ha, ⟨r₀, hr₀, hid₀, hc⟩, hnext⟩ := of_decide_eq_true hx
  obtain ⟨⟨m', notes⟩, hn, hobtained⟩ := (Option.any_eq_true _ _).1 hnext
  obtain ⟨snap, hs, hsnap⟩ := (Option.any_eq_true _ _).1 hobtained
  obtain ⟨hid, hrunning⟩ := of_decide_eq_true hsnap
  have hr := reaches_of_trace ht
  obtain ⟨r, hhanded, -⟩ := (handed_out_alive_iff hp hr hn ha).1 snap hs
  obtain rfl := hhanded.snapshot
  replace hid : r.id = "c1" := hid
  have hdoomed : x.2.pool.Doomed r.id :=
    ⟨r₀, hr₀, hid₀.trans hid.symm, .inr (by rw [hid]; exact hc)⟩
  refine ⟨_, x.1, x.2, m', notes, _, r, hp, hr, hn, ha, hs, hhanded.mem, rfl, hhanded.block,
    hrunning, ?_⟩
  exact Classical.not_not.1 fun halive => hhanded.alive.1 ⟨hrunning, halive⟩ hdoomed

end Machine

end SandboxPool
