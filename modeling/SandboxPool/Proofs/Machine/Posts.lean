import SandboxPool.Proofs.Machine.Teams

/-!
# Posts

The processes of a machine stand side by side, whichever operation they are part of. A `Post` is one
of them with the strand that it has come to, and `Machine.posts` lists them all, each under the
number of its operation and its place there.

* A move that leads somewhere is a turn of one post, or adds one (`Machine.Shift`).
* All other posts stay as they are, and the events are those of the turn (`Machine.next_shift`).
-/

namespace SandboxPool

/-- A process that stands by itself, with the strand that it has come to. -/
inductive Post where
  | acquire (block : String) (s : Strand Acquire.Point Acquire.Result)
  | release (id : String) (s : Strand Release.Point Release.Result)
  | terminate (id : String) (s : Strand Termination.Point Termination.Result)
  | prewarm (count : Nat) (s : Strand Prewarm.Point Prewarm.Result)
  | spawn (s : Strand Spawn.Point Spawn.Result)
  | teardown (s : Strand Teardown.Point Unit)
  | cleanup (s : Strand Cleanup.Point Nat)
  | reclaim (id : String) (s : Strand Reclaim.Point Bool)
  | execute (plan : Plan) (s : Strand Execution.Point Execution.Result)
  | duty (s : Strand Execution.Duty Execution.Yield)

/-! ## Lists with keys -/

section Keyed

variable {κ β γ : Type} [BEq κ] [LawfulBEq κ] {l : List (κ × β)} {k : κ} {x : β} {y : κ × β}

theorem mem_of_find?_key (h : l.find? (·.1 == k) = some y) : y.1 = k ∧ (k, y.2) ∈ l := by
  have hk : y.1 = k := by simpa using List.find?_some h
  refine ⟨hk, ?_⟩
  rw [← hk]
  exact List.mem_of_find?_eq_some h

/-- What is read off the entry of a key is read off one that is there. -/
theorem mem_of_bind_find? {f : β → Option γ} {c : γ}
    (h : (l.find? (·.1 == k)).bind (fun y => f y.2) = some c) : ∃ x, (k, x) ∈ l ∧ f x = some c := by
  obtain ⟨y, hf, hy⟩ := Option.bind_eq_some_iff.1 h
  exact ⟨y.2, (mem_of_find?_key hf).2, hy⟩

/-- The only entry of a key is the one that is found. -/
theorem find?_key (hl : ∀ x y, (k, x) ∈ l → (k, y) ∈ l → x = y) (hx : (k, x) ∈ l) :
    l.find? (·.1 == k) = some (k, x) := by
  cases hf : l.find? (·.1 == k) with
  | none =>
    have hno := List.find?_eq_none.1 hf _ hx
    exact absurd (beq_self_eq_true k) hno
  | some y =>
    obtain ⟨hk, hy⟩ := mem_of_find?_key hf
    exact congrArg some (Prod.ext hk (hl y.2 x hy hx))

end Keyed

/-! ## Turns of a leader -/

/-- A turn of a leader at a point, with the members that it starts. -/
inductive Intent.Turn {κ σ α τ β : Type} (c : Context) (p : Pool) : Intent κ σ α τ β → (out : Bool) →
    Option Signal → Scope (Option (Next τ β)) → List (κ × σ) → Prop where
  | demand {d : Demand (Next τ β)} {out : Bool} {sig : Option Signal} {s : Scope (Option (Next τ β))}
      (h : d.Turn c p out sig s) : Turn c p (.demand d) out sig s []
  | hire (body : Context → Pool → Scope (List (κ × σ) × Next τ β)) :
      Turn c p (.hire body) false none ((body c p).map fun x => some x.2) (body c p).result.1
  | join (next : Context → List (Ended κ α) → Next τ β) (ended : List (Ended κ α)) :
      Turn c p (.join next) false none ⟨p, [], some (next c ended)⟩ []

/-- A turn of the strand of a leader, with the members that it starts. -/
inductive Strand.Lead {κ σ α τ β : Type} (leader : τ → Intent κ σ α τ β) (c : Context) (p : Pool) :
    Strand τ β → Option Signal → Scope (Strand τ β) → List (κ × σ) → Prop where
  | ready {point : τ} {sig : Option Signal} {s : Scope (Option (Next τ β))} {tasks : List (κ × σ)}
      (h : (leader point).Turn c p false sig s tasks) :
      Lead leader c p (.ready point) sig (s.map (land point)) tasks
  | waiting {point : τ} {sig : Option Signal} {s : Scope (Option (Next τ β))} {tasks : List (κ × σ)}
      (h : (leader point).Turn c p true sig s tasks) :
      Lead leader c p (.waiting point) sig (s.map (land point)) tasks

/-- A turn of the strand of a leader is one at the point that it has come to. -/
theorem Strand.Lead.at_point {κ σ α τ β : Type} {leader : τ → Intent κ σ α τ β} {c : Context}
    {p : Pool} {st : Strand τ β} {sig : Option Signal} {sc : Scope (Strand τ β)}
    {tasks : List (κ × σ)} (h : st.Lead leader c p sig sc tasks) :
    ∃ point out s, st = .standing point out ∧ (leader point).Turn c p out sig s tasks ∧
      sc = s.map (land point) := by
  cases h with
  | ready h => exact ⟨_, false, _, rfl, h, rfl⟩
  | waiting h => exact ⟨_, true, _, rfl, h, rfl⟩

/-! ## Teams -/

namespace Team

variable {κ σ α τ β : Type} {conduct : Conduct κ σ α τ β} {c : Context} {p : Pool}
  {t : Team κ σ α τ β}

/-- The posts of members. -/
def stand (member : κ → Strand σ α → Post) (ms : List (Member κ σ α)) : List (Nat × Post) :=
  ms.map fun m => (m.serial + 1, member m.task m.strand)

/-- The posts of a team, each under its place. -/
def posts (leader : Strand τ β → Post) (member : κ → Strand σ α → Post) (t : Team κ σ α τ β) :
    List (Nat × Post) := (0, leader t.leader) :: stand member t.active

/-- A turn of a place of a team: what the post was, and the posts behind it. A member that ends
leaves its post. -/
inductive Acted (conduct : Conduct κ σ α τ β) (leader : Strand τ β → Post)
    (member : κ → Strand σ α → Post) (c : Context) (p : Pool) (place : Nat) :
    Post → Option Signal → Pool → List Effect → List (Nat × Post) → Prop where
  | leader {s : Strand τ β} {sig : Option Signal} {sc : Scope (Strand τ β)} {tasks : List (κ × σ)}
      (h : s.Lead conduct.leader c p sig sc tasks) (n : Nat) :
      Acted conduct leader member c p place (leader s) sig sc.pool sc.effects
        ((place, leader sc.result) :: stand member (enrol n tasks))
  | member {task : κ} {s : Strand σ α} {sig : Option Signal} {sc : Scope (Strand σ α)}
      {after : List (Nat × Post)} (h : s.Turn (conduct.member task) c p sig sc)
      (ha : after = [(place, member task sc.result)] ∨ sc.result.ended = true ∧ after = []) :
      Acted conduct leader member c p place (member task s) sig sc.pool sc.effects after

/-- What holds of the leader and of every member of a team holds before and behind a turn. -/
theorem Acted.forall {leader : Strand τ β → Post} {member : κ → Strand σ α → Post} {place : Nat}
    {x : Post} {sig : Option Signal} {p' : Pool} {e : List Effect} {after : List (Nat × Post)}
    (h : Acted conduct leader member c p place x sig p' e after) (P : Post → Prop)
    (hl : ∀ s, P (leader s)) (hm : ∀ task s, P (member task s)) : P x ∧ ∀ y ∈ after, P y.2 := by
  cases h with
  | leader _ n =>
    refine ⟨hl _, fun y hy => ?_⟩
    rcases List.mem_cons.1 hy with rfl | hy
    · exact hl _
    · obtain ⟨t, -, rfl⟩ := List.mem_map.1 hy
      exact hm _ _
  | member _ ha =>
    refine ⟨hm _ _, fun y hy => ?_⟩
    rcases ha with rfl | ⟨-, rfl⟩
    · obtain rfl := List.mem_singleton.1 hy
      exact hm _ _
    · cases hy

/-- The posts of a team have different places. -/
theorem Ordered.places_nodup (ho : t.Ordered) (leader : Strand τ β → Post)
    (member : κ → Strand σ α → Post) : ((t.posts leader member).map (·.1)).Nodup := by
  have hserials : (stand member t.active).map (·.1) = (t.active.map (·.serial)).map (· + 1) := by
    unfold stand
    rw [List.map_map, List.map_map]
    rfl
  unfold posts
  rw [List.map_cons, hserials, List.nodup_cons]
  refine ⟨fun hm => ?_, ho.nodup.map fun a b hab => Nat.succ.inj hab⟩
  obtain ⟨n, -, hn⟩ := List.mem_map.1 hm
  omega

/-- A member that gets elsewhere has a post before and at most one behind. -/
theorem posts_update (ho : t.Ordered) {n : Nat} {m : Member κ σ α} (h : t.member? n = some m)
    (leader : Strand τ β → Post) (member : κ → Strand σ α → Post) (st : Strand σ α) :
    ∃ rest after, (t.posts leader member).Perm ((n + 1, member m.task m.strand) :: rest) ∧
      ((t.update m st).posts leader member).Perm (after ++ rest) ∧
      (after = [(n + 1, member m.task st)] ∨ st.ended = true ∧ after = []) := by
  obtain ⟨rfl, l, r, hs, hl, hr⟩ := member?_split ho h
  have hmid : ∀ y : Nat × Post, ((0, leader t.leader) :: (stand member l ++ y :: stand member r)).Perm
      (y :: (0, leader t.leader) :: stand member (l ++ r)) := by
    intro y
    unfold stand
    rw [List.map_append]
    exact (List.Perm.cons _ List.perm_middle).trans (List.Perm.swap _ _ _)
  have hbefore : (t.posts leader member).Perm
      ((m.serial + 1, member m.task m.strand) :: (0, leader t.leader) :: stand member (l ++ r)) := by
    unfold posts
    rw [hs]
    simpa only [stand, List.map_append, List.map_cons] using
      hmid (m.serial + 1, member m.task m.strand)
  refine ⟨(0, leader t.leader) :: stand member (l ++ r), ?_⟩
  rcases update_cases hs hl hr st with ⟨ha, -⟩ | ⟨result, hout, ha, -⟩
  · refine ⟨[(m.serial + 1, member m.task st)], hbefore, ?_, .inl rfl⟩
    unfold posts
    rw [ha, update_leader]
    simpa only [stand, List.map_append, List.map_cons, List.singleton_append] using
      hmid (m.serial + 1, member m.task st)
  · have hended : st.ended = true := by rw [← outcome?_isSome, hout]; rfl
    refine ⟨[], hbefore, ?_, .inr ⟨hended, rfl⟩⟩
    unfold posts
    rw [ha, update_leader]
    exact List.Perm.refl _

/-- A turn of a team is a turn of the place. -/
theorem Turn.posts (ho : t.Ordered) {place : Nat} {sig : Option Signal} {s : Scope (Team κ σ α τ β)}
    (h : t.Turn conduct c p place sig s) (leader : Strand τ β → Post)
    (member : κ → Strand σ α → Post) :
    ∃ x rest after, (t.posts leader member).Perm ((place, x) :: rest) ∧
      (s.result.posts leader member).Perm (after ++ rest) ∧
      Acted conduct leader member c p place x sig s.pool s.effects after := by
  have hlead : ∀ {point : τ} {out : Bool} {sig : Option Signal} {s : Scope (Option (Next τ β))}
      {tasks : List (κ × σ)}, t.leader = .standing point out →
      (conduct.leader point).Turn c p out sig s tasks →
      t.leader.Lead conduct.leader c p sig (s.map (Strand.land point)) tasks := by
    intro point out sig s tasks hl ht
    rw [hl]
    cases out with
    | false => exact .ready ht
    | true => exact .waiting ht
  cases h with
  | @demand point d out sig s hl hd ht =>
    have hturn : (conduct.leader point).Turn c p out sig s [] := by
      rw [hd]
      exact .demand ht
    exact ⟨leader t.leader, stand member t.active, _, List.Perm.refl _, List.Perm.refl _,
      .leader (hlead hl hturn) 0⟩
  | @hire point body hl hd =>
    have hstanding : t.leader = .standing point false := hl
    have hturn : (conduct.leader point).Turn c p false none ((body c p).map fun x => some x.2)
        (body c p).result.1 := by
      rw [hd]
      exact .hire body
    refine ⟨leader t.leader, stand member t.active, _, List.Perm.refl _, ?_,
      .leader (hlead hstanding hturn) t.hired⟩
    simp only [Scope.map, Team.posts, stand, List.map_append, List.cons_append]
    exact List.Perm.cons _ List.perm_append_comm
  | @join point next hl hd hnone =>
    have hstanding : t.leader = .standing point false := hl
    have hturn : (conduct.leader point).Turn c p false none ⟨p, [], some (next c t.ended)⟩ [] := by
      rw [hd]
      exact .join next t.ended
    exact ⟨leader t.leader, stand member t.active, _, List.Perm.refl _, List.Perm.refl _,
      .leader (hlead hstanding hturn) 0⟩
  | @member n m sig sc hm ht =>
    obtain ⟨rest, after, hb, ha, hafter⟩ := posts_update ho hm leader member sc.result
    exact ⟨member m.task m.strand, rest, after, hb, ha, .member ht hafter⟩

end Team

/-! ## Operations -/

/-- A turn of a post: the posts behind it, its own first. The calls of a cleanup are not signalled,
since they concern containers that are none of the pool's. -/
inductive Post.Turned (config : Config) (c : Context) (p : Pool) (place : Nat) :
    Post → Option Signal → Pool → List Effect → List (Nat × Post) → Prop where
  | acquire {block : String} {s : Strand Acquire.Point Acquire.Result} {sig : Option Signal}
      {sc : Scope (Strand Acquire.Point Acquire.Result)}
      (h : s.Turn (Acquire.demand config block) c p sig sc) :
      Turned config c p place (.acquire block s) sig sc.pool sc.effects
        [(place, .acquire block sc.result)]
  | release {id : String} {s : Strand Release.Point Release.Result} {sig : Option Signal}
      {sc : Scope (Strand Release.Point Release.Result)} (h : s.Turn (Release.demand id) c p sig sc) :
      Turned config c p place (.release id s) sig sc.pool sc.effects
        [(place, .release id sc.result)]
  | terminate {id : String} {s : Strand Termination.Point Termination.Result} {sig : Option Signal}
      {sc : Scope (Strand Termination.Point Termination.Result)}
      (h : s.Turn (Termination.demand id) c p sig sc) :
      Turned config c p place (.terminate id s) sig sc.pool sc.effects
        [(place, .terminate id sc.result)]
  | prewarm {count : Nat} {x : Post} {sig : Option Signal} {p' : Pool} {e : List Effect}
      {after : List (Nat × Post)}
      (h : Team.Acted (Prewarm.conduct config count) (.prewarm count) (fun _ => .spawn) c p place x
        sig p' e after) : Turned config c p place x sig p' e after
  | teardown {x : Post} {sig : Option Signal} {p' : Pool} {e : List Effect}
      {after : List (Nat × Post)}
      (h : Team.Acted Teardown.conduct .teardown .terminate c p place x sig p' e after) :
      Turned config c p place x sig p' e after
  | cleanup {x : Post} {sig : Option Signal} {p' : Pool} {e : List Effect}
      {after : List (Nat × Post)}
      (h : Team.Acted Cleanup.conduct .cleanup .reclaim c p place x sig p' e after) :
      Turned config c p place x none p' e after
  | execute {plan : Plan} {x : Post} {sig : Option Signal} {p' : Pool} {e : List Effect}
      {after : List (Nat × Post)}
      (h : Team.Acted (Execution.conduct config plan) (.execute plan) (fun _ => .duty) c p place x
        sig p' e after) : Turned config c p place x sig p' e after

namespace Activity

variable {config : Config} {c : Context} {p : Pool}

/-- The posts of an operation, each under its place. -/
def posts : Activity → List (Nat × Post)
  | acquire block s => [(0, .acquire block s)]
  | release id s => [(0, .release id s)]
  | terminate id s => [(0, .terminate id s)]
  | prewarm count t => t.posts (.prewarm count) fun _ => .spawn
  | teardown t => t.posts .teardown .terminate
  | cleanup t => t.posts .cleanup .reclaim
  | execute plan t => t.posts (.execute plan) fun _ => .duty

/-- What is signalled of the question of a place. -/
def signal? (config : Config) (place : Nat) (f : Ask → Signal) : Activity → Option Signal
  | cleanup _ => none
  | a => (a.ask? config place).map f

/-- What is signalled of what an operation asks for or is told. -/
def heard : Activity → Option Signal → Option Signal
  | cleanup _, _ => none
  | _, sig => sig

theorem Ordered.places_nodup {a : Activity} (ho : a.Ordered) : (a.posts.map (·.1)).Nodup := by
  cases a with
  | acquire block s => exact List.nodup_singleton _
  | release id s => exact List.nodup_singleton _
  | terminate id s => exact List.nodup_singleton _
  | prewarm count t => exact Team.Ordered.places_nodup ho _ _
  | teardown t => exact Team.Ordered.places_nodup ho _ _
  | cleanup t => exact Team.Ordered.places_nodup ho _ _
  | execute plan t => exact Team.Ordered.places_nodup ho _ _

/-- The signal of an operation is what it asks for or is told, unless nobody is to hear it. -/
theorem signal?_eq (config : Config) (place : Nat) (f : Ask → Signal) (a : Activity) :
    a.signal? config place f = a.heard ((a.ask? config place).map f) := by
  cases a <;> rfl

/-- A turn of an operation is a turn of the post at the place. -/
theorem Turn.posts {a : Activity} (ho : a.Ordered) {place : Nat} {sig : Option Signal}
    {s : Scope Activity} (h : a.Turn config c p place sig s) :
    ∃ x rest after, a.posts.Perm ((place, x) :: rest) ∧ s.result.posts.Perm (after ++ rest) ∧
      Post.Turned config c p place x (a.heard sig) s.pool s.effects after := by
  cases h with
  | acquire hp h =>
    subst hp
    exact ⟨_, [], _, List.Perm.refl _, List.Perm.refl _, .acquire h⟩
  | release hp h =>
    subst hp
    exact ⟨_, [], _, List.Perm.refl _, List.Perm.refl _, .release h⟩
  | terminate hp h =>
    subst hp
    exact ⟨_, [], _, List.Perm.refl _, List.Perm.refl _, .terminate h⟩
  | @prewarm count t sig s h =>
    obtain ⟨x, rest, after, hb, ha, hact⟩ := h.posts ho (.prewarm count) fun _ => .spawn
    exact ⟨x, rest, after, hb, ha, .prewarm hact⟩
  | teardown h =>
    obtain ⟨x, rest, after, hb, ha, hact⟩ := h.posts ho .teardown .terminate
    exact ⟨x, rest, after, hb, ha, .teardown hact⟩
  | cleanup h =>
    obtain ⟨x, rest, after, hb, ha, hact⟩ := h.posts ho .cleanup .reclaim
    exact ⟨x, rest, after, hb, ha, .cleanup hact⟩
  | @execute plan t sig s h =>
    obtain ⟨x, rest, after, hb, ha, hact⟩ := h.posts ho (.execute plan) fun _ => .duty
    exact ⟨x, rest, after, hb, ha, .execute hact⟩

end Activity

/-! ## The machine -/

/-- The number of an operation and a place in it. -/
abbrev Key := Nat × Nat

/-- The posts of an operation with a number, each under its key. -/
def Activity.keyed (n : Nat) (posts : List (Nat × Post)) : List (Key × Post) :=
  posts.map fun x => ((n, x.1), x.2)

/-- The event that a note is of. -/
def Note.event? : Note → Option Event
  | event e => some e
  | asked _ => none

/-- The event that an effect publishes. -/
def Effect.event? : Effect → Option Event
  | emit e => some e
  | _ => none

namespace Machine

/-- The posts of a machine. -/
def posts (m : Machine) : List (Key × Post) :=
  m.activities.flatMap fun a => Activity.keyed a.1 a.2.posts

/-- What is signalled of a move. -/
def signal? (m : Machine) : Move → Option Signal
  | .step n place => (m.activity? n).bind (·.signal? m.pool.config place .sent)
  | .reply n place r => (m.activity? n).bind (·.signal? m.pool.config place (.got · r))
  | _ => none

/-- The operations are numbered as they started, and so are their members. -/
structure Ordered (m : Machine) : Prop where
  numbers : m.activities.map (·.1) = List.range m.started
  members : ∀ a ∈ m.activities, a.2.Ordered

/-- What a move is to the posts: those that it takes away and those that it puts in their place. -/
inductive Shift (m : Machine) :
    Move → List (Key × Post) → Pool → List Effect → List (Key × Post) → Prop where
  | abort : Shift m .abort [] m.pool [] []
  | advance (nanos : Nat) : Shift m (.advance nanos) [] m.pool [] []
  | vary (leeway : Leeway) : Shift m (.vary leeway) [] m.pool [] []
  | order (o : Order) :
      Shift m (.order o) [] m.pool []
        (Activity.keyed m.started (Activity.ofOrder m.pool.config o).posts)
  | step {n place : Nat} {x : Post} {p' : Pool} {e : List Effect} {after : List (Nat × Post)}
      (h : x.Turned m.pool.config m.context m.pool place (m.signal? (.step n place)) p' e after) :
      Shift m (.step n place) [((n, place), x)] p' e (Activity.keyed n after)
  | reply {n place : Nat} {r : Reply} {x : Post} {after : List (Nat × Post)}
      (h : x.Turned m.pool.config m.context m.pool place (m.signal? (.reply n place r)) m.pool []
        after) :
      Shift m (.reply n place r) [((n, place), x)] m.pool [] (Activity.keyed n after)
  | fire {id : String} {generation : Nat} {p' : Pool} {e : List Effect} {after : List (Nat × Post)}
      (h : (Post.terminate id (.ready (.expire generation))).Turned m.pool.config m.context m.pool 0
        none p' e after) :
      Shift m (.fire generation) [] p' e (Activity.keyed m.started after)

theorem ordered_ofPool (p : Pool) (now : Instant) : (ofPool p now).Ordered :=
  ⟨rfl, by simp [ofPool]⟩

theorem posts_ofPool (p : Pool) (now : Instant) : (ofPool p now).posts = [] := rfl

variable {m : Machine} {k : Key} {x y : Post}

theorem mem_posts :
    (k, x) ∈ m.posts ↔ ∃ a, (k.1, a) ∈ m.activities ∧ (k.2, x) ∈ a.posts := by
  unfold posts Activity.keyed
  simp only [List.mem_flatMap, List.mem_map, Prod.mk.injEq]
  constructor
  · rintro ⟨⟨n, a⟩, ha, ⟨place, y⟩, hy, rfl, rfl⟩
    exact ⟨a, ha, hy⟩
  · rintro ⟨a, ha, hx⟩
    exact ⟨(k.1, a), ha, (k.2, x), hx, rfl, rfl⟩

theorem key_lt (ho : m.Ordered) (hx : (k, x) ∈ m.posts) : k.1 < m.started := by
  obtain ⟨a, ha, -⟩ := mem_posts.1 hx
  have hmem : k.1 ∈ m.activities.map (·.1) := List.mem_map.2 ⟨_, ha, rfl⟩
  rw [ho.numbers] at hmem
  exact List.mem_range.1 hmem

theorem activity_unique (ho : m.Ordered) {n : Nat} {a b : Activity} (ha : (n, a) ∈ m.activities)
    (hb : (n, b) ∈ m.activities) : a = b := by
  have hnodup : (m.activities.map (·.1)).Nodup := by
    rw [ho.numbers]
    exact List.nodup_range
  exact (Prod.mk.inj (List.inj_on_of_nodup_map hnodup ha hb rfl)).2

/-- The posts have different keys. -/
theorem posts_nodup (ho : m.Ordered) : (m.posts.map (·.1)).Nodup := by
  have hkeys : m.posts.map (·.1)
      = m.activities.flatMap fun a => (a.2.posts.map (·.1)).map fun place => (a.1, place) := by
    unfold posts Activity.keyed
    rw [List.map_flatMap]
    simp only [List.map_map]
    rfl
  have hnumbers : (m.activities.map (·.1)).Nodup := by
    rw [ho.numbers]
    exact List.nodup_range
  rw [hkeys, List.nodup_flatMap]
  refine ⟨fun a ha => ?_, ?_⟩
  · exact (ho.members a ha).places_nodup.map fun x y hxy => (Prod.mk.inj hxy).2
  · refine (List.pairwise_map.1 hnumbers).imp fun {a b} hne k hka hkb => ?_
    obtain ⟨i, -, rfl⟩ := List.mem_map.1 hka
    obtain ⟨j, -, hk⟩ := List.mem_map.1 hkb
    exact hne (Prod.mk.inj hk).1.symm

/-- A post is the only one with its key. -/
theorem post_unique (ho : m.Ordered) (hx : (k, x) ∈ m.posts) (hy : (k, y) ∈ m.posts) : x = y :=
  (Prod.mk.inj (List.inj_on_of_nodup_map (posts_nodup ho) hx hy rfl)).2

theorem find?_post (ho : m.Ordered) (hx : (k, x) ∈ m.posts) :
    m.posts.find? (·.1 == k) = some (k, x) :=
  find?_key (fun _ _ hx hy => post_unique ho hx hy) hx

/-- A key without a post. -/
theorem find?_started (ho : m.Ordered) (place : Nat) :
    m.posts.find? (·.1 == (m.started, place)) = none := by
  rw [List.find?_eq_none]
  intro y hy he
  have hlt := key_lt ho (k := y.1) (x := y.2) hy
  have hkey : y.1 = (m.started, place) := by simpa using he
  rw [hkey] at hlt
  exact Nat.lt_irrefl _ hlt

/-- An operation that is found stands between others with other numbers. -/
theorem activity?_split (ho : m.Ordered) {n : Nat} {a : Activity} (h : m.activity? n = some a) :
    ∃ l r, m.activities = l ++ (n, a) :: r ∧ (∀ x ∈ l, x.1 ≠ n) ∧ ∀ x ∈ r, x.1 ≠ n := by
  unfold activity? at h
  obtain ⟨⟨k, b⟩, hf, rfl⟩ := Option.map_eq_some_iff.1 h
  obtain ⟨hk, l, r, hs, hl⟩ := List.find?_eq_some_iff_append.1 hf
  obtain rfl : k = n := by simpa using hk
  refine ⟨l, r, hs, fun x hx => by simpa using hl x hx, fun x hx he => ?_⟩
  have hd : (m.activities.map (·.1)).Nodup := by rw [ho.numbers]; exact List.nodup_range
  rw [hs, List.map_append, List.map_cons, List.nodup_append] at hd
  exact (List.nodup_cons.1 hd.2.1).1 (List.mem_map.2 ⟨x, hx, he⟩)

theorem put_activities {n : Nat} {a b : Activity} {l r : List (Nat × Activity)}
    (hs : m.activities = l ++ (n, a) :: r) (hl : ∀ x ∈ l, x.1 ≠ n) (hr : ∀ x ∈ r, x.1 ≠ n) :
    (m.put n b).activities = l ++ (n, b) :: r := by
  have hstay : ∀ xs : List (Nat × Activity), (∀ x ∈ xs, x.1 ≠ n) →
      (xs.map fun old => if old.1 == n then (n, b) else old) = xs := by
    intro xs hxs
    rw [List.map_congr_left (g := id) (fun x hx => by simp [hxs x hx]), List.map_id]
  unfold put
  simp only [hs, List.map_append, List.map_cons, hstay l hl, hstay r hr, beq_self_eq_true, if_true]

/-- An operation that gets elsewhere changes its own posts only. -/
theorem posts_put (ho : m.Ordered) {n : Nat} {a b : Activity} (h : m.activity? n = some a)
    (hb : b.Ordered) : (m.put n b).Ordered ∧ ∃ rest,
      m.posts.Perm (Activity.keyed n a.posts ++ rest) ∧
      (m.put n b).posts.Perm (Activity.keyed n b.posts ++ rest) := by
  obtain ⟨l, r, hs, hl, hr⟩ := activity?_split ho h
  have hput := put_activities (b := b) hs hl hr
  refine ⟨⟨?_, ?_⟩, (l.flatMap fun a => Activity.keyed a.1 a.2.posts) ++
    r.flatMap fun a => Activity.keyed a.1 a.2.posts, ?_, ?_⟩
  · have hn := ho.numbers
    rw [hs] at hn
    rw [hput, List.map_append, List.map_cons]
    rw [List.map_append, List.map_cons] at hn
    exact hn
  · intro x hx
    rw [hput, List.mem_append, List.mem_cons] at hx
    rcases hx with hx | rfl | hx
    · exact ho.members x (by rw [hs]; simp [hx])
    · exact hb
    · exact ho.members x (by rw [hs]; simp [hx])
  · unfold posts
    rw [hs, List.flatMap_append, List.flatMap_cons, ← List.append_assoc, ← List.append_assoc]
    exact List.Perm.append_right _ List.perm_append_comm
  · unfold posts
    rw [hput, List.flatMap_append, List.flatMap_cons, ← List.append_assoc, ← List.append_assoc]
    exact List.Perm.append_right _ List.perm_append_comm

theorem foldl_apply (m : Machine) (effects : List Effect) :
    ∃ alarms, effects.foldl apply m = { m with alarms := alarms } := by
  induction effects generalizing m with
  | nil => exact ⟨m.alarms, rfl⟩
  | cons e rest ih =>
    obtain ⟨alarms, h⟩ := ih (m.apply e)
    rw [List.foldl_cons, h]
    cases e with
    | emit event => exact ⟨alarms, rfl⟩
    | arm id generation due => exact ⟨alarms, rfl⟩
    | disarm generation => exact ⟨alarms, rfl⟩

/-- Behind a scope the operation has its new posts, and the pool is that of the scope. -/
theorem settle_posts (ho : m.Ordered) {n : Nat} {a : Activity} (h : m.activity? n = some a)
    {s : Scope Activity} (hs : s.result.Ordered) :
    (m.settle n s).Ordered ∧ (m.settle n s).pool = s.pool ∧ ∃ rest,
      m.posts.Perm (Activity.keyed n a.posts ++ rest) ∧
      (m.settle n s).posts.Perm (Activity.keyed n s.result.posts ++ rest) := by
  obtain ⟨alarms, hfold⟩ := foldl_apply ({ m with pool := s.pool }.put n s.result) s.effects
  obtain ⟨hord, rest, hb, ha⟩ := posts_put (m := { m with pool := s.pool }) ⟨ho.numbers, ho.members⟩
    h hs
  have hsettle : m.settle n s = { { m with pool := s.pool }.put n s.result with alarms := alarms } :=
    hfold
  rw [hsettle]
  exact ⟨⟨hord.numbers, hord.members⟩, rfl, rest, hb, ha⟩

theorem activity?_mem {n : Nat} {a : Activity} (h : m.activity? n = some a) :
    (n, a) ∈ m.activities := by
  obtain ⟨y, hf, rfl⟩ := Option.map_eq_some_iff.1 h
  exact (mem_of_find?_key hf).2

theorem activity?_of_mem (ho : m.Ordered) {n : Nat} {a : Activity} (h : (n, a) ∈ m.activities) :
    m.activity? n = some a := by
  unfold activity?
  rw [find?_key (fun _ _ hx hy => activity_unique ho hx hy) h]
  rfl

theorem perm_keyed {before after rest : List (Nat × Post)} {others posts : List (Key × Post)} {n : Nat}
    (h : posts.Perm (Activity.keyed n before ++ others)) (hb : before.Perm (after ++ rest)) :
    posts.Perm (Activity.keyed n after ++ (Activity.keyed n rest ++ others)) := by
  refine h.trans ?_
  rw [← List.append_assoc]
  refine List.Perm.append_right others ((hb.map _).trans ?_)
  rw [List.map_append]
  exact List.Perm.refl _

theorem ordered_start (ho : m.Ordered) {a : Activity} (ha : a.Ordered) : (m.start a).Ordered := by
  refine ⟨?_, fun x hx => ?_⟩
  · simp only [start, List.map_append, List.map_cons, List.map_nil, ho.numbers, List.range_succ]
  · simp only [start, List.mem_append, List.mem_singleton] at hx
    rcases hx with hx | rfl
    · exact ho.members x hx
    · exact ha

theorem posts_start (m : Machine) (a : Activity) :
    (m.start a).posts = m.posts ++ Activity.keyed m.started a.posts := by
  simp only [posts, start, List.flatMap_append, List.flatMap_cons, List.flatMap_nil, List.append_nil]

theorem activity?_started (ho : m.Ordered) (a : Activity) :
    (m.start a).activity? m.started = some a := by
  have hnone : m.activities.find? (·.1 == m.started) = none := by
    rw [List.find?_eq_none]
    intro x hx
    have hmem : x.1 ∈ List.range m.started := by
      rw [← ho.numbers]
      exact List.mem_map_of_mem hx
    have hlt := List.mem_range.1 hmem
    simp only [beq_iff_eq]
    omega
  simp only [activity?, start, List.find?_append, hnone, Option.none_or, List.find?_cons,
    beq_self_eq_true, Option.map_some]

/-- The events among the notes of a step are those of its effects. -/
theorem events_notes (a? : Option Ask) (effects : List Effect) :
    ((a?.map Note.asked).toList ++ events effects).filterMap (·.event?)
      = effects.filterMap (·.event?) := by
  have hasked : (a?.map Note.asked).toList.filterMap (·.event?) = [] := by
    cases a? <;> rfl
  rw [List.filterMap_append, hasked, List.nil_append]
  induction effects with
  | nil => rfl
  | cons e rest ih =>
    cases e with
    | emit event =>
      show event :: List.filterMap _ (events rest) = event :: _
      rw [ih]
    | arm id generation due => exact ih
    | disarm generation => exact ih

/-- The first step of a termination whose time has come is a turn of a new post. -/
theorem expire_posts (ho : m.Ordered) {alarm : Alarm} {m' : Machine} {notes : List Note}
    (h : m.expire alarm = some (m', notes)) :
    m'.Ordered ∧ ∃ e after, m'.posts.Perm (Activity.keyed m.started after ++ m.posts) ∧
      (Post.terminate alarm.id (.ready (.expire alarm.generation))).Turned m.pool.config m.context
        m.pool 0 none m'.pool e after ∧ notes.filterMap (·.event?) = e.filterMap (·.event?) := by
  unfold expire stepAt at h
  generalize hcalm : ({ m with
    alarms := m.alarms.filter (·.generation != alarm.generation) } : Machine) = calm at h
  have hoc : calm.Ordered := by rw [← hcalm]; exact ⟨ho.numbers, ho.members⟩
  generalize hact : Activity.terminate alarm.id (.ready (.expire alarm.generation)) = act at h
  have hfound : (calm.start act).activity? m.started = some act := by
    have hs : calm.started = m.started := by rw [← hcalm]
    rw [← hs]
    exact activity?_started hoc act
  obtain ⟨a, ha, h⟩ := Option.bind_eq_some_iff.1 h
  obtain rfl : act = a := Option.some.inj (hfound.symm.trans ha)
  obtain ⟨s, hs, h⟩ := Option.map_eq_some_iff.1 h
  simp only [Prod.mk.injEq] at h
  obtain ⟨rfl, rfl⟩ := h
  have hoa : act.Ordered := by rw [← hact]; trivial
  have hordered : (calm.start act).Ordered := ordered_start hoc hoa
  obtain ⟨hord', hpool, others, hpb, hpa⟩ := settle_posts hordered hfound
    (s := s) ((Activity.turn_of_step hs).ordered hoa)
  have hothers : others.Perm m.posts := by
    refine (List.perm_append_left_iff (Activity.keyed m.started act.posts)).1 ?_
    refine hpb.symm.trans ?_
    rw [posts_start, ← hcalm]
    exact List.perm_append_comm
  have hc : (calm.start act).context = m.context := by rw [← hcalm]; rfl
  have hp : (calm.start act).pool = m.pool := by rw [← hcalm]; rfl
  rw [hc, hp, ← hact] at hs
  obtain ⟨-, hs⟩ := Activity.only_eq_some hs
  obtain ⟨s₀, hs₀, rfl⟩ := Option.map_eq_some_iff.1 hs
  refine ⟨hord', s₀.effects, [(0, .terminate alarm.id s₀.result)],
    hpa.trans (List.Perm.append_left _ hothers), ?_, events_notes _ _⟩
  rw [hpool]
  exact .terminate (Strand.turn_of_step hs₀)

/-- **A move is a turn of one post, or adds one.**  All other posts stay as they are, and the events
are those of the turn. -/
theorem next_shift (ho : m.Ordered) {move : Move} {m' : Machine} {notes : List Note}
    (h : m.next move = some (m', notes)) :
    m'.Ordered ∧ ∃ before e after rest, m.posts.Perm (before ++ rest) ∧
      m'.posts.Perm (after ++ rest) ∧ m.Shift move before m'.pool e after ∧
      notes.filterMap (·.event?) = e.filterMap (·.event?) := by
  cases move with
  | order o =>
    simp only [next, Option.some.injEq, Prod.mk.injEq] at h
    obtain ⟨rfl, rfl⟩ := h
    refine ⟨ordered_start ho (Activity.ordered_ofOrder _ o), [], [], _, m.posts, List.Perm.refl _,
      ?_, .order o, rfl⟩
    rw [posts_start]
    exact List.perm_append_comm
  | step n place =>
    obtain ⟨a, ha, h⟩ := Option.bind_eq_some_iff.1 h
    obtain ⟨s, hs, h⟩ := Option.map_eq_some_iff.1 h
    simp only [Prod.mk.injEq] at h
    obtain ⟨rfl, rfl⟩ := h
    have hoa := ho.members _ (activity?_mem ha)
    have hturn := Activity.turn_of_step hs
    obtain ⟨x, rest, after, hb, haft, ht⟩ := hturn.posts hoa
    obtain ⟨hord', hpool, others, hpb, hpa⟩ := settle_posts ho ha (hturn.ordered hoa)
    have hbefore : m.posts.Perm (Activity.keyed n [(place, x)] ++ _) := perm_keyed hpb hb
    refine ⟨hord', [((n, place), x)], s.effects, Activity.keyed n after, _, hbefore,
      perm_keyed hpa haft, ?_, events_notes _ _⟩
    rw [hpool]
    refine .step ?_
    simp only [signal?, ha, Option.bind_some, Activity.signal?_eq]
    exact ht
  | reply n place r =>
    obtain ⟨a, hact, h⟩ := Option.bind_eq_some_iff.1 h
    obtain ⟨b, hb, h⟩ := Option.map_eq_some_iff.1 h
    simp only [Prod.mk.injEq] at h
    obtain ⟨rfl, rfl⟩ := h
    have hoa := ho.members _ (activity?_mem hact)
    have hturn := Activity.turn_of_reply (c := m.context) (p := m.pool) hb
    obtain ⟨x, rest, after, hbef, haft, ht⟩ := hturn.posts hoa
    obtain ⟨hord', others, hpb, hpa⟩ := posts_put ho hact (hturn.ordered hoa)
    have hbefore : m.posts.Perm (Activity.keyed n [(place, x)] ++ _) := perm_keyed hpb hbef
    refine ⟨hord', [((n, place), x)], [], Activity.keyed n after, _, hbefore,
      perm_keyed hpa haft, .reply ?_, rfl⟩
    simp only [signal?, hact, Option.bind_some, Activity.signal?_eq]
    exact ht
  | fire generation =>
    simp only [next, Option.bind_eq_some_iff] at h
    obtain ⟨alarm, hal, h⟩ := h
    split at h
    · obtain rfl : alarm.generation = generation := by simpa using List.find?_some hal
      obtain ⟨hord, e, after, hp, ht, hev⟩ := expire_posts ho h
      exact ⟨hord, [], e, _, m.posts, List.Perm.refl _, hp, .fire ht, hev⟩
    · cases h
  | abort =>
    simp only [next, Option.some.injEq, Prod.mk.injEq] at h
    obtain ⟨rfl, rfl⟩ := h
    exact ⟨⟨ho.numbers, ho.members⟩, [], [], [], m.posts, List.Perm.refl _, List.Perm.refl _, .abort,
      rfl⟩
  | advance nanos =>
    simp only [next, Option.some.injEq, Prod.mk.injEq] at h
    obtain ⟨rfl, rfl⟩ := h
    exact ⟨⟨ho.numbers, ho.members⟩, [], [], [], m.posts, List.Perm.refl _, List.Perm.refl _,
      .advance nanos, rfl⟩
  | vary leeway =>
    simp only [next, Option.some.injEq, Prod.mk.injEq] at h
    obtain ⟨rfl, rfl⟩ := h
    exact ⟨⟨ho.numbers, ho.members⟩, [], [], [], m.posts, List.Perm.refl _, List.Perm.refl _,
      .vary leeway, rfl⟩

/-- A move is a turn of one post, or adds one. -/
theorem next_posts (ho : m.Ordered) {move : Move} {m' : Machine} {notes : List Note}
    (h : m.next move = some (m', notes)) :
    m'.Ordered ∧ ∃ before e after rest, m.posts.Perm (before ++ rest) ∧
      m'.posts.Perm (after ++ rest) ∧ m.Shift move before m'.pool e after := by
  obtain ⟨hord, before, e, after, rest, hb, ha, hs, -⟩ := next_shift ho h
  exact ⟨hord, before, e, after, rest, hb, ha, hs⟩

end Machine

end SandboxPool
