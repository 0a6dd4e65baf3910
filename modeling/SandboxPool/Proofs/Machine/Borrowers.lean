import SandboxPool.Proofs.Execution.Users
import SandboxPool.Proofs.Ownership

/-!
# Sandboxes in use by all posts

Whoever has got a sandbox uses it: a block until the end of its release, and a caller until the release
that belongs to the acquisition has come to its end (`Machine.users`).

A caller gives a sandbox back in another operation than the one that has got it. So the turn of such a
release is one for the post of the acquisition, and every post has at most one sandbox to account for
(`Post.borrows?`): a turn of a post is one that the model of the pool allows for that sandbox
(`Post.Turned.passes`), and all other users keep theirs (`Machine.Reaches.passed`).

So all sandboxes in use are known, in every interleaving, where callers are disciplined
(`Machine.Reaches.users_accounted`).
-/

namespace SandboxPool

variable {config : Config} {c : Context} {p p' : Pool} {out : Bool} {sig : Option Signal}
  {e : List Effect} {id : String}

/-- The sandbox that a post uses. -/
def Post.uses? : Post → Option String
  | acquire _ (.done (.ok s)) => some s.id
  | execute _ s => s.point?.bind (·.uses?)
  | duty s => s.point?.bind (·.uses?)
  | _ => none

/-- The sandbox that a post uses, or that it gives back for a caller. -/
def Post.borrows? : Post → Option String
  | release id s => if s.ended then none else some id
  | x => x.uses?

theorem Post.uses?_of_acquired? {x : Post} (h : x.acquired? = some id) : x.uses? = some id := by
  cases x with
  | acquire block s =>
    cases s with
    | done r =>
      cases r with
      | ok s => exact h
      | error e => cases h
    | _ => cases h
  | _ => cases h

theorem Post.borrows?_eq {x : Post} (h : x.returns? = none) : x.borrows? = x.uses? := by
  cases x with
  | release => cases h
  | _ => rfl

/-! ## Turns -/

/-- An execution itself leaves all records as they are, as long as it runs no block. -/
theorem Execution.level_of_lead {plan : Plan} {point : Point} {s : Scope (Option (Next Point Result))}
    {tasks : List (String × Duty)} (hp : ∀ progress block b, point ≠ .solo progress block b)
    (h : (leader config plan point).Turn c p out sig s tasks) : p.Level s.pool := by
  have hscope : ∀ {body : Context → Pool → Scope (Next Point Result)},
      (Intent.demand (.scope body) : Intent String Duty Yield Point Result).Turn c p out sig s tasks →
      (body c p).pool.records = p.records → p.Level s.pool := by
    intro body h hr
    obtain ⟨-, -, rfl⟩ := Demand.turn_scope (Intent.turn_demand h).1
    exact Pool.level_of_records hr
  have hhire : ∀ {body : Context → Pool → Scope (List (String × Duty) × Next Point Result)},
      (Intent.hire body : Intent String Duty Yield Point Result).Turn c p out sig s tasks →
      (body c p).pool.records = p.records → p.Level s.pool := by
    intro body h hr
    obtain ⟨-, -, rfl, -⟩ := Intent.turn_hire h
    exact Pool.level_of_records hr
  cases point with
  | begin =>
    refine hscope h ?_
    unfold begin
    split <;> rfl
  | lane progress =>
    refine hscope h ?_
    unfold lane
    split
    · rfl
    · split <;> rfl
  | solo progress block b => exact absurd rfl (hp progress block b)
  | dispatch progress sent waiting =>
    refine hhire h ?_
    unfold dispatch
    split
    · rfl
    · split <;> rfl
  | gather progress sent interrupted =>
    obtain ⟨-, -, ⟨ended, rfl⟩, -⟩ := Intent.turn_join h
    exact .refl p
  | settle progress ran interrupted =>
    refine hscope h ?_
    unfold settle
    simp only
    split
    · rfl
    · split
      · rfl
      · split <;> rfl
  | abort progress index => exact hscope h rfl
  | teardown progress index =>
    refine hhire h ?_
    unfold teardown
    split <;> rfl
  | cleared progress index =>
    obtain ⟨-, -, ⟨ended, rfl⟩, -⟩ := Intent.turn_join h
    exact .refl p
  | finish progress status => exact hscope h rfl

/-- It goes on to no point where it uses a sandbox. -/
theorem Execution.uses?_of_lead {plan : Plan} {point : Point}
    {s : Scope (Option (Next Point Result))} {tasks : List (String × Duty)}
    (hp : ∀ progress block b, point ≠ .solo progress block b)
    (h : (leader config plan point).Turn c p out sig s tasks) :
    (Strand.land point s.result).point?.bind (·.uses?) = none := by
  refine Option.eq_none_iff_forall_ne_some.2 fun id hid => ?_
  obtain ⟨point', hpoint, huses⟩ := Option.bind_eq_some_iff.1 hid
  cases point' with
  | solo progress block b =>
    obtain rfl := eq_begin_of_lead hp h hpoint
    cases huses
  | _ => cases huses

/-! ## Releases of callers -/

/-- A termination that a release makes starts with its claim: it is not the end of a pause. -/
def Release.Point.Plain : Release.Point → Prop
  | .discard _ (.expire _) => False
  | _ => True

namespace Release

variable {r : Point}

theorem Point.Plain.discard {cause : DaemonError} {t : Termination.Point}
    (h : ∀ g, t ≠ .expire g) : (Point.discard cause t).Plain := by
  cases t with
  | expire g => exact absurd rfl (h g)
  | _ => trivial

/-- A point with a sandbox to give back is one where the sandbox is still used. -/
theorem uses?_of_plain (hr : r.Plain) (ran : BlockResult) (id : String) :
    (BlockRun.Point.release ran id r).uses? = some id := by
  cases r with
  | discard cause t =>
    refine BlockRun.uses?_discard ?_
    rintro g rfl
    exact hr
  | _ => rfl

theorem ensures_plain (r : Point) : (demand id r).Ensures
    fun next => (Strand.ofNext next).Keeps Point.Plain fun _ => True := by
  cases r with
  | check =>
    refine Demand.ensures_scope fun _ p => ?_
    unfold check
    split
    · trivial
    · split
      · trivial
      · split <;> trivial
  | pause =>
    refine Demand.ensures_act fun r => ?_
    cases r <;> trivial
  | discard cause t =>
    have hnext : (Termination.demand id t).Ensures fun next =>
        (Strand.ofNext next).Keeps (fun t => ∀ g, t ≠ .expire g) fun _ => True := by
      cases t with
      | claim =>
        refine Demand.ensures_scope fun _ p => ?_
        unfold Termination.claim
        split
        · trivial
        · split
          · trivial
          · simp [Strand.ofNext, Strand.Keeps]
      | expire g =>
        refine Demand.ensures_scope fun _ p => ?_
        unfold Termination.expire
        split
        · trivial
        · split
          · trivial
          · simp [Strand.ofNext, Strand.Keeps]
      | settle port =>
        refine Demand.ensures_scope fun _ p => ?_
        unfold Termination.settle
        simp only
        split
        · trivial
        · split <;> trivial
      | _ => exact Demand.ensures_act fun _ => by simp [Strand.ofNext, Strand.Keeps]
    exact hnext.into (fun t ht => Point.Plain.discard ht) fun _ _ => trivial
  | park =>
    refine Demand.ensures_scope fun c p => ?_
    unfold park
    split
    · trivial
    · split
      · trivial
      · simp only
        split <;> trivial
  | drop =>
    refine Demand.ensures_scope fun _ p => ?_
    unfold drop
    split
    · trivial
    · split <;> trivial

end Release

section Turns

variable (hp : p.config = config) (hd : p.Distinct)
  (hw : config.parallelism = .multi → ∀ id, p.claim? id = some .waking →
    ∃ r ∈ p.records, r.id = id ∧ r.state = .dormant)
include hp hd hw

omit hp in
/-- A turn of a release is one for whoever gives the sandbox back, who does not use it any more when the
release has come to its end. -/
theorem Release.passes_strand {s : Strand Release.Point Release.Result}
    {sc : Scope (Strand Release.Point Release.Result)}
    (hf : s.Keeps (Release.Point.Fits config.parallelism) fun _ => True)
    (hs : s.Keeps Release.Point.Plain fun _ => True) (h : s.Turn (Release.demand id) c p sig sc) :
    Pool.Passes config.parallelism p (some id) sc.pool (if sc.result.ended then none else some id) := by
  have hplain : sc.result.Keeps Release.Point.Plain fun _ => True :=
    h.keeps hs fun r _ => Release.ensures_plain r
  obtain ⟨r, out, s₀, rfl, hturn, rfl⟩ := h.at_point
  have hpoint : (Strand.standing r out : Strand Release.Point Release.Result).point? = some r :=
    Strand.point?_standing r out
  have hpasses : Pool.Passes config.parallelism p (BlockRun.Point.release default id r).uses? s₀.pool
      (Release.usedBehind default id r s₀) := by
    have hfits := Strand.Keeps.of_point? hf hpoint
    cases hmodel : config.parallelism with
    | multi => exact Release.rests hd (hw hmodel) (hmodel ▸ hfits) hturn
    | single => exact Release.shares hd (hmodel ▸ hfits) hturn
  rw [Release.uses?_of_plain (Strand.Keeps.of_point? hs hpoint)] at hpasses
  have hbehind : Release.usedBehind default id r s₀
      = if (Strand.land r s₀.result).ended then none else some id := by
    unfold Release.usedBehind
    cases hland : (Strand.land r s₀.result).point? with
    | none =>
      have hended : (Strand.land r s₀.result).ended = true := Strand.ended_of_point?_eq_none hland
      rw [hended]
      rfl
    | some r' =>
      rw [Strand.ended_of_point? hland]
      exact Release.uses?_of_plain (Strand.Keeps.of_point? hplain hland) default id
  exact hbehind ▸ hpasses

omit hd hw in
/-- An acquisition uses a sandbox only when it has got it. -/
theorem Acquire.passes_turn {block : String} {a : Point} {s : Scope (Option (Next Point Result))}
    (hf : a.Fits config.parallelism) (h : (demand config block a).Turn c p out sig s) :
    Pool.Passes config.parallelism p none s.pool
      (Post.acquire block (Strand.land a s.result)).uses? := by
  subst hp
  by_cases hok : ∃ snap, s.result = some (.done (.ok snap))
  · obtain ⟨snap, hr⟩ := hok
    have huses : (Post.acquire block (Strand.land a s.result)).uses? = some snap.id := by
      rw [hr]
      rfl
    rw [huses]
    cases hmodel : p.config.parallelism with
    | multi =>
      refine ⟨fun r hrec hs => ?_, fun _ _ _ ho => by cases ho⟩
      refine ((sound p.config block rfl h).running_or hrec hs).imp_left fun ⟨name, hm⟩ => ?_
      rw [hr] at hm
      exact congrArg some (Hand.holding.inj (List.mem_singleton.1 hm)).1.symm
    | single =>
      obtain ⟨id, rfl⟩ := join_of_done (hmodel ▸ hf) h hr
      obtain ⟨-, -, rfl⟩ := Demand.turn_scope h
      exact join_shares (Option.some.inj hr)
  · have hnone : (Post.acquire block (Strand.land a s.result)).uses? = none := by
      obtain ⟨pool, effects, result⟩ := s
      cases result with
      | none => rfl
      | some next =>
        cases next with
        | done r =>
          cases r with
          | ok snap => exact absurd ⟨snap, rfl⟩ hok
          | error e => rfl
        | _ => rfl
    rw [hnone]
    exact (level h fun snap hr => hok ⟨snap, hr⟩).passes none

/-- A turn of an execution itself is one of the block that it runs. -/
theorem Execution.lead_passes {plan : Plan} {point : Point}
    {s : Scope (Option (Next Point Result))} {tasks : List (String × Duty)}
    (hf : point.Fits config.parallelism) (h : (leader config plan point).Turn c p out sig s tasks) :
    Pool.Passes config.parallelism p point.uses? s.pool
      ((Strand.land point s.result).point?.bind (·.uses?)) := by
  cases point with
  | solo progress block b =>
    obtain ⟨hturn, -⟩ := Intent.turn_demand h
    obtain ⟨s₀, h₀, rfl⟩ := Demand.turn_map hturn
    simp only [Scope.map, uses?_land_solo]
    exact BlockRun.passes hp hd hw hf h₀
  | _ =>
    rw [uses?_of_lead (by simp) h]
    exact (level_of_lead (by simp) h).passes none

/-- **A turn of a post is one that the model of the pool allows** for the sandbox that the post uses, or
gives back. -/
theorem Post.Turned.passes {place : Nat} {x : Post} {after : List (Nat × Post)}
    (h : x.Turned config c p place sig p' e after) (hx : x.Fits config.parallelism)
    (hplain : ∀ id s, x = .release id s → s.Keeps Release.Point.Plain fun _ => True) :
    ∃ o', after.filterMap (·.2.borrows?) = o'.toList ∧
      Pool.Passes config.parallelism p x.borrows? p' o' := by
  have hone : ∀ {y : Post} {place : Nat},
      [(place, y)].filterMap (·.2.borrows?) = y.borrows?.toList := by
    intro y place
    cases hy : y.borrows? <;> simp [hy]
  -- those that lend nothing
  have hlevel : (x.borrows? = none ∧ ∀ t ∈ x.hand, t.uses = false) →
      (∀ y ∈ after, y.2.borrows? = none ∧ ∀ t ∈ y.2.hand, t.uses = false) →
      ∃ o', after.filterMap (·.2.borrows?) = o'.toList ∧
        Pool.Passes config.parallelism p x.borrows? p' o' := by
    rintro ⟨hnone, hbefore⟩ hbehind
    refine ⟨none, List.filterMap_eq_nil_iff.2 fun y hy => (hbehind y hy).1, ?_⟩
    rw [hnone]
    obtain ⟨l, l', rest, q, hl, hl', hact, hq, -, -⟩ := turned_moves hp h
    refine Pool.Level.passes ((hact.level (fun t ht => ?_) fun t ht => ?_).alike hq) _
    · obtain ⟨z, hz, rfl⟩ := List.mem_map.1 ht
      obtain ⟨y, hy, hmem⟩ := List.mem_flatMap.1 (hl.mem_iff.2 (List.mem_append_left _ hz))
      obtain ⟨t₀, ht₀, rfl⟩ := List.mem_map.1 hmem
      rw [List.mem_singleton.1 hy] at ht₀
      exact hbefore t₀ ht₀
    · obtain ⟨z, hz, rfl⟩ := List.mem_map.1 ht
      obtain ⟨y, hy, hmem⟩ := List.mem_flatMap.1 (hl'.mem_iff.2 (List.mem_append_left _ hz))
      obtain ⟨t₀, ht₀, rfl⟩ := List.mem_map.1 hmem
      exact (hbehind y hy).2 t₀ ht₀
  have hterminates : ∀ (id : String) (s : Strand Termination.Point Termination.Result),
      ∀ t ∈ (Post.terminate id s).hand, t.uses = false := fun id s =>
    Strand.hand_uses (fun _ => Termination.hand_uses (by simp)) fun _ _ _ ht => by cases ht
  cases h with
  | acquire ht =>
    obtain ⟨a, out, s, rfl, hturn, rfl⟩ := ht.at_point
    have hfits : a.Fits config.parallelism := Strand.Keeps.of_point? hx (Strand.point?_standing a out)
    refine ⟨_, hone, ?_⟩
    have hpasses := Acquire.passes_turn hp hfits hturn
    cases out <;> exact hpasses
  | @release id s _ sc ht =>
    refine ⟨_, hone, ?_⟩
    have hlive : s.ended = false := by cases ht <;> rfl
    have hpasses := Release.passes_strand hd hw hx (hplain id s rfl) ht
    simp only [borrows?, hlive]
    exact hpasses
  | terminate =>
    refine hlevel ⟨rfl, hterminates _ _⟩ fun y hy => ?_
    obtain rfl := List.mem_singleton.1 hy
    exact ⟨rfl, hterminates _ _⟩
  | prewarm ht =>
    obtain ⟨hbefore, hbehind⟩ := ht.forall
      (fun y => y.borrows? = none ∧ ∀ t ∈ y.hand, t.uses = false) (fun _ => ⟨rfl, fun t ht => by cases ht⟩)
      fun _ s => ⟨rfl, s.hand_uses Spawn.hand_uses fun _ _ _ ht => by cases ht⟩
    exact hlevel hbefore hbehind
  | teardown ht =>
    obtain ⟨hbefore, hbehind⟩ := ht.forall
      (fun y => y.borrows? = none ∧ ∀ t ∈ y.hand, t.uses = false)
      (fun _ => ⟨rfl, fun t ht => by cases ht⟩) fun _ s => ⟨rfl, hterminates _ s⟩
    exact hlevel hbefore hbehind
  | cleanup ht =>
    obtain ⟨hbefore, hbehind⟩ := ht.forall
      (fun y => y.borrows? = none ∧ ∀ t ∈ y.hand, t.uses = false)
      (fun _ => ⟨rfl, fun t ht => by cases ht⟩) fun _ _ => ⟨rfl, fun t ht => by cases ht⟩
    exact hlevel hbefore hbehind
  | @execute plan _ _ _ _ _ ht =>
    cases ht with
    | @leader st _ sc tasks hl n =>
      obtain ⟨point, out, s, rfl, hturn, rfl⟩ := hl.at_point
      have hfits : point.Fits config.parallelism :=
        Strand.Keeps.of_point? hx (Strand.point?_standing point out)
      have hpasses := Execution.lead_passes hp hd hw hfits hturn
      have hhired : (Team.stand (fun _ : String => Post.duty) (Team.enrol n tasks)).filterMap
          (·.2.borrows?) = [] := by
        refine List.filterMap_eq_nil_iff.2 fun y hy => ?_
        obtain ⟨member, hmember, rfl⟩ := List.mem_map.1 hy
        obtain ⟨task, htask, -, hready⟩ := Team.mem_enrol hmember
        rw [hready]
        rcases Execution.duty_of_hired hturn task htask with ⟨block, hduty⟩ | ⟨id, hduty⟩ <;>
          (rw [hduty]; rfl)
      refine ⟨(Strand.land point s.result).point?.bind (·.uses?), ?_, ?_⟩
      · have hcons : ([(place, Post.execute plan (s.map (Strand.land point)).result)]
            ++ Team.stand (fun _ : String => Post.duty) (Team.enrol n tasks)).filterMap
              (fun y : Nat × Post => y.2.borrows?) = _ := List.filterMap_append
        rw [hhired, hone, List.append_nil] at hcons
        exact hcons
      · cases out <;> exact hpasses
    | @member task st _ sc _ ht hafter =>
      obtain ⟨d, out, s, rfl, hturn, rfl⟩ := ht.at_point
      have hfits : d.Fits config.parallelism :=
        Strand.Keeps.of_point? hx (Strand.point?_standing d out)
      have hpasses := Execution.Duty.uses
        (R := fun o q o' => Pool.Passes config.parallelism p o q o') (fun h => h.passes _)
        (fun hb ht => BlockRun.passes hp hd hw hb ht) hfits hturn
      refine ⟨(Strand.land d s.result).point?.bind (·.uses?), ?_, ?_⟩
      · rcases hafter with rfl | ⟨hended, rfl⟩
        · exact hone
        · have hends : (Strand.land d s.result).ended = true := hended
          rw [Strand.point?_of_ended hends]
          rfl
      · cases out <;> exact hpasses

end Turns

namespace Machine

variable {seed : BitVec 128} {pool : Pool} {now : Instant} {h : History} {m m' : Machine}
  {move : Move} {notes : List Note} {owner : Nat → Nat} {k : Key}

theorem Reaches.plain (hr : (ofPool pool now).Reaches h m) {s : Strand Release.Point Release.Result}
    (hx : (k, .release id s) ∈ m.posts) : s.Keeps Release.Point.Plain fun _ => True := by
  induction hr generalizing k s with
  | start =>
    rw [posts_ofPool] at hx
    cases hx
  | next hr hn ih =>
    cases next_post hr.ordered_ofPool hn hx with
    | stay hx => exact ih hx
    | order o _ hx =>
      cases o with
      | release id' =>
        obtain ⟨-, heq⟩ := Prod.mk.inj (List.mem_singleton.1 hx)
        cases heq
        show (Release.start _).Plain
        unfold Release.start
        split <;> trivial
      | _ =>
        obtain ⟨-, heq⟩ := Prod.mk.inj (List.mem_singleton.1 hx)
        cases heq
    | turn _ hold _ ht hx =>
      rcases ht.release_or with ⟨id', s', sc, rfl, hturn, -, rfl⟩ | ⟨-, hnone⟩
      · obtain ⟨-, heq⟩ := Prod.mk.inj (List.mem_singleton.1 hx)
        cases heq
        rcases hold with hold | ⟨id, g, hold⟩
        · exact hturn.keeps (ih hold) fun r _ => Release.ensures_plain r
        · cases hold
      · cases hnone _ hx

/-! ## Sandboxes in use -/

/-- The sandbox that a post uses, unless it was given back. -/
def uses? (owner : Nat → Nat) (m : Machine) (x : Key × Post) : Option String :=
  if m.gaveBack owner x.1.1 then none else x.2.uses?

/-- The sandboxes in use, once for each block and for each caller who has not given one back. -/
def users (owner : Nat → Nat) (m : Machine) : List String := m.posts.filterMap (m.uses? owner)

theorem mem_users : id ∈ m.users owner ↔
    ∃ x ∈ m.posts, x.2.uses? = some id ∧ m.gaveBack owner x.1.1 = false := by
  unfold users
  rw [List.mem_filterMap]
  refine exists_congr fun x => and_congr_right fun _ => ?_
  unfold uses?
  cases m.gaveBack owner x.1.1 <;> simp

/-- One user of a sandbox has taken a turn, as the model allows it, and all others use what they have
used. -/
inductive Passed (model : Parallelism) (owner : Nat → Nat) (m m' : Machine) : Prop where
  | intro (o o' : Option String) (rest : List String)
      (hbefore : (m.users owner).Perm (o.toList ++ rest))
      (hbehind : (m'.users owner).Perm (o'.toList ++ rest))
      (hpasses : Pool.Passes model m.pool o m'.pool o')

variable {before after rest : List (Key × Post)}

/-- What was given back stays so unless a release comes to its end. -/
theorem gaveBack_of_rest (hb : m.posts.Perm (before ++ rest)) (ha : m'.posts.Perm (after ++ rest))
    {n : Nat} (hno : ∀ y ∈ after, (y.2.returned && owner y.1.1 == n) = false)
    (hg : m.gaveBack owner n = false) : m'.gaveBack owner n = false := by
  rw [Bool.eq_false_iff] at hg ⊢
  intro hg'
  obtain ⟨y, hy, hret⟩ := List.any_eq_true.1 hg'
  rcases List.mem_append.1 (ha.mem_iff.1 hy) with hy | hy
  · rw [hno y hy] at hret
    cases hret
  · exact hg (List.any_eq_true.2 ⟨y, hb.mem_iff.2 (List.mem_append_right _ hy), hret⟩)

/-- A move in which no release of a caller takes a turn is one of the post that moves. -/
theorem passed_of_calm {model : Parallelism} {n : Nat} {o o' : Option String} (ho : m.Ordered)
    (hn : m.next move = some (m', notes)) (hb : m.posts.Perm (before ++ rest))
    (ha : m'.posts.Perm (after ++ rest)) (hopen : m.gaveBack owner n = false)
    (hkey : ∀ x ∈ before, x.1.1 = n) (hkey' : ∀ y ∈ after, y.1.1 = n)
    (hno : ∀ y ∈ after, y.2.returned = false) (hbefore : before.filterMap (·.2.uses?) = o.toList)
    (hafter : after.filterMap (·.2.uses?) = o'.toList)
    (hpasses : Pool.Passes model m.pool o m'.pool o') : m.Passed model owner m' := by
  have hsame : ∀ n, m'.gaveBack owner n = m.gaveBack owner n := by
    intro n
    cases hg : m.gaveBack owner n with
    | true => exact gaveBack_next ho hn hg
    | false => exact gaveBack_of_rest hb ha (fun y hy => by simp [hno y hy]) hg
  have huses : m'.uses? owner = m.uses? owner := by
    funext x
    simp only [uses?, hsame]
  have hall : ∀ {l : List (Key × Post)}, (∀ x ∈ l, x.1.1 = n) →
      l.filterMap (m.uses? owner) = l.filterMap (·.2.uses?) := by
    intro l hl
    refine List.filterMap_congr fun x hx => ?_
    simp [uses?, hl x hx, hopen]
  refine ⟨o, o', rest.filterMap (m.uses? owner), ?_, ?_, hpasses⟩
  · rw [← hbefore, ← hall hkey, ← List.filterMap_append]
    exact hb.filterMap _
  · rw [← hafter, ← hall hkey', ← List.filterMap_append, ← huses]
    exact ha.filterMap _

/-- A move of a release is one of the acquisition that it belongs to. -/
theorem passed_of_release {model : Parallelism} (ho : m.Ordered) (hy : Matched owner h m)
    (honce : (h.releases.map owner).Nodup) (hn : m.next move = some (m', notes))
    {s : Strand Release.Point Release.Result} {sc : Scope (Strand Release.Point Release.Result)}
    (hb : m.posts.Perm ([(k, .release id s)] ++ rest))
    (ha : m'.posts.Perm ([(k, .release id sc.result)] ++ rest)) (hs : s.ended = false)
    (hpasses : Pool.Passes model m.pool (some id) m'.pool
      (if sc.result.ended then none else some id)) : m.Passed model owner m' := by
  have hmem : (k, Post.release id s) ∈ m.posts := hb.mem_iff.2 (List.mem_cons_self ..)
  have hopen := hy.release_open ho honce hmem hs
  obtain ⟨-, ⟨k₀, z⟩, hz, rfl, hacq⟩ := hy _ hmem id rfl
  have huses := Post.uses?_of_acquired? hacq
  -- the post of the acquisition stands among those that do not move
  have hzrest : ((owner k.1, 0), z) ∈ rest := by
    rcases List.mem_append.1 (hb.mem_iff.1 hz) with he | hz
    · obtain ⟨-, rfl⟩ := Prod.mk.inj (List.mem_singleton.1 he)
      cases hacq
    · exact hz
  obtain ⟨left, right, rfl⟩ := List.append_of_mem hzrest
  have hmiddle : ∀ x : Key × Post, ([x] ++ (left ++ ((owner k.1, 0), z) :: right)).Perm
      (x :: ((owner k.1, 0), z) :: (left ++ right)) := fun x => List.perm_middle.cons x
  have hsplit : ∀ {m₀ : Machine} {s₀ : Strand Release.Point Release.Result},
      m₀.posts.Perm ([(k, .release id s₀)] ++ (left ++ ((owner k.1, 0), z) :: right)) →
      (m₀.users owner).Perm ((if m₀.gaveBack owner (owner k.1) then none else some id).toList
        ++ (left ++ right).filterMap (m₀.uses? owner)) := by
    intro m₀ s₀ hm
    refine ((hm.trans (hmiddle _)).filterMap (m₀.uses? owner)).trans (List.Perm.of_eq ?_)
    have hrelease : m₀.uses? owner (k, .release id s₀) = none := ite_self none
    have hacquired : m₀.uses? owner ((owner k.1, 0), z)
        = if m₀.gaveBack owner (owner k.1) then none else some id := by
      simp only [uses?, huses]
    rw [List.filterMap_cons, hrelease, List.filterMap_cons, hacquired]
    cases m₀.gaveBack owner (owner k.1) <;> rfl
  -- all others have given back what they had given back before
  have hothers : ∀ x ∈ left ++ right, m'.uses? owner x = m.uses? owner x := by
    intro x hx
    have hnodup := ((hb.trans (hmiddle _)).map (·.1)).nodup_iff.1 (posts_nodup ho)
    have hmem : x ∈ m.posts := (hb.trans (hmiddle _)).mem_iff.2
      (List.mem_cons_of_mem _ (List.mem_cons_of_mem _ hx))
    have hne : x.1.1 ≠ owner k.1 := by
      intro he
      obtain ⟨hkey, -⟩ := eq_of_alone (y := x.2) ho hz (Post.alone_of_acquired? hacq) hmem he
      exact (List.nodup_cons.1 (List.nodup_cons.1 hnodup).2).1 (List.mem_map.2 ⟨x, hx, hkey⟩)
    have hsame : m'.gaveBack owner x.1.1 = m.gaveBack owner x.1.1 := by
      cases hg : m.gaveBack owner x.1.1 with
      | true => exact gaveBack_next ho hn hg
      | false =>
        refine gaveBack_of_rest hb ha (fun y hy => ?_) hg
        rw [List.mem_singleton.1 hy]
        simp [Ne.symm hne]
    simp only [uses?, hsame]
  have hgave : m'.gaveBack owner (owner k.1) = sc.result.ended := by
    cases he : sc.result.ended with
    | true =>
      refine List.any_eq_true.2 ⟨_, ha.mem_iff.2 (List.mem_cons_self ..), ?_⟩
      simp only [Bool.and_eq_true, beq_self_eq_true, and_true]
      exact he
    | false =>
      refine gaveBack_of_rest hb ha (fun y hy => ?_) hopen
      rw [List.mem_singleton.1 hy]
      simp [Post.returned, he]
  have hbefore := hsplit hb
  have hbehind := hsplit ha
  rw [hopen] at hbefore
  rw [hgave, List.filterMap_congr hothers] at hbehind
  exact ⟨_, _, _, hbefore, hbehind, hpasses⟩

/-- **In every move at most one user of a sandbox takes a turn.** -/
theorem Reaches.passed (hp : Pool.create config seed = .ok pool)
    (hr : (ofPool pool now).Reaches h m) (hf : h.Fresh) (hd : h.Disciplined owner)
    (hn : m.next move = some (m', notes)) : m.Passed config.parallelism owner m' := by
  have ho := hr.ordered_ofPool
  have hy := hr.matched hd
  have hopen := hy.mover_open ho hn
  have hdistinct := (hr.books hp hf).named.distinct
  rw [← (hr.capped hp).config_eq]
  have hwaking : m.pool.config.parallelism = .multi → ∀ id, m.pool.claim? id = some .waking →
      ∃ r ∈ m.pool.records, r.id = id ∧ r.state = .dormant := by
    rw [(hr.capped hp).config_eq]
    exact fun hmulti => (hr.woken hp hmulti hf).claim
  have hfits : ∀ {k : Key} {x : Post}, (k, x) ∈ m.posts → x.Fits m.pool.config.parallelism := by
    intro k x hx
    rw [hr.config_eq]
    exact hr.fits hx
  obtain ⟨-, before, e, after, rest, hb, ha, hs⟩ := next_posts ho hn
  have hkeyed : ∀ {n : Nat} {l : List (Nat × Post)}, ∀ y ∈ Activity.keyed n l, y.1.1 = n := by
    intro n l y hy
    obtain ⟨y₀, -, rfl⟩ := List.mem_map.1 hy
    rfl
  have hquiet : m'.pool = m.pool → Pool.Passes m.pool.config.parallelism m.pool none m'.pool none := by
    intro hpool
    rw [hpool]
    exact (Pool.Level.refl _).passes none
  -- the turn of a post that is no release
  have hcalm : ∀ {n place : Nat} {x : Post} {sig : Option Signal} {e : List Effect}
      {after' : List (Nat × Post)}, (m.mover move).1 = n → (∀ z ∈ before, z.1.1 = n) →
      before.filterMap (·.2.uses?) = x.uses?.toList → after = Activity.keyed n after' →
      x.Turned m.pool.config m.context m.pool place sig m'.pool e after' →
      x.Fits m.pool.config.parallelism → x.returns? = none → (∀ y ∈ after', y.2.returns? = none) →
      m.Passed m.pool.config.parallelism owner m' := by
    rintro n place x sig e after' rfl hkey hbefore rfl ht hfits hno hnew
    obtain ⟨o', hafter, hpasses⟩ := ht.passes rfl hdistinct hwaking hfits fun id s he => by
      rw [he] at hno
      cases hno
    rw [Post.borrows?_eq hno] at hpasses
    refine passed_of_calm ho hn hb ha hopen hkey hkeyed (fun y hy => ?_) hbefore ?_ hpasses
    · obtain ⟨y₀, hy₀, rfl⟩ := List.mem_map.1 hy
      rw [Bool.eq_false_iff]
      intro hret
      obtain ⟨id, hid⟩ := Post.returns?_of_returned hret
      exact absurd hid (by simp [hnew y₀ hy₀])
    · rw [← hafter, Activity.keyed, List.filterMap_map]
      exact List.filterMap_congr fun y hy => (Post.borrows?_eq (hnew y hy)).symm
  have hturn : ∀ {n place : Nat} {x : Post} {sig : Option Signal} {e : List Effect}
      {after' : List (Nat × Post)}, m.mover move = (n, place) → before = [((n, place), x)] →
      after = Activity.keyed n after' →
      x.Turned m.pool.config m.context m.pool place sig m'.pool e after' →
      m.Passed m.pool.config.parallelism owner m' := by
    rintro n place x sig e after' hk rfl hafter ht
    have hx : ((n, place), x) ∈ m.posts := hb.mem_iff.2 (List.mem_cons_self ..)
    rcases ht.release_or with ⟨id, s, sc, rfl, hst, hpool, rfl⟩ | ⟨hno, hnew⟩
    · subst hafter
      have hpasses := Release.passes_strand hdistinct hwaking (hfits hx) (hr.plain hx) hst
      rw [← hpool] at hpasses
      exact passed_of_release ho hy hd.once hn hb ha (by cases hst <;> rfl) hpasses
    · refine hcalm (congrArg Prod.fst hk) (fun z hz => ?_) ?_ hafter ht (hfits hx) hno hnew
      · rw [List.mem_singleton.1 hz]
      · cases huses : x.uses? <;> simp [huses]
  generalize hpool : m'.pool = p' at hs hturn hcalm
  have hnone : before = [] → after = [] → p' = m.pool →
      m.Passed m.pool.config.parallelism owner m' := by
    rintro rfl rfl rfl
    exact passed_of_calm ho hn hb ha hopen (fun x hx => by cases hx)
      (fun y hy => by cases hy) (fun y hy => by cases hy) (by rfl) (by rfl) (hquiet hpool)
  cases hs with
  | abort | advance | vary => exact hnone rfl rfl rfl
  | order o =>
    refine passed_of_calm ho hn hb ha hopen (fun x hx => by cases hx) hkeyed
      (fun y hy => ?_) (by rfl) ?_ (hquiet hpool)
    · obtain ⟨y₀, hy₀, rfl⟩ := List.mem_map.1 hy
      cases o <;> (obtain rfl := List.mem_singleton.1 hy₀; rfl)
    · cases o <;> rfl
  | step ht => exact hturn rfl rfl rfl ht
  | reply ht => exact hturn rfl rfl rfl ht
  | fire ht =>
    rcases ht.release_or with ⟨id, s, sc, he, -⟩ | ⟨hno, hnew⟩
    · cases he
    · exact hcalm rfl (fun z hz => by cases hz) rfl rfl ht trivial hno hnew

/-- **All sandboxes in use are known**, if callers give back only what they have acquired, and no
acquisition twice. -/
theorem Reaches.users_accounted (hp : Pool.create config seed = .ok pool)
    (hr : (ofPool pool now).Reaches h m) (hf : h.Fresh) (hd : h.Disciplined owner) :
    Pool.Accounted config.parallelism m.pool (m.users owner) := by
  induction hr with
  | start =>
    obtain ⟨-, rfl⟩ := create_eq_ok_iff.1 hp
    cases config.parallelism with
    | multi => exact fun r hrec => by cases hrec
    | single => exact fun r hrec => by cases hrec
  | next hr hn ih =>
    have hfresh := History.fresh_of_append hf
    obtain ⟨o, o', rest, hbefore, hbehind, hpasses⟩ := hr.passed hp hfresh hd.of_append hn
    exact (((ih hfresh hd.of_append).perm hbefore).turn (fun _ => hr.doomed_next hp hfresh hn)
      hpasses).perm hbehind.symm

end Machine

end SandboxPool
