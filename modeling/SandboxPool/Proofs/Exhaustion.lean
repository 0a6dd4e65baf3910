import SandboxPool.Proofs.Execution.Strides
import SandboxPool.Proofs.Machine.Vacancies
import SandboxPool.Proofs.ReportAccounts

/-!
# Nobody is refused without need

An acquisition says that no sandbox is available only where that is so. Where every block has a sandbox
of its own, each place under the cap is then taken for another acquisition that is outstanding; so the
blocks of a lane do not get into each other's way unless there are more of them than places
(`Machine.no_spurious_exhaustion`). Where blocks share a sandbox, somebody has called a termination or a
teardown.

An execution has not more acquisitions outstanding than its lane has blocks
(`Machine.Reaches.engaged_le`).
-/

namespace SandboxPool

/-! ## The lane that an execution runs -/

namespace Execution

/-- How far an execution has come that runs the blocks of a lane. -/
def Point.progress? : Point → Option Progress
  | .solo s .. | .dispatch s .. | .gather s .. => some s
  | _ => none

/-- The lane that an execution runs. -/
def lane? (plan : Plan) (t : Run) : Option Lane :=
  (t.leader.point?.bind (·.progress?)).bind fun s => plan.lanes[s.index]?

theorem lane?_of_point? {plan : Plan} {t : Run} {point : Point} {s : Progress}
    (hp : t.leader.point? = some point) (hs : point.progress? = some s) :
    lane? plan t = plan.lanes[s.index]? := by
  unfold lane?
  rw [hp, Option.bind_some, hs, Option.bind_some]

/-- The leader of a group runs no block, and its members run one each. -/
theorem length_engaged_le {plan : Plan} {t : Run} {point : Point} {sent : List String}
    (hp : t.leader.point? = some point) (hidle : point.block? = none) (hruns : Runs sent t) :
    ((Activity.execute plan t).posts.filter (·.2.engaged)).length ≤ sent.length := by
  have hlength := hruns.tasks.length_eq
  have hleader : (Post.execute plan t.leader).engaged = false := by
    show Option.any _ (t.leader.point?.bind (·.block?)) = false
    rw [hp, Option.bind_some, hidle]
    rfl
  show (List.filter _ ((0, Post.execute plan t.leader) :: Team.stand _ t.active)).length ≤ _
  rw [List.filter_cons, hleader]
  refine Nat.le_trans (List.length_filter_le _ _) ?_
  simp only [Team.tasks, List.length_append, List.length_map, Team.stand] at hlength ⊢
  omega

end Execution

namespace Machine

variable {config : Config} {seed : BitVec 128} {pool : Pool} {now : Instant} {h : History}
  {m m' : Machine} {move : Move} {notes : List Note} {owner : Nat → Nat} {n : Nat} {k : Key} {x : Post}
  {plan : Plan} {t : Execution.Run}

/-- An execution that has begun has a plan that fits the pool. -/
theorem Reaches.checked (hr : (ofPool pool now).Reaches h m)
    (ha : m.activity? n = some (.execute plan t)) {point : Execution.Point}
    (hp : t.leader.point? = some point) (hb : point ≠ .begin) :
    Execution.check plan pool.config = .ok () :=
  hr.withstands.checked ha hp hb

/-- An execution that has begun keeps its accounts. -/
theorem Reaches.accounts_at (hr : (ofPool pool now).Reaches h m)
    (ha : m.activity? n = some (.execute plan t)) {point : Execution.Point}
    (hp : t.leader.point? = some point) (hb : point ≠ .begin) : point.Accounts plan (h.log n) t :=
  Strand.Keeps.of_point? (hr.withstands.accounts (hr.checked ha hp hb) ha) hp

/-- **An execution has not more acquisitions outstanding than its lane has blocks**, unless it tears the
pool down. -/
theorem Reaches.engaged_le (hr : (ofPool pool now).Reaches h m)
    (ha : m.activity? n = some (.execute plan t)) (he : (Post.execute plan t.leader).ends = false)
    {y : Nat × Post} (hy : y ∈ (Activity.execute plan t).posts) (hengaged : y.2.engaged = true) :
    ∃ lane, Execution.lane? plan t = some lane ∧
      ((Activity.execute plan t).posts.filter (·.2.engaged)).length ≤ lane.blocks.length := by
  rcases hr.gathered ha with hnone | ⟨point, hl, hwaits⟩
  · have hposts : (Activity.execute plan t).posts = [(0, .execute plan t.leader)] := by
      show (0, Post.execute plan t.leader) :: Team.stand _ t.active = _
      rw [hnone]
      rfl
    rw [hposts] at hy ⊢
    obtain rfl := List.mem_singleton.1 hy
    obtain ⟨b, hb, -⟩ := (Option.any_eq_true ..).1 hengaged
    obtain ⟨point, hp, hb⟩ := Option.bind_eq_some_iff.1 hb
    cases point with
    | solo progress block b =>
      obtain ⟨-, -, -, hlane, -⟩ := hr.accounts_at ha hp (by simp)
      refine ⟨.block block, ?_, List.length_filter_le _ _⟩
      rw [Execution.lane?_of_point? hp rfl, hlane]
    | _ => cases hb
  · have hp : t.leader.point? = some point := by rw [hl]; rfl
    cases point with
    | dispatch progress sent waiting =>
      obtain ⟨-, -, hruns, lane, hlane, hblocks⟩ := hr.accounts_at ha hp (by simp)
      refine ⟨lane, (Execution.lane?_of_point? hp rfl).trans hlane,
        Nat.le_trans (Execution.length_engaged_le hp rfl hruns) ?_⟩
      rw [hblocks, List.length_append]
      exact Nat.le_add_right _ _
    | gather progress sent interrupted =>
      obtain ⟨-, -, hruns, lane, hlane, hpart⟩ := hr.accounts_at ha hp (by simp)
      exact ⟨lane, (Execution.lane?_of_point? hp rfl).trans hlane,
        Nat.le_trans (Execution.length_engaged_le hp rfl hruns) hpart.isPrefix.length_le⟩
    | cleared progress index =>
      have hends : t.leader.point?.any (·.ends) = false := he
      rw [hp] at hends
      cases hends
    | _ => cases hwaits

/-- Where all outstanding acquisitions are those of an execution, they are not more than its lane has
blocks. -/
theorem Reaches.outstanding_le (hr : (ofPool pool now).Reaches h m) (hu : m.Unhindered)
    (ha : m.activity? n = some (.execute plan t)) (hown : ∀ j ∈ m.outstanding owner, j.1 = n)
    (hk : k ∈ m.outstanding owner) :
    ∃ lane, Execution.lane? plan t = some lane ∧
      (m.outstanding owner).length ≤ lane.blocks.length := by
  have ho := hr.ordered_ofPool
  have hmem := activity?_mem ha
  have hposts : ∀ j ∈ m.outstanding owner, ∃ x ∈ (Activity.execute plan t).posts,
      x.2.engaged = true ∧ j = (n, x.1) := by
    intro j hj
    obtain ⟨⟨k, x⟩, hx, rfl⟩ := List.mem_map.1 hj
    obtain ⟨hx, hopen⟩ := List.mem_filter.1 hx
    have hkey : k.1 = n := hown k hj
    obtain ⟨a, ha, hx⟩ := mem_posts.1 hx
    rw [hkey] at ha
    obtain rfl := activity_unique ho ha hmem
    exact ⟨_, hx, (Bool.and_eq_true_iff.1 hopen).1, Prod.ext hkey rfl⟩
  have hends : (Post.execute plan t.leader).ends = false :=
    (hu ((n, 0), .execute plan t.leader) (mem_posts.2 ⟨_, hmem, List.mem_cons_self ..⟩)).2
  obtain ⟨y, hy, hengaged, -⟩ := hposts k hk
  obtain ⟨lane, hlane, hle⟩ := hr.engaged_le ha hends hy hengaged
  refine ⟨lane, hlane, Nat.le_trans ?_ hle⟩
  have hnodup : (m.outstanding owner).Nodup :=
    (posts_nodup ho).sublist (List.Sublist.map _ List.filter_sublist)
  have hsub : m.outstanding owner ⊆
      ((Activity.execute plan t).posts.filter (·.2.engaged)).map fun x => (n, x.1) := by
    intro j hj
    obtain ⟨x, hx, hengaged, rfl⟩ := hposts j hj
    exact List.mem_map_of_mem (List.mem_filter.2 ⟨hx, hengaged⟩)
  have hlength := (hnodup.subperm hsub).length_le
  rwa [List.length_map] at hlength

/-- **No spurious exhaustion.** In every interleaving of operations on a new pool, and whatever the daemon
and the runners answer as long as no identity is given out twice: an acquisition that ends because no
sandbox is available does so in one of two ways.

Where every block has a sandbox of its own, it takes its pick. If callers release only what they have
acquired, and no acquisition twice, and neither a prewarm is under way nor a termination from outside, a
teardown or the end of a pause, then at least as many other acquisitions are outstanding as sandboxes may
live at once; and if all of them are those of the execution that the acquisition belongs to, its lane has
more blocks than that.

Where blocks share a sandbox, somebody has called a termination or a teardown. -/
theorem no_spurious_exhaustion {config : Config} {seed : BitVec 128} {pool : Pool} {now : Instant}
    {h : History} {m m' : Machine} {move : Move} {notes : List Note} {k : Key} {block : String}
    {a : Acquire.Point} {max : Nat} (hp : Pool.create config seed = .ok pool)
    (hr : (ofPool pool now).Reaches h m) (hf : h.Fresh) (hn : m.next move = some (m', notes))
    (ha : m.acquisition? k = some (block, a))
    (he : m'.upshot? k = some (.error (.noSandboxAvailable max))) :
    (config.parallelism = .multi → a = .pick ∧
      ∀ owner, h.Disciplined owner → m.Unhindered →
        config.maxSandboxes ≤ ((m.outstanding owner).filter (· ≠ k)).length ∧
          ∀ plan t, m.activity? k.1 = some (.execute plan t) →
            (∀ j ∈ m.outstanding owner, j.1 = k.1) →
            ∃ lane, Execution.lane? plan t = some lane ∧ config.maxSandboxes < lane.blocks.length) ∧
      (config.parallelism = .single → History.Terminates (h ++ [(m, move)])) := by
  have ho := hr.ordered_ofPool
  obtain ⟨x, hx, hxa⟩ := mem_of_acquisition? ha
  have hacquiring := Post.acquiring?_of_acquisition? hxa
  obtain ⟨-, hwhere⟩ := hr.refused_at hn ha he
  refine ⟨fun hmulti => ?_, fun hsingle => ?_⟩
  · obtain ⟨rfl, hspent⟩ | ⟨rfl, -⟩ := hwhere
    · refine ⟨rfl, fun owner hd hu => ?_⟩
      have hcount : config.maxSandboxes ≤ ((m.outstanding owner).filter (· ≠ k)).length := by
        have hroom := hspent.occupied
        rw [(hr.capped hp).config_eq, Config.effectiveMax, hmulti] at hroom
        have hslots := hr.occupancy_le hp hmulti hf hd hu hspent
        exact Nat.le_trans hroom (Nat.le_trans hslots
          (length_slots_le hx ho (Post.slot?_of_acquiring? hacquiring)))
      refine ⟨hcount, fun plan t hact hown => ?_⟩
      have hasker := hr.mem_outstanding hd hx hacquiring
      obtain ⟨lane, hlane, hle⟩ := hr.outstanding_le hu hact hown hasker
      refine ⟨lane, hlane, Nat.lt_of_le_of_lt hcount (Nat.lt_of_lt_of_le ?_ hle)⟩
      exact List.length_filter_lt_length_iff_exists.2 ⟨k, hasker, by simp⟩
    · have hfits := (hr.fits_multi hp hmulti hx).acquiring hacquiring
      cases hfits
  · obtain ⟨rfl, -⟩ | ⟨rfl, hroom⟩ := hwhere
    · have hfits := (hr.fits hx).acquiring hacquiring
      rw [parallelism_eq hp hsingle] at hfits
      cases hfits
    · by_contra hno
      have hempty := hr.occupancy_eq_zero hp hsingle hf hno hx hacquiring
      omega

/-- A lane has two blocks where one sandbox may live. While the first of them starts it, the second is
refused. -/
theorem no_spurious_exhaustion_lane :
    let config : Config := { image := "img", maxSandboxes := 1 }
    ∃ pool h m m' notes plan t lane, Pool.create config 0 = .ok pool ∧ (ofPool pool 0).Reaches h m ∧
      h.Fresh ∧ h.Disciplined id ∧ m.Unhindered ∧ m.next (.step 0 2) = some (m', notes) ∧
      m.acquisition? (0, 2) = some ("b", .pick) ∧
      m'.upshot? (0, 2) = some (.error (.noSandboxAvailable 1)) ∧
      m.outstanding id = [(0, 1), (0, 2)] ∧
      1 ≤ ((m.outstanding id).filter (· ≠ (0, 2))).length ∧
      m.activity? 0 = some (.execute plan t) ∧ Execution.lane? plan t = some lane ∧
      1 < lane.blocks.length := by
  intro config
  let plan : Plan := { lanes := [.group ⟨["a", "b"], none⟩] }
  let moves : List Move := [.order (.execute plan), .step 0 0, .step 0 0, .step 0 0, .step 0 0,
    .step 0 1, .step 0 1, .step 0 2]
  have hp : Pool.create config 0 = .ok (.ofConfig config 0) :=
    create_eq_ok_iff.2 ⟨by decide +kernel, rfl⟩
  have hrun : ((ofPool (.ofConfig config 0) 0).trace moves).any (fun x =>
      x.1.Fresh ∧ x.1.Disciplined id ∧ x.2.Unhindered ∧ x.2.outstanding id = [(0, 1), (0, 2)] ∧
        x.2.acquisition? (0, 2) = some ("b", .pick) ∧
        (x.2.next (.step 0 2)).any fun y =>
          y.1.upshot? (0, 2) = some (.error (.noSandboxAvailable 1))) = true := by decide +kernel
  obtain ⟨x, ht, hx⟩ := (Option.any_eq_true _ _).1 hrun
  obtain ⟨hf, hd, hu, hout, ha, hnext⟩ := of_decide_eq_true hx
  obtain ⟨⟨m', notes⟩, hn, he⟩ := (Option.any_eq_true _ _).1 hnext
  replace he := of_decide_eq_true he
  have hr := reaches_of_trace ht
  obtain ⟨⟨m₁, _⟩, hstart, hrest⟩ := Option.bind_eq_some_iff.1 ht
  obtain ⟨⟨_, _⟩, hlater, rfl⟩ := Option.map_eq_some_iff.1 hrest
  have hordered : m₁.activity? 0 = some (.execute plan Execution.start) := by
    cases hstart
    rfl
  obtain ⟨t, hexecutes⟩ := (reaches_of_trace hlater).exists_execution
    (Reaches.start.next hstart).ordered_ofPool hordered
  obtain ⟨hcount, hlane⟩ := ((no_spurious_exhaustion hp hr hf hn ha he).1 rfl).2 id hd hu
  obtain ⟨lane, hlane, hlt⟩ := hlane plan t hexecutes (by rw [hout]; simp)
  exact ⟨_, _, _, m', notes, plan, t, lane, hp, hr, hf, hd, hu, hn, ha, he, hout, hcount, hexecutes,
    hlane, hlt⟩

/-- That callers release only what they have acquired cannot be left out. While an execution pauses the
sandbox of its block, somebody else releases it, too. The execution ends with the sandbox paused; the other
pause fails, so that this release terminates the sandbox. An acquisition is refused then, and nobody else
has one outstanding. -/
theorem spurious_exhaustion :
    let config : Config := { image := "img", maxSandboxes := 1 }
    ∃ pool h m m' notes, Pool.create config 0 = .ok pool ∧ (ofPool pool 0).Reaches h m ∧ h.Fresh ∧
      m.Unhindered ∧ m.next (.step 2 0) = some (m', notes) ∧
      m.acquisition? (2, 0) = some ("b", .pick) ∧
      m'.upshot? (2, 0) = some (.error (.noSandboxAvailable 1)) ∧
      ∀ owner, ((m.outstanding owner).filter (· ≠ (2, 0))).length < config.maxSandboxes := by
  intro config
  let moves : List Move := [.order (.execute { lanes := [.block "a"] }), .step 0 0, .step 0 0, .step 0 0,
    .step 0 0, .step 0 0, .step 0 0, .reply 0 0 (.created (.ok "c1")), .step 0 0, .step 0 0,
    .reply 0 0 (.acted (.ok ())), .step 0 0, .reply 0 0 (.acted (.ok ())), .step 0 0, .step 0 0,
    .reply 0 0 (.ran default), .step 0 0, .step 0 0, .step 0 0,
    .order (.release "c1"), .step 1 0, .step 1 0,
    .reply 0 0 (.acted (.ok ())), .step 0 0, .step 0 0, .step 0 0, .step 0 0,
    .reply 1 0 (.acted (.error (.api 500 "no"))), .step 1 0, .step 1 0,
    .order (.acquire "b")]
  have hp : Pool.create config 0 = .ok (.ofConfig config 0) :=
    create_eq_ok_iff.2 ⟨by decide +kernel, rfl⟩
  have hrun : ((ofPool (.ofConfig config 0) 0).trace moves).any (fun x =>
      x.1.Fresh ∧ x.2.Unhindered ∧ (x.2.posts.filter (·.2.engaged)).map (·.1) = [(2, 0)] ∧
        x.2.acquisition? (2, 0) = some ("b", .pick) ∧
        (x.2.next (.step 2 0)).any fun y =>
          y.1.upshot? (2, 0) = some (.error (.noSandboxAvailable 1))) = true := by decide +kernel
  obtain ⟨x, ht, hx⟩ := (Option.any_eq_true _ _).1 hrun
  obtain ⟨hf, hu, hengaged, ha, hnext⟩ := of_decide_eq_true hx
  obtain ⟨⟨m', notes⟩, hn, he⟩ := (Option.any_eq_true _ _).1 hnext
  replace he := of_decide_eq_true he
  refine ⟨_, x.1, x.2, m', notes, hp, reaches_of_trace ht, hf, hu, hn, ha, he, fun owner => ?_⟩
  have hnone : (x.2.outstanding owner).filter (· ≠ (2, 0)) = [] := by
    refine List.filter_eq_nil_iff.2 fun j hj => ?_
    obtain ⟨y, hy, rfl⟩ := List.mem_map.1 hj
    obtain ⟨hy, hopen⟩ := List.mem_filter.1 hy
    have hkey : y.1 ∈ (x.2.posts.filter (·.2.engaged)).map (·.1) :=
      List.mem_map_of_mem (List.mem_filter.2 ⟨hy, (Bool.and_eq_true_iff.1 hopen).1⟩)
    rw [hengaged] at hkey
    simpa using hkey
  rw [hnone]
  exact Nat.one_pos

end Machine

end SandboxPool
