import SandboxPool.Proofs.Machine.Acquisitions

/-!
# The replacement of a sandbox that did not wake

An acquisition that has claimed a paused sandbox, and could not wake it, terminates the sandbox
before it starts a new one in its place. But a termination that finds another one under way leaves
the rest to that one and does not wait for it. So a container may be asked for while the calls to
stop and to remove the old one have not returned: exactly as long as somebody else is still
terminating the old sandbox.
-/

namespace SandboxPool

variable {config : Config} {seed : BitVec 128} {pool : Pool} {now : Instant} {h : History}
  {m m' : Machine} {move : Move} {notes : List Note} {k : Key} {id : String}

namespace Machine

/-! ## The path of an acquisition -/

/-- The pool knows the sandboxes that acquisitions wake. -/
theorem Reaches.backed (hp : Pool.create config seed = .ok pool)
    (hmulti : config.parallelism = .multi) (hr : (ofPool pool now).Reaches h m) (hf : h.Fresh)
    {x : Post} {a : Acquire.Point} (hx : (k, x) ∈ m.posts) (ha : x.acquiring? = some a) :
    Acquire.Backed m.pool a := by
  have hb := hr.books hp hf
  have hw := hr.woken hp hmulti hf
  have hd := hb.named.distinct
  have hthings : ∀ t ∈ x.hand, t ∈ m.things :=
    fun t ht => List.mem_map.2 ⟨(k, t), mem_hands.2 ⟨x, hx, ht⟩, rfl⟩
  obtain ⟨out, hhand⟩ := hand_of_acquiring? ha
  refine ⟨fun id hc => ?_, fun id error t he hnot => ?_⟩
  · obtain ⟨r, hrec, rfl, hs⟩ := hw.claim id hc
    exact ⟨r, hd.find?_of_mem hrec, hs⟩
  · subst he
    have hending : ∀ port stage, Hand.ending id port stage ∈ x.hand →
        ∃ r, m.pool.find? id = some r := by
      intro port stage hmem
      obtain ⟨r, hrec, rfl, -⟩ := hb.claimed.record _ (Claimed.mem_ending (hthings _ hmem))
      exact ⟨r, hd.find?_of_mem hrec⟩
    cases t with
    | claim =>
      have hmem : Hand.waking id ∈ x.hand := by
        rw [hhand]
        exact List.mem_singleton_self _
      obtain ⟨r, hrec, rfl⟩ := hw.waking id (hthings _ hmem)
      exact ⟨r, hd.find?_of_mem hrec⟩
    | expire g => exact absurd rfl (hnot g)
    | stop port => exact hending port .stop (by rw [hhand]; exact List.mem_singleton_self _)
    | remove port => exact hending port .remove (by rw [hhand]; exact List.mem_singleton_self _)
    | settle port => exact hending port .settle (by rw [hhand]; exact List.mem_singleton_self _)

/-- Every acquisition is on the path of the sandbox that it has claimed. -/
def OnPath (h : History) (m : Machine) : Prop :=
  ∀ k x a id, (k, x) ∈ m.posts → x.acquiring? = some a → h.wakes k = some id →
    Acquire.Path id m.pool a

theorem path_start (id : String) (p : Pool) : Acquire.Path id p (Acquire.start config) := by
  unfold Acquire.start
  split <;> trivial

/-- The posts that do not move keep to their paths. -/
theorem path_rest (ho : m.Ordered) (hpath : OnPath h m)
    (hdoom : ∀ id, m.pool.Doomed id → m'.pool.Doomed id) {before rest : List (Key × Post)}
    (hb : m.posts.Perm (before ++ rest))
    (hmover : (m.mover move).1 = m.started ∨ ∃ x, before = [(m.mover move, x)]) {x : Post}
    {a : Acquire.Point} (hx : (k, x) ∈ rest) (ha : x.acquiring? = some a)
    (hw : (h ++ [(m, move)]).wakes k = some id) : Acquire.Path id m'.pool a := by
  have hm : (k, x) ∈ m.posts := hb.mem_iff.2 (List.mem_append_right _ hx)
  have hne : m.mover move ≠ k := by
    rintro rfl
    rcases hmover with hnew | ⟨z, rfl⟩
    · have hlt := key_lt ho hm
      omega
    · have hnodup := (hb.map (·.1)).nodup_iff.1 (posts_nodup ho)
      exact (List.nodup_cons.1 hnodup).1 (List.mem_map.2 ⟨_, hx, rfl⟩)
  rw [History.wakes_append, if_neg hne] at hw
  exact (hpath k x a id hm ha hw).mono (hdoom id)

/-- A post that moves keeps to its path. -/
theorem path_mover (ho : m.Ordered) (hpath : OnPath h m)
    (hdoom : ∀ id, m.pool.Doomed id → m'.pool.Doomed id)
    (hback : ∀ x a, (k, x) ∈ m.posts → x.acquiring? = some a → Acquire.Backed m.pool a)
    (hk : m.mover move = k) {x : Post} (hx : (k, x) ∈ m.posts) {place : Nat} {sig : Option Signal}
    {e : List Effect} {after : List (Nat × Post)}
    (ht : x.Turned m.pool.config m.context m.pool place sig m'.pool e after) {y : Nat × Post}
    (hy : y ∈ after) {a' : Acquire.Point} (ha : y.2.acquiring? = some a')
    (hw : (h ++ [(m, move)]).wakes k = some id) : Acquire.Path id m'.pool a' := by
  obtain ⟨-, out, rfl | ⟨block, a, s, hxa, hturn, hpool, hland⟩⟩ := ht.follows hy ha
  · exact path_start id m'.pool
  · rw [History.wakes_append, if_pos hk, acquiring?_eq ho hx, hxa] at hw
    rw [hpool] at hdoom ⊢
    exact Acquire.path_next (hback x a hx hxa) hdoom hturn hland
      (fun id' hold => hpath k x a id' hx hxa hold) id hw

theorem Reaches.onPath (hp : Pool.create config seed = .ok pool)
    (hmulti : config.parallelism = .multi) (hr : (ofPool pool now).Reaches h m) (hf : h.Fresh) :
    OnPath h m := by
  induction hr with
  | start =>
    intro k x a id hx
    rw [posts_ofPool] at hx
    cases hx
  | @next h m m' move notes hr hn ih =>
    have hfresh := History.fresh_of_append hf
    have hpath := ih hfresh
    have ho := hr.ordered_ofPool
    have hdoom : ∀ id, m.pool.Doomed id → m'.pool.Doomed id :=
      fun id => hr.doomed_next hp hfresh hn
    have hback : ∀ {k x a}, (k, x) ∈ m.posts → x.acquiring? = some a → Acquire.Backed m.pool a :=
      fun hx ha => hr.backed hp hmulti hfresh hx ha
    obtain ⟨-, before, e, after, rest, hb, ha, hs⟩ := next_posts ho hn
    intro k y a' id hy hya hw
    rcases List.mem_append.1 (ha.mem_iff.1 hy) with hy | hy
    · have hturned : ∀ {n place : Nat} {x : Post} {sig : Option Signal} {e : List Effect}
          {after' : List (Nat × Post)}, m.mover move = (n, place) → before = [((n, place), x)] →
          (k, y) ∈ Activity.keyed n after' →
          x.Turned m.pool.config m.context m.pool place sig m'.pool e after' →
          Acquire.Path id m'.pool a' := by
        rintro n place x sig e after' hk rfl hkey ht
        obtain ⟨y₀, hy₀, heq⟩ := List.mem_map.1 hkey
        obtain ⟨rfl, rfl⟩ := Prod.mk.inj heq
        obtain ⟨hplace, -⟩ := ht.follows hy₀ hya
        rw [hplace] at hw
        have hx : ((n, place), x) ∈ m.posts :=
          hb.mem_iff.2 (List.mem_append_left _ (List.mem_singleton_self _))
        exact path_mover ho hpath hdoom (fun x a => hback) hk hx ht hy₀ hya hw
      generalize m'.pool = p' at hs hturned ⊢
      cases hs with
      | abort | advance | vary => cases hy
      | order o =>
        obtain ⟨y₀, hy₀, heq⟩ := List.mem_map.1 hy
        obtain ⟨rfl, rfl⟩ := Prod.mk.inj heq
        rw [acquiring?_ofOrder hy₀ hya]
        exact path_start id _
      | fire ht =>
        obtain ⟨y₀, hy₀, heq⟩ := List.mem_map.1 hy
        obtain ⟨rfl, rfl⟩ := Prod.mk.inj heq
        obtain ⟨-, out, rfl | ⟨block, a, s, hx, -⟩⟩ := ht.follows hy₀ hya
        · exact path_start id _
        · cases hx
      | step ht => exact hturned rfl rfl hy ht
      | reply ht => exact hturned rfl rfl hy ht
    · exact path_rest ho hpath hdoom hb hs.mover hy hya hw

/-- **When a sandbox that did not wake is replaced.** Where every block has a sandbox of its own, in
every interleaving of operations on a new pool and whatever the daemon answers as long as it gives
out no identity twice: an acquisition that has claimed a paused sandbox and is now to create another
container has the old sandbox stopped, removed and off its port exactly if nobody else is still
terminating it. -/
theorem replaced_cleanedUp_iff {config : Config} {seed : BitVec 128} {pool : Pool} {now : Instant}
    {h : History} {m : Machine} {k : Key} {spec : ContainerSpec} {port : UInt16} {id : String}
    (hp : Pool.create config seed = .ok pool) (hmulti : config.parallelism = .multi)
    (hr : (ofPool pool now).Reaches h m) (hf : h.Fresh) (hw : h.wakes k = some id)
    (ha : m.acquiring? k = some (.cold (.create spec port))) :
    h.CleanedUp m id ↔ ∀ t ∈ m.hands, ∀ port stage, t.2 ≠ .ending id port stage := by
  obtain ⟨x, hx, hxa⟩ := mem_of_acquiring? ha
  have hdoomed : m.pool.Doomed id := hr.onPath hp hmulti hf k x _ id hx hxa hw
  exact hr.cleanedUp_iff hp hf hdoomed

/-- A caller terminates a sandbox while it is woken in vain. The acquisition leaves it to the caller
and is about to create a container in its place, when the old one has not even been stopped. -/
theorem replaced_before_cleanup :
    let config : Config := { image := "img", maxSandboxes := 2 }
    ∃ pool h m spec, Pool.create config 0 = .ok pool ∧ config.parallelism = .multi ∧
      (ofPool pool 0).Reaches h m ∧ h.Fresh ∧ h.wakes (2, 0) = some "c1" ∧
      m.acquiring? (2, 0) = some (.cold (.create spec 40001)) ∧
      ((3, 0), .ending "c1" 40000 .stop) ∈ m.hands ∧ ¬ h.CleanedUp m "c1" := by
  intro config
  let moves : List Move := [.order (.acquire "a"), .step 0 0, .step 0 0, .step 0 0,
    .reply 0 0 (.created (.ok "c1")), .step 0 0, .step 0 0, .reply 0 0 (.acted (.ok ())), .step 0 0,
    .reply 0 0 (.acted (.ok ())), .step 0 0,
    .order (.release "c1"), .step 1 0, .step 1 0, .reply 1 0 (.acted (.ok ())), .step 1 0,
    .order (.acquire "b"), .step 2 0, .step 2 0,
    .order (.terminate "c1"), .step 3 0, .step 3 0,
    .reply 2 0 (.acted (.error (.api 500 "no"))), .step 2 0, .step 2 0, .step 2 0, .step 2 0]
  have hp : Pool.create config 0 = .ok (.ofConfig config 0) :=
    create_eq_ok_iff.2 ⟨by decide +kernel, rfl⟩
  let spec : ContainerSpec := (Pool.ofConfig config 0).spec .service ⟨1⟩ 40001
  have hrun : ((ofPool (.ofConfig config 0) 0).trace moves).any (fun x =>
      x.1.Fresh ∧ x.1.wakes (2, 0) = some "c1" ∧
        x.2.acquiring? (2, 0) = some (.cold (.create spec 40001)) ∧
        ((3, 0), .ending "c1" 40000 .stop) ∈ x.2.hands) = true := by decide +kernel
  obtain ⟨x, ht, hx⟩ := (Option.any_eq_true _ _).1 hrun
  obtain ⟨hf, hw, ha, hends⟩ := of_decide_eq_true hx
  have hr := reaches_of_trace ht
  refine ⟨_, x.1, x.2, spec, hp, rfl, hr, hf, hw, ha, hends, fun hclean => ?_⟩
  exact (replaced_cleanedUp_iff hp rfl hr hf hw ha).1 hclean _ hends 40000 .stop rfl

end Machine

end SandboxPool
