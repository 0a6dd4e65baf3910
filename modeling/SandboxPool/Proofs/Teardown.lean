import SandboxPool.Proofs.Machine.Course
import SandboxPool.Proofs.Machine.Endings

/-!
# What a teardown leaves behind

A teardown, which a caller orders or an aborted execution makes, notes which sandboxes are live and
has a member terminate each of them. It goes on when all members have ended. But a member that finds
another termination under way leaves the sandbox to that one and does not wait for it. So behind a
teardown every sandbox that it noted is terminated or claimed for that, and it is stopped, removed
and off its port exactly if no other operation is still terminating it.

* `History.collected` has the sandboxes that the teardown of an operation has noted.
* Each of them is doomed, or a member is terminating it while the operation waits
  (`Machine.Reaches.doomed_or_terminating`).
-/

namespace SandboxPool

variable {config : Config} {c : Context} {p : Pool} {place : Nat} {sig : Option Signal}
  {id : String}

/-! ## The members of a teardown -/

/-- A member of a teardown terminates a sandbox. -/
def Teardown.Terminates (id task : String) (t : Termination.Point) : Prop :=
  task = id ∧ ∀ g, t ≠ .expire g

/-- A member of an execution terminates a sandbox. -/
def Execution.Terminates (id : String) (_ : String) (d : Duty) : Prop :=
  ∃ t, d = .terminate id t ∧ ∀ g, t ≠ .expire g

theorem Teardown.goes_or (hf : ∃ r, p.find? id = some r) {task : String} {t : Termination.Point}
    {out : Bool} {s : Scope (Option (Next Termination.Point Termination.Result))}
    (ht : Terminates id task t) (h : (conduct.member task t).Turn c p out sig s) :
    (∃ t', (Strand.land t s.result).point? = some t' ∧ Terminates id task t') ∨
      s.pool.Doomed id := by
  obtain ⟨rfl, hnot⟩ := ht
  obtain ⟨r, hf⟩ := hf
  rcases Termination.goes_or hf hnot h with ⟨t', ht', hnot'⟩ | ⟨-, hdoomed⟩
  · exact .inl ⟨t', ht', rfl, hnot'⟩
  · exact .inr hdoomed

theorem Execution.goes_or (hf : ∃ r, p.find? id = some r) {plan : Plan} {task : String} {d : Duty}
    {out : Bool} {s : Scope (Option (Next Duty Yield))} (hd : Terminates id task d)
    (h : ((conduct config plan).member task d).Turn c p out sig s) :
    (∃ d', (Strand.land d s.result).point? = some d' ∧ Terminates id task d') ∨
      s.pool.Doomed id := by
  obtain ⟨t, rfl, hnot⟩ := hd
  obtain ⟨r, hf⟩ := hf
  obtain ⟨s₀, h₀, rfl⟩ := Demand.turn_map h
  rcases Termination.goes_or hf hnot h₀ with ⟨t', ht', hnot'⟩ | ⟨-, hdoomed⟩
  · exact .inl ⟨.terminate id t', Strand.point?_land_into ht', t', rfl, hnot'⟩
  · exact .inr hdoomed

/-! ## Operations that tear down -/

namespace Activity

variable {a : Activity}

/-- The operation is to note which sandboxes are live, for a teardown. -/
def collecting : Activity → Bool
  | teardown t =>
    match t.leader with
    | .ready .collect => true
    | _ => false
  | execute _ t =>
    match t.leader with
    | .ready (.teardown ..) => true
    | _ => false
  | _ => false

/-- The teardown of the operation is over. -/
def tornDown : Activity → Bool
  | teardown t => t.leader.ended
  | execute _ t =>
    match t.leader with
    | .ready (.finish _ (.aborted _)) => true
    | .done (.ok f) =>
      match f.status with
      | .aborted _ => true
      | _ => false
    | _ => false
  | _ => false

/-- The operation waits, and a member terminates the sandbox. -/
def Terminating (id : String) : Activity → Prop
  | teardown t => t.leader = .ready .gather ∧ t.Busy (Teardown.Terminates id)
  | execute _ t =>
    (∃ s index, t.leader = .ready (.cleared s index)) ∧ t.Busy (Execution.Terminates id)
  | _ => False

theorem Terminating.not_tornDown (h : a.Terminating id) : a.tornDown = false := by
  cases a with
  | teardown t =>
    obtain ⟨hl, -⟩ := h
    simp only [tornDown, hl, Strand.ended]
  | execute plan t =>
    obtain ⟨⟨s, index, hl⟩, -⟩ := h
    simp only [tornDown, hl]
  | _ => cases h

/-- An operation that waits for a termination still does, or the sandbox is doomed. -/
theorem Turn.terminating_or (ho : a.Ordered) {s : Scope Activity}
    (ht : a.Turn config c p place sig s) (hf : ∃ r, p.find? id = some r) (h : a.Terminating id) :
    s.result.Terminating id ∨ s.pool.Doomed id := by
  cases ht with
  | teardown ht =>
    obtain ⟨hl, hbusy⟩ := h
    have hl' := ht.leader_of_busy hbusy hl rfl
    rcases ht.busy_or ho hbusy (Q := (·.Doomed id)) (Teardown.goes_or hf) with hbusy' | hdoomed
    · exact .inl ⟨hl', hbusy'⟩
    · exact .inr hdoomed
  | execute ht =>
    obtain ⟨⟨progress, index, hl⟩, hbusy⟩ := h
    have hl' := ht.leader_of_busy hbusy hl rfl
    rcases ht.busy_or ho hbusy (Q := (·.Doomed id)) (Execution.goes_or hf) with hbusy' | hdoomed
    · exact .inl ⟨⟨progress, index, hl'⟩, hbusy'⟩
    · exact .inr hdoomed
  | _ => cases h

/-- An operation that notes the live sandboxes has each of them terminated. -/
theorem Turn.collects {s : Scope Activity} (ht : a.Turn config c p 0 sig s)
    (h : a.collecting = true) (hid : id ∈ p.liveRecords.map (·.id)) : s.result.Terminating id := by
  obtain ⟨r, hr, rfl⟩ := List.mem_map.1 hid
  cases ht with
  | @teardown t sig s ht =>
    simp only [collecting] at h
    split at h
    · next hl =>
      obtain ⟨-, hl', hbusy⟩ := ht.of_hire hl rfl
      cases hlive : p.liveRecords with
      | nil =>
        rw [hlive] at hr
        cases hr
      | cons first rest =>
        simp only [Teardown.collect, hlive] at hl' hbusy
        rw [hlive] at hr
        exact ⟨hl', hbusy _ ⟨_, List.mem_map_of_mem hr, rfl, by simp⟩⟩
    · cases h
  | @execute plan t sig s ht =>
    simp only [collecting] at h
    split at h
    · next progress index hl =>
      obtain ⟨-, hl', hbusy⟩ := ht.of_hire hl rfl
      cases hlive : p.liveRecords with
      | nil =>
        rw [hlive] at hr
        cases hr
      | cons first rest =>
        simp only [Execution.teardown, hlive] at hl' hbusy
        rw [hlive] at hr
        exact ⟨⟨progress, index, hl'⟩,
          hbusy _ ⟨_, List.mem_map_of_mem hr, .claim, rfl, by simp⟩⟩
    · cases h
  | _ => cases h

/-- Members are there only while the operation waits for them, as far as it tears down. -/
def Gathered : Activity → Prop
  | teardown t => t.Gathered fun
    | .gather => true
    | .collect => false
  | execute _ t => t.Gathered fun
    | .dispatch .. | .gather .. | .cleared .. => true
    | _ => false
  | _ => True

theorem gathered_ofOrder (config : Config) (o : Order) : (ofOrder config o).Gathered := by
  cases o with
  | teardown => exact .inl rfl
  | execute plan => exact .inl rfl
  | _ => trivial

theorem Turn.gathered {s : Scope Activity} (ht : a.Turn config c p place sig s) (h : a.Gathered) :
    s.result.Gathered := by
  cases ht with
  | teardown ht =>
    refine Team.Turn.gathered ⟨fun {point d} hd => ?_, fun {point body} hd c p => ?_⟩ ht h
    · cases point <;> cases hd
    · cases point with
      | collect =>
        cases hd
        cases hlive : p.liveRecords with
        | nil =>
          refine .inl ⟨?_, rfl⟩
          simp only [Teardown.collect, hlive]
        | cons first rest =>
          refine .inr ⟨.gather, ?_, rfl⟩
          simp only [Teardown.collect, hlive]
      | gather => cases hd
  | execute ht =>
    refine Team.Turn.gathered ⟨fun {point d} hd => ?_, fun {point body} hd c p => ?_⟩ ht h
    · cases point with
      | dispatch | gather | cleared => cases hd
      | _ => rfl
    · cases point with
      | dispatch progress sent waiting =>
        cases hd
        refine .inr ?_
        simp only [Execution.dispatch]
        split
        · exact ⟨_, rfl, rfl⟩
        · split <;> exact ⟨_, rfl, rfl⟩
      | teardown progress index =>
        cases hd
        cases hlive : p.liveRecords with
        | nil =>
          refine .inl ⟨?_, rfl⟩
          simp only [Execution.teardown, hlive]
        | cons first rest =>
          refine .inr ⟨.cleared progress index, ?_, rfl⟩
          simp only [Execution.teardown, hlive]
      | _ => cases hd
  | _ => trivial

/-- An operation whose teardown is over has nothing in hand. -/
theorem hand_of_tornDown (hg : a.Gathered) (h : a.tornDown = true) :
    ∀ x ∈ a.posts, x.2.hand = [] := by
  intro x hx
  cases a with
  | teardown t =>
    have hactive : t.active = [] := by
      refine Team.Gathered.active_eq_nil hg fun point hl => ?_
      simp only [tornDown, hl, Strand.ended] at h
      cases h
    simp only [posts, Team.posts, hactive, Team.stand, List.map_nil, List.mem_singleton] at hx
    rw [hx]
    rfl
  | execute plan t =>
    have hactive : t.active = [] := by
      refine Team.Gathered.active_eq_nil hg fun point hl => ?_
      simp only [tornDown, hl] at h
      cases point with
      | finish progress status => rfl
      | _ => cases h
    simp only [posts, Team.posts, hactive, Team.stand, List.map_nil, List.mem_singleton] at hx
    rw [hx]
    simp only [tornDown] at h
    split at h
    · next hl => simp only [Post.hand, hl, Strand.hand, Execution.hand]
    · next hl => simp only [Post.hand, hl, Strand.hand]
    · cases h
  | _ => cases h

end Activity

/-! ## What a teardown has noted -/

namespace History

/-- The sandboxes that the teardown of an operation has noted. -/
def collected (h : History) (n : Nat) : List String :=
  h.deeds (fun m move a =>
    if (m.mover move).2 = 0 ∧ a.collecting = true then m.pool.liveRecords.map (·.id) else []) n

/-- A sandbox that was live when the operation took its list is noted. -/
theorem mem_collected {h : History} {m : Machine} {move : Move} {n : Nat} {a : Activity}
    (hx : (m, move) ∈ h) (hmover : m.mover move = (n, 0)) (ha : m.activity? n = some a)
    (hc : a.collecting = true) (hid : id ∈ m.pool.liveRecords.map (·.id)) : id ∈ h.collected n := by
  refine List.mem_flatMap.2 ⟨(m, move), hx, ?_⟩
  simp only [hmover, ha, hc, Option.elim_some, and_self, if_true]
  exact hid

/-- Only a sandbox that had its record when it was noted is noted. -/
theorem record_of_collected {h : History} {n : Nat} (hid : id ∈ h.collected n) (m : Machine) :
    ∃ q ∈ h.pools m, ∃ r ∈ q.records, r.id = id := by
  obtain ⟨x, hx, hid⟩ := List.mem_flatMap.1 hid
  split at hid
  · cases hact : x.1.activity? n with
    | none =>
      rw [hact] at hid
      cases hid
    | some a =>
      simp only [hact, Option.elim_some] at hid
      split at hid
      · obtain ⟨r, hr, rfl⟩ := List.mem_map.1 hid
        refine ⟨x.1.pool, ?_, r, List.mem_of_mem_filter hr, rfl⟩
        exact List.mem_append_left _ (List.mem_map_of_mem hx)
      · cases hid
  · cases hid

end History

namespace Machine

variable {seed : BitVec 128} {pool : Pool} {now : Instant} {h : History} {m m' : Machine}
  {move : Move} {notes : List Note} {n : Nat} {a : Activity}

/-- A sandbox that a teardown has noted is doomed, or the operation waits for a member that terminates
it. -/
theorem Reaches.doomed_or_terminating (hp : Pool.create config seed = .ok pool)
    (hr : (ofPool pool now).Reaches h m) (hf : h.Fresh) (ha : m.activity? n = some a)
    (hid : id ∈ h.collected n) : m.pool.Doomed id ∨ a.Terminating id := by
  induction hr generalizing a with
  | start => cases hid
  | @next h m m' move notes hr hn ih =>
    have hfresh := History.fresh_of_append hf
    have ho := hr.ordered_ofPool
    have hdoom : m.pool.Doomed id → m'.pool.Doomed id := hr.doomed_next hp hfresh hn
    have hnew : n ≠ m.started := by
      rintro rfl
      rw [History.collected, hr.withstands.deeds_new] at hid
      cases hid
    cases next_course ho hn ha with
    | stay ha₀ hm =>
      rw [History.collected, History.deeds_stay hm] at hid
      exact (ih hfresh ha₀ hid).imp_left hdoom
    | order o he => exact absurd he hnew
    | fire he => exact absurd he hnew
    | @turn place a₀ sig s ha₀ hk ht hpool =>
      rw [History.collected, History.deeds_turn (congrArg Prod.fst hk) ha₀, List.mem_append] at hid
      rcases hid with hid | hid
      · rcases ih hfresh ha₀ hid with hdoomed | hterm
        · exact .inl (hdoom hdoomed)
        · have hrec : ∃ r, m.pool.find? id = some r := by
            obtain ⟨q, hq, r, hr₀, rfl⟩ := History.record_of_collected hid m
            obtain ⟨-, r', hr', hid', -⟩ := (hr.past hp hfresh).pools q hq r hr₀
            exact ⟨r', hid' ▸ (hr.books hp hfresh).named.distinct.find?_of_mem hr'⟩
          rw [hpool]
          exact (ht.terminating_or (ho.members _ (activity?_mem ha₀)) hrec hterm).symm
      · split at hid
        · next hyes =>
          obtain rfl : place = 0 := by
            rw [hk] at hyes
            exact hyes.1
          exact .inr (ht.collects hyes.2 hid)
        · cases hid

/-- **What a teardown leaves behind.** In every interleaving of operations on a new pool, and whatever
the daemon answers as long as it gives out no identity twice: when a teardown is over, each sandbox
that was live when it took its list is terminated or claimed for that; and it is terminated, with its
container stopped and removed and its port given back, exactly if no other operation is still
terminating it. -/
theorem teardown_complete_iff {config : Config} {seed : BitVec 128} {pool : Pool} {now : Instant}
    {h : History} {m : Machine} {n : Nat} {a : Activity} {id : String}
    (hp : Pool.create config seed = .ok pool) (hr : (ofPool pool now).Reaches h m) (hf : h.Fresh)
    (ha : m.activity? n = some a) (hdone : a.tornDown = true) (hid : id ∈ h.collected n) :
    m.pool.Doomed id ∧
      ((h.CleanedUp m id ∧ ∃ r, m.pool.find? id = some r ∧ r.live = false) ↔
        ∀ t ∈ m.hands, t.1.1 ≠ n → ∀ port stage, t.2 ≠ .ending id port stage) := by
  have hb := hr.books hp hf
  have hdoomed : m.pool.Doomed id := by
    rcases hr.doomed_or_terminating hp hf ha hid with hdoomed | hterm
    · exact hdoomed
    · rw [hterm.not_tornDown] at hdone
      cases hdone
  have hown : ∀ t ∈ m.hands, t.1.1 ≠ n := by
    rintro ⟨k, t⟩ ht rfl
    obtain ⟨x, hx, ht⟩ := mem_hands.1 ht
    obtain ⟨a', ha', hx⟩ := mem_posts.1 hx
    obtain rfl := activity_unique hr.ordered_ofPool ha' (activity?_mem ha)
    have hgathered : a'.Gathered := hr.forall_activity Activity.gathered_ofOrder
      (fun _ _ => trivial) (fun _ hg ht => ht.gathered hg) ha
    rw [Activity.hand_of_tornDown hgathered hdone _ hx] at ht
    cases ht
  have hiff := hr.cleanedUp_iff hp hf hdoomed
  refine ⟨hdoomed, fun hclean t ht _ => hiff.1 hclean.1 t ht, fun hothers => ?_⟩
  have hnone : ∀ t ∈ m.hands, ∀ port stage, t.2 ≠ .ending id port stage :=
    fun t ht => hothers t ht (hown t ht)
  refine ⟨hiff.2 hnone, ?_⟩
  obtain ⟨r, hrec, rfl, hend | hclaim⟩ := hdoomed
  · exact ⟨r, hb.named.distinct.find?_of_mem hrec, hend⟩
  · obtain ⟨t, ht, port, stage, he⟩ := exists_ending hb hclaim
    exact absurd he (hnone t ht port stage)

/-- The time of a paused sandbox comes just before a teardown, which leaves the sandbox to its timer.
The teardown is over when the container has not even been stopped. -/
theorem teardown_before_cleanup :
    let config : Config := { image := "img", maxSandboxes := 2 }
    ∃ pool h m a, Pool.create config 0 = .ok pool ∧ (ofPool pool 0).Reaches h m ∧ h.Fresh ∧
      m.activity? 3 = some a ∧ a.tornDown = true ∧ "c1" ∈ h.collected 3 ∧
      ((2, 0), .ending "c1" 40000 .stop) ∈ m.hands ∧ m.pool.Doomed "c1" ∧
      ¬ (h.CleanedUp m "c1" ∧ ∃ r, m.pool.find? "c1" = some r ∧ r.live = false) := by
  intro config
  let moves : List Move := [.order (.acquire "a"), .step 0 0, .step 0 0, .step 0 0,
    .reply 0 0 (.created (.ok "c1")), .step 0 0, .step 0 0, .reply 0 0 (.acted (.ok ())), .step 0 0,
    .reply 0 0 (.acted (.ok ())), .step 0 0,
    .order (.release "c1"), .step 1 0, .step 1 0, .reply 1 0 (.acted (.ok ())), .step 1 0,
    .advance config.dormancy.nanos, .fire 0,
    .order .teardown, .step 3 0, .step 3 1, .step 3 0]
  have hp : Pool.create config 0 = .ok (.ofConfig config 0) :=
    create_eq_ok_iff.2 ⟨by decide +kernel, rfl⟩
  have hrun : ((ofPool (.ofConfig config 0) 0).trace moves).any (fun x =>
      x.1.Fresh ∧ (x.2.activity? 3).any (·.tornDown) = true ∧ "c1" ∈ x.1.collected 3 ∧
        ((2, 0), .ending "c1" 40000 .stop) ∈ x.2.hands) = true := by decide +kernel
  obtain ⟨x, ht, hx⟩ := (Option.any_eq_true _ _).1 hrun
  obtain ⟨hf, hdone, hid, hends⟩ := of_decide_eq_true hx
  obtain ⟨a, ha, hdone⟩ := (Option.any_eq_true _ _).1 hdone
  have hr := reaches_of_trace ht
  obtain ⟨hdoomed, hiff⟩ := teardown_complete_iff hp hr hf ha hdone hid
  refine ⟨_, x.1, x.2, a, hp, hr, hf, ha, hdone, hid, hends, hdoomed, fun hclean => ?_⟩
  exact hiff.1 hclean _ hends (by decide) 40000 .stop rfl

end Machine

end SandboxPool
