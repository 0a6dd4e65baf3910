import SandboxPool.Proofs.Machine.Creations

/-!
# What a cleanup takes for an orphan

A cleanup gets a list of containers, compares it with the live sandboxes of the pool, and has a member
stop and remove each container that is none of them. The list, the comparison and the calls are three
moments. A container that a start of the pool is creating may be on the list, but is no live sandbox
when the lists are compared, and may be one when it is stopped.

* `History.Found` has the containers that a cleanup has taken for orphans, and where it did.
* Every call of a cleanup is for one of these (`Machine.Reaches.found`).
* `Machine.orphan_owned_iff`: it is for a container of the pool exactly if that was being created when
  the cleanup compared, and is not terminated yet.
-/

namespace SandboxPool

variable {config : Config} {c : Context} {p : Pool} {place n : Nat} {sig : Option Signal}
  {h : History} {m m' : Machine} {move : Move} {notes : List Note} {id : String}

/-- The list that a cleanup is to compare with the pool. -/
def Activity.comparing? : Activity → Option (List ContainerSummary)
  | cleanup t =>
    match t.leader with
    | .ready (.compare containers) => some containers
    | _ => none
  | _ => none

namespace History

/-- The operation has got a list. -/
def Listed (h : History) (n : Nat) (containers : List ContainerSummary) : Prop :=
  ∃ h₁ m₁ move₁ h₂, h = h₁ ++ (m₁, move₁) :: h₂ ∧ m₁.mover move₁ = (n, 0) ∧
    move₁.listing = containers

/-- The operation has got a list with the container and found no live sandbox that it is. -/
def Found (h : History) (n : Nat) (id : String) : Prop :=
  ∃ h₁ m₁ move₁ h₂ m₂ move₂ h₃, h = h₁ ++ (m₁, move₁) :: (h₂ ++ (m₂, move₂) :: h₃) ∧
    m₁.mover move₁ = (n, 0) ∧ m₂.mover move₂ = (n, 0) ∧
    (m₂.activity? n).bind (·.comparing?) = some move₁.listing ∧
    id ∈ Cleanup.orphans move₁.listing m₂.pool

variable {containers : List ContainerSummary}

theorem Listed.next (hl : h.Listed n containers) : (h ++ [(m, move)]).Listed n containers := by
  obtain ⟨h₁, m₁, move₁, h₂, rfl, hmover, hlist⟩ := hl
  refine ⟨h₁, m₁, move₁, h₂ ++ [(m, move)], ?_, hmover, hlist⟩
  rw [List.append_assoc, List.cons_append]

theorem Found.next (hf : h.Found n id) : (h ++ [(m, move)]).Found n id := by
  obtain ⟨h₁, m₁, move₁, h₂, m₂, move₂, h₃, rfl, hfound⟩ := hf
  refine ⟨h₁, m₁, move₁, h₂, m₂, move₂, h₃ ++ [(m, move)], ?_, hfound⟩
  simp only [List.append_assoc, List.cons_append]

/-- The operation compares its list with the pool. -/
theorem Listed.found (hl : h.Listed n containers) (hmover : m.mover move = (n, 0))
    (hc : (m.activity? n).bind (·.comparing?) = some containers)
    (hid : id ∈ Cleanup.orphans containers m.pool) : (h ++ [(m, move)]).Found n id := by
  obtain ⟨h₁, m₁, move₁, h₂, rfl, hmover₁, rfl⟩ := hl
  refine ⟨h₁, m₁, move₁, h₂, m, move, [], ?_, hmover₁, hmover, hc, hid⟩
  rw [List.append_assoc, List.cons_append]

end History

/-- A move that tells a post a list brings it. -/
theorem Machine.listing_of_talk {a : Ask} {containers : List ContainerSummary}
    (ht : m.talk? move = some (.got a (.listed (.ok containers)))) : move.listing = containers := by
  cases move with
  | step n place =>
    obtain ⟨b, -, hb⟩ := Option.bind_eq_some_iff.1 ht
    obtain ⟨q, -, hq⟩ := Option.map_eq_some_iff.1 hb
    cases hq
  | reply n place r =>
    obtain ⟨b, -, hb⟩ := Option.bind_eq_some_iff.1 ht
    obtain ⟨q, -, hq⟩ := Option.map_eq_some_iff.1 hb
    cases hq
    rfl
  | _ => cases ht

/-- What a cleanup knows: where it has its list from, and why it removes what it removes. -/
structure Cleanup.Knows (h : History) (n : Nat) (t : Run) : Prop where
  listed : ∀ containers, t.leader.point? = some (.compare containers) → h.Listed n containers
  found : ∀ id ∈ t.tasks, h.Found n id

namespace Cleanup

theorem Knows.next {t : Run} (hk : Knows h n t) : Knows (h ++ [(m, move)]) n t :=
  ⟨fun containers hl => (hk.listed containers hl).next, fun id hid => (hk.found id hid).next⟩

/-- A cleanup in a turn of its own. -/
theorem Knows.turn {t : Run} (hk : Knows h n t) (ho : t.Ordered) {s : Scope Run}
    (ha : m.activity? n = some (.cleanup t)) (hmover : m.mover move = (n, place))
    (ht : t.Turn conduct m.context m.pool place (m.talk? move) s) :
    Knows (h ++ [(m, move)]) n s.result := by
  generalize hsig : m.talk? move = sig at ht
  cases ht with
  | @demand point d out sig s hl hd hturn =>
    refine ⟨fun containers hpoint => ?_, fun id hid => (hk.found id hid).next⟩
    cases point with
    | list =>
      cases hd
      rcases Demand.turn_list hturn with ⟨-, -, rfl⟩ | ⟨r, -, rfl, rfl⟩
      · cases hpoint
      · cases r with
        | error e => cases hpoint
        | ok listed =>
          cases hpoint
          exact ⟨h, m, move, [], rfl, hmover, Machine.listing_of_talk hsig⟩
    | _ => cases hd
  | @hire point body hl hd =>
    cases point with
    | compare containers =>
      cases hd
      have hlisted : h.Listed n containers := hk.listed containers (by rw [hl]; rfl)
      have hcomparing : (m.activity? n).bind (·.comparing?) = some containers := by
        rw [ha, Option.bind_some]
        simp only [Activity.comparing?, hl]
      refine ⟨fun containers' hpoint => ?_, fun id hid => ?_⟩
      · simp only [compare] at hpoint
        split at hpoint <;> cases hpoint
      · have htasks : ∀ id ∈ (compare containers m.pool).result.1.map (·.1),
            id ∈ orphans containers m.pool := by
          intro id hid
          simp only [compare] at hid
          split at hid
          · cases hid
          · simpa using hid
        simp only [Scope.map, Team.tasks, List.map_append, Team.map_task_enrol, List.mem_append] at hid
        rcases hid with (hid | hid) | hid
        · exact (hk.found id (List.mem_append_left _ hid)).next
        · exact hlisted.found hmover hcomparing (htasks id hid)
        · exact (hk.found id (List.mem_append_right _ hid)).next
    | _ => cases hd
  | @join point next hl hd hnone =>
    refine ⟨fun containers hpoint => ?_, fun id hid => ?_⟩
    · cases point with
      | gather =>
        cases hd
        cases hpoint
      | _ => cases hd
    · rcases List.mem_append.1 hid with hid | hid
      · exact (hk.found id (List.mem_append_left _ hid)).next
      · cases hid
  | @member serial x sig sc hm hturn =>
    refine ⟨fun containers hpoint => ?_, fun id hid => ?_⟩
    · refine (hk.listed containers ?_).next
      rwa [← Team.update_leader x sc.result]
    · exact (hk.found id ((Team.tasks_update ho hm sc.result).mem_iff.1 hid)).next

end Cleanup

/-- What is known of a cleanup, and nothing of other operations. -/
def Activity.Searches (h : History) (n : Nat) : Activity → Prop
  | cleanup t => Cleanup.Knows h n t
  | _ => True

/-- A cleanup acts only on containers that it has found. -/
theorem Cleanup.Knows.found_of_ask {t : Run} {action : Action} (hk : Knows h n t)
    (ha : t.ask? conduct place = some (.daemon (.act action id))) : h.Found n id := by
  cases place with
  | zero =>
    simp only [Team.ask?] at ha
    split at ha
    · next point _ => cases point <;> cases ha
    · next point _ => cases point <;> cases ha
    · cases ha
  | succ serial =>
    obtain ⟨x, hx, hask⟩ := Option.bind_eq_some_iff.1 ha
    have htask : ∀ point, (Reclaim.demand x.task point).ask? = some (.daemon (.act action id)) →
        x.task = id := by
      intro point hpoint
      cases point <;> cases hpoint <;> rfl
    obtain rfl : x.task = id := by
      change x.strand.ask? (Reclaim.demand x.task) = _ at hask
      cases hs : x.strand <;> rw [hs] at hask
      · exact htask _ hask
      · exact htask _ hask
      · cases hask
      · cases hask
    exact hk.found _ (List.mem_append_left _ (List.mem_map_of_mem (Team.mem_of_member? hx)))

namespace Machine

variable {seed : BitVec 128} {pool : Pool} {now : Instant}

theorem Reaches.searches (hr : (ofPool pool now).Reaches h m) {a : Activity}
    (ha : m.activity? n = some a) : a.Searches h n := by
  induction hr generalizing a with
  | start => cases ha
  | @next h m m' move notes hr hn ih =>
    have ho := hr.ordered_ofPool
    have hnext : ∀ {b : Activity}, b.Searches h n → b.Searches (h ++ [(m, move)]) n := by
      intro b hb
      cases b with
      | cleanup t => exact Cleanup.Knows.next hb
      | _ => trivial
    cases next_course ho hn ha with
    | stay ha₀ => exact hnext (ih ha₀)
    | order o =>
      cases o with
      | cleanup => exact ⟨fun containers hpoint => (by cases hpoint), fun id hid => (by cases hid)⟩
      | _ => trivial
    | fire => trivial
    | @turn place a₀ sig s ha₀ hk ht hpool hnotes htalk =>
      subst htalk
      cases ht with
      | cleanup ht => exact Cleanup.Knows.turn (ih ha₀) (ho.members _ (activity?_mem ha₀)) ha₀ hk ht
      | _ => trivial

/-- What is asked for in a step is what the place asks for. -/
theorem asked_iff (hn : m.next (.step n place) = some (m', notes)) {a : Activity} {q : Ask}
    (ha : m.activity? n = some a) : .asked q ∈ notes ↔ a.ask? m.pool.config place = some q := by
  obtain ⟨b, hb, hn⟩ := Option.bind_eq_some_iff.1 hn
  obtain rfl := Option.some.inj (ha.symm.trans hb)
  obtain ⟨s, -, hn⟩ := Option.map_eq_some_iff.1 hn
  obtain ⟨-, rfl⟩ := Prod.mk.inj hn
  rw [List.mem_append, Option.mem_toList, Option.map_eq_some_iff]
  constructor
  · rintro (⟨q', hq', he⟩ | hq)
    · cases he
      exact hq'
    · obtain ⟨e, -, he⟩ := List.mem_filterMap.1 hq
      cases e <;> cases he
  · exact fun hq => .inl ⟨q, hq, rfl⟩

/-- **When a cleanup touches a container of the pool.** In every interleaving of operations on a new
pool, and whatever the daemon answers, as long as it gives out no identity twice and lists only
containers that are there: a cleanup stops or removes a container only if it was on its list, and was no
live sandbox when it compared the list with the pool. By then the container is that of a live sandbox,
or is being created for one, exactly if a start of the pool was creating it when the cleanup compared,
and it is not terminated yet. -/
theorem orphan_owned_iff {later : History} {last : Machine} {t : Cleanup.Run} {action : Action}
    (hp : Pool.create config seed = .ok pool)
    (hr : (ofPool pool now).Reaches (h ++ (m, .step n place) :: later) last)
    (hf : (h ++ (m, .step n place) :: later).Fresh)
    (hs : (h ++ (m, .step n place) :: later).Shows)
    (ha : m.activity? n = some (.cleanup t)) (hn : m.next (.step n place) = some (m', notes))
    (hask : .asked (.daemon (.act action id)) ∈ notes) :
    ∃ h₁ m₁ move₁ h₂ m₂ move₂ h₃, h = h₁ ++ (m₁, move₁) :: (h₂ ++ (m₂, move₂) :: h₃) ∧
      m₁.mover move₁ = (n, 0) ∧ m₂.mover move₂ = (n, 0) ∧
      (m₂.activity? n).bind (·.comparing?) = some move₁.listing ∧
      id ∈ Cleanup.orphans move₁.listing m₂.pool ∧
      (m.Owns ((m, .step n place) :: later) id ↔
        m₂.Creates ((m₂, move₂) :: (h₃ ++ (m, .step n place) :: later)) id ∧
          ∀ r ∈ m.pool.records, r.id = id → r.live = true) := by
  have hfound : h.Found n id := by
    have hknows : Cleanup.Knows h n t := hr.cut.1.searches ha
    exact hknows.found_of_ask ((asked_iff hn ha).1 hask)
  obtain ⟨h₁, m₁, move₁, h₂, m₂, move₂, h₃, rfl, hmover₁, hmover₂, hcomparing, hid⟩ := hfound
  refine ⟨h₁, m₁, move₁, h₂, m₂, move₂, h₃, rfl, hmover₁, hmover₂, hcomparing, hid, ?_⟩
  obtain ⟨hlisted, hnot⟩ := List.mem_filter.1 hid
  simp only [List.append_assoc, List.cons_append] at hr hf hs
  obtain ⟨hr₁, hrest⟩ := hr.cut
  rw [← List.cons_append] at hrest
  obtain ⟨hr₂, hrest⟩ := hrest.cut
  have hrest' := hrest
  rw [← List.cons_append] at hrest'
  obtain ⟨hr₃, hr₄⟩ := hrest'.cut
  have hfresh : History.Fresh ((h₁ ++ (m₁, move₁) :: h₂) ++
      ((m₂, move₂) :: h₃ ++ (m, .step n place) :: later)) := by
    simpa only [List.append_assoc, List.cons_append] using hf
  refine owns_iff hp (hr₁.append hr₂) hr₃ hr₄ hfresh (fun r hrec he => ?_) fun hnew => ?_
  · by_contra hlive
    have hany : m₂.pool.liveRecords.any (·.id == id) = true :=
      List.any_eq_true.2 ⟨r, List.mem_filter.2 ⟨hrec, by simpa using hlive⟩, by simpa using he⟩
    rw [hany] at hnot
    cases hnot
  · -- the list shows the container while it is being created, and it still is when the lists are compared
    obtain ⟨c, hc, rfl⟩ := List.mem_map.1 hlisted
    have hcreated : c.id ∈ History.created ((m₁, move₁) :: h₂ ++
        ((m₂, move₂) :: h₃ ++ (m, .step n place) :: later)) := by
      rw [History.created_append_history]
      exact List.mem_append_right _ hnew
    obtain ⟨y, -, hwaits, hanswer⟩ := hs.of_append.1 c hc hcreated
    rw [List.append_assoc] at hfresh
    obtain ⟨hwaits', hanswer'⟩ := creating_until hr₁.ordered_ofPool hr₂ hfresh.of_suffix hwaits
      hanswer hnew
    exact ⟨y.1, hwaits', hanswer'⟩

/-- A cleanup lists a container while its creation goes on, and stops and removes it. By the removal it
is the container of a block that runs. -/
theorem orphan_owned :
    let config : Config := { image := "img", maxSandboxes := 2 }
    ∃ pool h m later last m' notes t, Pool.create config 0 = .ok pool ∧
      (ofPool pool 0).Reaches (h ++ (m, .step 1 1) :: later) last ∧
      m.activity? 1 = some (.cleanup t) ∧ m.next (.step 1 1) = some (m', notes) ∧
      .asked (.daemon (.act .stop "c1")) ∈ notes ∧ m.Owns ((m, .step 1 1) :: later) "c1" ∧
      (∃ (m₂ : Machine) (later₂ : History) (containers : List ContainerSummary),
        "c1" ∈ Cleanup.orphans containers m₂.pool ∧ m₂.Creates later₂ "c1") ∧
      (∃ r ∈ last.pool.records, r.id = "c1" ∧ r.state = .running) ∧
      (last.activity? 1).bind (·.ask? config 1) = some (.daemon (.act (.remove true) "c1")) := by
  intro config
  let moves : List Move := [.order (.acquire "a"), .step 0 0, .step 0 0, .step 0 0, .order .cleanup,
    .step 1 0, .reply 1 0 (.listed (.ok [⟨"c1", [], "img", "created", []⟩])), .step 1 0]
  let rest : List Move := [.step 1 1, .reply 0 0 (.created (.ok "c1")), .step 0 0, .step 0 0,
    .reply 0 0 (.acted (.ok ())), .step 0 0, .reply 0 0 (.acted (.ok ())), .step 0 0,
    .reply 1 1 (.acted (.ok ()))]
  have hp : Pool.create config 0 = .ok (.ofConfig config 0) :=
    create_eq_ok_iff.2 ⟨by decide +kernel, rfl⟩
  have hrun : ((ofPool (.ofConfig config 0) 0).trace moves).any (fun x =>
      (x.2.trace rest).any fun y =>
        (x.1 ++ y.1).Fresh ∧ (x.1 ++ y.1).Shows ∧
        (x.2.activity? 1).any (fun | .cleanup _ => true | _ => false) = true ∧
        (x.2.activity? 1).bind (·.ask? config 1) = some (.daemon (.act .stop "c1")) ∧
        x.2.creating (0, 0) = true ∧ (History.answer? y.1 (0, 0)).bind (·.created?) = some "c1" ∧
        (∃ r ∈ y.2.pool.records, r.id = "c1" ∧ r.state = .running) ∧
        (y.2.activity? 1).bind (·.ask? config 1) = some (.daemon (.act (.remove true) "c1"))) = true := by
    decide +kernel
  obtain ⟨⟨h, m⟩, hbefore, hx⟩ := (Option.any_eq_true _ _).1 hrun
  obtain ⟨⟨l, last⟩, hbehind, hy⟩ := (Option.any_eq_true _ _).1 hx
  obtain ⟨hf, hs, hcleans, hask, hwaits, hanswer, hrunning, hremove⟩ := of_decide_eq_true hy
  obtain ⟨m', notes, later, hn, rfl⟩ := trace_cons hbehind
  have hr := (reaches_of_trace hbefore).append (reaches_of_trace hbehind)
  obtain ⟨t, ha⟩ : ∃ t, m.activity? 1 = some (.cleanup t) := by
    obtain ⟨a, ha, hclean⟩ := (Option.any_eq_true _ _).1 hcleans
    cases a with
    | cleanup t => exact ⟨t, ha⟩
    | _ => cases hclean
  have hasked : .asked (.daemon (.act .stop "c1")) ∈ notes := by
    have hconfig : m.pool.config = config := (reaches_of_trace hbefore).config_eq
    rw [ha, ← hconfig] at hask
    exact (asked_iff hn ha).2 hask
  have howns : m.Owns ((m, .step 1 1) :: later) "c1" := .inr (.inr ⟨(0, 0), hwaits, hanswer⟩)
  obtain ⟨h₁, m₁, move₁, h₂, m₂, move₂, h₃, -, -, -, -, hid, hiff⟩ :=
    orphan_owned_iff hp hr hf hs ha hn hasked
  exact ⟨_, h, m, later, last, m', notes, t, hp, hr, ha, hn, hasked, howns,
    ⟨m₂, _, _, hid, (hiff.1 howns).1⟩, hrunning, hremove⟩

end Machine

end SandboxPool
