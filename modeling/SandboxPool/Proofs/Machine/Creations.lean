import SandboxPool.Proofs.Settled

/-!
# Containers that are being created

The identity of a container is known as soon as the daemon has created it, but to the pool only when
the call returns. What the call will bring is read off what happens later (`History.answer?`).

* `Machine.Creates` are the containers that starts of the pool are creating, and `Machine.Owns` has
  those of the live sandboxes as well.
* `History.Shows` says that the daemon lists only containers that are there: those that it has created
  or is creating, as far as they are the pool's.
* `Machine.owns_iff`: a container that was no live sandbox at one time is the pool's at a later time
  exactly if it was being created at the first and has not been terminated by the second.
-/

namespace SandboxPool

/-- The identity of a new container. -/
def Reply.created? : Reply → Option String
  | created (.ok id) => some id
  | _ => none

/-- The reply that a move brings to a post. -/
def Move.replyTo? (k : Key) : Move → Option Reply
  | reply n place r => if (n, place) = k then some r else none
  | _ => none

/-- The containers that a move brings a list of. -/
def Move.listing : Move → List ContainerSummary
  | reply _ _ (.listed (.ok containers)) => containers
  | _ => []

namespace History

variable {h h₁ h₂ : History} {m : Machine} {move : Move} {k : Key}

/-- The first reply that a post gets. -/
def answer? (h : History) (k : Key) : Option Reply := h.findSome? (·.2.replyTo? k)

theorem answer?_append : (h₁ ++ h₂).answer? k = (h₁.answer? k).or (h₂.answer? k) :=
  List.findSome?_append

theorem created_append_history : (h₁ ++ h₂).created = h₁.created ++ h₂.created := by
  simp only [created, signals, List.filterMap_append]

theorem Fresh.of_suffix (hf : (h₁ ++ h₂).Fresh) : h₂.Fresh := by
  unfold Fresh at hf ⊢
  rw [created_append_history] at hf
  exact (List.nodup_append.1 hf).2.1

theorem mem_pools_append (h₁ : History) {p : Pool} (hp : p ∈ h₂.pools m) :
    p ∈ (h₁ ++ h₂).pools m := by
  unfold pools at hp ⊢
  rw [List.map_append, List.append_assoc]
  exact List.mem_append_right _ hp

end History

namespace Machine

variable {m m' : Machine} {move : Move} {notes : List Note} {k : Key}

/-- The post has asked for a container and waits for its identity. -/
def creating (m : Machine) (k : Key) : Bool :=
  m.awaits k && (m.leaf? k).any fun
    | .spawn _ (.create ..) => true
    | _ => false

theorem creating_iff : m.creating k = true ↔ m.awaits k = true ∧
    ∃ job spec port, m.leaf? k = some (.spawn job (.create spec port)) := by
  unfold creating
  rw [Bool.and_eq_true, Option.any_eq_true]
  refine and_congr_right fun _ => ⟨?_, ?_⟩
  · rintro ⟨l, hl, hc⟩
    split at hc
    · exact ⟨_, _, _, hl⟩
    · cases hc
  · rintro ⟨job, spec, port, hl⟩
    exact ⟨_, hl, rfl⟩

/-- What is told to a post is the reply that it gets. -/
theorem replyTo?_of_got {a : Ask} {r : Reply} (h : m.signal? move = some (.got a r)) :
    move.replyTo? (m.mover move) = some r := by
  have hheard : ∀ {b : Activity} {sig : Option Signal}, b.heard sig = some (.got a r) →
      sig = some (.got a r) := by
    intro b sig hb
    cases b <;> first | exact hb | cases hb
  cases move with
  | step n place =>
    obtain ⟨b, -, hb⟩ := Option.bind_eq_some_iff.1 h
    rw [Activity.signal?_eq] at hb
    obtain ⟨q, -, hq⟩ := Option.map_eq_some_iff.1 (hheard hb)
    cases hq
  | reply n place r' =>
    obtain ⟨b, -, hb⟩ := Option.bind_eq_some_iff.1 h
    rw [Activity.signal?_eq] at hb
    obtain ⟨q, -, hq⟩ := Option.map_eq_some_iff.1 (hheard hb)
    cases hq
    exact if_pos rfl
  | _ => cases h

theorem replyTo?_of_ne (h : m.mover move ≠ k) : move.replyTo? k = none := by
  cases move with
  | reply n place r => exact if_neg h
  | _ => rfl

/-- A post that waits for the identity of a container still does, or it gets the reply. -/
theorem creating_next (ho : m.Ordered) (hn : m.next move = some (m', notes))
    (hk : m.creating k = true) : (move.replyTo? k = none ∧ m'.creating k = true) ∨
      ∃ spec r, move.replyTo? k = some (.created r) ∧
        m.signal? move = some (.got (.daemon (.create spec)) (.created r)) := by
  obtain ⟨hawaits, job, spec, port, hleaf⟩ := creating_iff.1 hk
  obtain ⟨x, hx, hxleaf⟩ := mem_of_leaf? hleaf
  by_cases hmover : m.mover move = k
  · obtain hstill | ⟨l, sig, r, htakes⟩ := next_leaf ho hn
    · rw [← hmover, hstill.leaf] at hleaf
      cases hleaf
    · obtain ⟨e, hturn, -⟩ := htakes.turn
      obtain rfl : l = .spawn job (.create spec port) := by
        rcases htakes.leaf.2 with hl | ⟨hl, -⟩
        · rw [hmover, hleaf] at hl
          exact (Option.some.inj hl).symm
        · rw [hmover, hleaf] at hl
          cases hl
      rw [hmover, hawaits] at hturn
      rcases Demand.turn_create hturn with ⟨hout, -⟩ | ⟨answer, -, rfl, -⟩
      · cases hout
      · have hsignal : m.signal? move = some (.got (.daemon (.create spec)) (.created answer)) :=
          htakes.heard.symm
        exact .inr ⟨spec, answer, hmover ▸ replyTo?_of_got hsignal, hsignal⟩
  · have ho' := (next_posts ho hn).1
    have hx' := post_next ho hn hx hmover
    refine .inl ⟨replyTo?_of_ne hmover, creating_iff.2 ⟨?_, job, spec, port, ?_⟩⟩
    · rw [awaits_next ho hn hx hmover, hawaits]
    · rw [leaf?_eq ho' hx', (next_things ho hn).config_eq]
      exact hxleaf

variable {m₀ m₁ m₂ : Machine} {h h₁ h₂ : History} {id : String}

/-- While a post waits for the identity of a container, it gets no other reply. -/
theorem Reaches.creating (ho : m₀.Ordered) (hr : m₀.Reaches h m) (hk : m₀.creating k = true) :
    (h.answer? k = none ∧ m.creating k = true) ∨
      ∃ r, h.answer? k = some (.created r) ∧ ∀ id, r = .ok id → id ∈ h.created := by
  induction hr with
  | start => exact .inl ⟨rfl, hk⟩
  | @next h m m' move notes hr hn ih =>
    rw [History.answer?_append, History.created_append]
    rcases ih with ⟨hnone, hwaits⟩ | ⟨r, hanswer, hid⟩
    · rw [hnone, Option.none_or]
      rcases creating_next (hr.ordered ho) hn hwaits with ⟨hno, hwaits'⟩ | ⟨spec, r, hreply, hsignal⟩
      · exact .inl ⟨by simp [History.answer?, hno], hwaits'⟩
      · refine .inr ⟨r, by simp [History.answer?, hreply], ?_⟩
        rintro id rfl
        rw [hsignal]
        exact List.mem_append_right _ (List.mem_singleton_self _)
    · rw [hanswer]
      exact .inr ⟨r, rfl, fun id he => List.mem_append_left _ (hid id he)⟩

/-- A start of the pool creates the container: the container is there and has no record yet, or a post
waits for the reply that will bring the identity. -/
def Creates (m : Machine) (later : History) (id : String) : Prop :=
  (∃ port, .made id port ∈ m.things) ∨
    ∃ k, m.creating k = true ∧ (later.answer? k).bind (·.created?) = some id

/-- The container is that of a live sandbox, or a start of the pool creates it. -/
def Owns (m : Machine) (later : History) (id : String) : Prop :=
  (∃ r ∈ m.pool.records, r.id = id ∧ r.live = true) ∨ m.Creates later id

/-- What a post waits for is created later. -/
theorem mem_created_of_answer (ho : m.Ordered) (hr : m.Reaches h m') (hk : m.creating k = true)
    (hanswer : (h.answer? k).bind (·.created?) = some id) : id ∈ h.created := by
  rcases hr.creating ho hk with ⟨hnone, -⟩ | ⟨r, hr, hid⟩
  · rw [hnone] at hanswer
    cases hanswer
  · rw [hr] at hanswer
    cases r with
    | error e => cases hanswer
    | ok id' =>
      cases hanswer
      exact hid _ rfl

section Owners

variable {config : Config} {seed : BitVec 128} {pool : Pool} {now : Instant} {later : History}
  (hp : Pool.create config seed = .ok pool) (hr : (ofPool pool now).Reaches h m)
  (hlater : m.Reaches later m') (hf : (h ++ later).Fresh)

include hp hr hlater hf

/-- What the pool owns has no record that is terminated. -/
theorem Owns.live (ho : m.Owns later id) {r : Record} (hrec : r ∈ m.pool.records)
    (hid : r.id = id) : r.live = true := by
  have hb := hr.books hp hf.of_prefix
  rcases ho with ⟨r', hr', hid', hlive⟩ | ⟨port, hmade⟩ | ⟨k, hk, hanswer⟩
  · obtain rfl := hb.named.distinct.eq_of_id hr' hrec (hid.trans hid'.symm)
    exact hlive
  · exact absurd hid (hb.named.ne_of_made hmade hrec)
  · have hnew := mem_created_of_answer hr.ordered_ofPool hlater hk hanswer
    have hold : id ∈ h.created := hid ▸ hb.named.record_created hrec
    unfold History.Fresh at hf
    rw [History.created_append_history] at hf
    exact absurd rfl ((List.nodup_append.1 hf).2.2 id hold id hnew)

/-- What the pool owns was created, or will be. -/
theorem Owns.created (ho : m.Owns later id) : id ∈ (h ++ later).created := by
  have hb := hr.books hp hf.of_prefix
  rw [History.created_append_history]
  rcases ho with ⟨r, hrec, rfl, -⟩ | ⟨port, hmade⟩ | ⟨k, hk, hanswer⟩
  · exact List.mem_append_left _ (hb.named.record_created hrec)
  · exact List.mem_append_left _ (hb.named.made_created hmade)
  · exact List.mem_append_right _ (mem_created_of_answer hr.ordered_ofPool hlater hk hanswer)

end Owners

/-- A post that will bring a container, which is not created for some time, waits for it all the time. -/
theorem creating_until (ho : m.Ordered) (hr : m.Reaches h m') (hf : (h ++ h₁).Fresh)
    (hk : m.creating k = true) (hanswer : ((h ++ h₁).answer? k).bind (·.created?) = some id)
    (hid : id ∈ h₁.created) : m'.creating k = true ∧ (h₁.answer? k).bind (·.created?) = some id := by
  rw [History.answer?_append] at hanswer
  rcases hr.creating ho hk with ⟨hnone, hwaits⟩ | ⟨r, hr, hsoon⟩
  · rw [hnone, Option.none_or] at hanswer
    exact ⟨hwaits, hanswer⟩
  · rw [hr] at hanswer
    cases r with
    | error e => cases hanswer
    | ok id' =>
      cases hanswer
      unfold History.Fresh at hf
      rw [History.created_append_history] at hf
      exact absurd rfl ((List.nodup_append.1 hf).2.2 _ (hsoon _ rfl) _ hid)

/-- A history goes on from each of its machines. -/
theorem Reaches.cut (hr : m₀.Reaches (h₁ ++ (m₁, move) :: h₂) m) :
    m₀.Reaches h₁ m₁ ∧ m₁.Reaches ((m₁, move) :: h₂) m := by
  obtain ⟨m₂, notes, hbefore, hn, hbehind⟩ := hr.split
  exact ⟨hbefore, (Reaches.start.next hn).append hbehind⟩

/-- The first pool of a history is one of its pools. -/
theorem Reaches.mem_pools (hr : m.Reaches h m') : m.pool ∈ h.pools m' := by
  induction hr with
  | start => exact List.mem_singleton_self _
  | next _ _ ih =>
    rw [History.pools_append]
    exact List.mem_append_left _ ih

/-- **What becomes the pool's.** A container that is no live sandbox is the pool's some time later
exactly if it is being created and is not terminated by then. -/
theorem owns_iff {config : Config} {seed : BitVec 128} {pool : Pool} {now : Instant}
    (hp : Pool.create config seed = .ok pool) (hr : (ofPool pool now).Reaches h m)
    (hr₁ : m.Reaches h₁ m₁) (hr₂ : m₁.Reaches h₂ m₂) (hf : (h ++ (h₁ ++ h₂)).Fresh)
    (hdead : ∀ r ∈ m.pool.records, r.id = id → r.live = false)
    (hshown : id ∈ (h₁ ++ h₂).created →
      ∃ k, m.creating k = true ∧ ((h₁ ++ h₂).answer? k).bind (·.created?) = some id) :
    m₁.Owns h₂ id ↔
      m.Creates (h₁ ++ h₂) id ∧ ∀ r ∈ m₁.pool.records, r.id = id → r.live = true := by
  have hr' := hr.append hr₁
  have hf' : ((h ++ h₁) ++ h₂).Fresh := by rwa [List.append_assoc]
  have hb' := hr'.books hp hf'.of_prefix
  have hkept : id ∈ (h ++ h₁).created →
      (∀ r ∈ m₁.pool.records, r.id = id → r.live = true) → m₁.Owns h₂ id := by
    intro hid hlive
    rcases (hr'.tended hp hf'.of_prefix).kept id hid with ⟨r, hrec, rfl⟩ | hmade
    · exact .inl ⟨r, hrec, rfl, hlive r hrec rfl⟩
    · exact .inr (.inl hmade)
  constructor
  · intro howns
    have hlive : ∀ r ∈ m₁.pool.records, r.id = id → r.live = true :=
      fun r hrec hid => howns.live hp hr' hr₂ hf' hrec hid
    refine ⟨?_, hlive⟩
    have hid := howns.created hp hr' hr₂ hf'
    rw [List.append_assoc, History.created_append_history, List.mem_append] at hid
    rcases hid with hold | hnew
    · rcases (hr.tended hp hf.of_prefix).kept id hold with ⟨r, hrec, rfl⟩ | hmade
      · -- a terminated sandbox stays terminated
        obtain ⟨-, r', hrec', hid', hend⟩ := (hr'.past hp hf'.of_prefix).pools m.pool
          (History.mem_pools_append h hr₁.mem_pools) r hrec
        have hdead' := hend (hdead r hrec rfl)
        rw [hlive r' hrec' hid'] at hdead'
        cases hdead'
      · exact .inl hmade
    · exact .inr (hshown hnew)
  · rintro ⟨⟨port, hmade⟩ | ⟨k, hk, hanswer⟩, hlive⟩
    · have hold := (hr.books hp hf.of_prefix).named.made_created hmade
      refine hkept ?_ hlive
      rw [History.created_append_history]
      exact List.mem_append_left _ hold
    · rw [History.answer?_append] at hanswer
      rcases hr₁.creating hr.ordered_ofPool hk with ⟨hnone, hwaits⟩ | ⟨r, hreply, hsoon⟩
      · rw [hnone, Option.none_or] at hanswer
        exact .inr (.inr ⟨k, hwaits, hanswer⟩)
      · rw [hreply] at hanswer
        cases r with
        | error e => cases hanswer
        | ok id' =>
          cases hanswer
          refine hkept ?_ hlive
          rw [History.created_append_history]
          exact List.mem_append_right _ (hsoon _ rfl)

end Machine

/-! ## Lists that show what is there -/

namespace History

/-- The daemon lists only containers that are there: a container that a start of the pool gets is shown
only when the daemon has created it, or has been asked to. -/
def Shows : History → Prop
  | [] => True
  | x :: later =>
    (∀ c ∈ x.2.listing, c.id ∈ created (x :: later) → ∃ y ∈ x.1.posts, x.1.creating y.1 = true ∧
      (answer? (x :: later) y.1).bind (·.created?) = some c.id) ∧ Shows later

instance decidableShows : (h : History) → Decidable h.Shows
  | [] => inferInstanceAs (Decidable True)
  | x :: later =>
    have : Decidable (Shows later) := decidableShows later
    inferInstanceAs (Decidable ((∀ c ∈ x.2.listing, c.id ∈ created (x :: later) → ∃ y ∈ x.1.posts,
      x.1.creating y.1 = true ∧ (answer? (x :: later) y.1).bind (·.created?) = some c.id) ∧
      Shows later))

theorem Shows.of_append {h₁ h₂ : History} (h : (h₁ ++ h₂).Shows) : h₂.Shows := by
  induction h₁ with
  | nil => exact h
  | cons x rest ih => exact ih h.2

end History

end SandboxPool
