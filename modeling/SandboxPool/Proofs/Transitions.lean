import SandboxPool.Proofs.Coherence
import SandboxPool.Proofs.Machine.Calls
import SandboxPool.Proofs.Pool.Passages

/-!
# Transitions replay the pool

Whoever follows the transition events of a sandbox knows its state: they form a chain from its first
state on, along the table of states, and each tells the block that is bound to the record behind it.

* `Pool.Tells`: what the transitions of a sandbox in one scope tell of it.
* `State.replay` follows a chain of transitions from a state on.
-/

namespace SandboxPool

variable {config : Config} {seed : BitVec 128} {pool p q : Pool} {now : Instant} {h h₁ h₂ : History}
  {m m₁ m' : Machine} {move : Move} {notes : List Note} {l : Leaf} {e : List Event} {r r' : Record}
  {id : String}

/-! ## Chains of transitions -/

/-- What an event tells of a sandbox: the state that it left, the one that it came to, and its block. -/
structure Transition where
  source : State
  target : State
  block : Option String
  deriving Repr, DecidableEq

/-- What the event tells of a sandbox, if it is about that one. -/
def Event.transition? (id : String) : Event → Option Transition
  | transition id' source target block => if id' = id then some ⟨source, target, block⟩ else none
  | _ => none

/-- The state that transitions lead to, if each of them goes on from the state that the one before has
come to, and to a state that may follow. -/
def State.replay (s : State) : List Transition → Option State
  | [] => some s
  | t :: rest => if t.source = s ∧ s.admits t.target = true then t.target.replay rest else none

theorem State.replay_append (s : State) (ts us : List Transition) :
    s.replay (ts ++ us) = (s.replay ts).bind fun t => t.replay us := by
  induction ts generalizing s with
  | nil => rfl
  | cons t rest ih =>
    simp only [List.cons_append, replay]
    split
    · exact ih _
    · rfl

/-- No transition leads back to the first state. -/
theorem State.eq_nil_of_replay {s : State} {ts : List Transition}
    (h : s.replay ts = some .starting) : ts = [] := by
  induction ts generalizing s with
  | nil => rfl
  | cons t rest ih =>
    simp only [replay] at h
    split at h
    · next hgoes =>
      obtain rfl := ih h
      have htarget : t.target = .starting := Option.some.inj h
      have hadmits := hgoes.2
      rw [htarget] at hadmits
      cases s <;> cases hadmits
    · cases h

/-- The transitions of a sandbox that were published. -/
def History.transitions (h : History) (id : String) : List Transition :=
  h.events.filterMap (·.transition? id)

theorem History.transitions_append : (h₁ ++ h₂).transitions id
    = h₁.transitions id ++ h₂.transitions id := by
  unfold transitions events
  rw [List.flatMap_append, List.filterMap_append]

theorem History.transitions_of_next (hn : m.next move = some (m', notes)) :
    History.transitions [(m, move)] id
      = (notes.filterMap (·.event?)).filterMap (·.transition? id) := by
  unfold transitions
  rw [show History.events [(m, move)] = _ from events_append (h := []) hn]
  rfl

/-! ## States of a pool -/

namespace Pool

/-- The state of a sandbox. One without a record has not got any further than to its first state. -/
def state (p : Pool) (id : String) : State := (p.find? id).elim .starting (·.state)

theorem Distinct.state_of_mem (hd : p.Distinct) (hr : r ∈ p.records) : p.state r.id = r.state := by
  unfold state
  rw [hd.find?_of_mem hr]
  rfl

theorem state_of_unknown (h : ∀ r ∈ p.records, r.id ≠ id) : p.state id = .starting := by
  unfold state
  rw [find?_eq_none.2 h]
  rfl

/-- The state of a sandbox that keeps its record. -/
theorem Distinct.state_congr (hd : q.Distinct)
    (h : ∀ r, r.id = id → (r ∈ p.records ↔ r ∈ q.records)) : q.state id = p.state id := by
  cases hf : p.find? id with
  | none =>
    have hnone := find?_eq_none.1 hf
    rw [state_of_unknown hnone, state_of_unknown fun r hr hid => hnone r ((h r hid).2 hr) hid]
  | some r =>
    obtain ⟨hr, rfl⟩ := mem_of_find? hf
    rw [hd.state_of_mem ((h r rfl).1 hr)]
    unfold state
    rw [hf]
    rfl

/-- What the transitions of a sandbox in one scope tell of it. -/
inductive Tells (p q : Pool) (id : String) : List Transition → Prop where
  /-- Its state stays. -/
  | stays (hs : q.state id = p.state id) : Tells p q id []
  /-- It comes to a state, with the block that its record has then. -/
  | goes {r r' : Record} (hr : r ∈ p.records) (hr' : r' ∈ q.records) (hid : r.id = id)
      (hid' : r'.id = id) (ha : r.state.admits r'.state = true) :
      Tells p q id [⟨r.state, r'.state, r'.block⟩]
  /-- It becomes idle, where its record has no block, and runs one at once. -/
  | binds {r idle r' : Record} (hr : r ∈ p.records) (hr' : r' ∈ q.records) (hid : r.id = id)
      (hid' : r'.id = id) (hmove : r.move .idle = .ok idle) (hfree : idle.block = none)
      (hs : r'.state = .running) :
      Tells p q id [⟨r.state, .idle, idle.block⟩, ⟨.idle, .running, r'.block⟩]

/-- The transitions of a scope lead from the state before it to the one behind it. -/
theorem Tells.replay {ts : List Transition} (h : p.Tells q id ts) (hd : p.Distinct)
    (hd' : q.Distinct) : (p.state id).replay ts = some (q.state id) := by
  cases h with
  | stays hs => rw [hs]; rfl
  | goes hr hr' hid hid' ha =>
    subst hid
    rw [hd.state_of_mem hr, ← hid', hd'.state_of_mem hr']
    simp [State.replay, ha]
  | binds hr hr' hid hid' hmove hfree hs =>
    subst hid
    rw [hd.state_of_mem hr, ← hid', hd'.state_of_mem hr', hs]
    have ha := (Record.move_eq_ok_iff.1 hmove).1
    have hrun : State.idle.admits .running = true := rfl
    simp [State.replay, ha, hrun]

end Pool

/-! ## Turns -/

namespace Event

theorem transition?_of_not_ofSandbox {x : Event} (h : x.ofSandbox = false) :
    x.transition? id = none := by
  cases x with
  | transition => cases h
  | _ => rfl

end Event

theorem Record.transition?_arrived {source : State} (hid : r.id = id) :
    (r.arrived source).transition? id = some ⟨source, r.state, r.block⟩ := if_pos hid

namespace Leaf

/-- All events of a passage are about the sandbox of the record. -/
theorem Passage.others (h : l.Passage r e r') (hne : id ≠ r.id) :
    e.filterMap (·.transition? id) = [] := by
  have hother : ∀ (s : Record) (source : State), s.id = r.id →
      (s.arrived source).transition? id = none := by
    intro s source hs
    exact if_neg fun he => hne (he.symm.trans hs)
  refine List.filterMap_eq_nil_iff.2 fun x hx => ?_
  cases h with
  | keep => cases hx
  | publish ha =>
    obtain rfl := List.mem_singleton.1 hx
    exact hother _ _ rfl
  | bind hl ha hid hs =>
    rcases List.mem_cons.1 hx with rfl | hx
    · exact hother _ _ rfl
    · obtain rfl := List.mem_singleton.1 hx
      exact hother _ _ hid
  | take hl hi hid hs =>
    obtain rfl := List.mem_singleton.1 hx
    exact hother _ _ hid
  | park hl hi hid hs =>
    obtain rfl := List.mem_singleton.1 hx
    exact hother _ _ hid
  | settle hl hid hs hb hn =>
    obtain rfl := List.mem_singleton.1 hx
    exact hother _ _ hid
  | enter hl hi block =>
    obtain rfl := List.mem_singleton.1 hx
    exact if_neg fun he => hne he.symm
  | join => cases hx
  | drop => cases hx

/-- The events of a passage tell what becomes of the state of the record. -/
theorem Passage.tells (h : l.Passage r e r') (hr : r ∈ p.records) (hr' : r' ∈ q.records)
    (hd : p.Distinct) (hd' : q.Distinct)
    (hfree : l.binds = true → r.state.admits .idle = true → r.block = none) :
    p.Tells q r.id (e.filterMap (·.transition? r.id)) := by
  have hstays : r'.id = r.id → r'.state = r.state → p.Tells q r.id [] := by
    intro hid hs
    refine .stays ?_
    rw [hd.state_of_mem hr, ← hid, hd'.state_of_mem hr', hs]
  have hgoes : r'.id = r.id → r.state.admits r'.state = true →
      p.Tells q r.id ([r'.arrived r.state].filterMap (·.transition? r.id)) := by
    intro hid ha
    rw [List.filterMap_cons_some (Record.transition?_arrived hid)]
    exact .goes hr hr' rfl hid ha
  cases h with
  | keep hid hs => exact hstays hid hs
  | publish ha => exact hgoes rfl ha
  | bind hl ha hid hs =>
    rw [List.filterMap_cons_some (Record.transition?_arrived (r := { r with state := .idle }) rfl),
      List.filterMap_cons_some (Record.transition?_arrived hid), hs]
    exact .binds hr hr' rfl hid (Record.move_of_admits ha) (hfree hl ha) hs
  | take hl hi hid hs =>
    rw [← hi]
    exact hgoes hid (by rw [hi, hs]; rfl)
  | park hl hi hid hs =>
    rw [← hi]
    exact hgoes hid (by rw [hi, hs]; rfl)
  | settle hl hid hs hb hn => exact hgoes hid (by rw [hs]; cases r.state <;> rfl)
  | enter hl hi block =>
    have h := hgoes rfl (by rw [hi]; rfl)
    rw [hi] at h
    exact h
  | join => exact hstays rfl rfl
  | drop => exact hstays rfl rfl

/-- The events of a turn tell what becomes of the state of every sandbox. -/
theorem Passes.tells (h : l.Passes p q e) (hd : p.Distinct)
    (hnew : ∀ id, l.enters? = some id → ∀ r ∈ p.records, r.id ≠ id)
    (hfree : ∀ r ∈ p.records, l.binds = true → r.state.admits .idle = true → r.block = none) :
    p.Tells q id (e.filterMap (·.transition? id)) := by
  cases h with
  | still hq he =>
    have hnone : e.filterMap (·.transition? id) = [] :=
      List.filterMap_eq_nil_iff.2 fun x hx => Event.transition?_of_not_ofSandbox (he x hx)
    rw [hnone]
    refine .stays (congrArg (Option.elim · _ _) ?_)
    unfold Pool.find?
    rw [hq]
  | @enters id' hl port now =>
    have hother := hnew id' hl
    have hd' : (p.unreserve.insert (.new id' port now)).Distinct :=
      Pool.Distinct.insert (p := p.unreserve) hd _
    have hrecords : (p.unreserve.insert (.new id' port now)).records = p.records ++ [.new id' port now] :=
      Pool.insert_records (p := p.unreserve) hother
    refine .stays ?_
    by_cases hid : id = id'
    · subst hid
      rw [Pool.state_of_unknown hother]
      exact hd'.state_of_mem (r := .new id port now) (by rw [hrecords]; simp)
    · refine hd'.state_congr fun r hr => ?_
      rw [hrecords, List.mem_append, List.mem_singleton]
      refine ⟨.inl, ?_⟩
      rintro (h | rfl)
      · exact h
      · exact absurd hr.symm hid
  | @passes _ _ r r' hr hq h =>
    have hid' : r'.id = r.id := h.id_eq
    have hd' : q.Distinct := by
      unfold Pool.Distinct
      rw [hq]
      exact hd.put r'
    by_cases hid : id = r.id
    · subst hid
      exact h.tells hr ((Pool.mem_put hq hr hid').2 (.inl rfl)) hd hd' (hfree r hr)
    · rw [h.others hid]
      refine .stays (hd'.state_congr fun x hx => ?_)
      rw [Pool.mem_put hq hr hid']
      refine ⟨fun hmem => .inr ⟨hmem, fun he => hid (hx.symm.trans he)⟩, ?_⟩
      rintro (rfl | ⟨hmem, -⟩)
      · exact absurd (hx.symm.trans hid') hid
      · exact hmem

end Leaf

/-! ## Runs -/

namespace Machine

/-- Every post is on the paths of the model of the pool, also where ends come late. -/
theorem Lags.fits (hp : Pool.create config seed = .ok pool) (hr : (ofPool pool now).Lags h m)
    (hdated : h.Dated) {k : Key} {x : Post} (hx : (k, x) ∈ m.posts) :
    x.Fits config.parallelism := by
  induction hr generalizing k x with
  | start =>
    rw [posts_ofPool] at hx
    cases hx
  | next hr hn ih =>
    obtain ⟨hbefore, -⟩ := hdated.of_append
    have ht := hr.ticking hp hbefore
    have hconfig := ht.capped.config_eq
    cases next_post ht.ordered hn hx with
    | stay hx => exact ih hbefore hx
    | order o _ hx =>
      rw [hconfig] at hx
      exact Activity.fits_ofOrder _ o _ hx
    | turn _ hold _ hturn hx =>
      rw [hconfig] at hturn
      refine hturn.fits ?_ _ hx
      rcases hold with hold | ⟨id, g, rfl⟩
      · exact ih hbefore hold
      · trivial
  | late hr hg hno hl ih =>
    obtain ⟨rfl, -⟩ := (hr.ticking hp hdated).late hno hl
    rw [posts_start] at hx
    rcases List.mem_append.1 hx with hx | hx
    · exact ih hdated hx
    · obtain ⟨y, hy, heq⟩ := List.mem_map.1 hx
      obtain rfl := List.mem_singleton.1 hy
      cases heq
      trivial

/-- The transitions of a move tell what becomes of the state of every sandbox. -/
theorem Lags.tells_next (hp : Pool.create config seed = .ok pool) (hr : (ofPool pool now).Lags h m)
    (hf : h.Fresh) (hdated : h.Dated) (hn : m.next move = some (m', notes))
    (hlast : Dated (m.effects move)) (id : String) :
    m.pool.Tells m'.pool id (History.transitions [(m, move)] id) := by
  have ht := hr.ticking hp hdated
  rw [History.transitions_of_next hn]
  rcases next_effects ht.ordered hn with
    ⟨hpool, -, hevents⟩ | ⟨l, out, sig, result, hl, hturn, hevents, hleaf⟩
  · rw [hevents, hpool]
    exact .stays rfl
  · rw [hevents]
    refine (Leaf.passes hl hturn fun _ _ => hlast).tells ht.capped.distinct (fun id' hid r hrec => ?_)
      fun r hrec hbinds hidle => ?_
    · rcases hleaf with hleaf | ⟨_, _, rfl⟩
      · obtain ⟨port, hmade⟩ := made_of_enters hleaf hid
        exact (hr.books hp hdated hf).named.ne_of_made hmade hrec
      · cases hid
    · rcases hleaf with hleaf | ⟨_, _, rfl⟩
      · obtain ⟨x, hx, hxl⟩ := mem_of_leaf? hleaf
        have hmulti := (hr.fits hp hdated hx).multi_of_binds hxl hbinds
        refine ((hr.trim hp hmulti hf hdated).coherent.records r hrec).unbound fun hs => ?_
        rw [hs] at hidle
        cases hidle
      · cases hbinds

/-- **Transitions replay the pool.** In either model, in every interleaving of operations on a new pool,
by whichever callers, where whoever carries out an end may come late, whatever the daemon answers as long
as it gives out no identity twice, and as long as the calendar covers the ends that are set:

* The transitions of a sandbox, in the order in which they were published, form a chain from its first
  state on, in which each goes on from the state that the one before has come to, and to one that may
  follow. The chain leads to the state that the record has at the end of every scope. Of a sandbox
  without a record there is none.
* Each scope tells of a sandbox just what becomes of it: nothing if its state stays, else the state that
  its record has behind the scope, with the block that is bound to it there. A scope that makes a sandbox
  idle and binds it at once tells both, the first as the record is behind that change, with no block. -/
theorem transitions_replay {config : Config} {seed : BitVec 128} {pool : Pool} {now : Instant}
    {h : History} {m : Machine} (hp : Pool.create config seed = .ok pool)
    (hr : (ofPool pool now).Lags h m) (hf : h.Fresh) (hdated : h.Dated) :
    (∀ r ∈ m.pool.records, State.starting.replay (h.transitions r.id) = some r.state) ∧
    (∀ id, (∀ r ∈ m.pool.records, r.id ≠ id) → h.transitions id = []) ∧
    ∀ h₁ m₁ move h₂, h = h₁ ++ (m₁, move) :: h₂ →
      ∃ m₂ notes, m₁.next move = some (m₂, notes) ∧
        ∀ id, m₁.pool.Tells m₂.pool id (History.transitions [(m₁, move)] id) := by
  have hreplay : ∀ {h : History} {m : Machine}, (ofPool pool now).Lags h m → h.Fresh → h.Dated →
      ∀ id, State.starting.replay (h.transitions id) = some (m.pool.state id) := by
    intro h m hr hf hdated id
    induction hr with
    | start =>
      obtain ⟨-, rfl⟩ := create_eq_ok_iff.1 hp
      rfl
    | @next h m m' move notes hr hn ih =>
      obtain ⟨hbefore, hlast⟩ := hdated.of_append
      have hfresh := History.fresh_of_append hf
      have hdistinct := (hr.ticking hp hbefore).capped.distinct
      have hdistinct' := ((hr.next hn).ticking hp hdated).capped.distinct
      have htells := hr.tells_next hp hfresh hbefore hn (hlast _ (List.mem_singleton_self _)) id
      rw [History.transitions_append, State.replay_append, ih hfresh hbefore, Option.bind_some]
      exact htells.replay hdistinct hdistinct'
    | late hr hg hno hl ih =>
      obtain ⟨rfl, -⟩ := (hr.ticking hp hdated).late hno hl
      exact ih hf hdated
  refine ⟨fun r hrec => ?_, fun id hno => ?_, ?_⟩
  · rw [hreplay hr hf hdated, (hr.ticking hp hdated).capped.distinct.state_of_mem hrec]
  · refine State.eq_nil_of_replay (s := .starting) ?_
    rw [hreplay hr hf hdated, Pool.state_of_unknown hno]
  · rintro h₁ m₁ move h₂ rfl
    obtain ⟨m₂, notes, hbefore, hn, -⟩ := hr.split
    obtain ⟨hdated₁, hrest⟩ := hdated.of_append
    exact ⟨m₂, notes, hn, hbefore.tells_next hp hf.of_prefix hdated₁ hn (hrest _ (List.mem_cons_self ..))⟩

/-- A sandbox is started for a block, parked, woken for another block, and terminated. -/
theorem transitions_replay_life :
    let config : Config := { image := "img" }
    ∃ pool h m, Pool.create config 0 = .ok pool ∧ (ofPool pool 0).Lags h m ∧ h.Fresh ∧ h.Dated ∧
      h.transitions "s" = [⟨.starting, .idle, none⟩, ⟨.idle, .running, some "a"⟩,
        ⟨.running, .dormant, none⟩, ⟨.dormant, .idle, none⟩, ⟨.idle, .running, some "b"⟩,
        ⟨.running, .terminated, none⟩] ∧
      ∃ r ∈ m.pool.records, r.id = "s" ∧ r.state = .terminated := by
  intro config
  let moves : List Move := [.order (.acquire "a"), .step 0 0, .step 0 0, .step 0 0,
    .reply 0 0 (.created (.ok "s")), .step 0 0, .step 0 0, .reply 0 0 (.acted (.ok ())), .step 0 0,
    .reply 0 0 (.acted (.ok ())), .step 0 0,
    .order (.release "s"), .step 1 0, .step 1 0, .reply 1 0 (.acted (.ok ())), .step 1 0,
    .order (.acquire "b"), .step 2 0, .step 2 0, .reply 2 0 (.acted (.ok ())), .step 2 0,
    .reply 2 0 (.acted (.ok ())), .step 2 0,
    .order (.terminate "s"), .step 3 0, .step 3 0, .reply 3 0 (.acted (.ok ())), .step 3 0,
    .reply 3 0 (.acted (.ok ())), .step 3 0]
  have hp : Pool.create config 0 = .ok (.ofConfig config 0) :=
    create_eq_ok_iff.2 ⟨by decide +kernel, rfl⟩
  have hrun : ((ofPool (.ofConfig config 0) 0).trace moves).any (fun x =>
      x.1.Fresh ∧ x.1.Dated ∧ x.1.transitions "s" = [⟨.starting, .idle, none⟩,
        ⟨.idle, .running, some "a"⟩, ⟨.running, .dormant, none⟩, ⟨.dormant, .idle, none⟩,
        ⟨.idle, .running, some "b"⟩, ⟨.running, .terminated, none⟩] ∧
      ∃ r ∈ x.2.pool.records, r.id = "s") = true := by decide +kernel
  obtain ⟨x, ht, hx⟩ := (Option.any_eq_true _ _).1 hrun
  obtain ⟨hf, hdated, htransitions, r, hrec, hid⟩ := of_decide_eq_true hx
  have hr := Lags.of_reaches (reaches_of_trace ht)
  refine ⟨_, x.1, x.2, hp, hr, hf, hdated, htransitions, r, hrec, hid, ?_⟩
  have hreplay := (transitions_replay hp hr hf hdated).1 r hrec
  rw [hid, htransitions] at hreplay
  exact (Option.some.inj hreplay).symm

end Machine

end SandboxPool
