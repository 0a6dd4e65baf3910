import SandboxPool.Proofs.HandedOut
import SandboxPool.Proofs.Machine.Borrowers
import SandboxPool.Proofs.Machine.Probes
import SandboxPool.Proofs.Pool.Tallies
import SandboxPool.Proofs.Settled

/-!
# Counts of the shared sandbox

Where blocks share a sandbox, its record counts those who have acquired it and have not released it, in
every interleaving: the first who needs a sandbox starts one behind a gate, while releases, terminations
and teardowns pass it by, so that a sandbox may end and another one take its place while it still has
holders.

The holders of sandboxes are its users (`Machine.holders_users`), and every move keeps the tally of the
users (`Machine.Reaches.tallied`).
-/

namespace SandboxPool

variable {config : Config} {block id : String}

/-! ## Holders and users -/

/-- What nobody uses is not held. -/
theorem Hand.holding?_eq_nil {l : List Hand} (h : ∀ t ∈ l, t.uses = false) :
    l.filterMap holding? = [] := by
  refine List.filterMap_eq_nil_iff.2 fun t ht => ?_
  have huses := h t ht
  cases t with
  | holding id block => cases huses
  | _ => rfl

/-- Where blocks share a sandbox, a block holds the sandbox that it uses. -/
theorem BlockRun.held_uses {b : Point} (hb : b.Fits .single) (out : Bool) :
    ((hand block out b).filterMap Hand.holding?).map (·.1) = b.uses?.toList := by
  cases b with
  | acquire since a =>
    rw [hand, Hand.holding?_eq_nil (Acquire.hand_uses out a)]
    rfl
  | retire since sandbox ending t =>
    rw [hand, List.filterMap_append,
      Hand.holding?_eq_nil (Termination.hand_uses (fun _ ht => by cases ht) t)]
    rfl
  | release ran id r =>
    cases r with
    | drop => rfl
    | _ => cases hb
  | _ => rfl

/-- Where blocks share a sandbox, a post holds the sandbox that it uses. -/
theorem Post.held_uses {x : Post} (hx : x.Fits .single) :
    (x.hand.filterMap Hand.holding?).map (·.1) = x.uses?.toList := by
  have hnil : ∀ {l : List Hand}, (∀ t ∈ l, t.uses = false) →
      (l.filterMap Hand.holding?).map (·.1) = [] := by
    intro l hl
    rw [Hand.holding?_eq_nil hl]
    rfl
  cases x with
  | acquire block s =>
    cases s with
    | done r => cases r <;> rfl
    | ready a => exact hnil (Acquire.hand_uses false a)
    | waiting a => exact hnil (Acquire.hand_uses true a)
    | panicked message => rfl
  | release id s =>
    rw [Post.holding_release]
    rfl
  | terminate id s =>
    exact hnil (s.hand_uses (fun _ => Termination.hand_uses (by simp)) fun _ _ _ ht => by cases ht)
  | spawn s => exact hnil (s.hand_uses Spawn.hand_uses fun _ _ _ ht => by cases ht)
  | execute plan s =>
    have hpoint : ∀ {out : Bool} {point : Execution.Point}, point.Fits .single →
        ((Execution.hand out point).filterMap Hand.holding?).map (·.1) = point.uses?.toList := by
      intro out point hfits
      cases point with
      | solo progress block b => exact BlockRun.held_uses hfits out
      | _ => rfl
    cases s with
    | ready point => exact hpoint hx
    | waiting point => exact hpoint hx
    | _ => rfl
  | duty s =>
    have hduty : ∀ {out : Bool} {d : Execution.Duty}, d.Fits .single →
        ((d.hand out).filterMap Hand.holding?).map (·.1) = d.uses?.toList := by
      intro out d hfits
      cases d with
      | run block b => exact BlockRun.held_uses hfits out
      | terminate id t => exact hnil (Termination.hand_uses (by simp) t)
    cases s with
    | ready d => exact hduty hx
    | waiting d => exact hduty hx
    | _ => rfl
  | _ => rfl

theorem Leaf.eq_of_joins? {l : Leaf} (h : l.joins? = some id) :
    ∃ block, l = .acquire block (.join id) := by
  cases l with
  | acquire block a =>
    cases a <;> cases h
    exact ⟨block, rfl⟩
  | _ => cases h

theorem Leaf.eq_of_drops? {l : Leaf} (h : l.drops? = some id) : l = .release id .drop := by
  cases l with
  | release id' r =>
    cases r <;> cases h
    rfl
  | _ => cases h

/-- Whoever is about to join a sandbox acquires it. -/
theorem Tender.eq_of_join {t : Tender} (h : t.leaf = .acquire block (.join id)) :
    t = .acquire block (.join id) := by
  cases t with
  | spawn job s => cases s <;> cases h
  | acquire name a =>
    cases a with
    | cold s => cases s <;> cases h
    | shared s => cases s <;> cases h
    | _ => cases h <;> rfl
  | release id' r => cases r <;> cases h

namespace Machine

variable {seed : BitVec 128} {pool : Pool} {now : Instant} {h : History} {m m' : Machine}
  {move : Move} {notes : List Note} {owner : Nat → Nat} {k : Key}

/-- Where blocks share a sandbox, the holders are the users. -/
theorem holders_users (hfits : ∀ k x, (k, x) ∈ m.posts → x.Fits .single) :
    (m.holders owner).map (·.id) = m.users owner := by
  have hone : ∀ x ∈ m.posts, ((x.2.hand.map fun t => (x.1, t)).filterMap fun y =>
      if m.gaveBack owner y.1.1 then none else y.2.holding?.map (·.1)) = (m.uses? owner x).toList := by
    rintro ⟨k, x⟩ hx
    rw [List.filterMap_map]
    unfold uses?
    cases hg : m.gaveBack owner k.1 with
    | true => simp [hg]
    | false =>
      simp only [Function.comp_def, hg, Bool.false_eq_true, if_false]
      rw [← Post.held_uses (hfits k x hx), List.map_filterMap]
  have hposts : ∀ l : List (Key × Post), (∀ x ∈ l, x ∈ m.posts) →
      (SandboxPool.hands l).filterMap (fun y =>
        if m.gaveBack owner y.1.1 then none else y.2.holding?.map (·.1))
        = l.filterMap (m.uses? owner) := by
    intro l hl
    induction l with
    | nil => rfl
    | cons x l ih =>
      rw [hands_cons, List.filterMap_append, hone x (hl x (List.mem_cons_self ..)),
        ih fun y hy => hl y (List.mem_cons_of_mem _ hy), List.filterMap_cons]
      cases m.uses? owner x <;> rfl
  unfold holders users
  rw [List.map_filterMap, ← hposts m.posts fun _ hx => hx]
  refine List.filterMap_congr fun y _ => ?_
  cases m.gaveBack owner y.1.1 with
  | true => rfl
  | false => cases y.2.holding? <;> rfl

/-! ## The tally -/

section Single

variable (hp : Pool.create config seed = .ok pool) (hsingle : config.parallelism = .single)
  (hr : (ofPool pool now).Reaches h m)
include hp hsingle hr

theorem Reaches.fits_single {x : Post} (hx : (k, x) ∈ m.posts) : x.Fits .single := by
  obtain ⟨-, rfl⟩ := create_eq_ok_iff.1 hp
  exact hsingle ▸ hr.fits hx

variable (hf : h.Fresh) (hd : h.Disciplined owner)
include hf

/-- What a move does to the records, for the leaf that takes its turn. -/
theorem Reaches.passes_single (hn : m.next move = some (m', notes)) : ∃ (l : Leaf) (e : List Event),
    l.Passes m.pool m'.pool e ∧ (∀ id, l.enters? = some id → ∀ r ∈ m.pool.records, r.id ≠ id) ∧
      (∀ id, l ≠ .release id .park) ∧
      ∀ id, l.joins? = some id → ∀ r ∈ m.pool.records, r.id = id →
        m.pool.Doomed r.id ∨ r.state = .idle ∨ r.state = .running := by
  have ho := hr.ordered_ofPool
  rcases next_effects ho hn with ⟨hpool, -, -⟩ | ⟨l, out, sig, result, hl, hturn, -, hleaf⟩
  · -- a move that changes no record is one of any leaf that changes none
    refine ⟨.prewarm 0 .gate, [], ?_, fun _ hid => ?_, fun _ he => ?_, fun _ hid => ?_⟩
    · rw [hpool]
      exact Leaf.passes_silent rfl
    · cases hid
    · cases he
    · cases hid
  · have hpark : ∀ id, l ≠ .release id .park := by
      rintro id rfl
      rcases hleaf with hleaf | ⟨_, _, he⟩
      · obtain ⟨x, hx, hxl⟩ := mem_of_leaf? hleaf
        cases (hr.fits_single hp hsingle hx).leaf hxl
      · cases he
    refine ⟨l, _, Leaf.passes hl hturn fun id he => absurd he (hpark id), fun id hid r hrec => ?_,
      hpark, fun id hid r hrec he => ?_⟩
    · rcases hleaf with hleaf | ⟨_, _, rfl⟩
      · obtain ⟨port, hmade⟩ := made_of_enters hleaf hid
        exact (hr.books hp hf).named.ne_of_made hmade hrec
      · cases hid
    · rcases hleaf with hleaf | ⟨_, _, rfl⟩
      · obtain ⟨x, hx, hxl⟩ := mem_of_leaf? hleaf
        obtain ⟨block, rfl⟩ := Leaf.eq_of_joins? hid
        obtain ⟨t, ht, htl⟩ := Post.tender?_of_leaf? hxl rfl
        exact hr.state_of_join hp hx (Post.acquiring?_of_tender? (t.eq_of_join htl ▸ ht)) hrec
      · cases hid

include hd

/-- **Every move keeps the tally.** -/
theorem Reaches.tallied : m.pool.Tallied (m.users owner) := by
  induction hr with
  | start =>
    obtain ⟨-, rfl⟩ := create_eq_ok_iff.1 hp
    refine ⟨fun id hid => ?_, fun r hrec => ?_, fun r hrec => ?_⟩
    · cases hid
    · cases hrec
    · cases hrec
  | next hr hn ih =>
    have hfresh := History.fresh_of_append hf
    obtain ⟨o, o', rest, hbefore, hbehind, hshares⟩ := hr.passed hp hfresh hd.of_append hn
    rw [hsingle] at hshares
    obtain ⟨l, e, hpasses, hnew, hpark, hjoin⟩ := hr.passes_single hp hsingle hfresh hn
    have hturn := ((ih hfresh hd.of_append).perm hbefore).turn (hr.capped hp).distinct
      (hr.tended hp hfresh).busy (fun _ => hr.doomed_next hp hfresh hn) hnew hpark hjoin hshares hpasses
    exact hturn.perm hbehind.symm

end Single

/-- **The count of the shared sandbox is exact.** Where blocks share a sandbox, in every interleaving of
operations on a new pool and whatever the daemon answers as long as it gives out no identity twice: if
callers give back only what they have acquired, and no acquisition twice, then at the end of every scope

* at most one sandbox is live;
* a live sandbox whose termination has not begun counts just those who hold it, has a block exactly if
  it counts any, and runs as long as it does;
* two holders hold the same sandbox, unless somebody has begun to terminate that of one of them;
* a release of a sandbox that is not live changes nothing, and no event tells of it;
* no sandbox is paused, and nobody wants to pause, unpause or probe one, or has ever done so. -/
theorem shared_counts {config : Config} {seed : BitVec 128} {pool : Pool} {now : Instant}
    {h : History} {m : Machine} {owner : Nat → Nat} (hp : Pool.create config seed = .ok pool)
    (hsingle : config.parallelism = .single) (hr : (ofPool pool now).Reaches h m) (hf : h.Fresh)
    (hd : h.Disciplined owner) :
    m.pool.liveRecords.length ≤ 1 ∧
    (∀ r ∈ m.pool.records, r.live = true → m.pool.claim? r.id ≠ some .terminating →
      r.binders = ((m.holders owner).map (·.id)).count r.id ∧
        (r.block.isSome = true ↔ 0 < r.binders) ∧ (0 < r.binders → r.state = .running)) ∧
    (∀ x ∈ m.holders owner, ∀ y ∈ m.holders owner,
      (∀ q ∈ h.pools m, q.claim? x.id ≠ some .terminating) →
      (∀ q ∈ h.pools m, q.claim? y.id ≠ some .terminating) → x.id = y.id) ∧
    (∀ move m' notes id, m.next move = some (m', notes) →
      m.leaf? (m.mover move) = some (.release id .drop) →
      (∀ r ∈ m.pool.records, r.id = id → r.live = false) →
      m'.pool = m.pool ∧ notes.filterMap (·.event?) = []) ∧
    (∀ r ∈ m.pool.records, r.state ≠ .dormant) ∧
    (∀ k l call, m.leaf? k = some l → (l.demand m.pool.config).ask? = some (.daemon call) →
      call.exclusive = false) ∧
    ∀ call, .sent (.daemon call) ∈ h.signals → call.exclusive = false := by
  have hpool : pool.config.parallelism = .single ∧ pool.records = [] := by
    obtain ⟨-, rfl⟩ := create_eq_ok_iff.1 hp
    exact ⟨hsingle, rfl⟩
  have htally := hr.tallied hp hsingle hf hd
  have hdistinct := (hr.capped hp).distinct
  have hone : m.pool.liveRecords.length ≤ 1 := by
    have hoccupancy := (hr.capped hp).occupancy
    simp only [Config.effectiveMax, hsingle] at hoccupancy
    exact Nat.le_trans (Nat.le_add_right _ _) hoccupancy
  have husers : (m.holders owner).map (·.id) = m.users owner :=
    holders_users fun k x => hr.fits_single hp hsingle
  -- a holder whose sandbox nobody has begun to terminate has a live record
  have hlive : ∀ x ∈ m.holders owner, (∀ q ∈ h.pools m, q.claim? x.id ≠ some .terminating) →
      ∃ r ∈ m.pool.liveRecords, r.id = x.id := by
    intro x hx hcalm
    obtain ⟨r, hrec, hid⟩ := htally.recorded x.id (husers ▸ List.mem_map_of_mem hx)
    refine ⟨r, List.mem_filter.2 ⟨hrec, ?_⟩, hid⟩
    cases hl : r.live with
    | true => rfl
    | false =>
      obtain ⟨q, hq, hclaim⟩ := hr.claimed_of_ended hp hf hrec hl
      exact absurd (hid ▸ hclaim) (hcalm q hq)
  refine ⟨hone, fun r hrec hl hcalm => ?_, fun x hx y hy hcx hcy => ?_,
    fun move m' notes id hn hleaf hdead => ?_, hr.awake hpool.1 hpool.2,
    fun k l call hl ha => hr.ask_shared hpool.1 hl ha, fun call hc => hr.signals_shared hpool.1 hc⟩
  · rw [husers]
    obtain ⟨hcount, hblock⟩ := htally.counts r hrec hl
    refine ⟨hcount, hblock, fun hpos => (htally.running r hrec hpos).resolve_right fun hdoomed => ?_⟩
    rcases (hdistinct.doomed_iff hrec).1 hdoomed with hend | hclaim
    · rw [hl] at hend
      cases hend
    · exact hcalm hclaim
  · obtain ⟨rx, hrx, hidx⟩ := hlive x hx hcx
    obtain ⟨ry, hry, hidy⟩ := hlive y hy hcy
    obtain ⟨r, hlist⟩ := List.length_eq_one_iff.1
      (Nat.le_antisymm hone (List.length_pos_of_mem hrx))
    rw [hlist] at hrx hry
    rw [← hidx, ← hidy, List.mem_singleton.1 hrx, List.mem_singleton.1 hry]
  · rcases next_leaf hr.ordered_ofPool hn with hs | ⟨l, sig, r, ⟨e, hturn, hevents⟩, -, -, -, -, hl⟩
    · exact ⟨hs.pool, hs.events⟩
    · rw [hleaf] at hl
      rcases hl with hl | ⟨hl, -⟩
      · obtain rfl := Option.some.inj hl
        obtain ⟨-, -, heq⟩ := Demand.turn_scope hturn
        have hdrop : Release.drop id m.pool = ⟨m.pool, [], (Release.drop id m.pool).result⟩ := by
          unfold Release.drop
          cases hfind : m.pool.find? id with
          | none => rfl
          | some r =>
            obtain ⟨hrec, hid⟩ := Pool.mem_of_find? hfind
            simp [hdead r hrec hid]
        have heq' : (⟨m'.pool, e, r⟩ : Scope (Option Unit))
            = ((Release.drop id m.pool).map fun _ => ()).map some := heq
        rw [hdrop] at heq'
        obtain ⟨hpool, rfl, -⟩ := Scope.mk.inj heq'
        exact ⟨hpool, hevents⟩
      · cases hl

/-- Two blocks share a sandbox, while the caller of another one still holds the sandbox that was
terminated before it; then that caller releases it. -/
theorem shared_counts_replaced :
    let config : Config := { image := "img", parallelism := .single }
    ∃ pool h m m' notes, Pool.create config 0 = .ok pool ∧ config.parallelism = .single ∧
      (ofPool pool 0).Reaches h m ∧ h.Fresh ∧ h.Disciplined (fun _ => 0) ∧
      (m.holders fun _ => 0).map (·.id) = ["c1", "c2", "c2"] ∧
      (∃ r ∈ m.pool.records, r.id = "c2" ∧ r.binders = 2 ∧ r.state = .running) ∧
      m.next (.step 4 0) = some (m', notes) ∧ m'.pool = m.pool := by
  intro config
  let moves : List Move := [.order (.acquire "a"), .step 0 0, .step 0 0, .step 0 0, .step 0 0,
    .step 0 0, .reply 0 0 (.created (.ok "c1")), .step 0 0, .step 0 0, .reply 0 0 (.acted (.ok ())),
    .step 0 0, .step 0 0, .order (.terminate "c1"), .step 1 0, .step 1 0,
    .reply 1 0 (.acted (.ok ())), .step 1 0, .reply 1 0 (.acted (.ok ())), .step 1 0,
    .order (.acquire "b"), .step 2 0, .step 2 0, .step 2 0, .step 2 0, .step 2 0,
    .reply 2 0 (.created (.ok "c2")), .step 2 0, .step 2 0, .reply 2 0 (.acted (.ok ())), .step 2 0,
    .step 2 0, .order (.acquire "c"), .step 3 0, .step 3 0, .step 3 0, .order (.release "c1")]
  have hp : Pool.create config 0 = .ok (.ofConfig config 0) :=
    create_eq_ok_iff.2 ⟨by decide +kernel, rfl⟩
  have hrun : ((ofPool (.ofConfig config 0) 0).trace moves).any (fun x =>
      x.1.Fresh ∧ x.1.Disciplined (fun _ => 0) ∧
        (x.2.holders fun _ => 0).map (·.id) = ["c1", "c2", "c2"] ∧
        (∃ r ∈ x.2.pool.records, r.id = "c2" ∧ r.live = true ∧
          x.2.pool.claim? r.id ≠ some .terminating) ∧
        (∀ r ∈ x.2.pool.records, r.id = "c1" → r.live = false) ∧
        (x.2.next (.step 4 0)).isSome = true ∧
        (x.2.leaf? (x.2.mover (.step 4 0))).any (fun l => l.drops? = some "c1") = true) = true := by
    decide +kernel
  obtain ⟨x, ht, hx⟩ := (Option.any_eq_true _ _).1 hrun
  obtain ⟨hf, hd, hholders, ⟨r, hrec, hid, hl, hcalm⟩, hdead, hnext, hleaf⟩ := of_decide_eq_true hx
  have hr := reaches_of_trace ht
  obtain ⟨-, hcounts, -, hdrops, -⟩ := shared_counts hp rfl hr hf hd
  obtain ⟨hbinders, -, hrunning⟩ := hcounts r hrec hl hcalm
  rw [hholders, hid] at hbinders
  have htwo : r.binders = 2 := hbinders
  obtain ⟨⟨m', notes⟩, hn⟩ := Option.isSome_iff_exists.1 hnext
  obtain ⟨l, hl, hdrop⟩ := (Option.any_eq_true _ _).1 hleaf
  obtain ⟨hpool, -⟩ := hdrops _ m' notes "c1" hn
    (hl.trans (congrArg some (Leaf.eq_of_drops? (of_decide_eq_true hdrop)))) hdead
  exact ⟨_, x.1, x.2, m', notes, hp, rfl, hr, hf, hd, hholders,
    ⟨r, hrec, hid, htwo, hrunning (by omega)⟩, hn, hpool⟩

end Machine

end SandboxPool
