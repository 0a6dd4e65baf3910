import SandboxPool.Proofs.Machine.Calls
import SandboxPool.Proofs.Machine.Tenders
import SandboxPool.Proofs.Ownership
import SandboxPool.Proofs.Pool.Wakers

/-!
# Custody

Where every block has a sandbox of its own, a sandbox that is not doomed is in the custody of one
process at most: the spawn that starts it, the acquisition that wakes it, or the release that pauses it
(`Machine.Reaches.custody_unique`). Its state tells which of them it is: a sandbox that is started is in
its first state, one that is woken is paused and claimed, and one that is released runs
(`Machine.Reaches.custody`). So nobody has an idle sandbox in custody, nor a paused one that is free.

These meet only through the record and its claim: a spawn has got its sandbox from the daemon, a wake has
claimed it, and a release has it from the one block that holds it.
-/

namespace SandboxPool

variable {config : Config} {id block : String} {out : Bool}

/-- What is done with a sandbox in custody. -/
inductive Care where
  | start
  | wake
  | release
  deriving DecidableEq

/-- The sandbox that a spawn has in custody. -/
def Spawn.Point.charge? : Spawn.Point → Option String
  | .start id _ | .probe id _ | .publish id | .discard id _ .claim => some id
  | _ => none

/-- The sandbox that an acquisition has in custody. -/
def Acquire.Point.charge? : Acquire.Point → Option (Care × String)
  | .unpause id _ | .probe id _ | .rebind id | .failed (.wakeFailed id _) | .retire id _ .claim =>
    some (.wake, id)
  | .cold s | .shared s => s.charge?.map (.start, ·)
  | _ => none

/-- A release has its sandbox in custody until it parks it or terminates it. -/
def Release.Point.keeps : Release.Point → Bool
  | .check | .pause | .park | .discard _ .claim => true
  | _ => false

/-- The sandbox that a tender has in custody. -/
def Tender.charge? : Tender → Option (Care × String)
  | spawn _ s => s.charge?.map (.start, ·)
  | acquire _ a => a.charge?
  | release id r => if r.keeps then some (.release, id) else none

/-- The state of a sandbox in custody. -/
def Care.Fits (p : Pool) (r : Record) : Care → Prop
  | start => r.state = .starting
  | wake => r.state = .dormant ∧ p.claim? r.id = some .waking
  | release => r.state = .running

theorem Care.eq_of_fits {p : Pool} {r : Record} {c c' : Care} (h : c.Fits p r) (h' : c'.Fits p r) :
    c = c' := by
  cases c <;> cases c' <;> simp_all [Fits]

/-! ## What those have in hand who have a sandbox in custody -/

theorem Spawn.raising_of_charge {s : Point} (h : s.charge? = some id) :
    .raising id ∈ hand out s := by
  cases s with
  | discard id' error t =>
    cases t with
    | claim =>
      cases h
      exact List.mem_singleton_self _
    | _ => cases h
  | _ =>
    cases h
    try exact List.mem_singleton_self _

theorem Acquire.hand_of_charge {a : Point} {c : Care} (h : a.charge? = some (c, id)) :
    c = .start ∧ .raising id ∈ hand out a ∨ c = .wake ∧ .waking id ∈ hand out a := by
  cases a with
  | failed error =>
    cases error with
    | wakeFailed =>
      cases h
      exact .inr ⟨rfl, List.mem_singleton_self _⟩
    | _ => cases h
  | retire id' error t =>
    cases t with
    | claim =>
      cases h
      exact .inr ⟨rfl, List.mem_singleton_self _⟩
    | _ => cases h
  | cold s =>
    obtain ⟨id', hid, he⟩ := Option.map_eq_some_iff.1 h
    cases he
    exact .inl ⟨rfl, Spawn.raising_of_charge hid⟩
  | shared s =>
    obtain ⟨id', hid, he⟩ := Option.map_eq_some_iff.1 h
    cases he
    exact .inl ⟨rfl, List.mem_append_left _ (Spawn.raising_of_charge hid)⟩
  | _ =>
    cases h
    try exact .inr ⟨rfl, List.mem_singleton_self _⟩

namespace Post

variable {x : Post}

/-- A spawn by itself has in hand what a spawn has. -/
theorem hand_of_spawn_tender {job : Spawn.Job} {s : Spawn.Point}
    (h : x.tender? config = some (.spawn job s)) : ∃ out, x.hand = Spawn.hand out s := by
  obtain ⟨st, rfl, hp, -⟩ := spawn_of_tender? h
  cases st <;> cases hp
  · exact ⟨false, rfl⟩
  · exact ⟨true, rfl⟩

/-- A release is that of a caller, or that of a block, which holds the sandbox. -/
theorem of_release_tender {r : Release.Point} (h : x.tender? config = some (.release id r)) :
    (∃ s, x = .release id s ∧ s.ended = false) ∨
      x.returns? = none ∧ ∃ block, .holding id block ∈ x.hand := by
  have hblock : ∀ {name : String} {b : BlockRun.Point} {out : Bool},
      b.tender? name = some (.release id r) → .holding id name ∈ BlockRun.hand name out b := by
    intro name b out hb
    cases b <;> cases hb
    cases r <;> simp [BlockRun.hand, Release.hand]
  cases x with
  | release id' s =>
    obtain ⟨r', hr, he⟩ := Option.map_eq_some_iff.1 h
    cases he
    exact .inl ⟨s, rfl, Strand.ended_of_point? hr⟩
  | acquire block s =>
    obtain ⟨a, -, he⟩ := Option.map_eq_some_iff.1 h
    cases he
  | spawn s =>
    obtain ⟨point, -, he⟩ := Option.map_eq_some_iff.1 h
    cases he
  | execute plan s =>
    refine .inr ⟨rfl, ?_⟩
    obtain ⟨point, hp, ht⟩ := Option.bind_eq_some_iff.1 h
    cases point with
    | solo progress name b =>
      cases s with
      | ready => cases hp; exact ⟨name, hblock ht⟩
      | waiting => cases hp; exact ⟨name, hblock ht⟩
      | _ => cases hp
    | _ => cases ht
  | duty s =>
    refine .inr ⟨rfl, ?_⟩
    obtain ⟨d, hd, ht⟩ := Option.bind_eq_some_iff.1 h
    cases d with
    | run name b =>
      cases s with
      | ready => cases hd; exact ⟨name, hblock ht⟩
      | waiting => cases hd; exact ⟨name, hblock ht⟩
      | _ => cases hd
    | terminate id t => cases ht
  | _ => cases h

/-- Who tends a sandbox has not acquired one. -/
theorem acquired?_of_tender? {t : Tender} (h : x.tender? config = some t) : x.acquired? = none := by
  cases x with
  | acquire block s =>
    cases s with
    | done => cases h
    | _ => rfl
  | _ => rfl

/-- Who has a sandbox in custody has it in hand, or gives it back for its holder. -/
theorem hand_of_charge {t : Tender} {c : Care} (h : x.tender? config = some t)
    (hc : t.charge? = some (c, id)) :
    c = .start ∧ .raising id ∈ x.hand ∨ c = .wake ∧ .waking id ∈ x.hand ∨ c = .release ∧
      ((∃ s, x = .release id s ∧ s.ended = false) ∨
        x.returns? = none ∧ ∃ block, .holding id block ∈ x.hand) := by
  cases t with
  | spawn job s =>
    obtain ⟨id', hid, he⟩ := Option.map_eq_some_iff.1 hc
    cases he
    obtain ⟨out, hhand⟩ := hand_of_spawn_tender h
    exact .inl ⟨rfl, hhand ▸ Spawn.raising_of_charge hid⟩
  | acquire block a =>
    obtain ⟨out, hhand⟩ := Machine.hand_of_acquiring? (acquiring?_of_tender? h)
    rw [hhand]
    exact (Acquire.hand_of_charge hc).imp_right .inl
  | release id' r =>
    obtain ⟨-, he⟩ := Option.ite_none_right_eq_some.1 hc
    cases he
    exact .inr (.inr ⟨rfl, of_release_tender h⟩)

end Post

namespace Machine

variable {seed : BitVec 128} {pool : Pool} {now : Instant} {h : History} {m : Machine}
  {owner : Nat → Nat} {k k' : Key} {x x' : Post} {t t' : Tender} {c c' : Care} {ids : List String}

/-- Two posts with the same thing in hand are one, if nobody else has such a thing. -/
theorem key_of_hand {f : Hand → Option String} (hnodup : (m.things.filterMap f).Nodup) {t t' : Hand}
    (ht : (k, t) ∈ m.hands) (ht' : (k', t') ∈ m.hands) (hf : f t = some id) (hf' : f t' = some id) :
    k = k' := by
  rw [things, List.filterMap_map] at hnodup
  exact congrArg Prod.fst (eq_of_nodup_filterMap hnodup ht ht' (x := id) hf hf')

section Multi

variable (hp : Pool.create config seed = .ok pool) (hmulti : config.parallelism = .multi)
  (hr : (ofPool pool now).Reaches h m) (hf : h.Fresh) (hd : h.Disciplined owner)
include hp hmulti hr hf

theorem Reaches.wakeful : Wakeful m.pool m.things := by
  induction hr with
  | start =>
    obtain ⟨-, rfl⟩ := create_eq_ok_iff.1 hp
    exact ⟨List.nodup_nil, fun _ h => by cases h⟩
  | next hr hn ih =>
    have hfresh := History.fresh_of_append hf
    exact (ih hfresh).moves (hr.books hp hfresh).named (hr.woken hp hmulti hfresh)
      (next_things hr.ordered_ofPool hn)

include hd

/-- Who releases a sandbox has it from a post that holds it: its own one, or that of the acquisition
that it belongs to. -/
theorem Reaches.holder_of_release (hx : (k, x) ∈ m.posts) (ht : x.tender? pool.config = some t)
    (hc : (∃ s, x = .release id s ∧ s.ended = false) ∨
      x.returns? = none ∧ ∃ block, .holding id block ∈ x.hand) :
    ∃ k' block, (k', .holding id block) ∈ m.hands ∧ m.gaveBack owner k'.1 = false ∧
      (k' = k ∧ x.returns? = none ∨ k' = (owner k.1, 0) ∧ x.returns? = some id) := by
  have ho := hr.ordered_ofPool
  have hy := (hr.orderly hp hmulti hf hd).returns
  rcases hc with ⟨s, rfl, hs⟩ | ⟨hreturns, block, hholds⟩
  · obtain ⟨-, ⟨k', y⟩, hym, rfl, hacq⟩ := hy _ hx id rfl
    obtain ⟨block, hhand⟩ := Post.hand_of_acquired? hacq
    refine ⟨_, block, mem_hands.2 ⟨y, hym, ?_⟩, hy.release_open ho hd.once hx hs, .inr ⟨rfl, rfl⟩⟩
    rw [hhand]
    exact List.mem_singleton_self _
  · exact ⟨k, block, mem_hands.2 ⟨x, hx, hholds⟩, hy.kept ho hx (Post.acquired?_of_tender? ht),
      .inl ⟨rfl, hreturns⟩⟩

/-- **The state of a sandbox in custody tells what is done with it**, unless it is doomed. -/
theorem Reaches.custody (hx : (k, x) ∈ m.posts) (ht : x.tender? pool.config = some t)
    (hc : t.charge? = some (c, id)) (halive : ¬ m.pool.Doomed id) :
    ∃ r ∈ m.pool.records, r.id = id ∧ r.live = true ∧ c.Fits m.pool r := by
  have hdistinct := (hr.books hp hf).named.distinct
  have hwoken := hr.woken hp hmulti hf
  have hthing : ∀ {t : Hand}, t ∈ x.hand → t ∈ m.things := fun ht =>
    List.mem_map.2 ⟨_, mem_hands.2 ⟨x, hx, ht⟩, rfl⟩
  have hlive : ∀ r ∈ m.pool.records, r.id = id → r.live = true := by
    rintro r hrec rfl
    cases hl : r.live with
    | true => rfl
    | false => exact absurd ((hdistinct.doomed_iff hrec).2 (.inl hl)) halive
  rcases Post.hand_of_charge ht hc with ⟨rfl, hhand⟩ | ⟨rfl, hhand⟩ | ⟨rfl, hgives⟩
  · obtain ⟨r, hrec, hid, hstarting | hend⟩ :=
      hwoken.raising id (List.mem_filterMap.2 ⟨_, hthing hhand, rfl⟩)
    · exact ⟨r, hrec, hid, hlive r hrec hid, hstarting⟩
    · rw [hlive r hrec hid] at hend
      cases hend
  · have hclaim := ((hr.wakeful hp hmulti hf).claim id
      (Wakeful.mem_waking.2 (hthing hhand))).resolve_left halive
    obtain ⟨r, hrec, rfl, hdormant⟩ := hwoken.claim id hclaim
    exact ⟨r, hrec, rfl, hlive r hrec rfl, hdormant, hclaim⟩
  · obtain ⟨k', block, hheld, hkept, -⟩ := hr.holder_of_release hp hmulti hf hd hx ht hgives
    have howned := (hr.orderly hp hmulti hf hd).held
    obtain ⟨r, hrec, hid, ⟨hrunning, -⟩ | hend⟩ := howned.record (id, block)
      (List.mem_filterMap.2 ⟨_, hheld, by simp [hkept, Hand.holding?]⟩)
    · exact ⟨r, hrec, hid, hlive r hrec hid, hrunning⟩
    · rw [hlive r hrec hid] at hend
      cases hend

/-- **Nobody else has a sandbox in custody**, unless it is doomed. -/
theorem Reaches.custody_unique (hx : (k, x) ∈ m.posts) (ht : x.tender? pool.config = some t)
    (hc : t.charge? = some (c, id)) (hx' : (k', x') ∈ m.posts)
    (ht' : x'.tender? pool.config = some t') (hc' : t'.charge? = some (c', id))
    (halive : ¬ m.pool.Doomed id) : k = k' := by
  have ho := hr.ordered_ofPool
  obtain ⟨r, hrec, hid, -, hfits⟩ := hr.custody hp hmulti hf hd hx ht hc halive
  obtain ⟨r', hrec', hid', -, hfits'⟩ := hr.custody hp hmulti hf hd hx' ht' hc' halive
  obtain rfl := (hr.books hp hf).named.distinct.eq_of_id hrec hrec' (hid'.trans hid.symm)
  obtain rfl := Care.eq_of_fits hfits hfits'
  rcases Post.hand_of_charge ht hc with ⟨rfl, hhand⟩ | ⟨rfl, hhand⟩ | ⟨rfl, hgives⟩
  · have hhand' : .raising id ∈ x'.hand := by simpa using Post.hand_of_charge ht' hc'
    exact key_of_hand (hr.woken hp hmulti hf).nodup (mem_hands.2 ⟨x, hx, hhand⟩)
      (mem_hands.2 ⟨x', hx', hhand'⟩) rfl rfl
  · have hhand' : .waking id ∈ x'.hand := by simpa using Post.hand_of_charge ht' hc'
    exact key_of_hand (hr.wakeful hp hmulti hf).nodup (mem_hands.2 ⟨x, hx, hhand⟩)
      (mem_hands.2 ⟨x', hx', hhand'⟩) rfl rfl
  · have hgives' : (∃ s, x' = .release id s ∧ s.ended = false) ∨
        x'.returns? = none ∧ ∃ block, .holding id block ∈ x'.hand := by
      simpa using Post.hand_of_charge ht' hc'
    obtain ⟨l, block, hheld, hkept, hseat⟩ := hr.holder_of_release hp hmulti hf hd hx ht hgives
    obtain ⟨l', block', hheld', hkept', hseat'⟩ :=
      hr.holder_of_release hp hmulti hf hd hx' ht' hgives'
    -- both hold it by the same post
    have hnodup := (hr.orderly hp hmulti hf hd).held.nodup
    rw [heldBy, List.map_filterMap] at hnodup
    have hsame := eq_of_nodup_filterMap hnodup hheld hheld' (x := id)
      (by simp [hkept, Hand.holding?]) (by simp [hkept', Hand.holding?])
    obtain rfl : l = l' := congrArg Prod.fst hsame
    have hy := hr.matched hd
    have hno : ∀ {k : Key} {x : Post} {t : Tender} {n : Nat}, (k, x) ∈ m.posts →
        x.tender? pool.config = some t → k = (n, 0) →
        ¬ ∃ y ∈ m.posts, y.1 = (n, 0) ∧ y.2.acquired? = some id := by
      rintro k x t n hx ht rfl ⟨⟨-, y⟩, hym, rfl, hacq⟩
      obtain rfl := post_unique ho hx hym
      rw [Post.acquired?_of_tender? ht] at hacq
      cases hacq
    rcases hseat with ⟨rfl, -⟩ | ⟨hl, hreturns⟩ <;> rcases hseat' with ⟨hk, -⟩ | ⟨hl', hreturns'⟩
    · exact hk
    · exact absurd (hy _ hx' id hreturns').2 (hno hx ht hl')
    · exact absurd (hy _ hx id hreturns).2 (hno hx' ht' (hk ▸ hl))
    · have hown : owner k.1 = owner k'.1 := congrArg Prod.fst (hl.symm.trans hl')
      have hnumber : k'.1 = k.1 := (List.inj_on_of_nodup_map hd.once (hy _ hx id hreturns).1
        (hy _ hx' id hreturns').1 hown).symm
      exact (eq_of_alone ho hx (Post.alone_of_returns? hreturns) hx' hnumber).1.symm

end Multi

end Machine

end SandboxPool
