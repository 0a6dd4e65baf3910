import SandboxPool.Proofs.Machine.Holders

/-!
# Exclusive ownership

Where every block has a sandbox of its own, no sandbox ever has two holders, and the record of a
held sandbox runs the block of its holder until somebody begins to terminate it.

The proof follows `Orderly` along a history. A release of a caller moves with what its acquisition
holds, so that to the pool it is like the release of a block; all other moves have nothing to do
with what callers hold.
-/

namespace SandboxPool

variable {config : Config} {p p' q : Pool} {x y before after rest : List Hand} {sig : Option Signal}

/-! ## Releases of callers -/

section Releases

variable {id block : String} {giver : List Hand}

/-- A release holds what its giver holds. -/
theorem Release.holding_hand (point : Release.Point) :
    (hand giver id point).filterMap Hand.holding? = giver.filterMap Hand.holding? := by
  cases point with
  | discard cause t => cases t <;> rfl
  | _ => rfl

/-- A release under way has in hand what is given back. -/
theorem Release.holding {s : Strand Release.Point Release.Result} (h : s.ended = false) :
    (s.hand (fun _ => hand [.holding id block] id) fun _ => []).filterMap Hand.holding?
      = [(id, block)] := by
  cases s with
  | ready point => exact holding_hand point
  | waiting point => exact holding_hand point
  | done r => cases h
  | panicked message => cases h

/-- The post of a release holds nothing by itself. -/
theorem Post.holding_release (s : Strand Release.Point Release.Result) :
    (Post.release id s).hand.filterMap Hand.holding? = [] := by
  cases s with
  | ready point => exact Release.holding_hand point
  | waiting point => exact Release.holding_hand point
  | done r => rfl
  | panicked message => rfl

theorem Release.mem_strand {t : Hand} {s : Strand Release.Point Release.Result}
    (h : t ∈ s.hand (fun _ => hand giver id) fun _ => []) :
    t ∈ giver ∨ t = .sharing ∨ ∃ port stage, t = .ending id port stage := by
  rcases s.mem_hand h with ⟨out, point, h⟩ | ⟨r, h⟩
  · exact mem_hand h
  · cases h

/-- What is shared does not depend on who gives back. -/
theorem Release.sharing_iff {giver' : List Hand} (hg : .sharing ∉ giver) (hg' : .sharing ∉ giver')
    (s : Strand Release.Point Release.Result) :
    .sharing ∈ s.hand (fun _ => hand giver id) (fun _ => []) ↔
      .sharing ∈ s.hand (fun _ => hand giver' id) fun _ => [] := by
  have hpoint : ∀ point, .sharing ∈ hand giver id point ↔ .sharing ∈ hand giver' id point := by
    intro point
    cases point with
    | discard cause t => simp [hand, hg, hg']
    | drop => simp [hand]
    | _ => simp [hand, hg, hg']
  cases s with
  | ready point => exact hpoint point
  | waiting point => exact hpoint point
  | done r => exact Iff.rfl
  | panicked message => exact Iff.rfl

/-- A release moves with what the caller holds. -/
theorem Owned.release {held : List (String × String)} {c : Context}
    {s : Strand Release.Point Release.Result} {sc : Scope (Strand Release.Point Release.Result)}
    (hd : p.Distinct) (hp : p.config = config)
    (hsharing : .sharing ∉ s.hand (fun _ => Release.hand [.returning id] id) fun _ => [])
    (h : Owned p ((id, block) :: held)) (ht : s.Turn (Release.demand id) c p sig sc) :
    Owned sc.pool ((if sc.result.ended then [] else [(id, block)]) ++ held) := by
  have hlive : s.ended = false := by cases ht <;> rfl
  have hm := (Release.sound config (.block block)).strand hp ht
  obtain ⟨x, y, rest, q, hb, ha, hact, hq⟩ := hm
  have hmem : ∀ t ∈ x, t = .holding id block ∨ t = .sharing ∨
      ∃ port stage, t = .ending id port stage := by
    intro t hx
    rcases Release.mem_strand (hb.mem_iff.2 (List.mem_append_left _ hx)) with ht | ht
    · exact .inl (List.mem_singleton.1 ht)
    · exact .inr ht
  have hbefore : ((id, block) :: held).Perm
      (x.filterMap Hand.holding? ++ (rest.filterMap Hand.holding? ++ held)) := by
    have hperm := hb.filterMap Hand.holding?
    rw [Release.holding hlive, List.filterMap_append] at hperm
    rw [← List.append_assoc]
    exact hperm.append_right held
  have hacted : Owned q (y.filterMap Hand.holding? ++ (rest.filterMap Hand.holding? ++ held)) := by
    refine Owned.act hd (fun id' port hx => ?_) (fun id' hx => ?_) (fun hx => ?_) (h.perm hbefore) hact
    · rcases hmem _ hx with hx | hx | ⟨port, stage, hx⟩ <;> cases hx
    · rcases hmem _ hx with hx | hx | ⟨port, stage, hx⟩ <;> cases hx
    · have hholds : .sharing ∉ [Hand.holding id block] := by simp
      have hreturns : .sharing ∉ [Hand.returning id] := by simp
      refine hsharing ((Release.sharing_iff hholds hreturns s).1 ?_)
      exact hb.mem_iff.2 (List.mem_append_left _ hx)
  have hafter := ha.filterMap Hand.holding?
  rw [List.filterMap_append] at hafter
  rw [← List.append_assoc] at hacted
  have howned := (hacted.perm (hafter.symm.append_right held)).alike hq
  cases he : sc.result.ended with
  | true => exact howned.subperm (List.sublist_append_right _ _).subperm
  | false =>
    rw [Release.holding he] at howned
    exact howned

end Releases

/-! ## Moves -/

section Moves

open Machine

variable {m m' : Machine} {move : Move} {notes : List Note} {e : List Effect} {h : History}
  {owner : Nat → Nat} {ids : List String} {gone gone' : List (Key × Post)}

/-- A post that moves has neither got a sandbox nor given one back. -/
theorem Machine.Shift.open (hs : m.Shift move gone p' e gone') :
    ∀ x ∈ gone, x.2.acquired? = none ∧ x.2.returned = false := by
  cases hs with
  | step ht =>
    intro x hx
    obtain rfl := List.mem_singleton.1 hx
    exact ⟨ht.acquired?_eq_none, ht.returned_eq_false⟩
  | reply ht =>
    intro x hx
    obtain rfl := List.mem_singleton.1 hx
    exact ⟨ht.acquired?_eq_none, ht.returned_eq_false⟩
  | _ => exact fun x hx => by cases hx

/-- A release was there before the move, or a caller has ordered it. -/
theorem Machine.Shift.returns (hs : m.Shift move gone p' e gone') :
    ∀ y ∈ gone', ∀ id ∈ y.2.returns?, (∃ x ∈ gone, x.1 = y.1 ∧ x.2.returns? = some id) ∨
      move.returns? = some id ∧ y.1 = (m.started, 0) := by
  have hturned : ∀ {n place : Nat} {x : Post} {sig : Option Signal} {after : List (Nat × Post)},
      x.Turned m.pool.config m.context m.pool place sig p' e after →
      ∀ y ∈ Activity.keyed n after, ∀ id ∈ y.2.returns?, y.1 = (n, place) ∧ x.returns? = some id := by
    intro n place x sig after ht y hy id hid
    obtain ⟨y₀, hy₀, rfl⟩ := List.mem_map.1 hy
    rcases ht.release_or with ⟨id', s, sc, rfl, -, -, rfl⟩ | ⟨-, hnone⟩
    · obtain rfl := List.mem_singleton.1 hy₀
      exact ⟨rfl, hid⟩
    · rw [hnone y₀ hy₀] at hid
      cases hid
  intro y hy id hid
  cases hs with
  | abort | advance | vary => cases hy
  | order o =>
    obtain ⟨y₀, hy₀, rfl⟩ := List.mem_map.1 hy
    cases o with
    | release id' =>
      obtain rfl := List.mem_singleton.1 hy₀
      exact .inr ⟨hid, rfl⟩
    | _ =>
      obtain rfl := List.mem_singleton.1 hy₀
      cases hid
  | step ht =>
    obtain ⟨hkey, hx⟩ := hturned ht y hy id hid
    exact .inl ⟨_, List.mem_singleton_self _, hkey.symm, hx⟩
  | reply ht =>
    obtain ⟨hkey, hx⟩ := hturned ht y hy id hid
    exact .inl ⟨_, List.mem_singleton_self _, hkey.symm, hx⟩
  | fire ht =>
    obtain ⟨-, hx⟩ := hturned ht y hy id hid
    cases hx

/-- A post that has got a sandbox, or given one back, stays as it is. -/
theorem Machine.post_stays (ho : m.Ordered) (hn : m.next move = some (m', notes)) {x : Key × Post}
    (hx : x ∈ m.posts) (hdone : x.2.acquired? ≠ none ∨ x.2.returned = true) : x ∈ m'.posts := by
  obtain ⟨-, before, e, after, rest, hb, ha, hs⟩ := next_posts ho hn
  rcases List.mem_append.1 (hb.mem_iff.1 hx) with hx | hx
  · obtain ⟨hacq, hret⟩ := hs.open x hx
    rcases hdone with hdone | hdone
    · exact absurd hacq hdone
    · rw [hret] at hdone
      cases hdone
  · exact ha.mem_iff.2 (List.mem_append_right _ hx)

/-- What was given back stays so. -/
theorem Machine.gaveBack_next (ho : m.Ordered) (hn : m.next move = some (m', notes)) {n : Nat}
    (hg : m.gaveBack owner n = true) : m'.gaveBack owner n = true := by
  unfold gaveBack at hg ⊢
  obtain ⟨x, hx, hret⟩ := List.any_eq_true.1 hg
  have hreturned : x.2.returned = true := (Bool.and_eq_true_iff.1 hret).1
  exact List.any_eq_true.2 ⟨x, post_stays ho hn hx (.inr hreturned), hret⟩

/-- Every release belongs to an acquisition that has got the sandbox. -/
def Matched (owner : Nat → Nat) (h : History) (m : Machine) : Prop :=
  ∀ x ∈ m.posts, ∀ id ∈ x.2.returns?, x.1.1 ∈ h.releases ∧
    ∃ y ∈ m.posts, y.1 = (owner x.1.1, 0) ∧ y.2.acquired? = some id

namespace Matched

/-- Every release still belongs to an acquisition. -/
theorem next (ho : m.Ordered) (hy : Matched owner h m)
    (hd : (h ++ [(m, move)]).Disciplined owner) (hn : m.next move = some (m', notes)) :
    Matched owner (h ++ [(m, move)]) m' := by
  obtain ⟨-, before, e, after, rest, hb, ha, hs⟩ := next_posts ho hn
  have hstays : ∀ y ∈ m.posts, ∀ {id : String}, y.2.acquired? = some id → y ∈ m'.posts :=
    fun y hym id hacq => post_stays ho hn hym (.inl (by simp [hacq]))
  have hold : ∀ x ∈ m.posts, ∀ id ∈ x.2.returns?, x.1.1 ∈ (h ++ [(m, move)]).releases ∧
      ∃ y ∈ m'.posts, y.1 = (owner x.1.1, 0) ∧ y.2.acquired? = some id := by
    intro x hx id hid
    obtain ⟨hrel, y, hym, hkey, hacq⟩ := hy x hx id hid
    refine ⟨?_, y, hstays y hym hacq, hkey, hacq⟩
    rw [History.releases_append]
    exact List.mem_append_left _ hrel
  intro x hx id hid
  rcases List.mem_append.1 (ha.mem_iff.1 hx) with hx | hx
  · rcases hs.returns x hx id hid with ⟨x₀, hx₀, hkey, hid₀⟩ | ⟨hmove, hkey⟩
    · rw [← hkey]
      exact hold x₀ (hb.mem_iff.2 (List.mem_append_left _ hx₀)) id hid₀
    · obtain ⟨y, hym, hkey', hacq⟩ := hd.acquired (m, move)
        (List.mem_append_right _ (List.mem_singleton_self _)) id hmove
      rw [hkey]
      refine ⟨?_, y, hstays y hym hacq, hkey', hacq⟩
      rw [History.releases_append, hmove]
      exact List.mem_append_right _ (List.mem_singleton_self _)
  · exact hold x (hb.mem_iff.2 (List.mem_append_right _ hx)) id hid

/-- An operation that has not got a sandbox has given none back. -/
theorem kept (ho : m.Ordered) (hy : Matched owner h m) {k : Key} {x : Post} (hx : (k, x) ∈ m.posts)
    (hno : x.acquired? = none) : m.gaveBack owner k.1 = false := by
  rw [Bool.eq_false_iff]
  intro hg
  obtain ⟨y, hym, hret⟩ := List.any_eq_true.1 hg
  simp only [Bool.and_eq_true, beq_iff_eq] at hret
  obtain ⟨id, hid⟩ := Post.returns?_of_returned hret.1
  obtain ⟨-, z, hz, hkey, hacq⟩ := hy y hym id hid
  obtain ⟨-, rfl⟩ := eq_of_alone ho hz (Post.alone_of_acquired? hacq) hx (by rw [hkey, hret.2])
  rw [hacq] at hno
  cases hno

/-- What was given back takes no turn any more. -/
theorem mover_open (ho : m.Ordered) (hy : Matched owner h m)
    (hn : m.next move = some (m', notes)) : m.gaveBack owner (m.mover move).1 = false := by
  obtain ⟨-, before, e, after, rest, hb, -, hs⟩ := next_posts ho hn
  rcases hs.mover with hnew | ⟨z, rfl⟩
  · rw [Bool.eq_false_iff]
    intro hg
    obtain ⟨x, hx, hret⟩ := List.any_eq_true.1 hg
    simp only [Bool.and_eq_true, beq_iff_eq] at hret
    obtain ⟨id, hid⟩ := Post.returns?_of_returned hret.1
    obtain ⟨-, y, hym, hkey, -⟩ := hy x hx id hid
    have hlt := key_lt ho hym
    rw [hkey, hret.2, hnew] at hlt
    exact Nat.lt_irrefl _ hlt
  · refine hy.kept ho (hb.mem_iff.2 (List.mem_append_left _ (List.mem_singleton_self _))) ?_
    exact (hs.open _ (List.mem_singleton_self _)).1

/-- The sandbox of a release under way has not been given back. -/
theorem release_open (ho : m.Ordered) (hy : Matched owner h m) (honce : (h.releases.map owner).Nodup)
    {k : Key} {id : String} {s : Strand Release.Point Release.Result}
    (hm : (k, .release id s) ∈ m.posts) (hs : s.ended = false) :
    m.gaveBack owner (owner k.1) = false := by
  rw [Bool.eq_false_iff]
  intro hg
  obtain ⟨x, hx, hret⟩ := List.any_eq_true.1 hg
  simp only [Bool.and_eq_true, beq_iff_eq] at hret
  obtain ⟨id', hid'⟩ := Post.returns?_of_returned hret.1
  have hsame : x.1.1 = k.1 :=
    List.inj_on_of_nodup_map honce (hy x hx id' hid').1 (hy _ hm id rfl).1 hret.2
  obtain ⟨-, hpost⟩ := eq_of_alone (x := .release id s) ho hm rfl hx hsame
  have hended := hret.1
  rw [hpost] at hended
  exact absurd (hs.symm.trans hended) (by simp)

end Matched

/-- What disciplined callers keep: held sandboxes are in order, and every release belongs to an
acquisition that has got the sandbox. -/
structure Orderly (owner : Nat → Nat) (h : History) (m : Machine) : Prop where
  held : Owned m.pool (heldBy (m.gaveBack owner) m.hands)
  returns : Matched owner h m

namespace Orderly

/-- A move that is not one of a release. -/
theorem held_calm (ho : m.Ordered) (hy : Orderly owner h m) (hnamed : Named ids m.pool m.things)
    (hsharing : .sharing ∉ m.things) (hn : m.next move = some (m', notes))
    (hcalm : ∀ y, (m.mover move, y) ∈ m.posts → y.returns? = none) :
    Owned m'.pool (heldBy (m'.gaveBack owner) m'.hands) := by
  obtain ⟨x, y, rest, q, hb, ha, hact, hq, hx, -⟩ := next_hands ho hn
  have hthings : ∀ t ∈ x.map (·.2), t ∈ m.things := by
    intro t ht
    obtain ⟨t₀, ht₀, rfl⟩ := List.mem_map.1 ht
    exact List.mem_map_of_mem (hb.mem_iff.2 (List.mem_append_left _ ht₀))
  have hbefore := hy.held.perm (heldBy_perm hb)
  rw [heldBy_append, heldBy_eq (l := x) fun t ht => by rw [hx t ht]; exact hy.returns.mover_open ho hn]
    at hbefore
  have hafter := Owned.act hnamed.distinct
    (fun id port hm r hr => hnamed.ne_of_made (hthings _ hm) hr) (fun id hm => ?_)
    (fun hm => hsharing (hthings _ hm)) hbefore hact
  · refine (hafter.alike hq).subperm ((heldBy_perm ha).subperm.trans ?_)
    have hall : heldBy (fun _ => false) y = (y.map (·.2)).filterMap Hand.holding? :=
      heldBy_eq fun _ _ => rfl
    rw [heldBy_append, ← hall]
    exact ((heldBy_sublist (fun n hf => by cases hf) y).append
      (heldBy_sublist (fun n => gaveBack_next ho hn) rest)).subperm
  · obtain ⟨⟨k, t⟩, ht, rfl⟩ := List.mem_map.1 hm
    obtain rfl : k = m.mover move := hx _ ht
    obtain ⟨z, hz, hzt⟩ := mem_hands.1 (hb.mem_iff.2 (List.mem_append_left _ ht))
    obtain ⟨id', hid'⟩ := Post.returns?_of_mem hzt
    rw [hcalm z hz] at hid'
    cases hid'

/-- What a release and its acquisition hold between them. -/
theorem heldBy_release {m : Machine} {k k' : Key} {id block : String} {z : Post}
    {s : Strand Release.Point Release.Result} {others : List (Key × Post)}
    (hm : m.posts.Perm ((k, .release id s) :: (k', z) :: others)) (hz : z.hand = [.holding id block])
    (gone : Nat → Bool) :
    (heldBy gone m.hands).Perm ((if gone k'.1 then [] else [(id, block)]) ++
      heldBy gone (SandboxPool.hands others)) := by
  refine (heldBy_perm (hands_perm hm)).trans (List.Perm.of_eq ?_)
  have hnone : heldBy gone ((Post.release id s).hand.map fun t => (k, t)) = [] := by
    refine List.filterMap_eq_nil_iff.2 fun x hx => ?_
    obtain ⟨t, ht, rfl⟩ := List.mem_map.1 hx
    have hholds := List.filterMap_eq_nil_iff.1 (Post.holding_release s) t ht
    simp only [hholds, ite_self]
  have hone : heldBy gone (z.hand.map fun t => (k', t)) = if gone k'.1 then [] else [(id, block)] := by
    rw [hz]
    simp only [heldBy, List.map_cons, List.map_nil, List.filterMap_cons, List.filterMap_nil]
    cases gone k'.1 <;> rfl
  rw [hands_cons, hands_cons, heldBy_append, heldBy_append, hnone, hone, List.nil_append]

/-- A move of a release: its sandbox is given back in the last scope. -/
theorem held_release (ho : m.Ordered) (hy : Orderly owner h m)
    (honce : (h.releases.map owner).Nodup) (hd : m.pool.Distinct) (hp : m.pool.config = config)
    (hsharing : .sharing ∉ m.things) {c : Context} {n place : Nat} {id : String}
    {s : Strand Release.Point Release.Result} {sc : Scope (Strand Release.Point Release.Result)}
    {rest : List (Key × Post)} (hb : m.posts.Perm (((n, place), .release id s) :: rest))
    (ha : m'.posts.Perm (((n, place), .release id sc.result) :: rest)) (hpool : m'.pool = sc.pool)
    (ht : s.Turn (Release.demand id) c m.pool sig sc)
    (hmono : ∀ n, m.gaveBack owner n = true → m'.gaveBack owner n = true) :
    Owned m'.pool (heldBy (m'.gaveBack owner) m'.hands) := by
  have hlive : s.ended = false := by cases ht <;> rfl
  have hmem : ((n, place), Post.release id s) ∈ m.posts := hb.mem_iff.2 (List.mem_cons_self ..)
  have hopen := hy.returns.release_open ho honce hmem hlive
  obtain ⟨-, ⟨k, z⟩, hz, hkey, hacq⟩ := hy.returns _ hmem id rfl
  obtain rfl : k = (owner n, 0) := hkey
  obtain ⟨block, hhand⟩ := Post.hand_of_acquired? hacq
  -- the post of the acquisition stands among those that do not move
  have hzrest : ((owner n, 0), z) ∈ rest := by
    rcases List.mem_cons.1 (hb.mem_iff.1 hz) with he | hz
    · obtain ⟨-, rfl⟩ := Prod.mk.inj he
      cases hacq
    · exact hz
  obtain ⟨l, r, rfl⟩ := List.append_of_mem hzrest
  have hmiddle : ∀ x : Key × Post, (x :: (l ++ ((owner n, 0), z) :: r)).Perm
      (x :: ((owner n, 0), z) :: (l ++ r)) := fun x => List.perm_middle.cons x
  have hheld := hy.held.perm (heldBy_release (hb.trans (hmiddle _)) hhand _)
  rw [hopen] at hheld
  have hshared : .sharing ∉ (Post.release id s).hand := by
    intro hm
    exact hsharing (List.mem_map.2 ⟨_, mem_hands.2 ⟨_, hmem, hm⟩, rfl⟩)
  have hafter := Owned.release hd hp hshared hheld ht
  rw [← hpool] at hafter
  refine hafter.subperm ((heldBy_release (ha.trans (hmiddle _)) hhand _).subperm.trans ?_)
  refine List.Sublist.subperm (List.Sublist.append ?_ (heldBy_sublist hmono _))
  cases he : sc.result.ended with
  | false => split <;> simp
  | true =>
    have hgone : m'.gaveBack owner (owner n) = true := by
      refine List.any_eq_true.2 ⟨_, ha.mem_iff.2 (List.mem_cons_self ..), ?_⟩
      simp only [Bool.and_eq_true, beq_self_eq_true, and_true]
      exact he
    rw [hgone]

/-- Every move keeps it. -/
theorem next (ho : m.Ordered) (hy : Orderly owner h m) (hd : (h ++ [(m, move)]).Disciplined owner)
    (hnamed : Named ids m.pool m.things) (hp : m.pool.config = config)
    (hsharing : .sharing ∉ m.things) (hn : m.next move = some (m', notes)) :
    Orderly owner (h ++ [(m, move)]) m' := by
  refine ⟨?_, hy.returns.next ho hd hn⟩
  have hmono : ∀ n, m.gaveBack owner n = true → m'.gaveBack owner n = true :=
    fun n => gaveBack_next ho hn
  obtain ⟨-, before, e, after, rest, hb, ha, hs⟩ := next_posts ho hn
  have hnew : (m.mover move).1 = m.started → Owned m'.pool (heldBy (m'.gaveBack owner) m'.hands) := by
    intro hk
    refine hy.held_calm ho hnamed hsharing hn fun y hym => ?_
    have hlt := key_lt ho hym
    rw [hk] at hlt
    exact absurd hlt (Nat.lt_irrefl _)
  -- a release moves with what its acquisition holds, all others by themselves
  have hturn : ∀ {n place : Nat} {x : Post} {sig : Option Signal} {e : List Effect}
      {after' : List (Nat × Post)}, m.mover move = (n, place) → before = [((n, place), x)] →
      after = Activity.keyed n after' →
      x.Turned m.pool.config m.context m.pool place sig m'.pool e after' →
      Owned m'.pool (heldBy (m'.gaveBack owner) m'.hands) := by
    rintro n place x sig e after' hk rfl rfl ht
    have hx : ((n, place), x) ∈ m.posts :=
      hb.mem_iff.2 (List.mem_append_left _ (List.mem_singleton_self _))
    rcases ht.release_or with ⟨id, s, sc, rfl, hst, hpool, rfl⟩ | ⟨hnone, -⟩
    · exact hy.held_release ho hd.of_append.once hnamed.distinct hp hsharing hb ha hpool hst hmono
    · refine hy.held_calm ho hnamed hsharing hn fun y hym => ?_
      cases hret : y.returns? with
      | none => rfl
      | some id =>
        rw [hk] at hym
        obtain ⟨-, rfl⟩ := eq_of_alone ho hym (Post.alone_of_returns? hret) hx rfl
        rw [hnone] at hret
        cases hret
  generalize m'.pool = p' at hs hnew hturn ⊢
  cases hs with
  | abort | advance | vary => exact hnew rfl
  | order o => exact hnew rfl
  | fire ht => exact hnew rfl
  | step ht => exact hturn rfl rfl rfl ht
  | reply ht => exact hturn rfl rfl rfl ht

end Orderly

end Moves

namespace Machine

variable {seed : BitVec 128} {pool : Pool} {now : Instant} {h : History} {m : Machine}
  {owner : Nat → Nat}

/-- Where callers are disciplined, every release belongs to an acquisition. -/
theorem Reaches.matched (hr : (ofPool pool now).Reaches h m) (hd : h.Disciplined owner) :
    Matched owner h m := by
  induction hr with
  | start =>
    intro x hx
    rw [posts_ofPool] at hx
    cases hx
  | next hr hn ih => exact (ih hd.of_append).next hr.ordered_ofPool hd hn

theorem Reaches.orderly (hp : Pool.create config seed = .ok pool)
    (hmulti : config.parallelism = .multi) (hr : (ofPool pool now).Reaches h m) (hf : h.Fresh)
    (hd : h.Disciplined owner) : Orderly owner h m := by
  induction hr with
  | start =>
    refine ⟨⟨List.nodup_nil, fun x hx => by cases hx⟩, fun x hx => ?_⟩
    rw [posts_ofPool] at hx
    cases hx
  | next hr hn ih =>
    have hfresh := History.fresh_of_append hf
    exact (ih hfresh hd.of_append).next hr.ordered_ofPool hd (hr.books hp hfresh).named
      (hr.capped hp).config_eq (hr.not_sharing hp hmulti) hn

/-- A sandbox that is terminated was claimed for that. -/
theorem Reaches.claimed_of_ended (hp : Pool.create config seed = .ok pool)
    (hr : (ofPool pool now).Reaches h m) (hf : h.Fresh) {r : Record} (hm : r ∈ m.pool.records)
    (hl : r.live = false) : ∃ q ∈ h.pools m, q.claim? r.id = some .terminating := by
  induction hr generalizing r with
  | start =>
    obtain ⟨-, rfl⟩ := create_eq_ok_iff.1 hp
    cases hm
  | @next h m m' move notes hr hn ih =>
    have hfresh := History.fresh_of_append hf
    have hbooks := hr.books hp hfresh
    obtain ⟨x, y, rest, q, hb, -, hact, hq⟩ := next_things hr.ordered_ofPool hn
    rw [hq.records] at hm
    obtain ⟨r₀, hr₀, hid, -, hend⟩ := (hbooks.named.perm hb).ended hact hm hl
    rw [History.pools_append, ← hid]
    rcases hend with hl₀ | ⟨port, giver, rfl⟩
    · obtain ⟨q₀, hq₀, hclaim⟩ := ih hfresh hr₀ hl₀
      exact ⟨q₀, List.mem_append_left _ hq₀, hclaim⟩
    · refine ⟨m.pool, List.mem_append_left _ ?_, ?_⟩
      · exact List.mem_append_right _ (List.mem_singleton_self _)
      · exact (hbooks.claimed.perm hb).claim _ (Claimed.mem_ending (List.mem_cons_self ..))

/-- **A sandbox is owned exclusively.** Where every block has a sandbox of its own, in every
interleaving of operations on a new pool and whatever the daemon answers as long as it gives out no
identity twice: if callers give back only what they have acquired, and no acquisition twice, then no
sandbox ever has two holders, and until somebody begins to terminate a held sandbox its record is
running the block of its holder. -/
theorem exclusive_ownership {config : Config} {seed : BitVec 128} {pool : Pool} {now : Instant}
    {h : History} {m : Machine} {owner : Nat → Nat} (hp : Pool.create config seed = .ok pool)
    (hmulti : config.parallelism = .multi) (hr : (ofPool pool now).Reaches h m) (hf : h.Fresh)
    (hd : h.Disciplined owner) :
    ((m.holders owner).map (·.id)).Nodup ∧
      ∀ x ∈ m.holders owner, (∀ q ∈ h.pools m, q.claim? x.id ≠ some .terminating) →
        ∃ r, m.pool.find? x.id = some r ∧ r.state = .running ∧ r.block = some x.block := by
  have howned := (hr.orderly hp hmulti hf hd).held
  rw [← holders_held] at howned
  refine ⟨?_, fun x hx hcalm => ?_⟩
  · have hnodup := howned.nodup
    rw [List.map_map] at hnodup
    exact hnodup
  · obtain ⟨r, hm, hid, hrun | hl⟩ := howned.record _ (List.mem_map_of_mem hx)
    · refine ⟨r, ?_, hrun⟩
      have hfind := (hr.books hp hf).named.distinct.find?_of_mem hm
      rwa [hid] at hfind
    · obtain ⟨q, hq, hclaim⟩ := hr.claimed_of_ended hp hf hm hl
      rw [hid] at hclaim
      exact absurd hclaim (hcalm q hq)

/-- A sandbox that its first holder gave back is woken for another block. -/
theorem exclusive_ownership_woken :
    let config : Config := { image := "img", maxSandboxes := 2 }
    ∃ pool h m, Pool.create config 0 = .ok pool ∧ config.parallelism = .multi ∧
      (ofPool pool 0).Reaches h m ∧ h.Fresh ∧ h.Disciplined (fun _ => 0) ∧
      m.holders (fun _ => 0) = [⟨(2, 0), "c1", "b"⟩] ∧
      (∀ q ∈ h.pools m, q.claim? "c1" ≠ some .terminating) ∧
      ∃ r, m.pool.find? "c1" = some r ∧ r.state = .running ∧ r.block = some "b" := by
  intro config
  let moves : List Move := [.order (.acquire "a"), .step 0 0, .step 0 0, .step 0 0,
    .reply 0 0 (.created (.ok "c1")), .step 0 0, .step 0 0, .reply 0 0 (.acted (.ok ())), .step 0 0,
    .reply 0 0 (.acted (.ok ())), .step 0 0,
    .order (.release "c1"), .step 1 0, .step 1 0, .reply 1 0 (.acted (.ok ())), .step 1 0,
    .order (.acquire "b"), .step 2 0, .step 2 0, .reply 2 0 (.acted (.ok ())), .step 2 0,
    .reply 2 0 (.acted (.ok ())), .step 2 0]
  have hp : Pool.create config 0 = .ok (.ofConfig config 0) :=
    create_eq_ok_iff.2 ⟨by decide +kernel, rfl⟩
  have hrun : ((ofPool (.ofConfig config 0) 0).trace moves).any (fun x =>
      x.1.Fresh ∧ x.1.Disciplined (fun _ => 0) ∧ x.2.holders (fun _ => 0) = [⟨(2, 0), "c1", "b"⟩] ∧
        ∀ q ∈ x.1.pools x.2, q.claim? "c1" ≠ some .terminating) = true := by decide +kernel
  obtain ⟨x, ht, hx⟩ := (Option.any_eq_true _ _).1 hrun
  obtain ⟨hf, hd, hholders, hcalm⟩ := of_decide_eq_true hx
  have hr := reaches_of_trace ht
  obtain ⟨-, hruns⟩ := exclusive_ownership hp rfl hr hf hd
  rw [hholders] at hruns
  exact ⟨_, x.1, x.2, hp, rfl, hr, hf, hd, hholders, hcalm,
    hruns _ (List.mem_singleton_self _) hcalm⟩

end Machine

end SandboxPool
