import SandboxPool.Proofs.Machine.Borrowers
import SandboxPool.Proofs.Machine.Refusals
import SandboxPool.Proofs.Settled

/-!
# Outstanding acquisitions and the places that they take

An acquisition is outstanding from its call until it has failed or its sandbox has been given back
(`Machine.outstanding`). Where every block has a sandbox of its own it takes at most one place under the
cap in that time: that of a reserved start, then that of the sandbox that it starts, wakes, terminates or
uses (`Post.slot?`).

While nobody prewarms the pool and nobody terminates sandboxes from outside (`Machine.Unhindered`), each
place that is taken is one of an outstanding acquisition, if no sandbox could be picked
(`Machine.Reaches.mem_slots`, `Machine.Reaches.pending_le`). Since sandboxes are distinct, there are at
least as many outstanding acquisitions as places taken (`Machine.Reaches.occupancy_le`).
-/

namespace SandboxPool

variable {config : Config} {c : Context} {p p' : Pool} {out : Bool} {sig : Option Signal}
  {e : List Effect} {id block : String}

/-! ## Places -/

/-- A place under the cap: that of a reserved start or that of a sandbox. -/
inductive Slot where
  | start
  | sandbox (id : String)
  deriving DecidableEq

/-- The place that a thing in hand takes, as long as nobody uses it. -/
def Hand.slot? : Hand → Option Slot
  | reserved | naming .. | refused _ | made .. => some .start
  | raising id | waking id | ending id .. => some (.sandbox id)
  | _ => none

theorem Hand.slot?_of_reserves {t : Hand} (h : t.reserves = true) : t.slot? = some .start := by
  cases t with
  | reserved | naming | refused | made => rfl
  | _ => cases h

/-- The place that a spawn takes. -/
def Spawn.Point.slot : Spawn.Point → Slot
  | .allocate | .create .. | .giveBack .. | .register .. => .start
  | .start id _ | .probe id _ | .publish id | .discard id .. => .sandbox id

/-- The place that an acquisition takes on its way, where every block has a sandbox of its own. -/
def Acquire.Point.slot? : Acquire.Point → Option Slot
  | .unpause id _ | .probe id _ | .rebind id | .failed (.wakeFailed id _) | .retire id .. =>
    some (.sandbox id)
  | .cold s => some s.slot
  | _ => none

/-- The place that a block takes. -/
def BlockRun.Point.slot? : BlockRun.Point → Option Slot
  | .acquire _ a => a.slot?
  | b => b.uses?.map .sandbox

/-- The block that a member of an execution runs. -/
def Execution.Duty.block? : Execution.Duty → Option BlockRun.Point
  | .run _ b => some b
  | .terminate .. => none

/-- The block that an execution itself runs. -/
def Execution.Point.block? : Execution.Point → Option BlockRun.Point
  | .solo _ _ b => some b
  | _ => none

/-- The block that a post runs. -/
def Post.block? : Post → Option BlockRun.Point
  | execute _ s => s.point?.bind (·.block?)
  | duty s => s.point?.bind (·.block?)
  | _ => none

/-- The place that a post takes for its acquisition. -/
def Post.slot? : Post → Option Slot
  | acquire _ s => match s with
    | .done (.ok s) => some (.sandbox s.id)
    | s => s.point?.bind (·.slot?)
  | x => x.block?.bind (·.slot?)

section Posts

variable {x : Post} {a : Acquire.Point} {b : BlockRun.Point}

/-- Whoever acquires is a caller or a block. -/
theorem Post.block?_of_acquiring? (h : x.acquiring? = some a) :
    (∃ name s, x = acquire name s ∧ s.point? = some a) ∨
      ∃ b, x.block? = some b ∧ b.acquiring? = some a := by
  cases x with
  | acquire name s => exact .inl ⟨name, s, rfl, h⟩
  | execute plan s =>
    obtain ⟨point, hp, h⟩ := Option.bind_eq_some_iff.1 h
    cases point with
    | solo progress name b => exact .inr ⟨b, Option.bind_eq_some_iff.2 ⟨_, hp, rfl⟩, h⟩
    | _ => cases h
  | duty s =>
    obtain ⟨d, hd, h⟩ := Option.bind_eq_some_iff.1 h
    cases d with
    | run name b => exact .inr ⟨b, Option.bind_eq_some_iff.2 ⟨_, hd, rfl⟩, h⟩
    | terminate id t => cases h
  | _ => cases h

/-- Whoever uses a sandbox is a caller or a block. -/
theorem Post.block?_of_uses? (h : x.uses? = some id) :
    (∃ name snap, x = acquire name (.done (.ok snap)) ∧ snap.id = id) ∨
      ∃ b, x.block? = some b ∧ b.uses? = some id := by
  cases x with
  | acquire name s =>
    cases s with
    | done r =>
      cases r with
      | ok snap => exact .inl ⟨name, snap, rfl, Option.some.inj h⟩
      | error e => cases h
    | _ => cases h
  | execute plan s =>
    obtain ⟨point, hp, h⟩ := Option.bind_eq_some_iff.1 h
    cases point with
    | solo progress name b => exact .inr ⟨b, Option.bind_eq_some_iff.2 ⟨_, hp, rfl⟩, h⟩
    | _ => cases h
  | duty s =>
    obtain ⟨d, hd, h⟩ := Option.bind_eq_some_iff.1 h
    cases d with
    | run name b => exact .inr ⟨b, Option.bind_eq_some_iff.2 ⟨_, hd, rfl⟩, h⟩
    | terminate id t => cases h
  | _ => cases h

/-- Whoever takes a place is a caller or a block. -/
theorem Post.block?_of_slot? {z : Slot} (h : x.slot? = some z) :
    (∃ name s, x = acquire name s) ∨ ∃ b, x.block? = some b ∧ b.slot? = some z := by
  have hslot : (∃ name s, x = acquire name s) ∨ x.slot? = x.block?.bind (·.slot?) := by
    cases x with
    | acquire name s => exact .inl ⟨name, s, rfl⟩
    | _ => exact .inr rfl
  refine hslot.imp_right fun hslot => ?_
  rw [hslot] at h
  exact Option.bind_eq_some_iff.1 h

theorem Post.slot?_of_block? (h : x.block? = some b) : x.slot? = b.slot? := by
  have hslot : x.slot? = x.block?.bind (·.slot?) := by
    cases x with
    | acquire => cases h
    | _ => rfl
  rw [hslot, h, Option.bind_some]

theorem Post.acquiring?_of_block? (h : x.block? = some b) (ha : b.acquiring? = some a) :
    x.acquiring? = some a := by
  cases x with
  | execute plan s =>
    obtain ⟨point, hp, h⟩ := Option.bind_eq_some_iff.1 h
    cases point <;> cases h
    exact Option.bind_eq_some_iff.2 ⟨_, hp, ha⟩
  | duty s =>
    obtain ⟨d, hd, h⟩ := Option.bind_eq_some_iff.1 h
    cases d <;> cases h
    exact Option.bind_eq_some_iff.2 ⟨_, hd, ha⟩
  | _ => cases h

/-- A block that has its sandbox takes the place of that one. -/
theorem BlockRun.slot?_of_acquired (h : b.acquiring? = none) : b.slot? = b.uses?.map .sandbox := by
  cases b with
  | acquire since a => cases h
  | _ => rfl

theorem BlockRun.slot?_of_uses? (h : b.uses? = some id) : b.slot? = some (.sandbox id) := by
  have hnone : b.acquiring? = none := by
    cases b with
    | acquire => cases h
    | _ => rfl
  rw [slot?_of_acquired hnone, h]
  rfl

/-- Whoever uses a sandbox takes its place. -/
theorem Post.slot?_of_uses? (h : x.uses? = some id) : x.slot? = some (.sandbox id) := by
  obtain ⟨name, snap, rfl, rfl⟩ | ⟨b, hb, hu⟩ := block?_of_uses? h
  · rfl
  · rw [slot?_of_block? hb, BlockRun.slot?_of_uses? hu]

/-- Whoever acquires takes the place of its acquisition. -/
theorem Post.slot?_of_acquiring? (h : x.acquiring? = some a) : x.slot? = a.slot? := by
  obtain ⟨name, s, rfl, hs⟩ | ⟨b, hb, ha⟩ := block?_of_acquiring? h
  · cases s <;> cases hs <;> rfl
  · rw [slot?_of_block? hb]
    cases b <;> cases ha
    rfl

/-- Whoever has a reserved start is on the way of an acquisition. -/
theorem Post.acquiring?_of_start (h : x.slot? = some .start) : ∃ a, x.acquiring? = some a := by
  obtain ⟨name, s, rfl⟩ | ⟨b, hb, hz⟩ := block?_of_slot? h
  · cases s with
    | ready point => exact ⟨point, rfl⟩
    | waiting point => exact ⟨point, rfl⟩
    | done r => cases r <;> cases h
    | panicked message => cases h
  · cases ha : b.acquiring? with
    | some a => exact ⟨a, acquiring?_of_block? hb ha⟩
    | none =>
      rw [BlockRun.slot?_of_acquired ha] at hz
      obtain ⟨id, -, he⟩ := Option.map_eq_some_iff.1 hz
      cases he

end Posts

/-! ## Things in hand take the places of their posts -/

section Hands

variable {t : Hand} {z : Slot}

theorem Termination.slot_of_hand {before : List Hand} {point : Point}
    (hb : ∀ t ∈ before, ∀ z, t.slot? = some z → z = .sandbox id) (ht : t ∈ hand before id point)
    (hz : t.slot? = some z) : z = .sandbox id := by
  cases point with
  | claim => exact hb t ht z hz
  | expire g => cases ht
  | _ =>
    obtain rfl := List.mem_singleton.1 ht
    exact (Option.some.inj hz).symm

theorem Spawn.slot_of_hand {s : Point} (ht : t ∈ hand out s) (hz : t.slot? = some z) : z = s.slot := by
  cases s with
  | discard id error point =>
    refine Termination.slot_of_hand (fun t ht z hz => ?_) ht hz
    obtain rfl := List.mem_singleton.1 ht
    exact (Option.some.inj hz).symm
  | _ =>
    obtain rfl := List.mem_singleton.1 ht
    exact (Option.some.inj hz).symm

theorem Acquire.slot_of_hand {a : Point} (ha : a.Fits .multi) (ht : t ∈ hand out a)
    (hz : t.slot? = some z) : a.slot? = some z := by
  cases a with
  | retire id error point =>
    refine congrArg some (Termination.slot_of_hand (fun t ht z hz => ?_) ht hz).symm
    obtain rfl := List.mem_singleton.1 ht
    exact (Option.some.inj hz).symm
  | cold s => exact congrArg some (Spawn.slot_of_hand ht hz).symm
  | failed error =>
    cases error with
    | wakeFailed id message =>
      obtain rfl := List.mem_singleton.1 ht
      exact hz
    | _ => cases ht
  | unpause | probe | rebind =>
    obtain rfl := List.mem_singleton.1 ht
    exact hz
  | pick | replace => cases ht
  | _ => cases ha

theorem BlockRun.slot_of_hand {b : Point} (hb : b.Fits .multi) (ht : t ∈ hand block out b)
    (hz : t.slot? = some z) : b.slot? = some z := by
  cases b with
  | acquire since a => exact Acquire.slot_of_hand hb ht hz
  | retire since sandbox ending point =>
    rcases List.mem_append.1 ht with ht | ht
    · exact congrArg some (Termination.slot_of_hand (by simp) ht hz).symm
    · obtain rfl := List.mem_singleton.1 ht
      cases hz
  | release ran id r =>
    cases r with
    | discard cause point =>
      rcases List.mem_append.1 ht with ht | ht
      · have hnot : ∀ g, point ≠ .expire g := by
          rintro g rfl
          cases ht
        rw [slot?_of_uses? (uses?_discard hnot), Termination.slot_of_hand (by simp) ht hz]
      · obtain rfl := List.mem_singleton.1 ht
        cases hz
    | drop => cases hb
    | _ =>
      obtain rfl := List.mem_singleton.1 ht
      cases hz
  | run | conclude =>
    obtain rfl := List.mem_singleton.1 ht
    cases hz
  | begin | refuse => cases ht

/-- An acquisition has at most one reserved start. -/
theorem Acquire.countP_reserves_le {a : Point} (ha : a.Fits .multi) (out : Bool) :
    (hand out a).countP Hand.reserves ≤ 1 := by
  have hend : ∀ (id : String) (before : List Hand) (t : Termination.Point), before.length ≤ 1 →
      (Termination.hand before id t).length ≤ 1 := by
    intro id before t hb
    cases t with
    | claim => exact hb
    | expire g => exact Nat.zero_le _
    | _ => exact Nat.le_refl _
  refine Nat.le_trans List.countP_le_length ?_
  cases a with
  | failed error => cases error <;> simp [hand]
  | retire id error t => exact hend id _ t (Nat.le_refl _)
  | cold s =>
    cases s with
    | discard id error t => exact hend id _ t (Nat.le_refl _)
    | _ => exact Nat.le_refl _
  | shared => cases ha
  | _ => simp [hand]

end Hands

/-! ## Who disturbs -/

/-- A member of an execution terminates a sandbox in the teardown. -/
def Execution.Duty.ends : Execution.Duty → Bool
  | .terminate .. => true
  | .run .. => false

/-- The execution tears the pool down. -/
def Execution.Point.ends : Execution.Point → Bool
  | .teardown .. | .cleared .. => true
  | _ => false

/-- The post is a termination or a teardown under way: one that a caller has ordered, that of an aborted
execution, or one whose time has come. -/
def Post.ends : Post → Bool
  | terminate _ s => !s.ended
  | teardown s => !s.ended
  | execute _ s => s.point?.any (·.ends)
  | duty s => s.point?.any (·.ends)
  | _ => false

/-- The post is a prewarm under way, or starts a sandbox for one. -/
def Post.prewarms : Post → Bool
  | prewarm _ s => !s.ended
  | spawn s => !s.ended
  | _ => false

/-- **Where a place is taken.** The place of a thing that a post has in hand is the one of its acquisition,
or that of the sandbox that a caller's release terminates, unless it is a prewarm or a termination. -/
theorem Post.slot_of_hand {x : Post} {t : Hand} {z : Slot} (hx : x.Fits .multi)
    (hp : x.prewarms = false) (he : x.ends = false) (ht : t ∈ x.hand) (hz : t.slot? = some z) :
    x.slot? = some z ∨ ∃ id s, x = release id s ∧ s.ended = false ∧ z = .sandbox id := by
  have hgone : ∀ {σ α : Type} {f : Bool → σ → List Hand} {s : Strand σ α},
      (!s.ended) = false → t ∉ s.hand f fun _ => [] := by
    intro σ α f s hs
    rw [Strand.hand_ended (by simpa using hs)]
    exact List.not_mem_nil
  cases x with
  | acquire name s =>
    obtain ⟨out, a, ha, hmem⟩ := Strand.exists_of_mem_hand (f := Acquire.hand) ht fun r hr => by
      cases r with
      | ok s =>
        obtain rfl := List.mem_singleton.1 hr
        cases hz
      | error e => cases hr
    have hslot := Acquire.slot_of_hand (Strand.Keeps.of_point? hx ha) hmem hz
    refine .inl ?_
    cases s with
    | ready point | waiting point =>
      cases ha
      exact hslot
    | done r => cases ha
    | panicked message => cases ha
  | release id s =>
    cases hs : s.ended with
    | true =>
      have hnone := Strand.hand_ended (f := fun _ => Release.hand [.returning id] id) hs
      rw [Post.hand, hnone] at ht
      cases ht
    | false =>
      refine .inr ⟨id, s, rfl, hs, ?_⟩
      rcases Release.mem_strand ht with ht | rfl | ⟨port, stage, rfl⟩
      · obtain rfl := List.mem_singleton.1 ht
        cases hz
      · cases hz
      · exact (Option.some.inj hz).symm
  | terminate id s => exact absurd ht (hgone (f := fun _ => Termination.hand [] id) he)
  | spawn s => exact absurd ht (hgone (f := Spawn.hand) hp)
  | execute plan s =>
    obtain ⟨out, point, hpoint, hmem⟩ := Strand.exists_of_mem_hand ht (by simp)
    cases point with
    | solo progress name b =>
      have hfits : (Execution.Point.solo progress name b).Fits .multi :=
        Strand.Keeps.of_point? hx hpoint
      have hblock : (execute plan s).block? = some b := Option.bind_eq_some_iff.2 ⟨_, hpoint, rfl⟩
      exact .inl ((slot?_of_block? hblock).trans (BlockRun.slot_of_hand hfits hmem hz))
    | _ => cases hmem
  | duty s =>
    obtain ⟨out, d, hd, hmem⟩ := Strand.exists_of_mem_hand ht (by simp)
    cases d with
    | run name b =>
      have hfits : (Execution.Duty.run name b).Fits .multi := Strand.Keeps.of_point? hx hd
      have hblock : (duty s).block? = some b := Option.bind_eq_some_iff.2 ⟨_, hd, rfl⟩
      exact .inl ((slot?_of_block? hblock).trans (BlockRun.slot_of_hand hfits hmem hz))
    | terminate id point =>
      have hends : s.point?.any (·.ends) = false := he
      rw [hd] at hends
      cases hends
  | _ => cases ht

/-- A post has at most one reserved start, which is the place that it takes. -/
theorem Post.countP_reserves_le {x : Post} (hx : x.Fits .multi) (hp : x.prewarms = false)
    (he : x.ends = false) :
    x.hand.countP Hand.reserves ≤ if x.slot? = some .start then 1 else 0 := by
  split
  · next hs =>
    obtain ⟨a, ha⟩ := acquiring?_of_start hs
    obtain ⟨out, hhand⟩ := Machine.hand_of_acquiring? ha
    rw [hhand]
    exact Acquire.countP_reserves_le (hx.acquiring ha) out
  · next hs =>
    refine Nat.le_of_eq (List.countP_eq_zero.2 fun t ht hres => hs ?_)
    rcases slot_of_hand hx hp he ht (Hand.slot?_of_reserves hres) with h | ⟨id, s, -, -, h⟩
    · exact h
    · cases h

/-- Where each post has at most one reserved start, there are no more of them than such posts. -/
theorem countP_reserves_hands_le {κ : Type} {l : List (κ × Post)}
    (h : ∀ x ∈ l, x.2.hand.countP Hand.reserves ≤ if x.2.slot? = some .start then 1 else 0) :
    ((hands l).map (·.2)).countP Hand.reserves
      ≤ l.countP fun x => decide (x.2.slot? = some .start) := by
  induction l with
  | nil => exact Nat.le_refl 0
  | cons x rest ih =>
    obtain ⟨k, x⟩ := x
    have hfirst := h _ (List.mem_cons_self ..)
    have hrest := ih fun y hy => h y (List.mem_cons_of_mem _ hy)
    have hsnd : (x.hand.map fun t => (k, t)).map (·.2) = x.hand := by
      rw [List.map_map]
      exact List.map_id' _
    rw [hands_cons, List.map_append, hsnd, List.countP_append, List.countP_cons]
    simp only [decide_eq_true_eq] at hfirst ⊢
    omega

/-! ## Outstanding acquisitions -/

/-- The block has called for a sandbox, has not been refused and has not given it back. -/
def BlockRun.Point.engaged : BlockRun.Point → Bool
  | .begin | .refuse .. => false
  | _ => true

/-- The acquisition of a post has been called and has not failed. That of a block ends with its release;
a caller gives back by another operation. -/
def Post.engaged : Post → Bool
  | acquire _ s => match s with
    | .done (.ok _) => true
    | s => !s.ended
  | x => x.block?.any (·.engaged)

theorem Post.engaged_of_block? {x : Post} {b : BlockRun.Point} (h : x.block? = some b)
    (hb : b.engaged = true) : x.engaged = true := by
  have hengaged : x.engaged = x.block?.any (·.engaged) := by
    cases x with
    | acquire => cases h
    | _ => rfl
  rw [hengaged, h]
  exact hb

/-- Whoever takes a place has called an acquisition. -/
theorem Post.engaged_of_slot? {x : Post} {z : Slot} (h : x.slot? = some z) : x.engaged = true := by
  obtain ⟨name, s, rfl⟩ | ⟨b, hb, hz⟩ := block?_of_slot? h
  · cases s with
    | ready point => rfl
    | waiting point => rfl
    | done r =>
      cases r with
      | ok s => rfl
      | error e => cases h
    | panicked message => cases h
  · refine engaged_of_block? hb ?_
    cases b <;> first | rfl | cases hz

/-- An acquisition on its way has been called, and has come to nothing yet. -/
theorem Post.engaged_of_acquiring? {x : Post} {a : Acquire.Point} (h : x.acquiring? = some a) :
    x.engaged = true ∧ x.acquired? = none := by
  obtain ⟨name, s, rfl, hs⟩ | ⟨b, hb, ha⟩ := block?_of_acquiring? h
  · cases s <;> cases hs <;> exact ⟨rfl, rfl⟩
  · refine ⟨engaged_of_block? hb ?_, ?_⟩
    · cases b <;> cases ha
      rfl
    · cases x with
      | acquire => cases hb
      | _ => rfl

namespace Machine

variable {seed : BitVec 128} {pool : Pool} {now : Instant} {h : History} {m m' : Machine}
  {owner : Nat → Nat} {k : Key} {x : Post} {z : Slot} {t : Hand}

/-- The outstanding acquisitions, each with the key of its post: they have been called, have not failed,
and their sandbox has not been given back. -/
def outstanding (owner : Nat → Nat) (m : Machine) : List Key :=
  (m.posts.filter fun x => x.2.engaged && !m.gaveBack owner x.1.1).map (·.1)

/-- No prewarm is under way, and no termination that is not part of an acquisition, of a block or of a
release. -/
def Unhindered (m : Machine) : Prop := ∀ x ∈ m.posts, x.2.prewarms = false ∧ x.2.ends = false

instance (m : Machine) : Decidable m.Unhindered := inferInstanceAs (Decidable (∀ x ∈ m.posts, _))

/-- The places that outstanding acquisitions take. -/
def slots (owner : Nat → Nat) (m : Machine) : List Slot :=
  m.posts.filterMap fun x => if m.gaveBack owner x.1.1 then none else x.2.slot?

theorem mem_slots (hx : (k, x) ∈ m.posts) (hz : x.slot? = some z)
    (hg : m.gaveBack owner k.1 = false) : z ∈ m.slots owner :=
  List.mem_filterMap.2 ⟨_, hx, by simp [hg, hz]⟩

/-- Each outstanding acquisition takes at most one place. -/
theorem length_slots_le (hx : (k, x) ∈ m.posts) (ho : m.Ordered) (hz : x.slot? = none) :
    (m.slots owner).length ≤ ((m.outstanding owner).filter (· ≠ k)).length := by
  unfold slots outstanding
  rw [List.length_filterMap_eq_countP, ← List.countP_eq_length_filter, List.countP_map,
    List.countP_filter]
  refine List.countP_mono_left fun y hy hsome => ?_
  cases hg : m.gaveBack owner y.1.1 with
  | true => simp [hg] at hsome
  | false =>
    simp only [hg, Bool.false_eq_true, if_false] at hsome
    obtain ⟨z, hyz⟩ := Option.isSome_iff_exists.1 hsome
    have hne : y.1 ≠ k := by
      rintro rfl
      rw [post_unique ho hx hy, hyz] at hz
      cases hz
    simp [Post.engaged_of_slot? hyz, hne]

/-! ## Each place is taken by somebody -/

section Multi

variable (hp : Pool.create config seed = .ok pool) (hmulti : config.parallelism = .multi)
  (hr : (ofPool pool now).Reaches h m) (hf : h.Fresh) (hd : h.Disciplined owner)
  (hu : m.Unhindered)
include hp hmulti hr hf hd hu

omit hf hd hu in
theorem Reaches.fits_multi (hx : (k, x) ∈ m.posts) : x.Fits .multi := by
  obtain ⟨-, rfl⟩ := create_eq_ok_iff.1 hp
  exact hmulti ▸ hr.fits hx

/-- The place of a thing in hand is that of an outstanding acquisition. -/
theorem Reaches.slot_of_hand (ht : (k, t) ∈ m.hands) (hz : t.slot? = some z) :
    z ∈ m.slots owner := by
  have ho := hr.ordered_ofPool
  have hy := hr.orderly hp hmulti hf hd
  obtain ⟨x, hx, ht⟩ := mem_hands.1 ht
  obtain ⟨hprewarms, hends⟩ := hu _ hx
  rcases Post.slot_of_hand (hr.fits_multi hp hmulti hx) hprewarms hends ht hz with
    hslot | ⟨id, s, rfl, hs, rfl⟩
  · refine mem_slots hx hslot (hy.returns.kept ho hx ?_)
    cases hacq : x.acquired? with
    | none => rfl
    | some id =>
      obtain ⟨block, hhand⟩ := Post.hand_of_acquired? hacq
      rw [hhand] at ht
      obtain rfl := List.mem_singleton.1 ht
      cases hz
  · -- a release that terminates the sandbox does so for the acquisition that it belongs to
    obtain ⟨-, ⟨k', y⟩, hym, rfl, hacq⟩ := hy.returns _ hx id rfl
    exact mem_slots hym (Post.slot?_of_uses? (Post.uses?_of_acquired? hacq))
      (hy.returns.release_open ho hd.once hx hs)

omit hp hmulti hf hu in
/-- An acquisition on its way is outstanding. -/
theorem Reaches.mem_outstanding {a : Acquire.Point} (hx : (k, x) ∈ m.posts)
    (ha : x.acquiring? = some a) : k ∈ m.outstanding owner := by
  obtain ⟨hengaged, hnone⟩ := Post.engaged_of_acquiring? ha
  refine List.mem_map.2 ⟨(k, x), List.mem_filter.2 ⟨hx, ?_⟩, rfl⟩
  simp [hengaged, (hr.matched hd).kept hr.ordered_ofPool hx hnone]

omit hf in
/-- **The reserved starts are those of outstanding acquisitions.** -/
theorem Reaches.pending_le : m.pool.pending ≤ (m.slots owner).countP (· == .start) := by
  have hone : ∀ x ∈ m.posts, x.2.hand.countP Hand.reserves ≤
      if x.2.slot? = some .start then 1 else 0 := by
    intro x hx
    obtain ⟨hprewarms, hends⟩ := hu x hx
    exact Post.countP_reserves_le (hr.fits_multi hp hmulti hx) hprewarms hends
  rw [(hr.capped hp).pending]
  refine Nat.le_trans (countP_reserves_hands_le hone) ?_
  unfold slots
  rw [List.countP_filterMap]
  refine List.countP_mono_left fun x hx hs => ?_
  have hslot : x.2.slot? = some .start := of_decide_eq_true hs
  obtain ⟨a, ha⟩ := Post.acquiring?_of_start hslot
  have hkept := (hr.matched hd).kept hr.ordered_ofPool hx (Post.engaged_of_acquiring? ha).2
  simp [hkept, hslot]

/-- **Where nothing can be picked, each live sandbox is the place of an outstanding acquisition.** It is
started, woken, used or terminated for one. -/
theorem Reaches.mem_slots (hspent : m.pool.Spent) {r : Record} (hrec : r ∈ m.pool.records)
    (hlive : r.live = true) : .sandbox r.id ∈ m.slots owner := by
  have hbooks := hr.books hp hf
  have htended := hr.tended hp hf
  have hhand : ∀ {t : Hand}, t ∈ m.things → t.slot? = some (.sandbox r.id) →
      .sandbox r.id ∈ m.slots owner := by
    intro t ht hz
    obtain ⟨⟨k, t⟩, hmem, rfl⟩ := List.mem_map.1 ht
    exact hr.slot_of_hand hp hmulti hf hd hu hmem hz
  have hclaimed : ∀ {c : Claim}, m.pool.claim? r.id = some c → .sandbox r.id ∈ m.slots owner := by
    intro c hc
    cases c with
    | waking => exact hhand (htended.waking r.id hc) rfl
    | terminating =>
      obtain ⟨t, ht, port, stage, he⟩ := exists_ending hbooks hc
      exact hhand (List.mem_map_of_mem ht) (by rw [he]; rfl)
  have hdoomed : m.pool.Doomed r.id → .sandbox r.id ∈ m.slots owner := by
    intro hdoomed
    rcases (hbooks.named.distinct.doomed_iff hrec).1 hdoomed with hdead | hclaim
    · rw [hlive] at hdead
      cases hdead
    · exact hclaimed hclaim
  -- what nobody has claimed could be picked
  have hpicked : ∀ {s : State}, (∀ r ∈ m.pool.unclaimed, r.selectable s = false) → r.state = s →
      .sandbox r.id ∈ m.slots owner := by
    intro s hnone hs
    cases hc : m.pool.claim? r.id with
    | some c => exact hclaimed hc
    | none =>
      have hfree : r.busy = false := by rw [htended.busy r hrec, hc]; rfl
      have hno := hnone r (List.mem_filter.2 ⟨hrec, by rw [hc]; rfl⟩)
      simp [Record.selectable, hs, hfree] at hno
  cases hs : r.state with
  | starting => exact (hr.raised hp r hrec hs).elim hdoomed fun hraising => hhand hraising rfl
  | idle => exact hpicked hspent.idle hs
  | running =>
    have hrested := hr.users_accounted hp hf hd
    rw [hmulti] at hrested
    rcases hrested r hrec hs with hdoom | hmem
    · exact hdoomed hdoom
    · obtain ⟨x, hx, huses, hkept⟩ := mem_users.1 hmem
      exact Machine.mem_slots hx (Post.slot?_of_uses? huses) hkept
  | dormant => exact hpicked hspent.dormant hs
  | terminated =>
    have hdead : r.live = false := by
      rw [Record.live, hs]
      rfl
    rw [hlive] at hdead
    cases hdead

/-- **Where nothing can be picked, outstanding acquisitions take all places that are taken.** -/
theorem Reaches.occupancy_le (hspent : m.pool.Spent) :
    m.pool.occupancy ≤ (m.slots owner).length := by
  have hdistinct := (hr.books hp hf).named.distinct
  have hnodup : (m.pool.liveRecords.map fun r => Slot.sandbox r.id).Nodup := by
    have hids : (m.pool.liveRecords.map (·.id)).Nodup :=
      hdistinct.sublist (List.Sublist.map _ List.filter_sublist)
    have hmap := hids.map (f := Slot.sandbox) fun a b he => Slot.sandbox.inj he
    rwa [List.map_map] at hmap
  have hsub : (m.pool.liveRecords.map fun r => Slot.sandbox r.id) ⊆
      (m.slots owner).filter fun z => !(z == .start) := by
    intro z hz
    obtain ⟨r, hrec, rfl⟩ := List.mem_map.1 hz
    obtain ⟨hrec, hlive⟩ := List.mem_filter.1 hrec
    exact List.mem_filter.2 ⟨hr.mem_slots hp hmulti hf hd hu hspent hrec hlive, rfl⟩
  have hlive : m.pool.liveCount ≤ ((m.slots owner).filter fun z => !(z == .start)).length := by
    have hle := (hnodup.subperm hsub).length_le
    rwa [List.length_map] at hle
  have hpending := hr.pending_le hp hmulti hd hu
  have hsplit := List.length_eq_countP_add_countP (· == Slot.start) (l := m.slots owner)
  rw [← List.countP_eq_length_filter] at hlive
  unfold Pool.occupancy
  simp only [Bool.not_eq_true, Bool.decide_eq_false] at hsplit
  omega

end Multi

end Machine

end SandboxPool
