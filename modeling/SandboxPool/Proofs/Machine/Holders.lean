import SandboxPool.Proofs.Machine.Books
import SandboxPool.Proofs.Pool.Owners

/-!
# Holders

Who holds a sandbox in a machine: a block that runs, and the caller of an acquisition that has got
one, until the release has come to its end.

* `History.Disciplined` callers give back only what they have acquired, and no acquisition twice.
* `Machine.holders` lists the holders, each under the key of its post.
-/

namespace SandboxPool

variable {config : Config} {c : Context} {p p' : Pool} {sig : Option Signal} {e : List Effect}

/-! ## Acquisitions and releases of callers -/

namespace Post

/-- The post is an operation of its own, or none that starts others. -/
def alone : Post → Bool
  | acquire .. | release .. => true
  | _ => false

/-- The sandbox that an acquisition has got. -/
def acquired? : Post → Option String
  | acquire _ (.done (.ok s)) => some s.id
  | _ => none

/-- The sandbox that a caller gives back. -/
def returns? : Post → Option String
  | release id _ => some id
  | _ => none

/-- A caller has given a sandbox back. -/
def returned : Post → Bool
  | release _ s => s.ended
  | _ => false

theorem alone_of_acquired? {x : Post} {id : String} (h : x.acquired? = some id) : x.alone = true := by
  cases x with
  | acquire => rfl
  | _ => cases h

theorem alone_of_returns? {x : Post} {id : String} (h : x.returns? = some id) : x.alone = true := by
  cases x with
  | release => rfl
  | _ => cases h

theorem returns?_of_returned {x : Post} (h : x.returned = true) : ∃ id, x.returns? = some id := by
  cases x with
  | release id s => exact ⟨id, rfl⟩
  | _ => cases h

/-- An acquisition that has got a sandbox holds it for its block. -/
theorem hand_of_acquired? {x : Post} {id : String} (h : x.acquired? = some id) :
    ∃ block, x.hand = [.holding id block] := by
  cases x with
  | acquire block s =>
    cases s with
    | done r =>
      cases r with
      | ok s => cases h; exact ⟨block, rfl⟩
      | error e => cases h
    | _ => cases h
  | _ => cases h

end Post

namespace Post.Turned

variable {place : Nat} {x : Post} {after : List (Nat × Post)}

/-- A turn is one of a release, or it has nothing to do with releases. -/
theorem release_or (h : x.Turned config c p place sig p' e after) :
    (∃ id s sc, x = .release id s ∧ s.Turn (Release.demand id) c p sig sc ∧ p' = sc.pool ∧
        after = [(place, .release id sc.result)]) ∨
      x.returns? = none ∧ ∀ y ∈ after, y.2.returns? = none := by
  cases h with
  | acquire =>
    refine .inr ⟨rfl, fun y hy => ?_⟩
    obtain rfl := List.mem_singleton.1 hy
    rfl
  | release ht => exact .inl ⟨_, _, _, rfl, ht, rfl, rfl⟩
  | terminate =>
    refine .inr ⟨rfl, fun y hy => ?_⟩
    obtain rfl := List.mem_singleton.1 hy
    rfl
  | prewarm ht => exact .inr (ht.forall (·.returns? = none) (fun _ => rfl) fun _ _ => rfl)
  | teardown ht => exact .inr (ht.forall (·.returns? = none) (fun _ => rfl) fun _ _ => rfl)
  | cleanup ht => exact .inr (ht.forall (·.returns? = none) (fun _ => rfl) fun _ _ => rfl)
  | execute ht => exact .inr (ht.forall (·.returns? = none) (fun _ => rfl) fun _ _ => rfl)

/-- An acquisition that has got a sandbox takes no turn any more. -/
theorem acquired?_eq_none (h : x.Turned config c p place sig p' e after) : x.acquired? = none := by
  cases h with
  | acquire ht => cases ht <;> rfl
  | release => rfl
  | terminate => rfl
  | prewarm ht => exact (ht.forall (·.acquired? = none) (fun _ => rfl) fun _ _ => rfl).1
  | teardown ht => exact (ht.forall (·.acquired? = none) (fun _ => rfl) fun _ _ => rfl).1
  | cleanup ht => exact (ht.forall (·.acquired? = none) (fun _ => rfl) fun _ _ => rfl).1
  | execute ht => exact (ht.forall (·.acquired? = none) (fun _ => rfl) fun _ _ => rfl).1

/-- A release that has come to its end takes no turn any more. -/
theorem returned_eq_false (h : x.Turned config c p place sig p' e after) : x.returned = false := by
  rcases h.release_or with ⟨id, s, sc, rfl, ht, -⟩ | ⟨hx, -⟩
  · cases ht <;> rfl
  · cases hr : x.returned with
    | false => rfl
    | true =>
      obtain ⟨id, hid⟩ := returns?_of_returned hr
      rw [hx] at hid
      cases hid

end Post.Turned

/-- An operation that does not start others has one post. -/
theorem Activity.posts_of_alone {a : Activity} {place : Nat} {x : Post} (hx : (place, x) ∈ a.posts)
    (ha : x.alone = true) : a.posts = [(place, x)] := by
  have hteam : ∀ {κ σ α τ β : Type} {leader : Strand τ β → Post} {member : κ → Strand σ α → Post}
      {t : Team κ σ α τ β}, (∀ s, (leader s).alone = false) →
      (∀ task s, (member task s).alone = false) → (place, x) ∉ t.posts leader member := by
    intro κ σ α τ β leader member t hl hm hx
    rcases List.mem_cons.1 hx with he | hx
    · obtain ⟨-, rfl⟩ := Prod.mk.inj he
      rw [hl] at ha
      cases ha
    · obtain ⟨m, -, he⟩ := List.mem_map.1 hx
      obtain ⟨-, rfl⟩ := Prod.mk.inj he
      rw [hm] at ha
      cases ha
  cases a with
  | acquire block s => rw [List.mem_singleton.1 hx]; rfl
  | release id s => rw [List.mem_singleton.1 hx]; rfl
  | terminate id s => rw [List.mem_singleton.1 hx]; rfl
  | prewarm count t => exact absurd hx (hteam (fun _ => rfl) fun _ _ => rfl)
  | teardown t => exact absurd hx (hteam (fun _ => rfl) fun _ _ => rfl)
  | cleanup t => exact absurd hx (hteam (fun _ => rfl) fun _ _ => rfl)
  | execute plan t => exact absurd hx (hteam (fun _ => rfl) fun _ _ => rfl)

namespace Machine

variable {m m' : Machine} {k k' : Key} {x y : Post}

/-- An acquisition or a release of a caller is the only post with its number. -/
theorem eq_of_alone (ho : m.Ordered) (hx : (k, x) ∈ m.posts) (ha : x.alone = true)
    (hy : (k', y) ∈ m.posts) (hk : k'.1 = k.1) : k' = k ∧ y = x := by
  obtain ⟨a, hact, hx⟩ := mem_posts.1 hx
  obtain ⟨b, hact', hy⟩ := mem_posts.1 hy
  rw [hk] at hact'
  obtain rfl := activity_unique ho hact hact'
  rw [Activity.posts_of_alone hx ha] at hy
  obtain ⟨hplace, rfl⟩ := Prod.mk.inj (List.mem_singleton.1 hy)
  exact ⟨Prod.ext hk hplace, rfl⟩

end Machine

/-! ## What is given back -/

section Returning

variable {id id' block : String} {before : List Hand}

theorem Termination.returning_notMem (hb : .returning id ∉ before) (t : Point) :
    .returning id ∉ hand before id' t := by
  cases t with
  | claim => exact hb
  | _ => simp [hand]

theorem Spawn.returning_notMem (out : Bool) (point : Point) : .returning id ∉ hand out point := by
  cases point with
  | discard id' error t => exact Termination.returning_notMem (by simp) t
  | _ => simp [hand]

theorem Acquire.returning_notMem (out : Bool) (point : Point) : .returning id ∉ hand out point := by
  cases point with
  | failed error => cases error <;> simp [hand]
  | retire id' error t => exact Termination.returning_notMem (by simp) t
  | cold t => exact Spawn.returning_notMem out t
  | shared t => simpa [hand] using Spawn.returning_notMem out t
  | _ => simp [hand]

theorem Release.mem_hand {t : Hand} {point : Point} (h : t ∈ hand before id point) :
    t ∈ before ∨ t = .sharing ∨ ∃ port stage, t = .ending id port stage := by
  cases point with
  | discard cause s =>
    rcases List.mem_append.1 h with h | h
    · cases s <;> simp [Termination.hand] at h <;> exact .inr (.inr ⟨_, _, h⟩)
    · exact .inl h
  | drop =>
    rcases List.mem_cons.1 h with h | h
    · exact .inr (.inl h)
    · exact .inl h
  | _ => exact .inl h

theorem BlockRun.returning_notMem (out : Bool) (point : Point) :
    .returning id ∉ hand block out point := by
  cases point with
  | acquire since a => exact Acquire.returning_notMem out a
  | retire since sandbox ending t => simpa [hand] using Termination.returning_notMem (by simp) t
  | release ran id' r =>
    intro h
    rcases Release.mem_hand h with h | h | ⟨port, stage, h⟩
    · simp at h
    · cases h
    · cases h
  | _ => simp [hand]

theorem Execution.Duty.returning_notMem (out : Bool) (duty : Duty) :
    .returning id ∉ duty.hand out := by
  cases duty with
  | run block b => exact BlockRun.returning_notMem out b
  | terminate id' t => exact Termination.returning_notMem (by simp) t

theorem Strand.returning_notMem {σ α : Type} {f : Bool → σ → List Hand} {g : α → List Hand}
    (hf : ∀ out point, .returning id ∉ f out point) (hg : ∀ a, .returning id ∉ g a) (s : Strand σ α) :
    .returning id ∉ s.hand f g := by
  intro h
  rcases s.mem_hand h with ⟨out, point, h⟩ | ⟨a, h⟩
  · exact hf out point h
  · exact hg a h

/-- Only the release of a caller gives a sandbox back that nobody has in hand. -/
theorem Post.returns?_of_mem {x : Post} (h : .returning id ∈ x.hand) :
    ∃ id', x.returns? = some id' := by
  have hnil : ∀ {α : Type} (a : α), Hand.returning id ∉ (fun _ : α => ([] : List Hand)) a := by simp
  cases x with
  | release id' s => exact ⟨id', rfl⟩
  | acquire block s =>
    refine absurd h (s.returning_notMem Acquire.returning_notMem fun a => ?_)
    cases a <;> simp [gained]
  | terminate id' s =>
    exact absurd h (s.returning_notMem (fun _ t => Termination.returning_notMem (by simp) t) hnil)
  | spawn s => exact absurd h (s.returning_notMem Spawn.returning_notMem hnil)
  | execute plan s =>
    refine absurd h (s.returning_notMem (fun out point => ?_) hnil)
    cases point with
    | solo t block b => exact BlockRun.returning_notMem out b
    | _ => exact List.not_mem_nil
  | duty s => exact absurd h (s.returning_notMem Execution.Duty.returning_notMem hnil)
  | _ => cases h

end Returning

/-! ## Histories of disciplined callers -/

/-- The sandbox that a caller orders to be released. -/
def Move.returns? : Move → Option String
  | .order (.release id) => some id
  | _ => none

namespace History

/-- The numbers of the releases that callers ordered. -/
def releases (h : History) : List Nat := h.filterMap fun x => x.2.returns?.map fun _ => x.1.started

/-- Callers give back only what they have acquired, and no acquisition twice. `owner` has the number
of the acquisition that each release belongs to. -/
structure Disciplined (owner : Nat → Nat) (h : History) : Prop where
  acquired : ∀ x ∈ h, ∀ id ∈ x.2.returns?,
    ∃ y ∈ x.1.posts, y.1 = (owner x.1.started, 0) ∧ y.2.acquired? = some id
  once : (h.releases.map owner).Nodup

instance (owner : Nat → Nat) (h : History) : Decidable (h.Disciplined owner) :=
  decidable_of_iff ((∀ x ∈ h, ∀ id ∈ x.2.returns?,
      ∃ y ∈ x.1.posts, y.1 = (owner x.1.started, 0) ∧ y.2.acquired? = some id) ∧
    (h.releases.map owner).Nodup) ⟨fun ⟨ha, ho⟩ => ⟨ha, ho⟩, fun ⟨ha, ho⟩ => ⟨ha, ho⟩⟩

variable {h : History} {m : Machine} {move : Move} {owner : Nat → Nat}

theorem releases_append : (h ++ [(m, move)]).releases
    = h.releases ++ (move.returns?.map fun _ => m.started).toList := by
  simp only [releases, List.filterMap_append, List.filterMap_cons, List.filterMap_nil]
  cases move.returns? <;> rfl

theorem Disciplined.of_append (hd : (h ++ [(m, move)]).Disciplined owner) : h.Disciplined owner := by
  refine ⟨fun x hx => hd.acquired x (List.mem_append_left _ hx), ?_⟩
  have honce := hd.once
  rw [releases_append, List.map_append] at honce
  exact honce.sublist (List.sublist_append_left _ _)

end History

/-- A block that runs in a sandbox, or a caller who has acquired it, with the key of the post. -/
structure Holder where
  key : Key
  id : String
  block : String
  deriving DecidableEq

/-- What is held of things in hand, without those of operations that are `gone`. -/
def heldBy (gone : Nat → Bool) (l : List (Key × Hand)) : List (String × String) :=
  l.filterMap fun x => if gone x.1.1 then none else x.2.holding?

namespace Machine

/-- The sandbox of an acquisition was given back: its release has come to its end. -/
def gaveBack (owner : Nat → Nat) (m : Machine) (n : Nat) : Bool :=
  m.posts.any fun x => x.2.returned && owner x.1.1 == n

/-- The holders of sandboxes. A caller holds what it has acquired until it was given back. -/
def holders (owner : Nat → Nat) (m : Machine) : List Holder :=
  m.hands.filterMap fun x =>
    if m.gaveBack owner x.1.1 then none else x.2.holding?.map fun s => ⟨x.1, s.1, s.2⟩

theorem holders_held (owner : Nat → Nat) (m : Machine) :
    (m.holders owner).map (fun x => (x.id, x.block)) = heldBy (m.gaveBack owner) m.hands := by
  unfold holders heldBy
  rw [List.map_filterMap]
  refine List.filterMap_congr fun x _ => ?_
  split
  · rfl
  · cases x.2.holding? <;> rfl

end Machine

section HeldBy

variable {gone gone' : Nat → Bool} {l l' : List (Key × Hand)}

theorem heldBy_append : heldBy gone (l ++ l') = heldBy gone l ++ heldBy gone l' :=
  List.filterMap_append

theorem heldBy_perm (h : l.Perm l') : (heldBy gone l).Perm (heldBy gone l') := h.filterMap _

/-- As long as nothing is gone all that is held counts. -/
theorem heldBy_eq (h : ∀ x ∈ l, gone x.1.1 = false) :
    heldBy gone l = (l.map (·.2)).filterMap Hand.holding? := by
  unfold heldBy
  rw [List.filterMap_map]
  refine List.filterMap_congr fun x hx => ?_
  rw [h x hx]
  rfl

theorem heldBy_sublist (h : ∀ n, gone n = true → gone' n = true) (l : List (Key × Hand)) :
    (heldBy gone' l).Sublist (heldBy gone l) := by
  induction l with
  | nil => exact List.Sublist.refl _
  | cons x rest ih =>
    unfold heldBy at ih ⊢
    rw [List.filterMap_cons, List.filterMap_cons]
    cases hg : gone x.1.1 with
    | true =>
      rw [h _ hg]
      exact ih
    | false =>
      cases hg' : gone' x.1.1 with
      | true =>
        cases x.2.holding? with
        | none => exact ih
        | some s => exact ih.cons s
      | false =>
        cases x.2.holding? with
        | none => exact ih
        | some s => exact ih.cons_cons s

end HeldBy

end SandboxPool
