import SandboxPool.Proofs.Machine.Endings

/-!
# Acquisitions on their way

Acquisitions are made by callers and by blocks of executions. Whoever makes one, its points follow
each other in the same way (`Post.Turned.follows`).

* `History.wakes` has the paused sandbox that the acquisition of a post has claimed.
* `Acquire.Path` says what is known of that sandbox at each point of the acquisition: it is woken,
  or terminated in vain, or it is doomed by the time that another one takes its place.
-/

namespace SandboxPool

variable {σ α τ β : Type} {config : Config} {c : Context} {p p' : Pool} {out : Bool}
  {sig : Option Signal} {e : List Effect}

/-! ## Points of acquisitions -/

/-- The point of the acquisition of a block. -/
def BlockRun.Point.acquiring? : BlockRun.Point → Option Acquire.Point
  | .acquire _ a => some a
  | _ => none

/-- The point of the acquisition of a member. -/
def Execution.Duty.acquiring? : Execution.Duty → Option Acquire.Point
  | .run _ b => b.acquiring?
  | _ => none

/-- The point of the acquisition of an execution itself. -/
def Execution.Point.acquiring? : Execution.Point → Option Acquire.Point
  | .solo _ _ b => b.acquiring?
  | _ => none

/-- The point of the acquisition that a post makes. -/
def Post.acquiring? : Post → Option Acquire.Point
  | acquire _ s => s.point?
  | execute _ s => s.point?.bind (·.acquiring?)
  | duty s => s.point?.bind (·.acquiring?)
  | _ => none

/-- The point of the acquisition that the post with a key makes. -/
def Machine.acquiring? (m : Machine) (k : Key) : Option Acquire.Point :=
  (m.posts.find? (·.1 == k)).bind (·.2.acquiring?)

/-- An acquisition stands behind a turn where the acquisition of `a?` stood before it, or at its
start. -/
def Follows (config : Config) (c : Context) (p : Pool) (out : Bool) (sig : Option Signal) (p' : Pool)
    (a? : Option Acquire.Point) (a' : Acquire.Point) : Prop :=
  a' = Acquire.start config ∨ ∃ block a s, a? = some a ∧
    (Acquire.demand config block a).Turn c p out sig s ∧ p' = s.pool ∧
    (Strand.land a s.result).point? = some a'

/-- Where a turn of a process inside another one takes the other one: it stands where the inner one
does, or goes on with its result. -/
theorem Strand.point?_map {C : σ → τ} {k : α → Next τ β} {point : σ} {next : Option (Next σ α)}
    {t : τ} (ht : (land (C point) (next.map (Next.into C k))).point? = some t) :
    (∃ point', (land point next).point? = some point' ∧ t = C point') ∨
      ∃ a, next = some (.done a) ∧ (ofNext (k a)).point? = some t := by
  cases next with
  | none => exact .inl ⟨point, rfl, (Option.some.inj ht).symm⟩
  | some next =>
    cases next with
    | goto point' => exact .inl ⟨point', rfl, (Option.some.inj ht).symm⟩
    | done a => exact .inr ⟨a, rfl, ht⟩
    | panic message => cases ht

/-- A turn of a process that contains another one is one of the inner process. -/
theorem Strand.point?_into {demand : Demand (Next σ α)} {C : σ → τ} {k : α → Next τ β} {point : σ}
    {s : Scope (Option (Next τ β))} (h : (demand.map (Next.into C k)).Turn c p out sig s) {t : τ}
    (ht : (land (C point) s.result).point? = some t) :
    ∃ s₀, demand.Turn c p out sig s₀ ∧ s.pool = s₀.pool ∧
      ((∃ point', (land point s₀.result).point? = some point' ∧ t = C point') ∨
        ∃ a, s₀.result = some (.done a) ∧ (ofNext (k a)).point? = some t) := by
  obtain ⟨s₀, h₀, rfl⟩ := Demand.turn_map h
  exact ⟨s₀, h₀, rfl, point?_map ht⟩

theorem BlockRun.follows {block : String} {b b' : Point} {a' : Acquire.Point}
    {s : Scope (Option (Next Point BlockResult))} (h : (demand config block b).Turn c p out sig s)
    (hb : (Strand.land b s.result).point? = some b') (ha : b'.acquiring? = some a') :
    Follows config c p out sig s.pool b.acquiring? a' := by
  cases b with
  | begin =>
    obtain ⟨-, -, rfl⟩ := Demand.turn_scope h
    cases hb
    cases ha
    exact .inl rfl
  | acquire since a =>
    obtain ⟨s₀, h₀, hpool, ⟨a₀, ha₀, rfl⟩ | ⟨r, -, hr⟩⟩ := Strand.point?_into h hb
    · cases ha
      exact .inr ⟨block, a, s₀, rfl, h₀, hpool, ha₀⟩
    · cases r <;> cases hr <;> cases ha
  | refuse since e =>
    obtain ⟨-, -, rfl⟩ := Demand.turn_scope h
    cases hb
  | run since sandbox =>
    rcases Demand.turn_run h with ⟨-, -, rfl⟩ | ⟨r, -, -, rfl⟩
    · cases hb
      cases ha
    · cases ht : r.terminates <;> simp only [ht] at hb <;> cases hb <;> cases ha
  | retire since sandbox ending t =>
    obtain ⟨s₀, -, -, ⟨t₀, -, rfl⟩ | ⟨r, -, hr⟩⟩ := Strand.point?_into h hb
    · cases ha
    · cases hr
      cases ha
  | conclude since sandbox ending =>
    obtain ⟨-, -, rfl⟩ := Demand.turn_scope h
    cases hb
    cases ha
  | release ran id r =>
    obtain ⟨s₀, -, -, ⟨t₀, -, rfl⟩ | ⟨r, -, hr⟩⟩ := Strand.point?_into h hb
    · cases ha
    · cases hr

namespace Execution

theorem Duty.follows {d d' : Duty} {a' : Acquire.Point} {s : Scope (Option (Next Duty Yield))}
    (h : (member config d).Turn c p out sig s) (hd : (Strand.land d s.result).point? = some d')
    (ha : d'.acquiring? = some a') : Follows config c p out sig s.pool d.acquiring? a' := by
  cases d with
  | run block b =>
    obtain ⟨s₀, h₀, hpool, ⟨b', hb, rfl⟩ | ⟨r, -, hr⟩⟩ := Strand.point?_into h hd
    · rw [hpool]
      exact BlockRun.follows h₀ hb ha
    · cases hr
  | terminate id t =>
    obtain ⟨s₀, -, -, ⟨t', -, rfl⟩ | ⟨r, -, hr⟩⟩ := Strand.point?_into h hd
    · cases ha
    · cases hr

variable {plan : Plan} {point point' : Point} {s : Scope (Option (Next Point Result))}
  {tasks : List (String × Duty)}

/-- The members of an execution start before their acquisition. -/
theorem hired (h : (leader config plan point).Turn c p out sig s tasks) :
    ∀ t ∈ tasks, t.2.acquiring? = none := by
  intro t ht
  cases point with
  | dispatch progress sent waiting =>
    obtain ⟨-, -, -, rfl⟩ := Intent.turn_hire h
    simp only [dispatch] at ht
    split at ht
    · cases ht
    · split at ht
      · cases ht
      · obtain rfl := List.mem_singleton.1 ht
        rfl
  | teardown progress index =>
    obtain ⟨-, -, -, rfl⟩ := Intent.turn_hire h
    simp only [teardown] at ht
    split at ht
    · cases ht
    · obtain ⟨r, -, rfl⟩ := List.mem_map.1 ht
      rfl
  | gather progress sent interrupted =>
    obtain ⟨-, -, -, rfl⟩ := Intent.turn_join h
    cases ht
  | cleared progress index =>
    obtain ⟨-, -, -, rfl⟩ := Intent.turn_join h
    cases ht
  | _ =>
    obtain ⟨-, rfl⟩ := Intent.turn_demand h
    cases ht

theorem follows {a' : Acquire.Point} (h : (leader config plan point).Turn c p out sig s tasks)
    (hp : (Strand.land point s.result).point? = some point') (ha : point'.acquiring? = some a') :
    Follows config c p out sig s.pool point.acquiring? a' := by
  cases point with
  | solo progress block b =>
    obtain ⟨hd, -⟩ := Intent.turn_demand h
    obtain ⟨s₀, h₀, hpool, ⟨b', hb, rfl⟩ | ⟨r, -, hr⟩⟩ := Strand.point?_into hd hp
    · rw [hpool]
      exact BlockRun.follows h₀ hb ha
    · cases hr
      cases ha
  | begin =>
    obtain ⟨hd, -⟩ := Intent.turn_demand h
    obtain ⟨-, -, rfl⟩ := Demand.turn_scope hd
    simp only [begin, Scope.map] at hp
    split at hp
    · cases hp
    · cases hp
      cases ha
  | lane progress =>
    obtain ⟨hd, -⟩ := Intent.turn_demand h
    obtain ⟨-, -, rfl⟩ := Demand.turn_scope hd
    simp only [lane, Scope.map] at hp
    split at hp
    · cases hp
      cases ha
    · next first _ _ =>
      split at hp
      · cases hp
        cases ha
      · cases first <;> (cases hp; cases ha)
  | dispatch progress sent waiting =>
    obtain ⟨-, -, rfl, -⟩ := Intent.turn_hire h
    simp only [dispatch, Scope.map] at hp
    split at hp
    · cases hp
      cases ha
    · split at hp <;> cases hp <;> cases ha
  | settle progress ran interrupted =>
    obtain ⟨hd, -⟩ := Intent.turn_demand h
    obtain ⟨-, -, rfl⟩ := Demand.turn_scope hd
    simp only [settle, Scope.map] at hp
    split at hp
    · cases hp
      cases ha
    · split at hp
      · cases hp
        cases ha
      · split at hp <;> cases hp <;> cases ha
  | teardown progress index =>
    obtain ⟨-, -, rfl, -⟩ := Intent.turn_hire h
    simp only [teardown, Scope.map] at hp
    split at hp <;> cases hp <;> cases ha
  | gather progress sent interrupted =>
    obtain ⟨-, -, ⟨ended, rfl⟩, -⟩ := Intent.turn_join h
    cases hp
    cases ha
  | cleared progress index =>
    obtain ⟨-, -, ⟨ended, rfl⟩, -⟩ := Intent.turn_join h
    cases hp
    cases ha
  | abort progress index =>
    obtain ⟨hd, -⟩ := Intent.turn_demand h
    obtain ⟨-, -, rfl⟩ := Demand.turn_scope hd
    cases hp
    cases ha
  | finish progress status =>
    obtain ⟨hd, -⟩ := Intent.turn_demand h
    obtain ⟨-, -, rfl⟩ := Demand.turn_scope hd
    cases hp

end Execution

/-- Behind a turn of a post its acquisition stands where the acquisition went, or at its start. -/
theorem Post.Turned.follows {place : Nat} {x : Post} {after : List (Nat × Post)}
    (h : x.Turned config c p place sig p' e after) {y : Nat × Post} (hy : y ∈ after)
    {a' : Acquire.Point} (ha : y.2.acquiring? = some a') :
    y.1 = place ∧ ∃ out, Follows config c p out sig p' x.acquiring? a' := by
  cases h with
  | acquire ht =>
    obtain rfl := List.mem_singleton.1 hy
    cases ht with
    | ready ht => exact ⟨rfl, false, .inr ⟨_, _, _, rfl, ht, rfl, ha⟩⟩
    | waiting ht => exact ⟨rfl, true, .inr ⟨_, _, _, rfl, ht, rfl, ha⟩⟩
  | release =>
    obtain rfl := List.mem_singleton.1 hy
    cases ha
  | terminate =>
    obtain rfl := List.mem_singleton.1 hy
    cases ha
  | prewarm ht =>
    rw [(ht.forall (·.acquiring? = none) (fun _ => rfl) fun _ _ => rfl).2 y hy] at ha
    cases ha
  | teardown ht =>
    rw [(ht.forall (·.acquiring? = none) (fun _ => rfl) fun _ _ => rfl).2 y hy] at ha
    cases ha
  | cleanup ht =>
    rw [(ht.forall (·.acquiring? = none) (fun _ => rfl) fun _ _ => rfl).2 y hy] at ha
    cases ha
  | @execute plan _ _ _ _ _ ht =>
    cases ht with
    | @leader st _ sc tasks hl n =>
      obtain ⟨point, out, s, rfl, hturn, rfl⟩ := hl.at_point
      rcases List.mem_cons.1 hy with rfl | hy
      · obtain ⟨point', hp', ha⟩ := Option.bind_eq_some_iff.1 ha
        refine ⟨rfl, out, ?_⟩
        have hfollows := Execution.follows hturn hp' ha
        have hx : (Post.execute plan (.standing point out)).acquiring? = point.acquiring? := by
          simp only [acquiring?, Strand.point?_standing, Option.bind_some]
        rw [hx]
        exact hfollows
      · obtain ⟨member, hmember, rfl⟩ := List.mem_map.1 hy
        obtain ⟨task, htask, -, hstrand⟩ := Team.mem_enrol hmember
        simp only [acquiring?, hstrand, Strand.point?, Option.bind_some] at ha
        rw [Execution.hired hturn task htask] at ha
        cases ha
    | @member task st _ sc _ ht hafter =>
      rcases hafter with rfl | ⟨-, rfl⟩
      · obtain rfl := List.mem_singleton.1 hy
        obtain ⟨d', hd, hd'⟩ := Option.bind_eq_some_iff.1 ha
        cases ht with
        | ready ht => exact ⟨rfl, false, Execution.Duty.follows ht hd hd'⟩
        | waiting ht => exact ⟨rfl, true, Execution.Duty.follows ht hd hd'⟩
      · cases hy

/-! ## Posts that acquire -/

namespace Machine

variable {m : Machine} {k : Key}

theorem acquiring?_eq (ho : m.Ordered) {x : Post} (hx : (k, x) ∈ m.posts) :
    m.acquiring? k = x.acquiring? := by
  unfold acquiring?
  rw [find?_post ho hx]
  rfl

theorem mem_of_acquiring? {a : Acquire.Point} (h : m.acquiring? k = some a) :
    ∃ x, (k, x) ∈ m.posts ∧ x.acquiring? = some a := mem_of_bind_find? h

/-- An operation that starts is at the start of its acquisition, if it makes one. -/
theorem acquiring?_ofOrder {o : Order} {y : Nat × Post} {a : Acquire.Point}
    (hy : y ∈ (Activity.ofOrder config o).posts) (ha : y.2.acquiring? = some a) :
    a = Acquire.start config := by
  cases o with
  | acquire block =>
    obtain rfl := List.mem_singleton.1 hy
    cases ha
    rfl
  | _ =>
    obtain rfl := List.mem_singleton.1 hy
    cases ha

/-- A post has in hand what its acquisition has. -/
theorem hand_of_acquiring? {x : Post} {a : Acquire.Point} (h : x.acquiring? = some a) :
    ∃ out, x.hand = Acquire.hand out a := by
  have hrun : ∀ {block : String} {b : BlockRun.Point} (out : Bool), b.acquiring? = some a →
      BlockRun.hand block out b = Acquire.hand out a := by
    intro block b out hb
    cases b with
    | acquire since a' => cases hb; rfl
    | _ => cases hb
  cases x with
  | acquire block s =>
    cases s with
    | ready point => cases h; exact ⟨false, rfl⟩
    | waiting point => cases h; exact ⟨true, rfl⟩
    | _ => cases h
  | execute plan s =>
    have hpoint : ∀ {point : Execution.Point} (out : Bool), point.acquiring? = some a →
        Execution.hand out point = Acquire.hand out a := by
      intro point out hp
      cases point with
      | solo progress block b => exact hrun out hp
      | _ => cases hp
    cases s with
    | ready point => exact ⟨false, hpoint false h⟩
    | waiting point => exact ⟨true, hpoint true h⟩
    | _ => cases h
  | duty s =>
    have hpoint : ∀ {d : Execution.Duty} (out : Bool), d.acquiring? = some a →
        d.hand out = Acquire.hand out a := by
      intro d out hd
      cases d with
      | run block b => exact hrun out hd
      | terminate id t => cases hd
    cases s with
    | ready point => exact ⟨false, hpoint false h⟩
    | waiting point => exact ⟨true, hpoint true h⟩
    | _ => cases h
  | _ => cases h

end Machine

/-! ## Sandboxes that are woken -/

/-- The paused sandbox that an acquisition has claimed, behind a move that it makes at a point. An
acquisition that starts has claimed none. -/
def Acquire.Point.claimed (old : Option String) : Acquire.Point → Option String
  | .pick => none
  | .unpause id _ => some id
  | _ => old

/-- The paused sandbox that the acquisition of a post has claimed. -/
def History.wakes (h : History) (k : Key) : Option String :=
  h.foldl (fun old x =>
    if x.1.mover x.2 = k then ((x.1.acquiring? k).map (·.claimed old)).getD old else old) none

theorem History.wakes_append {h : History} {m : Machine} {move : Move} {k : Key} :
    (h ++ [(m, move)]).wakes k = if m.mover move = k then
      ((m.acquiring? k).map (·.claimed (h.wakes k))).getD (h.wakes k) else h.wakes k := by
  unfold wakes
  rw [List.foldl_append]
  rfl

/-- What is known of the paused sandbox that an acquisition has claimed. -/
def Acquire.Path (id : String) (p : Pool) : Acquire.Point → Prop
  | .failed (.wakeFailed id' _) => id' = id
  | .failed _ | .retire _ _ (.expire _) => False
  | .unpause id' _ | .probe id' _ | .rebind id' | .retire id' _ _ => id' = id
  | .replace _ | .cold _ => p.Doomed id
  | _ => True

namespace Acquire

variable {id : String} {a a' : Point} {block : String} {old : Option String}

/-- A sandbox that is doomed stays so, whoever moves. -/
theorem Path.mono (hd : p.Doomed id → p'.Doomed id) (h : Path id p a) : Path id p' a := by
  cases a with
  | replace => exact hd h
  | cold => exact hd h
  | failed error => cases error <;> exact h
  | retire id' error t => cases t <;> exact h
  | _ => exact h

/-- What the pool knows of a sandbox that an acquisition has claimed, as far as the acquisition needs
it at a point. -/
structure Backed (p : Pool) (a : Point) : Prop where
  dormant : ∀ id, p.claim? id = some .waking → ∃ r, p.find? id = some r ∧ r.state = .dormant
  retired : ∀ id error t, a = .retire id error t → (∀ g, t ≠ .expire g) → ∃ r, p.find? id = some r

/-- The end of a termination that an acquisition makes leaves the sandbox doomed. -/
theorem path_of_retire {error : PoolError} {t : Termination.Point}
    {s : Scope (Option (Next Point Result))} (hb : Backed p (.retire id error t))
    (ht : ∀ g, t ≠ .expire g)
    (h : (demand config block (.retire id error t)).Turn c p out sig s)
    (ha : (Strand.land (.retire id error t) s.result).point? = some a') : Path id s.pool a' := by
  obtain ⟨r, hf⟩ := hb.retired id error t rfl ht
  obtain ⟨s₀, h₀, hpool, hgoes⟩ := Strand.point?_into h ha
  have hor := Termination.goes_or hf ht h₀
  rcases hgoes with ⟨t', ht', rfl⟩ | ⟨result, hdone, hresult⟩
  · rcases hor with ⟨t₁, ht₁, hnot⟩ | ⟨hnone, -⟩
    · obtain rfl : t₁ = t' := Option.some.inj (ht₁.symm.trans ht')
      cases t₁ with
      | expire g => exact absurd rfl (hnot g)
      | _ => rfl
    · rw [hnone] at ht'
      cases ht'
  · rcases hor with ⟨t₁, ht₁, -⟩ | ⟨-, hdoomed⟩
    · rw [hdone] at ht₁
      cases ht₁
    · cases hresult
      rw [hpool]
      exact hdoomed

/-- A turn of an acquisition keeps on the path of the sandbox that it has claimed. -/
theorem path_next {s : Scope (Option (Next Point Result))} (hb : Backed p a)
    (hdoom : ∀ id, p.Doomed id → s.pool.Doomed id)
    (h : (demand config block a).Turn c p out sig s)
    (ha : (Strand.land a s.result).point? = some a') (hpath : ∀ id, old = some id → Path id p a) :
    ∀ id, a.claimed old = some id → Path id s.pool a' := by
  intro id hid
  cases a with
  | pick => cases hid
  | unpause id' port =>
    cases hid
    rcases Demand.turn_act h with ⟨-, -, rfl⟩ | ⟨r, -, -, rfl⟩
    · cases ha
      rfl
    · cases r <;> (cases ha; rfl)
  | probe id' port =>
    obtain rfl : id' = id := hpath id hid
    rcases Demand.turn_health h with ⟨-, -, rfl⟩ | ⟨r, -, -, rfl⟩
    · cases ha
      rfl
    · cases r <;> (cases ha; rfl)
  | rebind id' =>
    obtain rfl : id' = id := hpath id hid
    obtain ⟨-, -, rfl⟩ := Demand.turn_scope h
    by_cases hc : p.claim? id' = some .waking
    · -- the sandbox is paused, so that it is bound to the block
      obtain ⟨r, hf, hs⟩ := hb.dormant id' hc
      have hfind : (p.dropClaim id').find? id' = some r := hf
      have hadmits : r.state.admits .idle = true := by rw [hs]; rfl
      simp only [Scope.map, rebind, hc, bne_self_eq_false, Bool.false_eq_true, if_false, hfind,
        Record.move_of_admits (r := { r with busy := false }) hadmits,
        Spawn.bind_idle (r := { r with busy := false, state := .idle }) rfl] at ha
      cases ha
    · have hne : (p.claim? id' != some .waking) = true := by simpa using hc
      simp only [Scope.map, rebind, hne, if_true] at ha
      cases ha
      rfl
  | failed error =>
    obtain ⟨-, -, rfl⟩ := Demand.turn_scope h
    cases error with
    | wakeFailed id' message =>
      obtain rfl : id' = id := hpath id hid
      cases ha
      rfl
    | _ => exact absurd (hpath id hid) fun hf => hf
  | retire id' error t =>
    have hnot : ∀ g, t ≠ .expire g := by
      rintro g rfl
      exact hpath id hid
    obtain rfl : id' = id := by
      have hp := hpath id hid
      cases t with
      | expire g => exact absurd rfl (hnot g)
      | _ => exact hp
    exact path_of_retire hb hnot h ha
  | replace error =>
    have hd := hdoom id (hpath id hid)
    obtain ⟨-, -, rfl⟩ := Demand.turn_scope h
    have hcold : a' = .cold .allocate := by
      simp only [Scope.map, coldOr] at ha
      split at ha
      · cases ha
      · cases ha
        rfl
    rw [hcold]
    exact hd
  | cold t =>
    obtain ⟨s₀, -, hpool, ⟨t', -, rfl⟩ | ⟨r, -, hr⟩⟩ := Strand.point?_into h ha
    · exact hdoom id (hpath id hid)
    · cases hr
  | gate =>
    obtain ⟨-, -, -, rfl⟩ := Demand.turn_gate h
    cases ha
    trivial
  | find =>
    obtain ⟨-, -, rfl⟩ := Demand.turn_scope h
    simp only [Scope.map, find] at ha
    split at ha <;> (cases ha; trivial)
  | reserve =>
    obtain ⟨-, -, rfl⟩ := Demand.turn_scope h
    simp only [Scope.map, reserve] at ha
    split at ha
    · cases ha
    · cases ha
      trivial
  | shared t =>
    obtain ⟨s₀, -, hpool, ⟨t', -, rfl⟩ | ⟨r, -, hr⟩⟩ := Strand.point?_into h ha
    · trivial
    · cases r <;> (cases hr; trivial)
  | join id' =>
    obtain ⟨-, -, rfl⟩ := Demand.turn_scope h
    simp only [Scope.map, join] at ha
    split at ha
    · cases ha
    · split at ha <;> cases ha
  | leave error =>
    obtain ⟨-, -, rfl⟩ := Demand.turn_scope h
    cases ha

end Acquire

end SandboxPool
