import SandboxPool.Proofs.Machine.Acquisitions
import SandboxPool.Proofs.Machine.Leaves

/-!
# Processes that tend sandboxes

A sandbox is tended by a spawn, an acquisition or a release, whoever makes it: a caller, a prewarm or
the block of an execution. A `Tender` is such a process at its point. Other than for an innermost
process, it matters how it goes on: `Tender.Turn` is a turn of it together with the tender behind it.

* A turn of a post is one of its tender, if it has one, and whoever tends a sandbox behind the turn and
  did not before has just started (`Post.Turned.tends`).
* So it is for the moves of a machine (`Machine.tends_next`).
-/

namespace SandboxPool

variable {config : Config} {c : Context} {p p' : Pool} {out : Bool} {sig : Option Signal}
  {e : List Effect} {block : String}

/-- A process that tends a sandbox, at its point. -/
inductive Tender where
  | spawn (job : Spawn.Job) (s : Spawn.Point)
  | acquire (block : String) (a : Acquire.Point)
  | release (id : String) (r : Release.Point)

namespace Tender

/-- The tender is at its start. -/
def Fresh (config : Config) : Tender → Prop
  | spawn _ s => s = .allocate
  | acquire _ a => a = Acquire.start config
  | release _ r => r = Release.start config

/-- A turn of a tender, with the pool behind it, the tender behind it unless it is at its end, and
whether that one waits for a reply. -/
inductive Turn (config : Config) (c : Context) (p : Pool) (out : Bool) (sig : Option Signal) :
    Tender → Pool → Option Tender → Bool → Prop where
  | spawn {job : Spawn.Job} {s : Spawn.Point} {sc : Scope (Option (Next Spawn.Point Spawn.Result))}
      (h : (Spawn.demand config job s).Turn c p out sig sc) :
      Turn config c p out sig (.spawn job s) sc.pool
        ((Strand.land s sc.result).point?.map (.spawn job)) sc.result.isNone
  | acquire {block : String} {a : Acquire.Point}
      {sc : Scope (Option (Next Acquire.Point Acquire.Result))}
      (h : (Acquire.demand config block a).Turn c p out sig sc) :
      Turn config c p out sig (.acquire block a) sc.pool
        ((Strand.land a sc.result).point?.map (.acquire block)) sc.result.isNone
  | release {id : String} {r : Release.Point}
      {sc : Scope (Option (Next Release.Point Release.Result))}
      (h : (Release.demand id r).Turn c p out sig sc) :
      Turn config c p out sig (.release id r) sc.pool
        ((Strand.land r sc.result).point?.map (.release id)) sc.result.isNone

/-- What a turn makes of a tender, where `o` is the one before it and `o'` the one behind. -/
inductive Goes (config : Config) (c : Context) (p : Pool) (out : Bool) (sig : Option Signal)
    (q : Pool) (w : Bool) : (o o' : Option Tender) → Prop where
  | turn {t : Tender} {o' : Option Tender} (h : t.Turn config c p out sig q o' w) :
      Goes config c p out sig q w (some t) o'
  | starts {o' : Option Tender} (h : ∀ t, o' = some t → t.Fresh config) :
      Goes config c p out sig q w none o'

end Tender

/-! ## Tenders of posts -/

/-- What the run of a block is at. -/
def BlockRun.Point.tender? (block : String) : BlockRun.Point → Option Tender
  | .acquire _ a => some (.acquire block a)
  | .release _ id r => some (.release id r)
  | _ => none

/-- What a member of an execution is at. -/
def Execution.Duty.tender? : Execution.Duty → Option Tender
  | .run block b => b.tender? block
  | .terminate .. => none

/-- What an execution itself is at. -/
def Execution.Point.tender? : Execution.Point → Option Tender
  | .solo _ block b => b.tender? block
  | _ => none

/-- The tender of a post. -/
def Post.tender? (config : Config) : Post → Option Tender
  | acquire block s => s.point?.map (.acquire block)
  | release id s => s.point?.map (.release id)
  | spawn s => s.point?.map (.spawn (Prewarm.job config))
  | execute _ s => s.point?.bind (·.tender?)
  | duty s => s.point?.bind (·.tender?)
  | _ => none

/-! ## Leaves -/

/-- The innermost process of a tender. -/
def Tender.leaf : Tender → Leaf
  | spawn job s => s.leaf job
  | acquire block a => a.leaf block
  | release id r => r.leaf id

/-- The leaf is one of a tender, and does not terminate the sandbox. -/
def Leaf.tends : Leaf → Bool
  | spawn .. | acquire .. | release .. => true
  | _ => false

section Leaves

variable {l : Leaf} {t : Tender}

theorem BlockRun.leaf_of_tender? {b : Point} (h : b.tender? block = some t) :
    b.leaf block = t.leaf := by
  cases b with
  | acquire since a => cases h; rfl
  | release ran id r => cases h; rfl
  | _ => cases h

theorem BlockRun.tender?_of_leaf {b : Point} (h : (b.leaf block).tends = true) :
    ∃ t, b.tender? block = some t ∧ t.leaf = b.leaf block := by
  cases b with
  | acquire since a => exact ⟨_, rfl, rfl⟩
  | release ran id r => exact ⟨_, rfl, rfl⟩
  | _ => cases h

/-- The leaf of a post is that of its tender, if it has one. -/
theorem Post.leaf?_of_tender? {x : Post} (h : x.tender? config = some t) :
    x.leaf? config = some t.leaf := by
  cases x with
  | acquire block s =>
    obtain ⟨a, ha, rfl⟩ := Option.map_eq_some_iff.1 h
    exact congrArg (Option.map _) ha
  | release id s =>
    obtain ⟨r, hr, rfl⟩ := Option.map_eq_some_iff.1 h
    exact congrArg (Option.map _) hr
  | spawn s =>
    obtain ⟨point, hp, rfl⟩ := Option.map_eq_some_iff.1 h
    exact congrArg (Option.map _) hp
  | execute plan s =>
    obtain ⟨point, hp, ht⟩ := Option.bind_eq_some_iff.1 h
    refine (congrArg (Option.map (·.leaf plan)) hp).trans (congrArg some ?_)
    cases point with
    | solo progress block b => exact BlockRun.leaf_of_tender? ht
    | _ => cases ht
  | duty s =>
    obtain ⟨d, hd, ht⟩ := Option.bind_eq_some_iff.1 h
    refine (congrArg (Option.map (·.leaf)) hd).trans (congrArg some ?_)
    cases d with
    | run block b => exact BlockRun.leaf_of_tender? ht
    | terminate id point => cases ht
  | _ => cases h

/-- A leaf that tends a sandbox is that of a tender. -/
theorem Post.tender?_of_leaf? {x : Post} (hl : x.leaf? config = some l) (h : l.tends = true) :
    ∃ t, x.tender? config = some t ∧ t.leaf = l := by
  cases x with
  | acquire block s =>
    obtain ⟨a, ha, rfl⟩ := Option.map_eq_some_iff.1 hl
    exact ⟨_, congrArg (Option.map _) ha, rfl⟩
  | release id s =>
    obtain ⟨r, hr, rfl⟩ := Option.map_eq_some_iff.1 hl
    exact ⟨_, congrArg (Option.map _) hr, rfl⟩
  | spawn s =>
    obtain ⟨point, hp, rfl⟩ := Option.map_eq_some_iff.1 hl
    exact ⟨_, congrArg (Option.map _) hp, rfl⟩
  | execute plan s =>
    obtain ⟨point, hp, rfl⟩ := Option.map_eq_some_iff.1 hl
    cases point with
    | solo progress block b =>
      obtain ⟨t, ht, hleaf⟩ := BlockRun.tender?_of_leaf (b := b) h
      exact ⟨t, (congrArg (Option.bind · _) hp).trans ht, hleaf⟩
    | _ => cases h
  | duty s =>
    obtain ⟨d, hd, rfl⟩ := Option.map_eq_some_iff.1 hl
    cases d with
    | run block b =>
      obtain ⟨t, ht, hleaf⟩ := BlockRun.tender?_of_leaf (b := b) h
      exact ⟨t, (congrArg (Option.bind · _) hd).trans ht, hleaf⟩
    | terminate id point => cases h
  | _ =>
    obtain ⟨point, -, rfl⟩ := Option.map_eq_some_iff.1 hl
    cases h

/-- Whoever tends a sandbox in a spawn is a member of a prewarm. -/
theorem Post.spawn_of_tender? {x : Post} {job : Spawn.Job} {s : Spawn.Point}
    (h : x.tender? config = some (.spawn job s)) :
    ∃ st, x = .spawn st ∧ st.point? = some s ∧ job = Prewarm.job config := by
  have hblock : ∀ {block : String} {b : BlockRun.Point}, b.tender? block ≠ some (.spawn job s) := by
    intro block b hb
    cases b <;> cases hb
  cases x with
  | acquire block st =>
    obtain ⟨a, -, he⟩ := Option.map_eq_some_iff.1 h
    cases he
  | release id st =>
    obtain ⟨r, -, he⟩ := Option.map_eq_some_iff.1 h
    cases he
  | spawn st =>
    obtain ⟨point, hp, he⟩ := Option.map_eq_some_iff.1 h
    cases he
    exact ⟨st, rfl, hp, rfl⟩
  | execute plan st =>
    obtain ⟨point, -, ht⟩ := Option.bind_eq_some_iff.1 h
    cases point with
    | solo progress block b => exact absurd ht hblock
    | _ => cases ht
  | duty st =>
    obtain ⟨d, -, ht⟩ := Option.bind_eq_some_iff.1 h
    cases d with
    | run block b => exact absurd ht hblock
    | terminate id point => cases ht
  | _ => cases h

/-- Whoever tends a sandbox in an acquisition acquires. -/
theorem Post.acquiring?_of_tender? {x : Post} {a : Acquire.Point}
    (h : x.tender? config = some (.acquire block a)) : x.acquiring? = some a := by
  have hblock : ∀ {name : String} {b : BlockRun.Point}, b.tender? name = some (.acquire block a) →
      b.acquiring? = some a := by
    intro name b hb
    cases b <;> cases hb
    rfl
  cases x with
  | acquire block s =>
    obtain ⟨a, ha, he⟩ := Option.map_eq_some_iff.1 h
    cases he
    exact ha
  | release id s =>
    obtain ⟨r, -, he⟩ := Option.map_eq_some_iff.1 h
    cases he
  | spawn s =>
    obtain ⟨point, -, he⟩ := Option.map_eq_some_iff.1 h
    cases he
  | execute plan s =>
    obtain ⟨point, hp, ht⟩ := Option.bind_eq_some_iff.1 h
    refine (congrArg (Option.bind · _) hp).trans ?_
    cases point with
    | solo progress name b => exact hblock ht
    | _ => cases ht
  | duty s =>
    obtain ⟨d, hd, ht⟩ := Option.bind_eq_some_iff.1 h
    refine (congrArg (Option.bind · _) hd).trans ?_
    cases d with
    | run name b => exact hblock ht
    | terminate id point => cases ht
  | _ => cases h

end Leaves

/-! ## Turns -/

/-- A turn of a block is one of its acquisition or of its release. -/
theorem BlockRun.tends {b : Point} {s : Scope (Option (Next Point BlockResult))}
    (h : (demand config block b).Turn c p out sig s) :
    Tender.Goes config c p out sig s.pool s.result.isNone (b.tender? block)
      ((Strand.land b s.result).point?.bind (·.tender? block)) := by
  cases b with
  | begin =>
    obtain ⟨-, -, rfl⟩ := Demand.turn_scope h
    exact .starts fun t ht => by cases ht; rfl
  | acquire since a =>
    obtain ⟨s₀, h₀, rfl⟩ := Demand.turn_map h
    have hgoes := Tender.Goes.turn (.acquire h₀)
    obtain ⟨pool, effects, result⟩ := s₀
    cases result with
    | none => exact hgoes
    | some next =>
      cases next with
      | done r => cases r <;> exact hgoes
      | _ => exact hgoes
  | refuse since e =>
    obtain ⟨-, -, rfl⟩ := Demand.turn_scope h
    exact .starts fun t ht => by cases ht
  | run since sandbox =>
    rcases Demand.turn_run h with ⟨-, -, rfl⟩ | ⟨r, -, -, rfl⟩
    · exact .starts fun t ht => by cases ht
    · refine .starts fun t ht => ?_
      cases hr : r.terminates <;> simp only [hr] at ht <;> cases ht
  | retire since sandbox ending t =>
    obtain ⟨s₀, -, rfl⟩ := Demand.turn_map h
    refine .starts fun t ht => ?_
    obtain ⟨pool, effects, result⟩ := s₀
    cases result with
    | none => cases ht
    | some next => cases next <;> cases ht
  | conclude since sandbox ending =>
    obtain ⟨-, -, rfl⟩ := Demand.turn_scope h
    exact .starts fun t ht => by cases ht; rfl
  | release ran id r =>
    obtain ⟨s₀, h₀, rfl⟩ := Demand.turn_map h
    have hturn : Tender.Turn config c p out sig (.release id r) _ _ _ := .release h₀
    have hgoes := Tender.Goes.turn hturn
    obtain ⟨pool, effects, result⟩ := s₀
    cases result with
    | none => exact hgoes
    | some next => cases next <;> exact hgoes

namespace Execution

theorem Duty.tends {d : Duty} {s : Scope (Option (Next Duty Yield))}
    (h : (member config d).Turn c p out sig s) :
    Tender.Goes config c p out sig s.pool s.result.isNone d.tender?
      ((Strand.land d s.result).point?.bind (·.tender?)) := by
  cases d with
  | run block b =>
    obtain ⟨s₀, h₀, rfl⟩ := Demand.turn_map h
    have hgoes := BlockRun.tends h₀
    obtain ⟨pool, effects, result⟩ := s₀
    cases result with
    | none => exact hgoes
    | some next => cases next <;> exact hgoes
  | terminate id t =>
    obtain ⟨s₀, -, rfl⟩ := Demand.turn_map h
    refine .starts fun t ht => ?_
    obtain ⟨pool, effects, result⟩ := s₀
    cases result with
    | none => cases ht
    | some next => cases next <;> cases ht

variable {plan : Plan} {point : Point} {s : Scope (Option (Next Point Result))}
  {tasks : List (String × Duty)}

/-- A turn of an execution itself is one of the block that it runs. -/
theorem tends (h : (leader config plan point).Turn c p out sig s tasks) :
    Tender.Goes config c p out sig s.pool s.result.isNone point.tender?
      ((Strand.land point s.result).point?.bind (·.tender?)) := by
  cases point with
  | solo progress block b =>
    obtain ⟨hd, -⟩ := Intent.turn_demand h
    obtain ⟨s₀, h₀, rfl⟩ := Demand.turn_map hd
    have hgoes := BlockRun.tends h₀
    obtain ⟨pool, effects, result⟩ := s₀
    cases result with
    | none => exact hgoes
    | some next => cases next <;> exact hgoes
  | _ =>
    refine .starts fun t ht => ?_
    obtain ⟨point', hpoint, ht⟩ := Option.bind_eq_some_iff.1 ht
    cases point' with
    | solo progress block b =>
      obtain rfl := eq_begin_of_lead (by simp) h hpoint
      cases ht
    | _ => cases ht

end Execution

/-- The members of a prewarm start with a port. -/
theorem Prewarm.allocate_of_hired {count : Nat} {point : Point} {s : Scope (Option (Next Point Result))}
    {tasks : List (Unit × Spawn.Point)}
    (h : ((conduct config count).leader point).Turn c p out sig s tasks) :
    ∀ x ∈ tasks, x.2 = .allocate := by
  intro x hx
  cases point with
  | reserve =>
    obtain ⟨-, -, -, rfl⟩ := Intent.turn_hire h
    simp only [reserve] at hx
    split at hx
    · cases hx
    · rw [List.eq_of_mem_replicate hx]
  | gather =>
    obtain ⟨-, -, -, rfl⟩ := Intent.turn_join h
    cases hx
  | _ =>
    obtain ⟨-, rfl⟩ := Intent.turn_demand h
    cases hx

namespace Post

variable {x : Post} {place : Nat} {after : List (Nat × Post)}

/-- What a turn makes of the tender of a post, with the posts behind it: the tender behind the turn is
that of the post at the same place, and any other one has just started. -/
structure Tends (config : Config) (c : Context) (p : Pool) (sig : Option Signal) (place : Nat)
    (x : Post) (p' : Pool) (after : List (Nat × Post)) (o' : Option Tender) (w : Bool) : Prop where
  goes : Tender.Goes config c p x.awaits sig p' w (x.tender? config) o'
  behind : ∀ y ∈ after, ∀ t, y.2.tender? config = some t →
    y.1 = place ∧ o' = some t ∧ y.2.awaits = w ∨ t.Fresh config
  stands : ∀ t, o' = some t → ∃ y, (place, y) ∈ after ∧ y.tender? config = some t

/-- A post that is a process by itself. -/
theorem tends_strand {σ α : Type} (post : Strand σ α → Post) {tender : σ → Option Tender}
    {point : σ} {s : Scope (Option (Next σ α))}
    (hpost : ∀ st, (post st).tender? config = st.point?.bind tender)
    (hawaits : ∀ st, (post st).awaits = st.awaits)
    (hgoes : Tender.Goes config c p out sig s.pool s.result.isNone (tender point)
      ((Strand.land point s.result).point?.bind tender))
    (ha : after = [(place, post (Strand.land point s.result))] ∨
      (Strand.land point s.result).ended = true ∧ after = []) :
    Tends config c p sig place (post (.standing point out)) s.pool after
      ((Strand.land point s.result).point?.bind tender) s.result.isNone := by
  have hland : (Strand.land point s.result).awaits = s.result.isNone := by
    obtain ⟨pool, effects, result⟩ := s
    cases result with
    | none => rfl
    | some next => exact Strand.awaits_ofNext next
  refine ⟨?_, fun y hy t ht => ?_, fun t ht => ?_⟩
  · rw [hpost, hawaits, Strand.awaits_standing, Strand.point?_standing]
    exact hgoes
  · rcases ha with rfl | ⟨-, rfl⟩
    · obtain rfl := List.mem_singleton.1 hy
      rw [hpost] at ht
      exact .inl ⟨rfl, ht, (hawaits _).trans hland⟩
    · cases hy
  · rcases ha with rfl | ⟨hended, -⟩
    · exact ⟨_, List.mem_singleton_self _, (hpost _).trans ht⟩
    · rw [Strand.point?_of_ended hended] at ht
      cases ht

/-- Posts that tend nothing. -/
theorem tends_none (hx : x.tender? config = none)
    (ha : ∀ y ∈ after, ∀ t, y.2.tender? config = some t → t.Fresh config) :
    Tends config c p sig place x p' after none false := by
  refine ⟨?_, fun y hy t ht => .inr (ha y hy t ht), fun t ht => by cases ht⟩
  rw [hx]
  exact .starts fun t ht => by cases ht

/-- **A turn of a post is one of its tender**, if it has one, and who tends a sandbox behind the turn
and did not before has just started. -/
theorem Turned.tends (h : x.Turned config c p place sig p' e after) :
    ∃ o' w, Tends config c p sig place x p' after o' w := by
  have hteam : ∀ {κ σ α τ β : Type} {conduct : Conduct κ σ α τ β} {leader : Strand τ β → Post}
      {member : κ → Strand σ α → Post} {sig sig' : Option Signal},
      Team.Acted conduct leader member c p place x sig p' e after →
      (∀ s, (leader s).tender? config = none) → (∀ task s, (member task s).tender? config = none) →
      ∃ o' w, Tends config c p sig' place x p' after o' w := by
    intro κ σ α τ β conduct leader member sig sig' ht hl hm
    obtain ⟨hx, hafter⟩ := ht.forall (·.tender? config = none) hl hm
    refine ⟨none, false, tends_none hx fun y hy t ht => ?_⟩
    rw [hafter y hy] at ht
    cases ht
  cases h with
  | @acquire block _ _ _ ht =>
    obtain ⟨a, out, s, rfl, hturn, rfl⟩ := ht.at_point
    have hgoes := Tender.Goes.turn (.acquire hturn)
    rw [Option.map_eq_bind] at hgoes
    exact ⟨_, _, tends_strand (.acquire block) (fun _ => Option.map_eq_bind) (fun _ => rfl) hgoes
      (.inl rfl)⟩
  | @release id _ _ _ ht =>
    obtain ⟨r, out, s, rfl, hturn, rfl⟩ := ht.at_point
    have hreleases : Tender.Turn config c p out sig (.release id r) _ _ _ := .release hturn
    have hgoes := Tender.Goes.turn hreleases
    rw [Option.map_eq_bind] at hgoes
    exact ⟨_, _, tends_strand (.release id) (fun _ => Option.map_eq_bind) (fun _ => rfl) hgoes
      (.inl rfl)⟩
  | terminate =>
    refine ⟨none, false, tends_none rfl fun y hy t ht => ?_⟩
    obtain rfl := List.mem_singleton.1 hy
    cases ht
  | @prewarm count _ _ _ _ _ ht =>
    cases ht with
    | leader hl n =>
      refine ⟨none, false, tends_none rfl fun y hy t ht => ?_⟩
      rcases List.mem_cons.1 hy with rfl | hy
      · cases ht
      · obtain ⟨member, hmember, rfl⟩ := List.mem_map.1 hy
        obtain ⟨task, htask, -, hready⟩ := Team.mem_enrol hmember
        obtain ⟨point, out, s, -, hturn, -⟩ := hl.at_point
        simp only [tender?, hready, Strand.point?, Option.map_some, Option.some.injEq] at ht
        rw [← ht]
        exact Prewarm.allocate_of_hired hturn task htask
    | member ht ha =>
      obtain ⟨t, out, s, rfl, hturn, rfl⟩ := ht.at_point
      have hgoes := Tender.Goes.turn (.spawn hturn)
      rw [Option.map_eq_bind] at hgoes
      exact ⟨_, _, tends_strand .spawn (fun _ => Option.map_eq_bind) (fun _ => rfl) hgoes ha⟩
  | teardown ht => exact hteam ht (fun _ => rfl) fun _ _ => rfl
  | cleanup ht => exact hteam ht (fun _ => rfl) fun _ _ => rfl
  | @execute plan _ _ _ _ _ ht =>
    cases ht with
    | leader hl n =>
      obtain ⟨point, out, s, rfl, hturn, rfl⟩ := hl.at_point
      have hlead := tends_strand (.execute plan) (fun _ => rfl) (fun _ => rfl)
        (Execution.tends hturn)
        (.inl (Eq.refl [(place, Post.execute plan (Strand.land point s.result))]))
      refine ⟨_, _, hlead.goes, fun y hy t ht => ?_, fun t ht => ?_⟩
      · rcases List.mem_cons.1 hy with rfl | hy
        · exact hlead.behind _ (List.mem_singleton_self _) t ht
        · obtain ⟨member, hmember, rfl⟩ := List.mem_map.1 hy
          obtain ⟨task, htask, -, hready⟩ := Team.mem_enrol hmember
          simp only [tender?, hready, Strand.point?, Option.bind_some] at ht
          rcases Execution.duty_of_hired hturn task htask with ⟨block, hduty⟩ | ⟨id, hduty⟩ <;>
            (rw [hduty] at ht; cases ht)
      · obtain ⟨y, hy, hyt⟩ := hlead.stands t ht
        exact ⟨y, List.mem_cons.2 (.inl (List.mem_singleton.1 hy)), hyt⟩
    | member ht ha =>
      obtain ⟨d, out, s, rfl, hturn, rfl⟩ := ht.at_point
      exact ⟨_, _, tends_strand .duty (fun _ => rfl) (fun _ => rfl) (Execution.Duty.tends hturn) ha⟩

end Post

/-! ## Moves -/

/-- An operation that starts is at the start of what it tends, if anything. -/
theorem Activity.tender?_ofOrder {o : Order} {y : Nat × Post} {t : Tender}
    (hy : y ∈ (ofOrder config o).posts) (ht : y.2.tender? config = some t) : t.Fresh config := by
  cases o with
  | acquire block =>
    obtain rfl := List.mem_singleton.1 hy
    cases ht
    rfl
  | release id =>
    obtain rfl := List.mem_singleton.1 hy
    cases ht
    rfl
  | _ =>
    obtain rfl := List.mem_singleton.1 hy
    cases ht

namespace Machine

variable {m m' : Machine} {move : Move} {notes : List Note} {k : Key} {x : Post} {l : Leaf} {t : Tender}
  {o' : Option Tender} {w : Bool}

/-- The tender of the post with a key. -/
def tender? (m : Machine) (k : Key) : Option Tender :=
  (m.posts.find? (·.1 == k)).bind (·.2.tender? m.pool.config)

theorem tender?_eq (ho : m.Ordered) (hx : (k, x) ∈ m.posts) :
    m.tender? k = x.tender? m.pool.config := by
  unfold tender?
  rw [find?_post ho hx]
  rfl

theorem mem_of_tender? (h : m.tender? k = some t) :
    ∃ x, (k, x) ∈ m.posts ∧ x.tender? m.pool.config = some t := mem_of_bind_find? h

theorem leaf?_of_tender? (ho : m.Ordered) (h : m.tender? k = some t) : m.leaf? k = some t.leaf := by
  obtain ⟨x, hx, ht⟩ := mem_of_tender? h
  rw [leaf?_eq ho hx]
  exact Post.leaf?_of_tender? ht

theorem tender?_of_leaf? (ho : m.Ordered) (hl : m.leaf? k = some l) (h : l.tends = true) :
    ∃ t, m.tender? k = some t ∧ t.leaf = l := by
  obtain ⟨x, hx, hleaf⟩ := mem_of_leaf? hl
  obtain ⟨t, ht, heq⟩ := Post.tender?_of_leaf? hleaf h
  exact ⟨t, (tender?_eq ho hx).trans ht, heq⟩

/-- What a move makes of the tender of the post that moves, with those of all posts behind it: each was
there before, is that of the post that has moved, or has just started. -/
structure Tends (m : Machine) (move : Move) (m' : Machine) (o' : Option Tender) (w : Bool) : Prop where
  goes : Tender.Goes m.pool.config m.context m.pool (m.awaits (m.mover move)) (m.signal? move) m'.pool
    w (m.tender? (m.mover move)) o'
  behind : ∀ k y t, (k, y) ∈ m'.posts → y.tender? m.pool.config = some t →
    (k, y) ∈ m.posts ∧ k ≠ m.mover move ∨ k = m.mover move ∧ o' = some t ∧ y.awaits = w ∨
      t.Fresh m.pool.config
  stands : ∀ t, o' = some t → ∃ y, (m.mover move, y) ∈ m'.posts ∧ y.tender? m.pool.config = some t

/-- **Every move is a turn of one tender, or of none.** -/
theorem tends_next (ho : m.Ordered) (hn : m.next move = some (m', notes)) :
    ∃ o' w, m.Tends move m' o' w := by
  obtain ⟨-, before, e, after, rest, hb, ha, hs⟩ := next_posts ho hn
  have hrest : ∀ y ∈ rest, y ∈ m.posts ∧ y.1 ≠ m.mover move := by
    intro y hy
    have hmem : y ∈ m.posts := hb.mem_iff.2 (List.mem_append_right _ hy)
    refine ⟨hmem, fun hkey => ?_⟩
    rcases hs.mover with hnew | ⟨z, rfl⟩
    · have hlt := key_lt ho (k := y.1) (x := y.2) hmem
      rw [hkey, hnew] at hlt
      exact Nat.lt_irrefl _ hlt
    · have hnodup := (hb.map (·.1)).nodup_iff.1 (posts_nodup ho)
      exact (List.nodup_cons.1 hnodup).1 (List.mem_map.2 ⟨y, hy, hkey⟩)
  have hposts : ∀ {k y}, (k, y) ∈ m'.posts → (k, y) ∈ after ∨ (k, y) ∈ m.posts ∧ k ≠ m.mover move :=
    fun hy => (List.mem_append.1 (ha.mem_iff.1 hy)).imp_right (hrest _)
  -- a move of a new post, which tends nothing or starts
  have hnone : (m.mover move).1 = m.started →
      (∀ y ∈ after, ∀ t, y.2.tender? m.pool.config = some t → t.Fresh m.pool.config) →
      ∃ o' w, m.Tends move m' o' w := by
    intro hnew hafter
    refine ⟨none, false, ?_, fun k y t hy ht => ?_, fun t ht => by cases ht⟩
    · have hno : m.tender? (m.mover move) = none := by
        cases hm : m.tender? (m.mover move) with
        | none => rfl
        | some t =>
          obtain ⟨x, hx, -⟩ := mem_of_tender? hm
          have hlt := key_lt ho hx
          rw [hnew] at hlt
          exact absurd hlt (Nat.lt_irrefl _)
      rw [hno]
      exact .starts fun t ht => by cases ht
    · rcases hposts hy with hy | hy
      · exact .inr (.inr (hafter _ hy t ht))
      · exact .inl hy
  have hturned : ∀ {n place : Nat} {x : Post} {p' : Pool} {after' : List (Nat × Post)},
      m.mover move = (n, place) → before = [((n, place), x)] → after = Activity.keyed n after' →
      m'.pool = p' →
      x.Turned m.pool.config m.context m.pool place (m.signal? move) p' e after' →
      ∃ o' w, m.Tends move m' o' w := by
    rintro n place x p' after' hk rfl rfl rfl ht
    obtain ⟨o', w, htends⟩ := ht.tends
    have hx : ((n, place), x) ∈ m.posts :=
      hb.mem_iff.2 (List.mem_append_left _ (List.mem_singleton_self _))
    refine ⟨o', w, ?_, fun k y t hy ht => ?_, fun t ht => ?_⟩
    · rw [hk, tender?_eq ho hx, awaits_eq ho hx]
      exact htends.goes
    · rcases hposts hy with hy | hy
      · obtain ⟨y₀, hy₀, heq⟩ := List.mem_map.1 hy
        obtain ⟨rfl, rfl⟩ := Prod.mk.inj heq
        rcases htends.behind y₀ hy₀ t ht with ⟨hplace, ho', hw⟩ | hfresh
        · exact .inr (.inl ⟨by rw [hk, hplace], ho', hw⟩)
        · exact .inr (.inr hfresh)
      · exact .inl hy
    · obtain ⟨y, hy, hyt⟩ := htends.stands t ht
      rw [hk]
      exact ⟨y, ha.mem_iff.2 (List.mem_append_left _ (List.mem_map_of_mem hy)), hyt⟩
  generalize hp' : m'.pool = p' at hs
  cases hs with
  | abort | advance | vary => exact hnone rfl fun y hy => by cases hy
  | order o =>
    refine hnone rfl fun y hy t ht => ?_
    obtain ⟨y₀, hy₀, rfl⟩ := List.mem_map.1 hy
    exact Activity.tender?_ofOrder hy₀ ht
  | step ht => exact hturned rfl rfl rfl hp' ht
  | reply ht => exact hturned rfl rfl rfl hp' ht
  | fire ht =>
    refine hnone rfl fun y hy t hyt => ?_
    obtain ⟨y₀, hy₀, rfl⟩ := List.mem_map.1 hy
    obtain ⟨o', w, htends⟩ := ht.tends
    rcases htends.behind y₀ hy₀ t hyt with ⟨-, ho', -⟩ | hfresh
    · cases htends.goes with
      | starts hstarts => exact hstarts t ho'
    · exact hfresh

/-- Whoever tends a sandbox behind a move did so before it, is the one that has moved, or has just
started. -/
theorem Tends.tender?_next (h : m.Tends move m' o' w) (ho : m.Ordered)
    (hn : m.next move = some (m', notes)) (ht : m'.tender? k = some t) :
    m.tender? k = some t ∧ m'.awaits k = m.awaits k ∧ k ≠ m.mover move ∨
      k = m.mover move ∧ o' = some t ∧ m'.awaits k = w ∨ t.Fresh m.pool.config := by
  obtain ⟨x, hx, hxt⟩ := mem_of_tender? ht
  rw [(next_things ho hn).config_eq] at hxt
  rcases h.behind k x t hx hxt with ⟨hold, hk⟩ | ⟨hk, ho', hw⟩ | hfresh
  · exact .inl ⟨(tender?_eq ho hold).trans hxt, awaits_next ho hn hold (Ne.symm hk), hk⟩
  · exact .inr (.inl ⟨hk, ho', (awaits_eq (next_posts ho hn).1 hx).trans hw⟩)
  · exact .inr (.inr hfresh)

/-- The tender of the post that has moved. -/
theorem Tends.tender?_mover (h : m.Tends move m' o' w) (ho : m.Ordered)
    (hn : m.next move = some (m', notes)) (ht : o' = some t) : m'.tender? (m.mover move) = some t := by
  obtain ⟨y, hy, hyt⟩ := h.stands t ht
  rw [tender?_eq (next_posts ho hn).1 hy, (next_things ho hn).config_eq]
  exact hyt

/-- The tender of a post that does not move stays. -/
theorem tender?_stays (ho : m.Ordered) (hn : m.next move = some (m', notes))
    (h : m.tender? k = some t) (hk : m.mover move ≠ k) : m'.tender? k = some t := by
  obtain ⟨x, hx, ht⟩ := mem_of_tender? h
  rw [tender?_eq (next_posts ho hn).1 (post_next ho hn hx hk), (next_things ho hn).config_eq]
  exact ht

end Machine

end SandboxPool
