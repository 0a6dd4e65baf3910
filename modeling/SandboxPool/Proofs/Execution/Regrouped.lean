import SandboxPool.Proofs.Execution.Strides
import SandboxPool.Proofs.Machine.Carried

/-!
# A plan with one lane as a group

A single block and a group of that one block are lanes of two kinds. `Plan.regroup` makes a group of one
lane of a plan. At every point but the start of this very lane an execution of the new plan wants what
one of the old plan wants (`Execution.leader_regroup`).
-/

namespace SandboxPool

variable {behind : Nat}

namespace Lane

/-- The lane as a group. -/
def grouped : Lane → Lane
  | block id => group ⟨[id], none⟩
  | group g => group g

/-- The lane that has so many others behind it becomes a group. -/
def regroup (behind : Nat) : List Lane → List Lane
  | [] => []
  | lane :: rest => if rest.length = behind then lane.grouped :: rest else lane :: regroup behind rest

theorem regroup_append (front : List Lane) (lane : Lane) (back : List Lane) :
    regroup back.length (front ++ lane :: back) = front ++ lane.grouped :: back := by
  induction front with
  | nil => exact if_pos rfl
  | cons first front ih =>
    have hne : (front ++ lane :: back).length ≠ back.length := by
      simp only [List.length_append, List.length_cons]
      omega
    rw [List.cons_append, List.cons_append, regroup, if_neg hne, ih]

theorem regroup_of_length_le {lanes : List Lane} (h : lanes.length ≤ behind) :
    regroup behind lanes = lanes := by
  induction lanes with
  | nil => rfl
  | cons lane rest ih =>
    rw [List.length_cons] at h
    rw [regroup, if_neg (by omega), ih (by omega)]

@[simp] theorem length_regroup (lanes : List Lane) : (regroup behind lanes).length = lanes.length := by
  induction lanes with
  | nil => rfl
  | cons lane rest ih =>
    rw [regroup]
    split
    · rfl
    · rw [List.length_cons, ih, List.length_cons]

theorem regroup_drop_one (lanes : List Lane) :
    regroup behind (lanes.drop 1) = (regroup behind lanes).drop 1 := by
  cases lanes with
  | nil => rfl
  | cons lane rest =>
    rw [regroup]
    split
    · next he => exact regroup_of_length_le (Nat.le_of_eq he)
    · rfl

theorem fault?_grouped (lane : Lane) : lane.grouped.fault? = lane.fault? := by
  cases lane with
  | block id => simp [grouped, fault?]
  | group g => rfl

end Lane

namespace Plan

/-- The plan in which the lane that has so many others behind it is a group. -/
def regroup (behind : Nat) (plan : Plan) : Plan :=
  { plan with lanes := Lane.regroup behind plan.lanes }

theorem faultFrom?_regroup (lanes : List Lane) (index : Nat) :
    faultFrom? index (Lane.regroup behind lanes) = faultFrom? index lanes := by
  induction lanes generalizing index with
  | nil => rfl
  | cons lane rest ih =>
    rw [Lane.regroup]
    split
    · simp only [faultFrom?, Lane.fault?_grouped]
    · simp only [faultFrom?, ih]

theorem check_regroup (plan : Plan) : (plan.regroup behind).check = plan.check := by
  unfold check
  rw [show (plan.regroup behind).lanes = Lane.regroup behind plan.lanes from rfl, faultFrom?_regroup]

end Plan

namespace Execution

variable {config : Config} {plan : Plan}

theorem check_regroup (plan : Plan) (config : Config) :
    check (plan.regroup behind) config = check plan config := by
  unfold check
  rw [Plan.check_regroup]
  rfl

/-- The lanes that are left, with one of them as a group. -/
def Progress.regroup (behind : Nat) (s : Progress) : Progress :=
  { s with rest := Lane.regroup behind s.rest }

/-- The same point of an execution with one lane as a group. -/
def Point.regroup (behind : Nat) : Point → Point
  | .begin => .begin
  | .lane s => .lane (s.regroup behind)
  | .solo s block b => .solo (s.regroup behind) block b
  | .dispatch s sent waiting => .dispatch (s.regroup behind) sent waiting
  | .gather s sent interrupted => .gather (s.regroup behind) sent interrupted
  | .settle s ran interrupted => .settle (s.regroup behind) ran interrupted
  | .abort s index => .abort (s.regroup behind) index
  | .teardown s index => .teardown (s.regroup behind) index
  | .cleared s index => .cleared (s.regroup behind) index
  | .finish s status => .finish (s.regroup behind) status

/-- The next lane is the single block that is a group in the other plan. -/
def Progress.Parts (behind : Nat) (s : Progress) : Prop :=
  ∃ block rest, s.rest = .block block :: rest ∧ rest.length = behind

/-- The same way on for an execution with one lane as a group. -/
abbrev regrouped (behind : Nat) : Next Point Result → Next Point Result :=
  Next.into (Point.regroup behind) .done

theorem begin_regroup (plan : Plan) (p : Pool) :
    begin (plan.regroup behind) p = (begin plan p).map (regrouped behind) := by
  unfold begin
  rw [check_regroup]
  cases check plan p.config with
  | error e => rfl
  | ok u => simp only [Plan.regroup, Lane.length_regroup]; rfl

theorem lane_regroup {s : Progress} (hs : ¬ s.Parts behind) (c : Context) (p : Pool) :
    lane (s.regroup behind) c p = (lane s c p).map (regrouped behind) := by
  cases hr : s.rest with
  | nil =>
    have hkept : (s.regroup behind).rest = [] := by
      show Lane.regroup behind s.rest = _
      rw [hr, Lane.regroup]
    unfold lane
    rw [hkept, hr]
    rfl
  | cons first rest =>
    have hkept : (s.regroup behind).rest = first :: (Lane.regroup behind (first :: rest)).drop 1 := by
      show Lane.regroup behind s.rest = _
      rw [hr, Lane.regroup]
      split
      · next he =>
        cases first with
        | block id => exact absurd ⟨id, rest, hr, he⟩ hs
        | group g => rfl
      · rfl
    unfold lane
    rw [hkept, hr]
    simp only
    split
    · rfl
    · cases first <;> rfl

theorem dispatch_regroup (s : Progress) (sent waiting : List String) (c : Context) (p : Pool) :
    dispatch (s.regroup behind) sent waiting c p
      = (dispatch s sent waiting c p).map fun (tasks, next) => (tasks, regrouped behind next) := by
  cases waiting with
  | nil => rfl
  | cons block rest =>
    unfold dispatch
    simp only
    split <;> rfl

theorem settle_regroup (s : Progress) (ran : List BlockResult) (interrupted : Bool) (c : Context)
    (p : Pool) :
    settle (s.regroup behind) ran interrupted c p
      = (settle s ran interrupted c p).map (regrouped behind) := by
  unfold settle
  simp only
  split
  · rfl
  · split
    · simp only [Progress.regroup, Scope.map, Next.into, Point.regroup, Lane.regroup_drop_one]
    · simp only [Progress.regroup, Scope.map]
      split <;> simp only [*, Next.into, Point.regroup, Progress.regroup, Lane.regroup_drop_one]

theorem teardown_regroup (s : Progress) (index : Nat) (p : Pool) :
    teardown (s.regroup behind) index p
      = (teardown s index p).map fun (tasks, next) => (tasks, regrouped behind next) := by
  unfold teardown
  split <;> rfl

/-- **An execution with one lane as a group wants the same**, unless it is about to start this lane. -/
theorem leader_regroup (config : Config) (plan : Plan) {point : Point}
    (hs : ∀ s, point = .lane s → ¬ s.Parts behind) :
    leader config (plan.regroup behind) (point.regroup behind)
      = (leader config plan point).over (Point.regroup behind) := by
  cases point with
  | begin =>
    show Intent.demand (.scope _) = Intent.demand (.scope _)
    congr 2
    funext c p
    exact begin_regroup plan p
  | lane s =>
    show Intent.demand (.scope _) = Intent.demand (.scope _)
    congr 2
    funext c p
    exact lane_regroup (hs s rfl) c p
  | solo s block b =>
    show Intent.demand (Demand.map _ _) = Intent.demand (Demand.map _ (Demand.map _ _))
    rw [Demand.map_map]
    congr 2
    funext next
    cases next <;> rfl
  | dispatch s sent waiting =>
    show Intent.hire _ = Intent.hire _
    congr 1
    funext c p
    exact dispatch_regroup s sent waiting c p
  | gather s sent interrupted => rfl
  | settle s ran interrupted =>
    show Intent.demand (.scope _) = Intent.demand (.scope _)
    congr 2
    funext c p
    exact settle_regroup s ran interrupted c p
  | abort s index => rfl
  | teardown s index =>
    show Intent.hire _ = Intent.hire _
    congr 1
    funext c p
    exact teardown_regroup s index p
  | cleared s index => rfl
  | finish s status => rfl

end Execution

end SandboxPool
