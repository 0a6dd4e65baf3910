import SandboxPool.Proofs.Machine.Events
import SandboxPool.Proofs.Machine.Promises
import Mathlib.Data.List.Perm.Subperm

/-!
# Results of blocks

A block that is run comes to one result, which carries its name and has an error exactly if it is a
failure (`BlockRun.ensures`). A member of a group may break off instead. `settleAccounts` gives the
blocks without a result the errors of such members, so that in the end each block of the group has one
result, in whatever order the members ended and however often a block occurs (`settles_accounts`).
-/

namespace SandboxPool

variable {config : Config} {c : Context} {p : Pool} {block : String}

/-- The results are those of the blocks: one for each, in any order, and with an error exactly if it
is a failure. -/
structure Settles (blocks : List String) (results : List BlockResult) : Prop where
  blocks : (results.map (·.block)).Perm blocks
  wellFormed : ∀ r ∈ results, r.WellFormed

/-- A result of the block, which has an error exactly if it is a failure. -/
def BlockResult.Of (block : String) (r : BlockResult) : Prop := r.block = block ∧ r.WellFormed

theorem settles_singleton {r : BlockResult} (h : r.Of block) : Settles [block] [r] := by
  refine ⟨?_, fun x hx => ?_⟩
  · show List.Perm [r.block] [block]
    rw [h.1]
  · obtain rfl := List.mem_singleton.1 hx
    exact h.2

/-! ## The run of a block -/

namespace BlockRun

/-- A block that has a result already has one of its own. -/
def Point.Owes (block : String) : Point → Prop
  | .release result _ _ => result.Of block
  | _ => True

theorem of_concluded (block : String) (elapsed : Nat) (e : RunEnd) :
    (concluded block elapsed e).Of block := by
  cases e with
  | outcome o => exact ⟨rfl, BlockResult.ofOutcome_wellFormed block o⟩
  | failed error => exact ⟨rfl, BlockResult.failed_wellFormed _ _ _⟩
  | panicked message => exact ⟨rfl, BlockResult.failed_wellFormed _ _ _⟩

/-- **The run of a block comes to a result of that block.** -/
theorem ensures {b : Point} (hb : b.Owes block) : (demand config block b).Ensures fun next =>
    (Strand.ofNext next).Keeps (Point.Owes block) (BlockResult.Of block) := by
  cases b with
  | begin => exact Demand.ensures_scope fun _ _ => trivial
  | acquire since a =>
    refine (Demand.ensures_true _).into (fun _ _ => trivial) fun a _ => ?_
    cases a <;> trivial
  | refuse since e =>
    exact Demand.ensures_scope fun _ _ => ⟨rfl, BlockResult.failed_wellFormed _ _ _⟩
  | run since sandbox =>
    refine Demand.ensures_run fun r => ?_
    split <;> trivial
  | retire since sandbox ending t =>
    exact (Demand.ensures_true _).into (fun _ _ => trivial) fun _ _ => trivial
  | conclude since sandbox ending =>
    exact Demand.ensures_scope fun c _ => of_concluded block (elapsedMs since c.now) ending
  | release ran id r => exact (Demand.ensures_true _).into (fun _ _ => hb) fun _ _ => hb

end BlockRun

namespace Execution

/-- A member of a group runs the block of its task. -/
def Duty.Runs (task : String) : Duty → Prop
  | .run block b => block = task ∧ b.Owes task
  | .terminate .. => False

/-- A member of a group comes to a result of the block of its task. -/
def Yield.Reports (task : String) : Yield → Prop
  | .ran r => r.Of task
  | .terminated => False

theorem member_ensures {task : String} {d : Duty} (hd : d.Runs task) :
    (member config d).Ensures fun next =>
      (Strand.ofNext next).Keeps (Duty.Runs task) (Yield.Reports task) := by
  cases d with
  | run block b =>
    obtain ⟨rfl, hb⟩ := hd
    exact (BlockRun.ensures hb).into (fun _ h => ⟨rfl, h⟩) fun _ h => h
  | terminate id t => cases hd

/-! ## Members that broke off -/

variable {lost : Nat → String → String} {ended : List (Ended String Yield)} {sent : List String}

/-- Every member gives a result or breaks off. -/
theorem length_yielded_add_losses (lost : Nat → String → String)
    (h : ∀ e ∈ ended, ∀ y, e.result = .ok y → y.Reports e.task) :
    (yielded ended).length + (losses lost ended).length = ended.length := by
  induction ended with
  | nil => rfl
  | cons e rest ih =>
    have hrest := ih fun x hx => h x (List.mem_cons_of_mem _ hx)
    have he := h e (List.mem_cons_self ..)
    unfold yielded losses at hrest ⊢
    cases hres : e.result with
    | error message =>
      simp only [List.filterMap_cons, hres, List.length_cons]
      omega
    | ok y =>
      cases y with
      | ran r =>
        simp only [List.filterMap_cons, hres, List.length_cons]
        omega
      | terminated => cases he _ hres

/-- The blocks with a result are among those of the members. -/
theorem yielded_sublist (h : ∀ e ∈ ended, ∀ y, e.result = .ok y → y.Reports e.task) :
    ((yielded ended).map (·.block)).Sublist (ended.map (·.task)) := by
  induction ended with
  | nil => exact List.Sublist.slnil
  | cons e rest ih =>
    have hrest := ih fun x hx => h x (List.mem_cons_of_mem _ hx)
    have he := h e (List.mem_cons_self ..)
    unfold yielded at hrest ⊢
    cases hres : e.result with
    | error message =>
      simp only [List.filterMap_cons, hres, List.map_cons]
      exact hrest.cons _
    | ok y =>
      cases y with
      | ran r =>
        simp only [List.filterMap_cons, hres, List.map_cons, (he _ hres).1]
        exact hrest.cons_cons _
      | terminated => cases he _ hres

theorem of_mem_yielded (h : ∀ e ∈ ended, ∀ y, e.result = .ok y → y.Reports e.task)
    {r : BlockResult} (hr : r ∈ yielded ended) : r.WellFormed := by
  obtain ⟨e, he, hr⟩ := List.mem_filterMap.1 hr
  split at hr
  · next r' hres =>
    cases hr
    exact (h e he _ hres).2
  · cases hr

/-- The blocks of a group that have no result, in the order in which they were dispatched. -/
def missing (sent : List String) (ended : List (Ended String Yield)) : List String :=
  sent.diff ((yielded ended).map (·.block))

/-- The blocks without a result and the errors of the members that broke off are paired as they come. -/
theorem settleAccounts_eq (lost : Nat → String → String) (sent : List String)
    (ended : List (Ended String Yield)) :
    settleAccounts lost sent ended = yielded ended
      ++ ((missing sent ended).zip (losses lost ended)).map fun x => .failed x.1 x.2 0 := by
  have hmissing : (yielded ended).foldl (fun left r => left.erase r.block) sent
      = missing sent ended := by
    unfold missing
    rw [List.diff_eq_foldl, List.foldl_map]
  unfold settleAccounts
  simp only [hmissing]

theorem perm_missing (h : ∀ e ∈ ended, ∀ y, e.result = .ok y → y.Reports e.task)
    (hsent : (ended.map (·.task)).Perm sent) :
    ((yielded ended).map (·.block) ++ missing sent ended).Perm sent :=
  List.subperm_append_diff_self_of_count_le
    (List.subperm_ext_iff.1 ((yielded_sublist h).subperm.trans hsent.subperm))

/-- As many blocks are left as members broke off. -/
theorem length_missing (h : ∀ e ∈ ended, ∀ y, e.result = .ok y → y.Reports e.task)
    (hsent : (ended.map (·.task)).Perm sent) :
    (missing sent ended).length = (losses lost ended).length := by
  have htotal := (perm_missing h hsent).length_eq
  have hmembers := hsent.length_eq
  have hcount := length_yielded_add_losses lost h
  simp only [List.length_append, List.length_map] at htotal hmembers
  omega

/-- **Each block of a group has one result.** The blocks of the members that broke off are those that
are left when the blocks with a result are taken away, each as often as it has one. -/
theorem settles_accounts (h : ∀ e ∈ ended, ∀ y, e.result = .ok y → y.Reports e.task)
    (hsent : (ended.map (·.task)).Perm sent) :
    Settles sent (settleAccounts lost sent ended) := by
  rw [settleAccounts_eq]
  refine ⟨?_, fun r hr => ?_⟩
  · have hblocks : ((missing sent ended).zip (losses lost ended)).map (fun x => x.1)
        = missing sent ended := List.map_fst_zip (Nat.le_of_eq (length_missing h hsent))
    simp only [List.map_append, List.map_map]
    refine List.Perm.trans (List.Perm.of_eq ?_) (perm_missing h hsent)
    refine congrArg₂ _ rfl ?_
    exact hblocks
  · rcases List.mem_append.1 hr with hr | hr
    · exact of_mem_yielded h hr
    · obtain ⟨x, -, rfl⟩ := List.mem_map.1 hr
      exact BlockResult.failed_wellFormed _ _ _

end Execution

end SandboxPool
