import SandboxPool.Proofs.Execution.Losses
import SandboxPool.Proofs.Execution.Strides
import SandboxPool.Proofs.ReportAccounts
import SandboxPool.Proofs.Text.Digits

/-!
# Whose error a block gets

Members of a group may break off, each with an error of its own. When all members have ended, the
blocks without a result get these errors, but the blocks come in the order in which they were dispatched
and the errors in the order in which the members ended. So a block may get the error of another one, and
`Machine.join_errors_iff` says exactly when that happens, however the errors are worded, as long as they
tell the members apart (`Execution.TellsApart`, `Leeway.tellsApart_usual`).
-/

namespace SandboxPool

/-- The blocks that a group was dispatched with and what its members came to, when all have ended. -/
def Activity.gathered? : Activity → Option (List String × List (Ended String Execution.Yield))
  | .execute _ ⟨.ready (.gather _ sent _), [], ended, _⟩ => some (sent, ended)
  | _ => none

theorem Activity.of_gathered? {a : Activity} {sent : List String}
    {ended : List (Ended String Execution.Yield)} (h : a.gathered? = some (sent, ended)) :
    ∃ plan t s interrupted, a = .execute plan t ∧ t.leader = .ready (.gather s sent interrupted) ∧
      t.active = [] ∧ t.ended = ended := by
  unfold gathered? at h
  split at h
  · cases h
    exact ⟨_, _, _, _, rfl, rfl, rfl, rfl⟩
  · cases h

/-- The error of a member that broke off names its task. -/
theorem Leeway.tellsApart_usual : Execution.TellsApart usual.lost := by
  intro n k a b h
  have hnumber : ∀ (n : Nat) (rest : List Char),
      (Decimal.digitList n ++ ' ' :: rest).takeWhile Char.isDigit = Decimal.digitList n := by
    intro n rest
    rw [List.takeWhile_append_of_pos fun c hc =>
      Text.IsDigit.iff_isDigit.1 (Text.isDigit_of_mem_digitList hc)]
    simp
  have hlist : ∀ (n : Nat) (a : String), ∃ rest,
      (usual.lost n a).toList = "task ".toList ++ (Decimal.digitList (n + 1) ++ ' ' :: rest) := by
    intro n a
    have htext : " panicked with message ".toList = ' ' :: "panicked with message ".toList := rfl
    refine ⟨"panicked with message ".toList ++ (Text.quoted a).toList, ?_⟩
    simp only [usual, String.toList_append, htext, List.append_assoc, List.cons_append]
    have hdigits : (toString (n + 1)).toList = Decimal.digitList (n + 1) := Nat.toList_repr
    rw [hdigits]
  obtain ⟨rest, hleft⟩ := hlist n a
  obtain ⟨rest', hright⟩ := hlist k b
  rw [h, hright] at hleft
  have hdigits := congrArg (List.takeWhile Char.isDigit) (List.append_cancel_left hleft)
  rw [hnumber, hnumber] at hdigits
  have hsame := Text.digitList_inj.1 hdigits
  omega

namespace Machine

variable {pool : Pool} {now : Instant} {h : History} {m : Machine} {n : Nat} {plan : Plan}
  {t : Execution.Run}

/-- The members of an execution keep numbers of their own, also when they have ended. -/
theorem Withstands.numbered (hr : (ofPool pool now).Withstands h m)
    (ha : m.activity? n = some (.execute plan t)) : t.Numbered := by
  refine hr.executions (I := Team.Numbered) ?_ ?_ ?_ ha
  · exact ⟨List.nodup_nil, fun e he => by cases he⟩
  · exact fun _ ho hn ht => ht.numbered ho hn
  · exact fun ho hx hn => hn.update ho hx _

/-- All members of a group have ended, and the execution goes on with the results of the group. -/
theorem next_gathered {s : Execution.Progress} {sent : List String} {interrupted : Bool}
    (ha : m.activity? n = some (.execute plan t)) (hl : t.leader = .ready (.gather s sent interrupted))
    (hnone : t.active = []) :
    m.next (.step n 0) = some (m.put n (.execute plan { t with
      leader := .ready (.settle s (Execution.settleAccounts m.leeway.lost sent t.ended) interrupted)
      ended := [] }), []) := by
  obtain ⟨leader, active, ended, hired⟩ := t
  obtain rfl : leader = _ := hl
  obtain rfl : active = _ := hnone
  show m.stepAt n 0 = _
  unfold stepAt
  rw [ha]
  rfl

/-- **Whose error a block gets.** In every interleaving of operations on a new pool, whatever the daemon
and the runner do, whichever members of a group break off, each with whatever message, in whatever order
the members end, and however the errors of those that broke off are worded, if only these tell them
apart: when all members of a group have ended, there is one for each block that was dispatched in its
lane, and the execution takes up the results of the lane. These are what the members came to themselves,
so that the block of each member that broke off fails with the error of this very member, if and only if
the blocks of the members that broke off, in the order in which these ended, are those that are left of
the dispatched ones when each block with a result is struck out where it first stands. Where no block
occurs twice that means that these members ended in the order in which they were dispatched. -/
theorem join_errors_iff {s : Execution.Progress} {sent : List String} {interrupted : Bool}
    (hr : (ofPool pool now).Withstands h m) (ha : m.activity? n = some (.execute plan t))
    (hl : t.leader = .ready (.gather s sent interrupted)) (hnone : t.active = [])
    (hlost : Execution.TellsApart m.leeway.lost) :
    h.dispatched n s.index = sent ∧ (t.ended.map (·.task)).Perm sent ∧
      ∃ ran, m.next (.step n 0) = some (m.put n (.execute plan { t with
          leader := .ready (.settle s ran interrupted), ended := [] }), []) ∧
        (ran.Perm (t.ended.filterMap (Execution.own? m.leeway.lost)) ↔
          Execution.casualties t.ended = Execution.missing sent t.ended) ∧
        (sent.Nodup → (ran.Perm (t.ended.filterMap (Execution.own? m.leeway.lost)) ↔
          (Execution.casualties t.ended).Sublist sent)) := by
  have hp : t.leader.point? = some (.gather s sent interrupted) := by rw [hl]; rfl
  have hacc := hr.accounts (hr.checked ha hp (by simp)) ha
  unfold Execution.Accounts at hacc
  rw [hl] at hacc
  obtain ⟨hat, htells, hruns, -⟩ := hacc
  have htasks : (t.ended.map (·.task)).Perm sent := by
    have htasks := hruns.tasks
    rwa [Team.tasks, hnone] at htasks
  have hserials : (t.ended.map (·.serial)).Nodup := by
    have hnodup := (hr.numbered ha).nodup
    rwa [hnone] at hnodup
  have hdispatched : h.dispatched n s.index = sent := by
    have hlane := htells.blocks s.index
    rw [Execution.Log.getD_concat, Execution.length_blocksBefore hat.index, if_pos rfl,
      List.getD_eq_default _ _ (Nat.le_of_eq (Execution.length_blocksBefore hat.index))] at hlane
    exact hlane
  exact ⟨hdispatched, htasks, _, next_gathered ha hl hnone,
    Execution.settles_own_iff hlost hruns.each.ended htasks hserials,
    Execution.settles_own_iff_sublist hlost hruns.each.ended htasks hserials⟩

/-- Two blocks run at once in a pool whose dormancy window is beyond the calendar, so that both members
break off when they release their sandboxes. The second one ends first, and each block gets the error of
the other one, which names the other task. -/
theorem join_errors_swapped :
    let config : Config := { image := "img", maxSandboxes := 2, dormancy := .ofMillis (9 * 10 ^ 15) }
    ∃ h m plan t s interrupted ran, (ofPool (.ofConfig config 0) 0).Reaches h m ∧
      m.activity? 0 = some (.execute plan t) ∧
      t.leader = .ready (.gather s ["a", "b"] interrupted) ∧ t.active = [] ∧
      m.leeway = .usual ∧ Execution.TellsApart m.leeway.lost ∧
      Execution.casualties t.ended = ["b", "a"] ∧
      m.next (.step 0 0) = some (m.put 0 (.execute plan { t with
        leader := .ready (.settle s ran interrupted), ended := [] }), []) ∧
      ¬ ran.Perm (t.ended.filterMap (Execution.own? m.leeway.lost)) := by
  intro config
  let plan : Plan := { lanes := [.group ⟨["a", "b"], none⟩] }
  let starts (place : Nat) (id : String) : List Move := [.step 0 place, .step 0 place, .step 0 place,
    .step 0 place, .reply 0 place (.created (.ok id)), .step 0 place, .step 0 place,
    .reply 0 place (.acted (.ok ())), .step 0 place, .reply 0 place (.acted (.ok ())), .step 0 place]
  let releases (place : Nat) : List Move := [.step 0 place,
    .reply 0 place (.ran ⟨false, .failed "no"⟩), .step 0 place, .step 0 place, .step 0 place,
    .reply 0 place (.acted (.ok ())), .step 0 place]
  let moves : List Move := [.order (.execute plan), .step 0 0, .step 0 0, .step 0 0, .step 0 0,
    .step 0 0] ++ starts 1 "c1" ++ starts 2 "c2" ++ releases 2 ++ releases 1
  have hrun : ((ofPool (.ofConfig config 0) 0).trace moves).any (fun x =>
      ((x.2.activity? 0).bind (·.gathered?)).any fun g => decide (g.1 = ["a", "b"] ∧
        Execution.casualties g.2 = ["b", "a"] ∧ Execution.missing g.1 g.2 = ["a", "b"])) = true := by
    decide +kernel
  obtain ⟨x, ht, hrun⟩ := (Option.any_eq_true _ _).1 hrun
  obtain ⟨⟨sent, ended⟩, hg, hrun⟩ := (Option.any_eq_true _ _).1 hrun
  obtain ⟨rfl, hcasualties, hmissing⟩ := of_decide_eq_true hrun
  obtain ⟨a, ha, hg⟩ := Option.bind_eq_some_iff.1 hg
  obtain ⟨plan, t, s, interrupted, rfl, hl, hnone, rfl⟩ := Activity.of_gathered? hg
  have hvary : x.2.next (.vary .usual) = some ({ x.2 with leeway := .usual }, []) := rfl
  have hr := (reaches_of_trace ht).next hvary
  obtain ⟨-, -, ran, hnext, hiff, -⟩ :=
    join_errors_iff hr.withstands ha hl hnone Leeway.tellsApart_usual
  refine ⟨_, _, plan, t, s, interrupted, ran, hr, ha, hl, hnone, rfl, Leeway.tellsApart_usual,
    hcasualties, hnext, fun hp => ?_⟩
  have heq := hcasualties.symm.trans ((hiff.1 hp).trans hmissing)
  exact absurd heq (by decide)

end Machine

end SandboxPool
