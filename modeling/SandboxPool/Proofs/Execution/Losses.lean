import SandboxPool.Proofs.Execution.Results

/-!
# Members that broke off

A member of a group that broke off has an error of its own. The results of the group give these errors
to the blocks without a result, the first error to the first of these blocks.

* `Execution.casualties` has the blocks of the members that broke off, in the order in which they ended.
* `Execution.settles_own_iff`: each member has what it came to itself exactly if these blocks ended in
  the order in which they are missing.
* `Execution.settles_own_iff_sublist`: where no block occurs twice, that is the order in which they were
  dispatched.
-/

namespace SandboxPool

/-! ## Pairs and orders -/

/-- Where the second parts differ, each of them tells its first part. -/
theorem zip_perm_zip_iff {α β : Type} {xs ys : List α} {es : List β} (he : es.Nodup)
    (hx : xs.length = es.length) (hy : ys.length = es.length) :
    (xs.zip es).Perm (ys.zip es) ↔ xs = ys := by
  refine ⟨fun hp => List.ext_getElem (hx.trans hy.symm) fun i hi hi' => ?_, fun h => h ▸ .refl _⟩
  have hmem : (xs[i], es[i]) ∈ ys.zip es :=
    hp.mem_iff.1 (List.mem_iff_getElem.2 ⟨i, by simp; omega, List.getElem_zip⟩)
  obtain ⟨j, hj, hpair⟩ := List.mem_iff_getElem.1 hmem
  rw [List.getElem_zip] at hpair
  obtain ⟨hfirst, hsecond⟩ := Prod.mk.inj hpair
  have hij : j = i := (he.getElem_inj_iff).1 hsecond
  subst hij
  exact hfirst.symm

/-- The order of a list leaves one way to arrange some of its elements. -/
theorem eq_of_perm_of_sublist {α : Type} {xs ys l : List α} (hd : l.Nodup) (hp : xs.Perm ys)
    (hx : xs.Sublist l) (hy : ys.Sublist l) : xs = ys := by
  induction l generalizing xs ys with
  | nil => rw [List.sublist_nil.1 hx, List.sublist_nil.1 hy]
  | cons a l ih =>
    obtain ⟨hnot, hd⟩ := List.nodup_cons.1 hd
    cases hx with
    | cons _ hx =>
      cases hy with
      | cons _ hy => exact ih hd hp hx hy
      | cons_cons _ hy => exact absurd (hx.subset (hp.mem_iff.2 (List.mem_cons_self ..))) hnot
    | cons_cons _ hx =>
      cases hy with
      | cons _ hy => exact absurd (hy.subset (hp.mem_iff.1 (List.mem_cons_self ..))) hnot
      | cons_cons _ hy => rw [ih hd (List.perm_cons _ |>.1 hp) hx hy]

namespace Execution

variable {lost : Nat → String → String} {ended : List (Ended String Yield)} {sent : List String}

/-! ## Errors of their own -/

/-- Members with different numbers have different errors, whatever their messages. -/
def TellsApart (lost : Nat → String → String) : Prop := ∀ n k a b, lost n a = lost k b → n = k

/-- The blocks of the members that broke off, in the order in which they ended. -/
def casualties (ended : List (Ended String Yield)) : List String :=
  ended.filterMap fun e =>
    match e.result with
    | .error _ => some e.task
    | .ok _ => none

/-- What a member came to itself: its result, or the failure of its block with its own error. -/
def own? (lost : Nat → String → String) (e : Ended String Yield) : Option BlockResult :=
  match e.result with
  | .ok (.ran r) => some r
  | .ok .terminated => none
  | .error message => some (.failed e.task (lost e.serial message) 0)

theorem length_casualties : (casualties ended).length = (losses lost ended).length := by
  induction ended with
  | nil => rfl
  | cons e rest ih =>
    unfold casualties losses at ih ⊢
    cases hres : e.result with
    | error message => simpa [hres] using ih
    | ok y => simpa [hres] using ih

/-- Members with different numbers broke off with different errors. -/
theorem nodup_losses (hlost : TellsApart lost) (hd : (ended.map (·.serial)).Nodup) :
    (losses lost ended).Nodup := by
  unfold losses List.Nodup
  rw [List.pairwise_filterMap]
  refine (List.pairwise_map.1 hd).imp fun {e e'} hne error he error' he' heq => hne ?_
  subst heq
  split at he
  · split at he'
    · exact hlost _ _ _ _ ((Option.some.inj he).trans (Option.some.inj he').symm)
    · cases he'
  · cases he

/-- The members gave results or broke off. -/
theorem perm_tasks (h : ∀ e ∈ ended, ∀ y, e.result = .ok y → y.Reports e.task) :
    ((yielded ended).map (·.block) ++ casualties ended).Perm (ended.map (·.task)) := by
  induction ended with
  | nil => exact .nil
  | cons e rest ih =>
    have hrest := ih fun x hx => h x (List.mem_cons_of_mem _ hx)
    have he := h e (List.mem_cons_self ..)
    unfold yielded casualties at hrest ⊢
    cases hres : e.result with
    | error message =>
      simp only [List.filterMap_cons, hres, List.map_cons]
      exact List.perm_middle.trans (hrest.cons _)
    | ok y =>
      cases y with
      | ran r =>
        simp only [List.filterMap_cons, hres, List.map_cons, (he _ hres).1, List.cons_append]
        exact hrest.cons _
      | terminated => cases he _ hres

/-- The blocks without a result are those of the members that broke off. -/
theorem casualties_perm_missing (h : ∀ e ∈ ended, ∀ y, e.result = .ok y → y.Reports e.task)
    (hsent : (ended.map (·.task)).Perm sent) : (casualties ended).Perm (missing sent ended) :=
  (List.perm_append_left_iff _).1
    (((perm_tasks h).trans hsent).trans (perm_missing h hsent).symm)

/-- What the members came to are the results that were given, and the failure of each member that broke
off with its own error. -/
theorem own_perm : (ended.filterMap (own? lost)).Perm (yielded ended
    ++ ((casualties ended).zip (losses lost ended)).map fun x => .failed x.1 x.2 0) := by
  induction ended with
  | nil => exact .nil
  | cons e rest ih =>
    unfold yielded casualties losses own? at ih ⊢
    cases hres : e.result with
    | error message =>
      simp only [List.filterMap_cons, hres, List.zip_cons_cons, List.map_cons]
      exact (ih.cons _).trans List.perm_middle.symm
    | ok y =>
      cases y with
      | ran r =>
        simp only [List.filterMap_cons, hres, List.cons_append]
        exact ih.cons _
      | terminated =>
        simp only [List.filterMap_cons, hres]
        exact ih

/-- **Whose error a block gets.** The results of a group are what its members came to exactly if those
that broke off ended in the order in which their blocks are missing, as long as errors tell members
apart. -/
theorem settles_own_iff (hlost : TellsApart lost)
    (h : ∀ e ∈ ended, ∀ y, e.result = .ok y → y.Reports e.task)
    (hsent : (ended.map (·.task)).Perm sent) (hd : (ended.map (·.serial)).Nodup) :
    (settleAccounts lost sent ended).Perm (ended.filterMap (own? lost))
      ↔ casualties ended = missing sent ended := by
  have hinj : Function.Injective fun x : String × String => BlockResult.failed x.1 x.2 0 := by
    rintro ⟨block, error⟩ ⟨block', error'⟩ he
    simpa [BlockResult.failed] using he
  rw [settleAccounts_eq, own_perm.congr_right, List.perm_append_left_iff, List.map_perm_map_iff hinj,
    zip_perm_zip_iff (nodup_losses hlost hd) (length_missing h hsent) length_casualties]
  exact eq_comm

/-- **Where no block of a group occurs twice, the members have to break off in the order in which they
were dispatched.** -/
theorem settles_own_iff_sublist (hlost : TellsApart lost)
    (h : ∀ e ∈ ended, ∀ y, e.result = .ok y → y.Reports e.task)
    (hsent : (ended.map (·.task)).Perm sent) (hd : (ended.map (·.serial)).Nodup)
    (hs : sent.Nodup) : (settleAccounts lost sent ended).Perm (ended.filterMap (own? lost))
      ↔ (casualties ended).Sublist sent := by
  have hmissing : (missing sent ended).Sublist sent := List.diff_sublist _ _
  rw [settles_own_iff hlost h hsent hd]
  exact ⟨fun he => he ▸ hmissing, fun hsub =>
    eq_of_perm_of_sublist hs (casualties_perm_missing h hsent) hsub hmissing⟩

end Execution

end SandboxPool
