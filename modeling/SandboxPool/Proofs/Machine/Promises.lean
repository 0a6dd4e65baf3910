import SandboxPool.Proofs.Machine.Teams

/-!
# What is known of a process on its way

A property of the points of a process and one of its results are kept by every turn if each point
leads only to points and results that have them (`Demand.Ensures`). Then they are kept by strands
(`Strand.Turn.keeps`), by processes that contain others (`Demand.Ensures.into`), and by the members of
a team (`Team.Each`), also if one of them breaks off.
-/

namespace SandboxPool

variable {β γ σ α τ κ : Type} {c : Context} {p : Pool} {sig : Option Signal}

/-! ## Strands -/

/-- The strand is at a point with one property, or it has come to a result with the other. -/
def Strand.Keeps (P : σ → Prop) (Q : α → Prop) : Strand σ α → Prop
  | ready point | waiting point => P point
  | done a => Q a
  | panicked _ => True

/-- However the process gets what it wants, it goes on in a way that has the property. -/
structure Demand.Ensures (d : Demand β) (R : β → Prop) : Prop where
  of_turn : ∀ {c : Context} {p : Pool} {out : Bool} {sig : Option Signal} {s : Scope (Option β)},
    d.Turn c p out sig s → ∀ b, s.result = some b → R b

namespace Demand

variable {R : β → Prop}

theorem ensures_scope {body : Context → Pool → Scope β} (h : ∀ c p, R (body c p).result) :
    (scope body).Ensures R := by
  refine ⟨fun {c p out sig s} ht b hb => ?_⟩
  obtain ⟨-, -, rfl⟩ := turn_scope ht
  cases hb
  exact h c p

theorem ensures_run {sandbox : Snapshot} {block : String} {next : RunReply → β}
    (h : ∀ r, R (next r)) : (run sandbox block next).Ensures R := by
  refine ⟨fun {c p out sig s} ht b hb => ?_⟩
  rcases turn_run ht with ⟨-, -, rfl⟩ | ⟨r, -, -, rfl⟩
  · cases hb
  · cases hb
    exact h r

theorem ensures_gate {next : β} (h : R next) : (gate next).Ensures R := by
  refine ⟨fun {c p out sig s} ht b hb => ?_⟩
  obtain ⟨-, -, -, rfl⟩ := turn_gate ht
  cases hb
  exact h

theorem ensures_create {spec : ContainerSpec} {next : Except DaemonError String → β}
    (h : ∀ r, R (next r)) : (create spec next).Ensures R := by
  refine ⟨fun {c p out sig s} ht b hb => ?_⟩
  rcases turn_create ht with ⟨-, -, rfl⟩ | ⟨r, -, -, rfl⟩
  · cases hb
  · cases hb
    exact h r

theorem ensures_act {action : Action} {id : String} {next : Except DaemonError Unit → β}
    (h : ∀ r, R (next r)) : (act action id next).Ensures R := by
  refine ⟨fun {c p out sig s} ht b hb => ?_⟩
  rcases turn_act ht with ⟨-, -, rfl⟩ | ⟨r, -, -, rfl⟩
  · cases hb
  · cases hb
    exact h r

theorem ensures_health {port : UInt16} {interval timeout : Duration}
    {next : Except DaemonError Unit → β} (h : ∀ r, R (next r)) :
    (health port interval timeout next).Ensures R := by
  refine ⟨fun {c p out sig s} ht b hb => ?_⟩
  rcases turn_health ht with ⟨-, -, rfl⟩ | ⟨r, -, -, rfl⟩
  · cases hb
  · cases hb
    exact h r

/-- A process that contains another one knows of itself what the other one knows. -/
theorem Ensures.into {P : σ → Prop} {Q : α → Prop} {P' : τ → Prop} {Q' : γ → Prop}
    {d : Demand (Next σ α)} {C : σ → τ} {k : α → Next τ γ}
    (h : d.Ensures fun next => (Strand.ofNext next).Keeps P Q) (hP : ∀ point, P point → P' (C point))
    (hQ : ∀ a, Q a → (Strand.ofNext (k a)).Keeps P' Q') :
    (d.map (.into C k)).Ensures fun next => (Strand.ofNext next).Keeps P' Q' := by
  refine ⟨fun {c p out sig s} ht b hb => ?_⟩
  obtain ⟨s₀, h₀, rfl⟩ := turn_map ht
  obtain ⟨next, hnext, rfl⟩ := Option.map_eq_some_iff.1 hb
  have hkeeps := h.of_turn h₀ next hnext
  cases next with
  | goto point => exact hP point hkeeps
  | done a => exact hQ a hkeeps
  | panic message => trivial

/-- There may be nothing to know. -/
theorem ensures_true (d : Demand (Next σ α)) :
    d.Ensures fun next => (Strand.ofNext next).Keeps (fun _ => True) fun _ => True := by
  refine ⟨fun {c p out sig s} _ b _ => ?_⟩
  cases b <;> trivial

end Demand

/-- A turn keeps what its point has, and what that leads to. -/
theorem Demand.Ensures.lands {P : σ → Prop} {Q : α → Prop} {d : Demand (Next σ α)} {out : Bool}
    {s : Scope (Option (Next σ α))} {point : σ}
    (hd : d.Ensures fun next => (Strand.ofNext next).Keeps P Q) (h : d.Turn c p out sig s)
    (hP : P point) : (Strand.land point s.result).Keeps P Q := by
  cases hres : s.result with
  | none => exact hP
  | some next => exact hd.of_turn h next hres

/-- A strand keeps what every point of it leads to. -/
theorem Strand.Turn.keeps {P : σ → Prop} {Q : α → Prop} {demand : σ → Demand (Next σ α)}
    {st : Strand σ α} {sc : Scope (Strand σ α)} (h : st.Turn demand c p sig sc) (hk : st.Keeps P Q)
    (hd : ∀ point, P point → (demand point).Ensures fun next => (ofNext next).Keeps P Q) :
    sc.result.Keeps P Q := by
  obtain ⟨point, out, s, rfl, ht, rfl⟩ := h.at_point
  have hP : P point := by cases out <;> exact hk
  exact (hd point hP).lands ht hP

/-! ## Teams -/

/-- Whatever a leader goes on with has the property, and so does everybody whom it starts. -/
def Intent.Ensures (R : Next τ β → Prop) (H : κ → σ → Prop) : Intent κ σ α τ β → Prop
  | .demand d => d.Ensures R
  | .hire body => ∀ c p, R (body c p).result.2 ∧ ∀ x ∈ (body c p).result.1, H x.1 x.2
  | .join next => ∀ c ended, R (next c ended)

namespace Team

variable {conduct : Conduct κ σ α τ β} {t : Team κ σ α τ β} {m : Member κ σ α} {st : Strand σ α}
  {P : κ → σ → Prop} {Q : κ → α → Prop}

/-- The tasks of all members, also of those that have ended. -/
def tasks (t : Team κ σ α τ β) : List κ := t.active.map (·.task) ++ t.ended.map (·.task)

/-- Every member is at a point where something is known, or has come to a result of which something is
known. -/
structure Each (P : κ → σ → Prop) (Q : κ → α → Prop) (t : Team κ σ α τ β) : Prop where
  active : ∀ x ∈ t.active, x.strand.Keeps (P x.task) (Q x.task)
  ended : ∀ x ∈ t.ended, ∀ a, x.result = .ok a → Q x.task a

/-- Nothing is to be known of a team without members. -/
theorem each_of_tasks (h : t.tasks = []) : t.Each P Q := by
  obtain ⟨ha, he⟩ := List.append_eq_nil_iff.1 h
  refine ⟨fun x hx => ?_, fun x hx => ?_⟩
  · rw [List.map_eq_nil_iff.1 ha] at hx
    cases hx
  · rw [List.map_eq_nil_iff.1 he] at hx
    cases hx

theorem outcome?_keeps {P : σ → Prop} {Q : α → Prop} {result : Except String α} {a : α}
    (h : outcome? st = some result) (hk : st.Keeps P Q) (ha : result = .ok a) : Q a := by
  cases st with
  | done b =>
    cases h
    cases ha
    exact hk
  | panicked message =>
    cases h
    cases ha
  | _ => cases h

/-- A member that gets elsewhere keeps its task. -/
theorem tasks_update (ho : t.Ordered) {n : Nat} (hm : t.member? n = some m) (st : Strand σ α) :
    (t.update m st).tasks.Perm t.tasks := by
  obtain ⟨rfl, l, r, hs, hl, hr⟩ := member?_split ho hm
  unfold tasks
  rcases update_cases hs hl hr st with ⟨ha, he⟩ | ⟨result, -, ha, he⟩
  · rw [ha, he, hs]
    simp only [List.map_append, List.map_cons]
    exact List.Perm.refl _
  · rw [ha, he, hs]
    simp only [List.map_append, List.map_cons, List.map_nil, List.append_assoc, List.cons_append]
    refine List.Perm.append_left _ ?_
    rw [← List.append_assoc]
    exact List.perm_append_singleton _ _

theorem Each.update (h : t.Each P Q) (ho : t.Ordered) {n : Nat} (hm : t.member? n = some m)
    (hst : st.Keeps (P m.task) (Q m.task)) : (t.update m st).Each P Q := by
  obtain ⟨rfl, l, r, hs, hl, hr⟩ := member?_split ho hm
  have hold : ∀ x, x ∈ l ∨ x ∈ r → x.strand.Keeps (P x.task) (Q x.task) := by
    intro x hx
    refine h.active x ?_
    rw [hs]
    rcases hx with hx | hx <;> simp [hx]
  rcases update_cases hs hl hr st with ⟨ha, he⟩ | ⟨result, hout, ha, he⟩
  · refine ⟨fun x hx => ?_, fun x hx => ?_⟩
    · rw [ha, List.mem_append, List.mem_cons] at hx
      rcases hx with hx | rfl | hx
      · exact hold x (.inl hx)
      · exact hst
      · exact hold x (.inr hx)
    · rw [he] at hx
      exact h.ended x hx
  · refine ⟨fun x hx => ?_, fun x hx a hres => ?_⟩
    · rw [ha, List.mem_append] at hx
      exact hold x hx
    · rw [he, List.mem_append, List.mem_singleton] at hx
      rcases hx with hx | rfl
      · exact h.ended x hx a hres
      · exact outcome?_keeps hout hst hres

/-- A member that is started is at a point where something is known. -/
theorem each_enrol {n : Nat} {new : List (κ × σ)} (h : ∀ task ∈ new, P task.1 task.2) :
    ∀ x ∈ (enrol n new : List (Member κ σ α)), x.strand.Keeps (P x.task) (Q x.task) := by
  intro x hx
  obtain ⟨task, htask, ht, hs⟩ := mem_enrol hx
  rw [ht, hs]
  exact h task htask

theorem map_task_enrol (n : Nat) (new : List (κ × σ)) :
    (enrol n new : List (Member κ σ α)).map (·.task) = new.map (·.1) := by
  induction new generalizing n with
  | nil => rfl
  | cons task rest ih => simp only [Team.enrol, List.map_cons, ih]

end Team

end SandboxPool
