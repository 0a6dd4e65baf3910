import SandboxPool.Proofs.Machine.Teams

/-!
# Processes that run alike

A process that contains another one runs alike for as long as that one is on its way
(`Strand.take_into`). A team runs as another one does if its leader is at other points and its members
have later numbers, provided that the leader wants the same there (`Team.take_carry`).
-/

namespace SandboxPool

variable {c : Context} {p : Pool} {r : Option Reply}

theorem Demand.map_map {α β γ : Type} (f : α → β) (g : β → γ) (d : Demand α) :
    (d.map f).map g = d.map (g ∘ f) := by
  cases d <;> rfl

namespace Strand

variable {σ α τ β : Type} {demand : σ → Demand (Next σ α)} {demand' : τ → Demand (Next τ β)}
  {point : σ → τ} {result : α → Next τ β} {st : Strand σ α}

/-- The strand of a process that contains this one and goes on with its result. -/
def into (point : σ → τ) (result : α → Next τ β) : Strand σ α → Strand τ β
  | ready q => ready (point q)
  | waiting q => waiting (point q)
  | done a => ofNext (result a)
  | panicked message => panicked message

theorem ofNext_into (next : Next σ α) :
    ofNext (next.into point result) = (ofNext next).into point result := by
  cases next <;> rfl

/-- A step of its own, or what it does with a reply. -/
def take (demand : σ → Demand (Next σ α)) (c : Context) (p : Pool) (r : Option Reply)
    (st : Strand σ α) : Option (Scope (Strand σ α)) :=
  match r with
  | none => st.step demand c p
  | some r => (st.reply demand r).map fun st' => ⟨p, [], st'⟩

/-- A process that contains another one does what that one does. -/
theorem take_into (demand : σ → Demand (Next σ α)) (demand' : τ → Demand (Next τ β))
    (hd : ∀ q, st.point? = some q → demand' (point q) = (demand q).map (.into point result))
    (he : st.ended = false) : (st.into point result).take demand' c p r
      = (st.take demand c p r).map (Scope.map (into point result)) := by
  cases st with
  | ready q =>
    cases r with
    | some r => rfl
    | none =>
      simp only [into, take, step, hd q rfl]
      cases demand q with
      | scope body =>
        simp only [Demand.map, Option.map_some, Scope.map, ofNext_into]
      | gate next =>
        simp only [Demand.map]
        split
        · rfl
        · simp only [Option.map_some, Scope.map, ofNext_into]
      | _ => rfl
  | waiting q =>
    cases r with
    | none => rfl
    | some r =>
      simp only [into, take, reply, hd q rfl, Demand.answer?_map, Option.map_map]
      congr 1
      funext next
      simp only [Function.comp_apply, Scope.map, ofNext_into]
  | _ => cases he

theorem ask?_into (hd : ∀ q, st.point? = some q →
      demand' (point q) = (demand q).map (.into point result)) (he : st.ended = false) :
    (st.into point result).ask? demand' = st.ask? demand := by
  cases st with
  | ready q => simp only [into, ask?, hd q rfl, Demand.ask?_map]
  | waiting q => simp only [into, ask?, hd q rfl, Demand.ask?_map]
  | _ => cases he

end Strand

/-- What the leader of a team wants, if it goes on at other points. -/
def Intent.over {κ σ α τ β : Type} (f : τ → τ) : Intent κ σ α τ β → Intent κ σ α τ β
  | demand d => demand (d.map (.into f .done))
  | hire body => hire fun c p => (body c p).map fun (tasks, next) => (tasks, next.into f .done)
  | join next => join fun c ended => (next c ended).into f .done

/-- A member with a later number. -/
def Member.later {κ σ α : Type} (shift : Nat) (m : Member κ σ α) : Member κ σ α :=
  { m with serial := m.serial + shift }

/-- A member that has ended, with a later number. -/
def Ended.later {κ α : Type} (shift : Nat) (e : Ended κ α) : Ended κ α :=
  { e with serial := e.serial + shift }

namespace Team

variable {κ σ α τ β : Type} {conduct conduct' : Conduct κ σ α τ β} {t : Team κ σ α τ β}
  {f : τ → τ} {shift n place : Nat}

/-- A step of a place, or what it does with a reply. -/
def take (conduct : Conduct κ σ α τ β) (c : Context) (p : Pool) (r : Option Reply)
    (t : Team κ σ α τ β) (place : Nat) : Option (Scope (Team κ σ α τ β)) :=
  match r with
  | none => t.step conduct c p place
  | some r => (t.reply conduct r place).map fun t' => ⟨p, [], t'⟩

/-- A leader that hires and joins nobody is a process like others. -/
theorem take_leader (demand : τ → Demand (Next τ β)) (hd : ∀ point, t.leader.point? = some point →
      conduct.leader point = .demand (demand point)) :
    t.take conduct c p r 0
      = (t.leader.take demand c p r).map (Scope.map fun s => { t with leader := s }) := by
  obtain ⟨leader, active, ended, hired⟩ := t
  cases leader with
  | ready point =>
    cases r with
    | some r => rfl
    | none =>
      simp only [take, step, hd point rfl, lead, Strand.take]
      rfl
  | waiting point =>
    cases r with
    | none => rfl
    | some r =>
      simp only [take, reply, hd point rfl, Strand.take, Strand.reply, Option.map_map]
      rfl
  | done b => cases r <;> rfl
  | panicked message => cases r <;> rfl

theorem ask?_leader {demand : τ → Demand (Next τ β)} (hd : ∀ point, t.leader.point? = some point →
      conduct.leader point = .demand (demand point)) :
    t.ask? conduct 0 = t.leader.ask? demand := by
  obtain ⟨leader, active, ended, hired⟩ := t
  cases leader with
  | ready point => simp only [ask?, hd point rfl, Strand.ask?]
  | waiting point => simp only [ask?, hd point rfl, Strand.ask?]
  | done b => rfl
  | panicked message => rfl

theorem take_member (n : Nat) : t.take conduct c p r (n + 1) = (t.member? n).bind fun m =>
    (m.strand.take (conduct.member m.task) c p r).map (Scope.map (t.update m)) := by
  cases r with
  | none => rfl
  | some r =>
    simp only [take, reply, Strand.take]
    cases t.member? n with
    | none => rfl
    | some m =>
      simp only [Option.bind_some, Option.map_map]
      rfl

/-- The team with its leader at other points and with later members. -/
def carry (f : τ → τ) (shift : Nat) (t : Team κ σ α τ β) : Team κ σ α τ β :=
  ⟨t.leader.into f .done, t.active.map (·.later shift), t.ended.map (·.later shift), t.hired + shift⟩

/-- The place of a later member. -/
def laterPlace (shift : Nat) : Nat → Nat
  | 0 => 0
  | n + 1 => n + shift + 1

theorem enrol_later (n : Nat) (tasks : List (κ × σ)) :
    (enrol (n + shift) tasks : List (Member κ σ α)) = (enrol n tasks).map (·.later shift) := by
  induction tasks generalizing n with
  | nil => rfl
  | cons task rest ih =>
    have hnext : n + shift + 1 = n + 1 + shift := by omega
    simp only [enrol, List.map_cons, Member.later, hnext, ih]

theorem member?_carry (t : Team κ σ α τ β) (n : Nat) :
    (t.carry f shift).member? (n + shift) = (t.member? n).map (·.later shift) := by
  unfold member? carry
  rw [List.find?_map]
  congr 2
  funext m
  simp [Member.later]

theorem exists_member?_of_carry {m : Member κ σ α} (h : (t.carry f shift).member? n = some m) :
    ∃ k, n = k + shift := by
  obtain ⟨x, -, rfl⟩ := List.mem_map.1 (mem_of_member? h)
  have hserial : (x.later shift).serial = n := by
    have hfound := List.find?_some h
    simpa using hfound
  exact ⟨x.serial, hserial.symm⟩

theorem update_carry (t : Team κ σ α τ β) (m : Member κ σ α) (st : Strand σ α) :
    (t.carry f shift).update (m.later shift) st = (t.update m st).carry f shift := by
  unfold update
  cases outcome? st with
  | some result =>
    simp only [carry, List.filter_map, List.map_append, List.map_cons, List.map_nil]
    congr 2
    refine List.filter_congr fun x _ => ?_
    simp [Member.later, bne]
  | none =>
    simp only [carry, List.map_map]
    congr 1
    refine List.map_congr_left fun x _ => ?_
    simp only [Function.comp_apply, Member.later]
    by_cases hx : x.serial = m.serial <;> simp [hx]

/-- The leader does the same at another point if it wants the same there. -/
theorem lead_carry (point : τ) {intent : Intent κ σ α τ β} (hj : ∀ next, intent = .join next →
      next c (t.ended.map (·.later shift)) = next c t.ended) :
    (t.carry f shift).lead (intent.over f) (f point) c p
      = (t.lead intent point c p).map (Scope.map (carry f shift)) := by
  cases intent with
  | demand d =>
    have htake : ((Strand.ready point).into f .done).take (fun _ => d.map (.into f .done)) c p none
        = ((Strand.ready point).take (fun _ => d) c p none).map (Scope.map (Strand.into f .done)) :=
      Strand.take_into (fun _ => d) _ (fun _ _ => rfl) rfl
    have hstep : (Strand.ready (f point)).step (fun _ => d.map (.into f .done)) c p
        = ((Strand.ready point).step (fun _ => d) c p).map (Scope.map (Strand.into f .done)) := htake
    simp only [lead, Intent.over, hstep, Option.map_map]
    rfl
  | hire body =>
    have hhired : t.hired + (body c p).result.1.length + shift
        = t.hired + shift + (body c p).result.1.length := by omega
    simp only [lead, Intent.over, Option.map_some, Scope.map, carry, Strand.ofNext_into,
      List.map_append, enrol_later, hhired]
  | join next =>
    simp only [lead, Intent.over, carry, List.isEmpty_map, hj next rfl, Strand.ofNext_into]
    split <;> rfl

/-- **The leader of a carried team does what it does in the team itself.** -/
theorem take_carry_leader (hl : ∀ point, t.leader.point? = some point →
      conduct'.leader (f point) = (conduct.leader point).over f)
    (hj : ∀ point next, t.leader = .ready point → conduct.leader point = .join next →
      next c (t.ended.map (·.later shift)) = next c t.ended) :
    (t.carry f shift).take conduct' c p r 0
      = (t.take conduct c p r 0).map (Scope.map (carry f shift)) := by
  cases hleader : t.leader with
  | ready point =>
    cases r with
    | some r => simp only [take, reply, carry, hleader, Strand.into, Option.map_none]
    | none =>
      have hlead := lead_carry (c := c) (p := p) (f := f) point fun next => hj point next hleader
      have hcarried : (t.carry f shift).leader = .ready (f point) := by
        simp only [carry, hleader, Strand.into]
      simp only [take, step, hcarried, hleader, hl point (by rw [hleader]; rfl), hlead]
  | waiting point =>
    have hcarried : (t.carry f shift).leader = .waiting (f point) := by
      simp only [carry, hleader, Strand.into]
    cases r with
    | none => simp only [take, step, hcarried, hleader, Option.map_none]
    | some r =>
      simp only [take, reply, hcarried, hleader, hl point (by rw [hleader]; rfl)]
      cases conduct.leader point with
      | demand d =>
        simp only [Intent.over, Demand.answer?_map, Option.map_map]
        congr 1
        funext next
        simp only [Function.comp_apply, Scope.map, carry, Strand.ofNext_into]
      | _ => rfl
  | done b => cases r <;> simp only [take, step, reply, carry, hleader, Strand.into, Strand.ofNext,
      Option.map_none]
  | panicked message => cases r <;> simp only [take, step, reply, carry, hleader, Strand.into,
      Option.map_none]

/-- **A member of a carried team does what it does in the team itself.** -/
theorem take_carry_member (hm : conduct'.member = conduct.member) (n : Nat) :
    (t.carry f shift).take conduct' c p r (n + shift + 1)
      = (t.take conduct c p r (n + 1)).map (Scope.map (carry f shift)) := by
  rw [take_member, take_member, member?_carry, hm]
  cases t.member? n with
  | none => rfl
  | some m =>
    simp only [Option.map_some, Option.bind_some, Member.later, Option.map_map]
    congr 1
    funext s
    exact congrArg (Scope.mk s.pool s.effects) (update_carry t m s.result)

/-- A place of a carried team asks what it asks in the team itself. -/
theorem ask?_carry (hm : conduct'.member = conduct.member)
    (hl : ∀ point, t.leader.point? = some point →
      conduct'.leader (f point) = (conduct.leader point).over f) (place : Nat) :
    (t.carry f shift).ask? conduct' (laterPlace shift place) = t.ask? conduct place := by
  cases place with
  | zero =>
    cases hleader : t.leader with
    | ready point =>
      simp only [laterPlace, ask?, carry, hleader, Strand.into, hl point (by rw [hleader]; rfl)]
      cases conduct.leader point <;> simp only [Intent.over, Demand.ask?_map]
    | waiting point =>
      simp only [laterPlace, ask?, carry, hleader, Strand.into, hl point (by rw [hleader]; rfl)]
      cases conduct.leader point <;> simp only [Intent.over, Demand.ask?_map]
    | done b => simp only [laterPlace, ask?, carry, hleader, Strand.into, Strand.ofNext]
    | panicked message => simp only [laterPlace, ask?, carry, hleader, Strand.into]
  | succ n =>
    simp only [laterPlace, ask?, member?_carry, hm]
    cases t.member? n with
    | none => rfl
    | some m => rfl

end Team

end SandboxPool
