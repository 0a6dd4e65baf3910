import SandboxPool.Machine

/-!
# Turns of processes

A turn is the least that a process does between two points at which others may go on: it changes
the pool in one scope, enters the gate, puts a question to the outside or gets the reply. What the
outside sees of a turn is its `Signal`.

* `Demand.Turn` is a turn at a point, `Strand.Turn` a turn of a strand.
* A step of a strand is a turn that signals at most a question (`Strand.turn_of_step`), and a reply
  is a turn that signals the reply (`Strand.turn_of_reply`).
* A process inside another one takes the turns of its own (`Demand.turn_map`).
-/

namespace SandboxPool

/-- What the outside sees: a question that is put to it, or the reply to one. -/
inductive Signal where
  | sent (a : Ask)
  | got (a : Ask) (r : Reply)

/-! ## Turns at a point -/

namespace Demand

variable {β γ : Type} {c : Context} {p : Pool}

/-- A turn at a point, where the process is before its question or waits for the reply (`out`).
It goes on with `some` result, or waits for a reply from now on. -/
inductive Turn (c : Context) (p : Pool) :
    Demand β → (out : Bool) → Option Signal → Scope (Option β) → Prop where
  | scope (body : Context → Pool → Scope β) : Turn c p (.scope body) false none ((body c p).map some)
  | gate (next : β) (h : p.gateHeld = false) :
      Turn c p (.gate next) false none ⟨{ p with gateHeld := true }, [], some next⟩
  | send (d : Demand β) (a : Ask) (h : d.ask? = some a) :
      Turn c p d false (some (.sent a)) ⟨p, [], none⟩
  | receive (d : Demand β) (a : Ask) (r : Reply) (b : β) (ha : d.ask? = some a)
      (hb : d.answer? r = some b) : Turn c p d true (some (.got a r)) ⟨p, [], some b⟩

theorem ask?_map (f : β → γ) (d : Demand β) : (d.map f).ask? = d.ask? := by
  cases d <;> rfl

theorem answer?_map (f : β → γ) (d : Demand β) (r : Reply) :
    (d.map f).answer? r = (d.answer? r).map f := by
  cases d <;> cases r <;> rfl

/-- A demand with another continuation takes the same turns and continues otherwise. -/
theorem turn_map {f : β → γ} {d : Demand β} {out : Bool} {sig : Option Signal}
    {s : Scope (Option γ)} (h : (d.map f).Turn c p out sig s) :
    ∃ s₀, d.Turn c p out sig s₀ ∧ s = s₀.map (Option.map f) := by
  generalize hd : d.map f = e at h
  cases h with
  | scope body =>
    cases d with
    | scope body₀ =>
      simp only [map, scope.injEq] at hd
      subst hd
      exact ⟨_, .scope body₀, rfl⟩
    | _ => cases hd
  | gate next hg =>
    cases d with
    | gate next₀ =>
      simp only [map, gate.injEq] at hd
      subst hd
      exact ⟨_, .gate next₀ hg, rfl⟩
    | _ => cases hd
  | send _ a ha =>
    rw [← hd, ask?_map] at ha
    exact ⟨_, .send d a ha, rfl⟩
  | receive _ a r b ha hb =>
    rw [← hd, ask?_map] at ha
    rw [← hd, answer?_map] at hb
    obtain ⟨b₀, hb₀, rfl⟩ := Option.map_eq_some_iff.1 hb
    exact ⟨_, .receive d a r b₀ ha hb₀, rfl⟩

theorem turn_scope {body : Context → Pool → Scope β} {out : Bool} {sig : Option Signal}
    {s : Scope (Option β)} (h : (scope body).Turn c p out sig s) :
    out = false ∧ sig = none ∧ s = (body c p).map some := by
  cases h with
  | scope => exact ⟨rfl, rfl, rfl⟩
  | send _ a ha => cases ha
  | receive _ a r b ha hb => cases ha

theorem turn_gate {next : β} {out : Bool} {sig : Option Signal} {s : Scope (Option β)}
    (h : (gate next).Turn c p out sig s) :
    out = false ∧ sig = none ∧ p.gateHeld = false ∧
      s = ⟨{ p with gateHeld := true }, [], some next⟩ := by
  cases h with
  | gate _ hg => exact ⟨rfl, rfl, hg, rfl⟩
  | send _ a ha => cases ha
  | receive _ a r b ha hb => cases ha

/-- A turn of a process that creates a container. -/
theorem turn_create {spec : ContainerSpec} {next : Except DaemonError String → β} {out : Bool}
    {sig : Option Signal} {s : Scope (Option β)} (h : (create spec next).Turn c p out sig s) :
    (out = false ∧ sig = some (.sent (.daemon (.create spec))) ∧ s = ⟨p, [], none⟩) ∨
      ∃ r, out = true ∧ sig = some (.got (.daemon (.create spec)) (.created r)) ∧
        s = ⟨p, [], some (next r)⟩ := by
  cases h with
  | send _ a ha => cases ha; exact .inl ⟨rfl, rfl, rfl⟩
  | receive _ a r b ha hb => cases ha; cases r <;> cases hb; exact .inr ⟨_, rfl, rfl, rfl⟩

/-- A turn of a process that does something to a container. -/
theorem turn_act {action : Action} {id : String} {next : Except DaemonError Unit → β} {out : Bool}
    {sig : Option Signal} {s : Scope (Option β)} (h : (act action id next).Turn c p out sig s) :
    (out = false ∧ sig = some (.sent (.daemon (.act action id))) ∧ s = ⟨p, [], none⟩) ∨
      ∃ r, out = true ∧ sig = some (.got (.daemon (.act action id)) (.acted r)) ∧
        s = ⟨p, [], some (next r)⟩ := by
  cases h with
  | send _ a ha => cases ha; exact .inl ⟨rfl, rfl, rfl⟩
  | receive _ a r b ha hb => cases ha; cases r <;> cases hb; exact .inr ⟨_, rfl, rfl, rfl⟩

/-- A turn of a process that probes a sandbox. -/
theorem turn_health {port : UInt16} {interval timeout : Duration}
    {next : Except DaemonError Unit → β} {out : Bool} {sig : Option Signal} {s : Scope (Option β)}
    (h : (health port interval timeout next).Turn c p out sig s) :
    (out = false ∧ sig = some (.sent (.daemon (.health port interval timeout))) ∧
        s = ⟨p, [], none⟩) ∨
      ∃ r, out = true ∧ sig = some (.got (.daemon (.health port interval timeout)) (.acted r)) ∧
        s = ⟨p, [], some (next r)⟩ := by
  cases h with
  | send _ a ha => cases ha; exact .inl ⟨rfl, rfl, rfl⟩
  | receive _ a r b ha hb => cases ha; cases r <;> cases hb; exact .inr ⟨_, rfl, rfl, rfl⟩

/-- A turn of a process that lists containers. -/
theorem turn_list {filter : ContainerFilter}
    {next : Except DaemonError (List ContainerSummary) → β} {out : Bool} {sig : Option Signal}
    {s : Scope (Option β)} (h : (list filter next).Turn c p out sig s) :
    (out = false ∧ sig = some (.sent (.daemon (.list filter))) ∧ s = ⟨p, [], none⟩) ∨
      ∃ r, out = true ∧ sig = some (.got (.daemon (.list filter)) (.listed r)) ∧
        s = ⟨p, [], some (next r)⟩ := by
  cases h with
  | send _ a ha => cases ha; exact .inl ⟨rfl, rfl, rfl⟩
  | receive _ a r b ha hb => cases ha; cases r <;> cases hb; exact .inr ⟨_, rfl, rfl, rfl⟩

/-- A turn of a process that runs a block. -/
theorem turn_run {sandbox : Snapshot} {block : String} {next : RunReply → β} {out : Bool}
    {sig : Option Signal} {s : Scope (Option β)} (h : (run sandbox block next).Turn c p out sig s) :
    (out = false ∧ sig = some (.sent (.run sandbox block)) ∧ s = ⟨p, [], none⟩) ∨
      ∃ r, out = true ∧ sig = some (.got (.run sandbox block) (.ran r)) ∧
        s = ⟨p, [], some (next r)⟩ := by
  cases h with
  | send _ a ha => cases ha; exact .inl ⟨rfl, rfl, rfl⟩
  | receive _ a r b ha hb => cases ha; cases r <;> cases hb; exact .inr ⟨_, rfl, rfl, rfl⟩

end Demand

/-! ## Turns of strands -/

namespace Strand

variable {σ α : Type} {demand : σ → Demand (Next σ α)} {c : Context} {p : Pool}

/-- The point that a strand has come to, if it is not at its end. -/
def point? : Strand σ α → Option σ
  | ready point | waiting point => some point
  | _ => none

theorem ended_of_point? {st : Strand σ α} {point : σ} (h : st.point? = some point) :
    st.ended = false := by
  cases st with
  | ready q => rfl
  | waiting q => rfl
  | done a => cases h
  | panicked message => cases h

theorem point?_of_ended {st : Strand σ α} (h : st.ended = true) : st.point? = none := by
  cases st with
  | done a => rfl
  | panicked message => rfl
  | _ => cases h

theorem ended_of_point?_eq_none {st : Strand σ α} (h : st.point? = none) : st.ended = true := by
  cases st with
  | done a => rfl
  | panicked message => rfl
  | _ => cases h

/-- A strand at a point, where it is before its question or waits for the reply (`out`). -/
def standing (point : σ) : (out : Bool) → Strand σ α
  | false => .ready point
  | true => .waiting point

@[simp] theorem point?_standing (point : σ) (out : Bool) :
    (Strand.standing point out : Strand σ α).point? = some point := by
  cases out <;> rfl

theorem standing_eq_ready {point q : σ} {out : Bool} :
    (Strand.standing point out : Strand σ α) = .ready q ↔ out = false ∧ point = q := by
  cases out <;> simp [standing]

/-- Where a turn at a point takes a strand. -/
def land (point : σ) : Option (Next σ α) → Strand σ α
  | none => .waiting point
  | some next => .ofNext next

/-- A turn of a strand. -/
inductive Turn (demand : σ → Demand (Next σ α)) (c : Context) (p : Pool) :
    Strand σ α → Option Signal → Scope (Strand σ α) → Prop where
  | ready {point : σ} {sig : Option Signal} {s : Scope (Option (Next σ α))}
      (h : (demand point).Turn c p false sig s) :
      Turn demand c p (.ready point) sig (s.map (land point))
  | waiting {point : σ} {sig : Option Signal} {s : Scope (Option (Next σ α))}
      (h : (demand point).Turn c p true sig s) :
      Turn demand c p (.waiting point) sig (s.map (land point))

/-- A turn of a strand is one at the point that it has come to. -/
theorem Turn.at_point {st : Strand σ α} {sig : Option Signal} {sc : Scope (Strand σ α)}
    (h : st.Turn demand c p sig sc) : ∃ point out s, st = .standing point out ∧
      (demand point).Turn c p out sig s ∧ sc = s.map (land point) := by
  cases h with
  | ready h => exact ⟨_, false, _, rfl, h, rfl⟩
  | waiting h => exact ⟨_, true, _, rfl, h, rfl⟩

/-- A step is a turn that signals the question of the strand, if there is one. -/
theorem turn_of_step {st : Strand σ α} {s : Scope (Strand σ α)} (h : st.step demand c p = some s) :
    st.Turn demand c p ((st.ask? demand).map .sent) s := by
  cases st with
  | ready point =>
    simp only [step] at h
    simp only [ask?]
    split at h
    · next body hd =>
      cases h
      have ht : (demand point).Turn c p false none ((body c p).map some) := by
        rw [hd]; exact .scope body
      rw [hd]
      exact Turn.ready ht
    · next next hd =>
      split at h
      · cases h
      · next hg =>
        cases h
        have hgate : p.gateHeld = false := by simpa using hg
        have ht : (demand point).Turn c p false none
            ⟨{ p with gateHeld := true }, [], some next⟩ := by
          rw [hd]; exact .gate next hgate
        rw [hd]
        exact Turn.ready ht
    · next hs hg =>
      cases h
      have hask : ∃ a, (demand point).ask? = some a := by
        cases hd : demand point with
        | scope body => exact absurd hd (hs body)
        | gate next => exact absurd hd (hg next)
        | _ => exact ⟨_, rfl⟩
      obtain ⟨a, ha⟩ := hask
      rw [ha]
      exact Turn.ready (.send _ a ha)
  | waiting point => cases h
  | done a => cases h
  | panicked message => cases h

/-- A reply is a turn that leaves the pool as it is and signals the reply. -/
theorem turn_of_reply {r : Reply} {st st' : Strand σ α} (h : st.reply demand r = some st') :
    ∃ a, st.ask? demand = some a ∧ st.Turn demand c p (some (.got a r)) ⟨p, [], st'⟩ := by
  cases st with
  | waiting point =>
    simp only [reply] at h
    obtain ⟨next, hn, rfl⟩ := Option.map_eq_some_iff.1 h
    have hask : ∃ a, (demand point).ask? = some a := by
      cases hd : demand point <;> rw [hd] at hn
      · cases r <;> cases hn
      · cases r <;> cases hn
      all_goals exact ⟨_, rfl⟩
    obtain ⟨a, ha⟩ := hask
    exact ⟨a, ha, Turn.waiting (.receive _ a r next ha hn)⟩
  | ready point => cases h
  | done a => cases h
  | panicked message => cases h

/-- A process inside another one that goes on does so there. -/
theorem point?_land_into {τ β : Type} {C : σ → τ} {k : α → Next τ β} {point point' : σ}
    {next : Option (Next σ α)} (h : (land point next).point? = some point') :
    (land (C point) (next.map (Next.into C k))).point? = some (C point') := by
  cases next with
  | none =>
    cases h
    rfl
  | some next =>
    cases next with
    | goto q =>
      cases h
      rfl
    | done a => cases h
    | panic message => cases h

end Strand

end SandboxPool
