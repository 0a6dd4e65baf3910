import SandboxPool.Proofs.Execution.Twins
import SandboxPool.Proofs.Machine.Frames
import Mathlib.Data.Set.Image

/-!
# Outcomes of an execution

What can be seen of a machine are its `Sight`s: the orders of its callers, the passing of time, wishes
for an abort, changes of its leeway, what each operation asks of the outside and gets for an answer, and
the events that it publishes. An `Execution.Outcome` is what an execution ends with, all that was seen
until then or later, and the pool that is left. `Machine.outcomes` has the outcomes that are possible,
over all interleavings with other operations and all answers of the outside.
-/

namespace SandboxPool

/-- Something that is seen of a machine. -/
inductive Sight where
  | order (o : Order)
  | fire (generation : Nat)
  | abort
  | advance (nanos : Nat)
  | vary (leeway : Leeway)
  /-- An operation asks the outside, or gets the reply. -/
  | signal (operation : Nat) (s : Signal)
  /-- An operation publishes an event. -/
  | event (operation : Nat) (e : Event)

/-- What is seen of the lane of an operation does not tell whether it is a group. -/
def Sight.blur (operation lane : Nat) : Sight → Sight
  | event n e => event n (if n = operation then e.blur lane else e)
  | s => s

/-- What is seen of a move that is not one of an operation. -/
def Move.sight? : Move → Option Sight
  | .order o => some (.order o)
  | .fire generation => some (.fire generation)
  | .abort => some .abort
  | .advance nanos => some (.advance nanos)
  | .vary leeway => some (.vary leeway)
  | .step .. | .reply .. => none

/-- All that is seen of a move. -/
def Machine.sights (m : Machine) (move : Move) : List Sight :=
  move.sight?.toList ++ (m.talk? move).toList.map (.signal (m.mover move).1) ++
    (((m.next move).elim [] (·.2)).filterMap (·.event?)).map (.event (m.mover move).1)

/-- All that is seen of a run. -/
def History.sights (h : History) : List Sight := h.flatMap fun x => x.1.sights x.2

theorem History.sights_append (h₁ h₂ : History) : (h₁ ++ h₂).sights = h₁.sights ++ h₂.sights :=
  List.flatMap_append

theorem History.sights_singleton (m : Machine) (move : Move) :
    History.sights [(m, move)] = m.sights move := by
  simp only [History.sights, List.flatMap_cons, List.flatMap_nil, List.append_nil]

/-- What an execution comes to, what was seen of the machine, and the pool that is left with the ends
that are set. -/
structure Execution.Outcome where
  result : Execution.Result
  sights : List Sight
  pool : Pool
  alarms : List Alarm

/-- An outcome that does not tell whether a lane of an operation is a group. -/
def Execution.Outcome.blur (operation lane : Nat) (o : Execution.Outcome) : Execution.Outcome :=
  { o with sights := o.sights.map (·.blur operation lane) }

namespace Machine

variable {n place : Nat} {m m' : Machine} {move : Move} {r : Option Reply} {plan : Plan}
  {t : Execution.Run}

/-- How far an operation has come that is an execution. -/
def execution? (n : Nat) (m : Machine) : Option Execution.Run :=
  (m.activity? n).bind fun
    | .execute _ t => some t
    | _ => none

theorem execution?_of_activity? (ha : m.activity? n = some (.execute plan t)) :
    m.execution? n = some t := by
  rw [execution?, ha]
  rfl

/-- Nothing of an execution has broken off. -/
def Unbroken (n : Nat) (m : Machine) : Prop :=
  ∀ t ∈ m.execution? n, Execution.Unbroken t

instance (n : Nat) (m : Machine) : Decidable (m.Unbroken n) :=
  inferInstanceAs (Decidable (∀ t ∈ m.execution? n, Execution.Unbroken t))

/-- The move does not ask for an abort while an execution is between its question for one before a lane
and the dispatch of the first block of this lane, and nothing of this execution has broken off. Only
some lanes are `quiet` in that way. -/
structure Tame (n : Nat) (quiet : Nat → Prop) (m : Machine) (move : Move) : Prop where
  unbroken : m.Unbroken n
  abort : move = .abort → ∀ t ∈ m.execution? n, ∀ lane ∈ Execution.undispatched? t, ¬ quiet lane

instance (n : Nat) (quiet : Nat → Prop) [DecidablePred quiet] (m : Machine) (move : Move) :
    Decidable (m.Tame n quiet move) :=
  have : Decidable (move = .abort) :=
    match move with
    | .abort => isTrue rfl
    | .order _ | .step .. | .reply .. | .fire _ | .advance _ | .vary _ => isFalse fun h => by cases h
  decidable_of_iff (m.Unbroken n ∧ (move = .abort → ∀ t ∈ m.execution? n,
    ∀ lane ∈ Execution.undispatched? t, ¬ quiet lane)) ⟨fun h => ⟨h.1, h.2⟩, fun h => ⟨h.1, h.2⟩⟩

/-- The possible outcomes of an execution that is started now. -/
def outcomes (m₀ : Machine) (plan : Plan) (quiet : Nat → Prop) : Set Execution.Outcome :=
  { o | ∃ h m t, (m₀.start (.execute plan Execution.start)).Reaches h m ∧
      (∀ x ∈ h, x.1.Tame m₀.started quiet x.2) ∧ m.Unbroken m₀.started ∧
      m.activity? m₀.started = some (.execute plan t) ∧ t.leader = .done o.result ∧
      o.sights = h.sights ∧ o.pool = m.pool ∧ o.alarms = m.alarms }

/-! ## Moves of an execution -/

/-- A place of an operation takes a step, or gets a reply. -/
def own (n place : Nat) : Option Reply → Move
  | none => .step n place
  | some r => .reply n place r

theorem mover_own (m : Machine) (n place : Nat) (r : Option Reply) :
    m.mover (own n place r) = (n, place) := by
  cases r <;> rfl

theorem sight?_own (n place : Nat) (r : Option Reply) : (own n place r).sight? = none := by
  cases r <;> rfl

theorem own_ne_abort (n place : Nat) (r : Option Reply) : own n place r ≠ .abort := by
  cases r <;> exact fun h => by cases h

theorem tame_own {quiet : Nat → Prop} (h : m.Unbroken n) : m.Tame n quiet (own n place r) :=
  ⟨h, fun hmove => absurd hmove (own_ne_abort n place r)⟩

/-- A move is one of an operation, or somebody else moves. -/
theorem own_or_other (hlt : n < m.started) (move : Move) :
    (∃ place r, move = own n place r) ∨ (m.mover move).1 ≠ n := by
  have hne : m.started ≠ n := Nat.ne_of_gt hlt
  cases move with
  | step k place =>
    by_cases hk : k = n
    · exact .inl ⟨place, none, hk ▸ rfl⟩
    · exact .inr hk
  | reply k place r =>
    by_cases hk : k = n
    · exact .inl ⟨place, some r, hk ▸ rfl⟩
    · exact .inr hk
  | _ => exact .inr hne

/-- What an execution asks when it takes a step, or what it is told by a reply. -/
def signalOf (r : Option Reply) (a : Ask) : Signal :=
  match r with
  | none => .sent a
  | some r => .got a r

/-- **An execution moves** as its team does. -/
theorem next_own (ha : m.activity? n = some (.execute plan t)) {s : Scope Execution.Run}
    (ht : t.take (Execution.conduct m.pool.config plan) m.context m.pool r place = some s) :
    ∃ notes, m.next (own n place r) = some (m.settle n (s.map (.execute plan)), notes) ∧
      notes.filterMap (·.event?) = s.events := by
  cases r with
  | none =>
    have hstep : (Activity.execute plan t).step m.pool.config m.context m.pool place
        = some (s.map (.execute plan)) := congrArg (Option.map (Scope.map (Activity.execute plan))) ht
    refine ⟨((t.ask? (Execution.conduct m.pool.config plan) place).map Note.asked).toList
      ++ events s.effects, ?_, events_notes _ _⟩
    show m.stepAt n place = _
    unfold stepAt
    rw [ha, Option.bind_some, hstep]
    rfl
  | some r =>
    obtain ⟨t', hr, rfl⟩ := Option.map_eq_some_iff.1 ht
    have hreply : (Activity.execute plan t).reply m.pool.config r place = some (.execute plan t') :=
      congrArg (Option.map (Activity.execute plan)) hr
    refine ⟨[], ?_, rfl⟩
    show Option.bind _ _ = _
    rw [ha, Option.bind_some, hreply]
    rfl

theorem take_of_next (ha : m.activity? n = some (.execute plan t)) {notes : List Note}
    (hn : m.next (own n place r) = some (m', notes)) : ∃ s : Scope Execution.Run,
      t.take (Execution.conduct m.pool.config plan) m.context m.pool r place = some s ∧
        m' = m.settle n (s.map (.execute plan)) := by
  cases ht : t.take (Execution.conduct m.pool.config plan) m.context m.pool r place with
  | some s =>
    obtain ⟨notes', hnext, -⟩ := next_own ha ht
    exact ⟨s, rfl, (Prod.mk.inj (Option.some.inj (hn.symm.trans hnext))).1⟩
  | none =>
    cases r with
    | none =>
      obtain ⟨a, ha', hn⟩ := Option.bind_eq_some_iff.1 hn
      obtain rfl := Option.some.inj (ha.symm.trans ha')
      obtain ⟨s, hs, -⟩ := Option.map_eq_some_iff.1 hn
      obtain ⟨s₀, hs₀, -⟩ := Option.map_eq_some_iff.1 hs
      cases ht.symm.trans hs₀
    | some r =>
      obtain ⟨a, ha', hn⟩ := Option.bind_eq_some_iff.1 hn
      obtain rfl := Option.some.inj (ha.symm.trans ha')
      obtain ⟨b, hb, -⟩ := Option.map_eq_some_iff.1 hn
      obtain ⟨t', ht', -⟩ := Option.map_eq_some_iff.1 hb
      rw [Team.take, ht'] at ht
      cases ht

/-- What is seen of a move of an execution. -/
theorem sights_own (ha : m.activity? n = some (.execute plan t)) {s : Scope Execution.Run}
    (ht : t.take (Execution.conduct m.pool.config plan) m.context m.pool r place = some s) :
    m.sights (own n place r)
      = ((t.ask? (Execution.conduct m.pool.config plan) place).map (signalOf r)).toList.map (.signal n)
        ++ s.events.map (.event n) := by
  obtain ⟨notes, hn, hnotes⟩ := next_own ha ht
  have htalk : m.talk? (own n place r)
      = (t.ask? (Execution.conduct m.pool.config plan) place).map (signalOf r) := by
    cases r with
    | none =>
      show Option.bind _ _ = _
      rw [ha]
      rfl
    | some r =>
      show Option.bind _ _ = _
      rw [ha]
      rfl
  unfold sights
  rw [sight?_own, htalk, hn, mover_own]
  simp only [Option.toList_none, List.nil_append, Option.elim_some, hnotes]

end Machine

end SandboxPool
