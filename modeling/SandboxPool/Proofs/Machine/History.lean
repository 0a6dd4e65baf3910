import SandboxPool.Proofs.Machine.Posts

/-!
# Histories

A history lists the moves of a machine, each with the machine that it was made in. What the outside
saw of it are its signals, and from these follow the identities that the daemon gave out and the
containers that exist.

* `Machine.Reaches` is a machine with a history; every run has one (`Machine.trace_of_run`).
* `History.Fresh` says that the daemon never gave out an identity twice.
* `History.ledger` has the containers whose creation was asked for and did not fail, and whose
  removal the pool has not seen return.
-/

namespace SandboxPool

/-! ## Signals -/

/-- The host port that a container is published on. -/
def ContainerSpec.hostPort? (s : ContainerSpec) : Option UInt16 := s.port.map (·.hostPort)

/-- The host port of a sandbox is the one that it was given. -/
@[simp] theorem Pool.hostPort?_spec (p : Pool) (kind : SpawnKind) (id : Uuid) (port : UInt16) :
    (p.spec kind id port).hostPort? = some port := by
  have henv : ∀ (env : List String) (s : ContainerSpec), (env.foldl .addEnv s).port = s.port := by
    intro env
    induction env with
    | nil => intro s; rfl
    | cons entry rest ih => intro s; rw [List.foldl_cons, ih]; rfl
  unfold ContainerSpec.hostPort? Pool.spec
  cases kind with
  | service => simp only [henv]; rfl
  | shared =>
    show Option.map _ (ContainerSpec.port (List.foldl _ _ _)) = _
    rw [henv]
    rfl

namespace Signal

/-- The identity that the daemon gave a new container. -/
def created? : Signal → Option String
  | got (.daemon (.create _)) (.created (.ok id)) => some id
  | _ => none

/-- The container that a call to stop has returned for. -/
def stopped? : Signal → Option String
  | got (.daemon (.act .stop id)) _ => some id
  | _ => none

/-- The container that a call to remove has returned for. -/
def removed? : Signal → Option String
  | got (.daemon (.act (.remove _) id)) _ => some id
  | _ => none

end Signal

/-- Containers: those whose creation is asked for, and those that were created, with their
identities. -/
structure Ledger where
  creating : List ContainerSpec
  standing : List (String × ContainerSpec)

namespace Ledger

/-- There are no containers. -/
def empty : Ledger := ⟨[], []⟩

/-- What a signal tells about the containers. -/
def note (l : Ledger) : Signal → Ledger
  | .sent (.daemon (.create spec)) => { l with creating := spec :: l.creating }
  | .got (.daemon (.create spec)) (.created (.ok id)) =>
    ⟨l.creating.erase spec, (id, spec) :: l.standing⟩
  | .got (.daemon (.create spec)) _ => { l with creating := l.creating.erase spec }
  | .got (.daemon (.act (.remove _) id)) _ =>
    { l with standing := l.standing.filter (·.1 != id) }
  | _ => l

/-- The number of containers. -/
def size (l : Ledger) : Nat := l.creating.length + l.standing.length

/-- The host ports that containers were created with. -/
def hostPorts (l : Ledger) : List UInt16 :=
  (l.creating ++ l.standing.map (·.2)).filterMap (·.hostPort?)

end Ledger

/-! ## Histories -/

/-- Moves, each with the machine that it was made in. -/
abbrev History := List (Machine × Move)

namespace History

/-- What the outside saw. -/
def signals (h : History) : List Signal := h.filterMap fun x => x.1.signal? x.2

/-- The identities that the daemon gave out. -/
def created (h : History) : List String := h.signals.filterMap (·.created?)

/-- The daemon never gave out an identity twice. -/
def Fresh (h : History) : Prop := h.created.Nodup

/-- The containers that exist, as far as the pool's own calls tell. -/
def ledger (h : History) : Ledger := h.signals.foldl .note .empty

/-- The pools on the way to a machine, which comes last. -/
def pools (h : History) (m : Machine) : List Pool := h.map (·.1.pool) ++ [m.pool]

instance (h : History) : Decidable h.Fresh := inferInstanceAs (Decidable (List.Nodup _))

variable {h : History} {m : Machine} {move : Move}

theorem signals_append : (h ++ [(m, move)]).signals = h.signals ++ (m.signal? move).toList := by
  simp only [signals, List.filterMap_append, List.filterMap_cons, List.filterMap_nil]
  cases m.signal? move <;> rfl

theorem created_append : (h ++ [(m, move)]).created
    = h.created ++ ((m.signal? move).bind (·.created?)).toList := by
  unfold created
  rw [signals_append, List.filterMap_append]
  cases m.signal? move with
  | none => rfl
  | some s =>
    simp only [Option.toList_some, List.filterMap_cons, List.filterMap_nil, Option.bind_some]
    cases s.created? <;> rfl

theorem ledger_append : (h ++ [(m, move)]).ledger
    = (m.signal? move).toList.foldl .note h.ledger := by
  unfold ledger
  rw [signals_append, List.foldl_append]

theorem pools_append (m' : Machine) : (h ++ [(m, move)]).pools m' = h.pools m ++ [m'.pool] := by
  simp [pools]

/-- A history is fresh if it goes on freshly. -/
theorem Fresh.of_prefix {h₁ h₂ : History} (hf : (h₁ ++ h₂).Fresh) : h₁.Fresh := by
  unfold Fresh created signals at hf ⊢
  rw [List.filterMap_append, List.filterMap_append] at hf
  exact hf.sublist (List.sublist_append_left _ _)

theorem fresh_of_append (hf : (h ++ [(m, move)]).Fresh) : h.Fresh := hf.of_prefix

end History

namespace Machine

/-- A machine that is reached from another one, with the history in between. -/
inductive Reaches (m₀ : Machine) : History → Machine → Prop where
  | start : Reaches m₀ [] m₀
  | next {h : History} {m m' : Machine} {move : Move} {notes : List Note} (hr : Reaches m₀ h m)
      (hn : m.next move = some (m', notes)) : Reaches m₀ (h ++ [(m, move)]) m'

theorem Reaches.append {m₀ m₁ m₂ : Machine} {h₁ h₂ : History} (hr : m₀.Reaches h₁ m₁)
    (hs : m₁.Reaches h₂ m₂) : m₀.Reaches (h₁ ++ h₂) m₂ := by
  induction hs with
  | start => rwa [List.append_nil]
  | next _ hn ih => rw [← List.append_assoc]; exact ih.next hn

/-- A history can be cut at any of its moves. -/
theorem Reaches.split {m₀ m m₁ : Machine} {h₁ h₂ : History} {move : Move}
    (hr : m₀.Reaches (h₁ ++ (m₁, move) :: h₂) m) : ∃ m₂ notes, m₀.Reaches h₁ m₁ ∧
      m₁.next move = some (m₂, notes) ∧ m₂.Reaches h₂ m := by
  generalize hh : h₁ ++ (m₁, move) :: h₂ = h at hr
  induction hr generalizing h₂ with
  | start => simp at hh
  | @next h m m' last notes hr hn ih =>
    rcases List.eq_nil_or_concat h₂ with rfl | ⟨h₃, x, rfl⟩
    · obtain ⟨rfl, hlast⟩ := List.append_inj' hh rfl
      cases hlast
      exact ⟨m', notes, hr, hn, .start⟩
    · rw [List.concat_eq_append] at hh ⊢
      rw [← List.cons_append, ← List.append_assoc] at hh
      obtain ⟨hfirst, hlast⟩ := List.append_inj' hh rfl
      cases hlast
      obtain ⟨m₂, notes₂, hbefore, hmove, hbehind⟩ := ih hfirst
      exact ⟨m₂, notes₂, hbefore, hmove, hbehind.next hn⟩

/-- The history of moves, with the machine that they lead to, as long as each of them can happen. -/
def trace (m : Machine) : List Move → Option (History × Machine)
  | [] => some ([], m)
  | move :: rest =>
    (m.next move).bind fun (m', _) => (m'.trace rest).map fun (h, last) => ((m, move) :: h, last)

theorem reaches_of_trace {m m' : Machine} {moves : List Move} {h : History}
    (ht : m.trace moves = some (h, m')) : m.Reaches h m' := by
  induction moves generalizing m h with
  | nil =>
    simp only [trace, Option.some.injEq, Prod.mk.injEq] at ht
    obtain ⟨rfl, rfl⟩ := ht
    exact .start
  | cons move rest ih =>
    obtain ⟨⟨m₁, notes⟩, hn, ht⟩ := Option.bind_eq_some_iff.1 ht
    obtain ⟨⟨h₁, m₂⟩, hrest, ht⟩ := Option.map_eq_some_iff.1 ht
    simp only [Prod.mk.injEq] at ht
    obtain ⟨rfl, rfl⟩ := ht
    have hfirst : m.Reaches [(m, move)] m₁ := Reaches.start.next hn
    exact hfirst.append (ih hrest)

/-- The first move of a history. -/
theorem trace_cons {m last : Machine} {move : Move} {rest : List Move} {h : History}
    (ht : m.trace (move :: rest) = some (h, last)) :
    ∃ m' notes later, m.next move = some (m', notes) ∧ h = (m, move) :: later := by
  obtain ⟨⟨m', notes⟩, hn, ht⟩ := Option.bind_eq_some_iff.1 ht
  obtain ⟨⟨later, _⟩, -, he⟩ := Option.map_eq_some_iff.1 ht
  exact ⟨m', notes, later, hn, (Prod.mk.inj he).1.symm⟩

/-- Every run has a history. -/
theorem trace_of_run {m m' : Machine} {moves : List Move} {notes : List Note}
    (hrun : m.run moves = some (m', notes)) : ∃ h, m.trace moves = some (h, m') := by
  induction moves generalizing m notes with
  | nil =>
    simp only [run, Option.some.injEq, Prod.mk.injEq] at hrun
    exact ⟨[], by rw [trace, hrun.1]⟩
  | cons move rest ih =>
    obtain ⟨⟨m₁, notes₁⟩, hn, hrun⟩ := Option.bind_eq_some_iff.1 hrun
    obtain ⟨⟨m₂, notes₂⟩, hrest, hrun⟩ := Option.map_eq_some_iff.1 hrun
    simp only [Prod.mk.injEq] at hrun
    obtain ⟨rfl, -⟩ := hrun
    obtain ⟨h, ht⟩ := ih hrest
    exact ⟨(m, move) :: h, by simp only [trace, hn, Option.bind_some, ht, Option.map_some]⟩

theorem Reaches.ordered {m₀ m : Machine} {h : History} (ho : m₀.Ordered) (hr : m₀.Reaches h m) :
    m.Ordered := by
  induction hr with
  | start => exact ho
  | next _ hn ih => exact (next_posts ih hn).1

end Machine

end SandboxPool
