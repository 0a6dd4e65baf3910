import SandboxPool.Proofs.Machine.Events

/-!
# The upkeep of a sandbox

Between its creation and its end a container is started, probed, paused and unpaused. An `Upkeep` is such
a call, and the upkeep of a sandbox in a history (`History.upkeep`) is what was asked for and answered by
those who work on it. A probe names only a port, so that it matters who makes the call (`Leaf.serves?`).

* `Upkeep.course` is what is due for a sandbox: a start and a probe, and then pauses, wakes and probes in
  turn.
* `Upkeep.Obeys`: the calls come in this order, each as soon as the one before it has succeeded.
* A `Phase` is how far the upkeep of a sandbox has come, and `Phase.obeys` that each of them obeys.
-/

namespace SandboxPool

/-- A call for a container that is neither created nor terminated by it. -/
inductive Upkeep where
  | start
  | health (port : UInt16)
  | pause
  | unpause
  deriving Repr, DecidableEq

/-- What is seen of the upkeep of a sandbox: a call that goes out, or whether it succeeded. -/
inductive Upkeep.Entry where
  | asked (u : Upkeep)
  | answered (u : Upkeep) (ok : Bool)
  deriving Repr, DecidableEq

/-- The call that goes out. -/
def Upkeep.Entry.asked? : Entry → Option Upkeep
  | asked u => some u
  | answered .. => none

/-- The upkeep that a call is. -/
def Call.upkeep? : Call → Option Upkeep
  | act .start _ => some .start
  | act .pause _ => some .pause
  | act .unpause _ => some .unpause
  | health port _ _ => some (.health port)
  | _ => none

namespace Signal

/-- The upkeep that a signal tells of. -/
def upkeep? : Signal → Option Upkeep.Entry
  | sent (.daemon call) => call.upkeep?.map .asked
  | got (.daemon call) (.acted r) => call.upkeep?.map fun u => .answered u r.isOk
  | _ => none

/-- The container that the call of a signal names. -/
def names? : Signal → Option String
  | sent (.daemon (.act _ id)) | got (.daemon (.act _ id)) _ => some id
  | _ => none

end Signal

namespace Leaf

/-- The sandbox that the leaf is about to keep up. -/
def serves? : Leaf → Option String
  | spawn _ (.start id _) | spawn _ (.probe id _) => some id
  | acquire _ (.unpause id _) | acquire _ (.probe id _) => some id
  | release id .pause => some id
  | _ => none

/-- What a signal of the leaf tells of the upkeep of a sandbox. -/
def upkeep? (l : Leaf) (id : String) (sig : Option Signal) : Option Upkeep.Entry :=
  if l.serves? = some id then sig.bind (·.upkeep?) else none

theorem upkeep?_of_serves {l : Leaf} {id : String} {sig : Option Signal} (h : l.serves? = some id) :
    l.upkeep? id sig = sig.bind (·.upkeep?) := if_pos h

end Leaf

/-! ## Who makes a call -/

variable {config : Config}

/-- Whoever wants a call of the upkeep keeps up a sandbox: the one that the call names, if it names one. -/
theorem Leaf.serves?_of_upkeep {l : Leaf} (hl : l.Innermost) {call : Call}
    (ha : (l.demand config).ask? = some (.daemon call)) (hu : call.upkeep? ≠ none) :
    ∃ id, l.serves? = some id ∧ ∀ action id', call = .act action id' → id' = id := by
  cases l with
  | termination id t => cases t <;> cases ha <;> exact absurd rfl hu
  | spawn job s =>
    cases s with
    | start id port =>
      cases ha
      exact ⟨id, rfl, fun action id' h => by cases h; rfl⟩
    | probe id port =>
      cases ha
      exact ⟨id, rfl, fun action id' h => by cases h⟩
    | discard id error t => cases hl
    | _ => cases ha <;> exact absurd rfl hu
  | acquire block a =>
    cases a with
    | unpause id port =>
      cases ha
      exact ⟨id, rfl, fun action id' h => by cases h; rfl⟩
    | probe id port =>
      cases ha
      exact ⟨id, rfl, fun action id' h => by cases h⟩
    | retire id error t => cases hl
    | cold s => cases s <;> cases hl
    | shared s => cases s <;> cases hl
    | _ => cases ha
  | release id r =>
    cases r with
    | pause =>
      cases ha
      exact ⟨id, rfl, fun action id' h => by cases h; rfl⟩
    | discard cause t => cases hl
    | _ => cases ha
  | run block b =>
    cases b with
    | run since sandbox => cases ha
    | acquire since a => exact absurd hl (a.leaf_ne_run block)
    | retire since sandbox ending t => cases hl
    | release ran id r => exact absurd hl (r.leaf_ne_run id)
    | _ => cases ha
  | prewarm count point => cases point <;> cases ha
  | teardown point => cases point <;> cases ha
  | cleanup point =>
    cases point with
    | list =>
      cases ha
      exact absurd rfl hu
    | _ => cases ha
  | reclaim id point => cases point <;> cases ha <;> exact absurd rfl hu
  | execute plan point =>
    cases point with
    | solo progress block b => exact absurd hl (b.leaf_ne_execute block)
    | _ => cases ha

/-- A signal of the upkeep of a sandbox is about a call of it. -/
theorem Signal.call_of_upkeep {s : Signal} {a : Ask} (h : s = .sent a ∨ ∃ r, s = .got a r)
    (hu : s.upkeep? ≠ none) : ∃ call, a = .daemon call ∧ call.upkeep? ≠ none ∧
      ∀ id, s.names? = some id → ∃ action, call = .act action id := by
  have hnames : ∀ {call : Call} {s : Signal} {id : String},
      (s = .sent (.daemon call) ∨ ∃ r, s = .got (.daemon call) r) → s.names? = some id →
      ∃ action, call = .act action id := by
    rintro call s id (rfl | ⟨r, rfl⟩) hid <;> cases call <;> cases hid <;> exact ⟨_, rfl⟩
  cases a with
  | run sandbox block => rcases h with rfl | ⟨r, rfl⟩ <;> exact absurd rfl hu
  | daemon call =>
    refine ⟨call, rfl, fun hno => hu ?_, fun id => hnames h⟩
    rcases h with rfl | ⟨r, rfl⟩
    · exact congrArg (Option.map _) hno
    · cases r with
      | acted r => exact congrArg (Option.map _) hno
      | _ => rfl

/-- A call for the upkeep of a sandbox is made by who keeps it up. -/
theorem Machine.serves?_of_upkeep {m m' : Machine} {move : Move} {notes : List Note} {s : Signal}
    (ho : m.Ordered) (hn : m.next move = some (m', notes))
    (hs : m.signal? move = some s) (hu : s.upkeep? ≠ none) :
    ∃ l id, m.leaf? (m.mover move) = some l ∧ l.serves? = some id ∧
      ∀ id', s.names? = some id' → id' = id := by
  rcases next_leaf ho hn with hstill | ⟨l, sig, r, ⟨e, hturn, -⟩, hheard, -, -, -, hleaf⟩
  · rw [hstill.signal] at hs
    cases hs
  · have hsig : sig = some s := by
      rw [hs] at hheard
      cases l <;> first | exact hheard | cases hheard
    obtain ⟨ask, hask, hsent⟩ := hturn.ask hsig
    rcases hleaf with hleaf | ⟨-, id, g, rfl⟩
    · have hl : l.Innermost := by
        obtain ⟨x, -, hxl⟩ := mem_of_leaf? hleaf
        exact Leaf.innermost_of_leaf? hxl
      obtain ⟨call, rfl, hcall, hnames⟩ := Signal.call_of_upkeep hsent hu
      obtain ⟨id, hserves, hnamed⟩ := Leaf.serves?_of_upkeep hl hask hcall
      refine ⟨l, id, hleaf, hserves, fun id' hid' => ?_⟩
      obtain ⟨action, rfl⟩ := hnames id' hid'
      exact hnamed action id' rfl
    · cases hask

/-! ## The upkeep that was seen -/

/-- The upkeep of a sandbox, as far as it was seen. -/
def History.upkeep (h : History) (id : String) : List Upkeep.Entry := h.filterMap fun x =>
  (x.1.leaf? (x.1.mover x.2)).bind (·.upkeep? id (x.1.signal? x.2))

theorem History.upkeep_append {h : History} {m : Machine} {move : Move} {id : String} :
    (h ++ [(m, move)]).upkeep id
      = h.upkeep id ++ ((m.leaf? (m.mover move)).bind (·.upkeep? id (m.signal? move))).toList := by
  simp only [upkeep, List.filterMap_append, List.filterMap_cons, List.filterMap_nil]
  cases (m.leaf? (m.mover move)).bind (·.upkeep? id (m.signal? move)) <;> rfl

/-! ## What is due -/

namespace Upkeep

/-- A start and a probe, and then some rounds of a pause, a wake and a probe. -/
def course (port : UInt16) (rounds : Nat) : List Upkeep :=
  [start, health port] ++ (List.replicate rounds [pause, unpause, health port]).flatten

/-- The calls for a sandbox come in the order of the course, and each of them but the first goes out only
when the one before it has succeeded. -/
structure Obeys (port : UInt16) (log : List Entry) : Prop where
  order : ∃ rounds, log.filterMap Entry.asked? <+: course port rounds
  awaited : ∀ before u rest, log = before ++ .asked u :: rest →
    before = [] ∨ ∃ earlier v, before = earlier ++ [.asked v, .answered v true]

/-- The call that is due behind so many others. -/
def due (port : UInt16) (n : Nat) : Upkeep :=
  if n = 0 then start
  else match n % 3 with
    | 0 => unpause
    | 1 => health port
    | _ => pause

variable {port : UInt16} {n : Nat}

theorem due_unpause (h₀ : 0 < n) (h : n % 3 = 0) : due port n = unpause := by
  simp only [due, if_neg (Nat.pos_iff_ne_zero.1 h₀), h]

theorem due_health (h : n % 3 = 1) : due port n = health port := by
  have h₀ : n ≠ 0 := by
    rintro rfl
    cases h
  simp only [due, if_neg h₀, h]

theorem due_pause (h : n % 3 = 2) : due port n = pause := by
  have h₀ : n ≠ 0 := by
    rintro rfl
    cases h
  simp only [due, if_neg h₀, h]

/-- The course lists what is due. -/
theorem course_eq (port : UInt16) (rounds : Nat) :
    course port rounds = (List.range (3 * rounds + 2)).map (due port) := by
  induction rounds with
  | zero => rfl
  | succ rounds ih =>
    have hround : course port (rounds + 1)
        = course port rounds ++ [pause, unpause, health port] := by
      simp [course, List.replicate_succ']
    have hrange : List.range (3 * (rounds + 1) + 2) = List.range (3 * rounds + 2)
        ++ [3 * rounds + 2, 3 * rounds + 3, 3 * rounds + 4] := by
      simp [Nat.mul_add, List.range_succ]
    rw [hround, ih, hrange, List.map_append]
    simp only [List.map_cons, List.map_nil]
    rw [due_pause (by omega), due_unpause (by omega) (by omega), due_health (by omega)]

/-- What is due comes in the order of the course. -/
theorem due_prefix (port : UInt16) (n : Nat) :
    ∃ rounds, (List.range n).map (due port) <+: course port rounds := by
  refine ⟨n, ?_⟩
  rw [course_eq, show 3 * n + 2 = n + (2 * n + 2) by omega, List.range_add, List.map_append]
  exact List.prefix_append _ _

/-- A call that succeeded. -/
def success (u : Upkeep) : List Entry := [.asked u, .answered u true]

theorem asked_success (l : List Upkeep) : (l.flatMap success).filterMap Entry.asked? = l := by
  induction l with
  | nil => rfl
  | cons u l ih => exact congrArg (u :: ·) ih

/-- Behind calls that succeeded the next one may go out, and no other before it is answered. -/
theorem awaited_of_success {l : List Upkeep} {tail before rest : List Entry} {u : Upkeep}
    (htail : ∀ before u rest, tail = before ++ .asked u :: rest → before = [])
    (h : l.flatMap success ++ tail = before ++ .asked u :: rest) :
    before = [] ∨ ∃ earlier v, before = earlier ++ [.asked v, .answered v true] := by
  induction l generalizing before with
  | nil => exact .inl (htail before u rest h)
  | cons v l ih =>
    cases before with
    | nil => exact .inl rfl
    | cons first before =>
      obtain ⟨rfl, hbehind⟩ := List.cons.inj h
      cases before with
      | nil => cases (List.cons.inj hbehind).1
      | cons second before =>
        obtain ⟨rfl, hlater⟩ := List.cons.inj hbehind
        rcases ih hlater with rfl | ⟨earlier, w, rfl⟩
        · exact .inr ⟨[], v, rfl⟩
        · exact .inr ⟨.asked v :: .answered v true :: earlier, w, rfl⟩

end Upkeep

/-! ## Phases -/

/-- How far the upkeep of a sandbox has come: so many calls have succeeded, and then no other was made,
or one has not been answered, or it has failed. -/
inductive Phase where
  | ready (n : Nat)
  | asked (n : Nat)
  | failed (n : Nat)
  deriving DecidableEq

namespace Phase

/-- The next call is being made (`out`) or is still to be made. -/
def of (n : Nat) (out : Bool) : Phase := if out then asked n else ready n

/-- So many calls that succeeded. -/
def passed (port : UInt16) (n : Nat) : List Upkeep.Entry :=
  ((List.range n).map (Upkeep.due port)).flatMap Upkeep.success

/-- The upkeep in a phase. -/
def log (port : UInt16) : Phase → List Upkeep.Entry
  | ready n => passed port n
  | asked n => passed port n ++ [.asked (Upkeep.due port n)]
  | failed n =>
    passed port n ++ [.asked (Upkeep.due port n), .answered (Upkeep.due port n) false]

variable {port : UInt16} {n : Nat}

theorem log_succeeded : (ready (n + 1)).log port
    = (asked n).log port ++ [.answered (Upkeep.due port n) true] := by
  simp [log, passed, List.range_succ, Upkeep.success]

theorem log_failed : (failed n).log port
    = (asked n).log port ++ [.answered (Upkeep.due port n) false] := by
  simp [log]

/-- The last call of a round is a probe that has succeeded. -/
theorem log_round (h : n % 3 = 2) : ∃ before, (ready n).log port
    = before ++ [.asked (.health port), .answered (.health port) true] := by
  obtain ⟨k, rfl⟩ : ∃ k, n = k + 1 := ⟨n - 1, by omega⟩
  refine ⟨passed port k, ?_⟩
  rw [log_succeeded, log, Upkeep.due_health (by omega), List.append_assoc]
  rfl

/-- In every phase the calls come in order, and each as soon as the one before it has succeeded. -/
theorem obeys (phase : Phase) (port : UInt16) : Upkeep.Obeys port (phase.log port) := by
  have hpassed : ∀ n, (passed port n).filterMap Upkeep.Entry.asked?
      = (List.range n).map (Upkeep.due port) := fun n => Upkeep.asked_success _
  have hnext : ∀ n, (List.range n).map (Upkeep.due port) ++ [Upkeep.due port n]
      = (List.range (n + 1)).map (Upkeep.due port) := by
    intro n
    rw [List.range_succ, List.map_append]
    rfl
  -- a call that goes out is followed by an answer at most
  have hlast : ∀ {w : Upkeep} {later : List Upkeep.Entry}, later.filterMap Upkeep.Entry.asked? = [] →
      ∀ before u rest, Upkeep.Entry.asked w :: later = before ++ .asked u :: rest → before = [] := by
    intro w later hlater before u rest h
    cases before with
    | nil => rfl
    | cons first before =>
      obtain ⟨-, rfl⟩ := List.cons.inj h
      simp [Upkeep.Entry.asked?] at hlater
  cases phase with
  | ready n =>
    refine ⟨?_, fun before u rest h => Upkeep.awaited_of_success
      (fun before u rest (he : [] = before ++ .asked u :: rest) => by simp at he)
      ((List.append_nil _).trans h)⟩
    rw [log, hpassed]
    exact Upkeep.due_prefix port n
  | asked n =>
    refine ⟨?_, fun before u rest => Upkeep.awaited_of_success (hlast rfl)⟩
    rw [log, List.filterMap_append, hpassed]
    exact hnext n ▸ Upkeep.due_prefix port (n + 1)
  | failed n =>
    refine ⟨?_, fun before u rest => Upkeep.awaited_of_success (hlast rfl)⟩
    rw [log, List.filterMap_append, hpassed]
    exact hnext n ▸ Upkeep.due_prefix port (n + 1)

end Phase

end SandboxPool
