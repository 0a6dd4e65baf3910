import SandboxPool.Proofs.Machine.Turns
import SandboxPool.Execution.Basic
import Mathlib.Data.List.Nodup
import Mathlib.Logic.Function.Basic

/-!
# What is seen of a dispatched block

A block that is dispatched asks the pool for a sandbox. If it gets one, the runner is called with it, and
the sandbox is given back when the runner has ended, whatever that came to. Each of these is a mark
(`BlockRun.Mark`), and `BlockRun.Complete` says which marks a block leaves. What the pool answers is not
read off the block, but is what the acquisition or the release comes to by itself (`Strand.upshot?`).

* `BlockRun.Marked.turn`: wherever a block is, it has left the first of these marks.
* `Execution.Tracks` ties the entries of several blocks to where these are. Each way to go on is one
  lemma: a block is dispatched, it takes a turn, or the pool is torn down.
* `Execution.Barred`: nothing is seen of a lane before all blocks of earlier lanes are complete.
-/

namespace SandboxPool

/-! ## What a process comes to -/

section Onward

variable {β σ α : Type} {c : Context} {p : Pool} {out : Bool} {sig : Option Signal}

/-- How a process goes on from a turn with this signal, if it does not wait for a reply then. -/
def Demand.onward? (d : Demand β) (c : Context) (p : Pool) : Option Signal → Option β
  | none =>
    match d with
    | .scope body => some (body c p).result
    | .gate next => some next
    | _ => none
  | some (.sent _) => none
  | some (.got _ r) => d.answer? r

theorem Demand.Turn.onward {d : Demand β} {s : Scope (Option β)} (h : d.Turn c p out sig s) :
    d.onward? c p sig = s.result := by
  cases h with
  | scope body => rfl
  | gate next hg => rfl
  | send d a ha => rfl
  | receive d a r b ha hb => exact hb

/-- The result of a process that ends. -/
def Next.result? : Next σ α → Option α
  | .done a => some a
  | _ => none

/-- What a process comes to that takes a turn at a point with this signal, if it ends there. -/
def Strand.upshot? (demand : σ → Demand (Next σ α)) (c : Context) (p : Pool) (sig : Option Signal)
    (point : σ) : Option α :=
  ((demand point).onward? c p sig).bind (·.result?)

theorem Strand.upshot?_of_turn {demand : σ → Demand (Next σ α)} {point : σ}
    {s : Scope (Option (Next σ α))} (h : (demand point).Turn c p out sig s) :
    upshot? demand c p sig point = s.result.bind (·.result?) := by
  unfold upshot?
  rw [h.onward]

end Onward

namespace BlockRun

/-- What is seen of a block. -/
inductive Mark where
  /-- It asks the pool for a sandbox. -/
  | acquire (block : String)
  /-- The pool has answered. -/
  | acquired (answer : Except PoolError Snapshot)
  /-- The runner is called. -/
  | run (sandbox : Snapshot) (block : String)
  /-- The runner has ended. -/
  | ran (ending : RunEnd)
  /-- The sandbox is given back to the pool. -/
  | release (id : String)
  /-- The pool has taken it. -/
  | released
  /-- Something has panicked, but not the runner. -/
  | brokeOff
  deriving Repr

/-- The mark that a runner leaves when it is called, or when it replies. One that terminates its sandbox
has not ended with its reply. -/
def Mark.ofSignal? : Option Signal → Option Mark
  | some (.sent (.run sandbox block)) => some (.run sandbox block)
  | some (.got _ (.ran reply)) => if reply.terminates then none else some (.ran reply.ending)
  | _ => none

/-- The mark that a turn at a point leaves. What the pool answers is what the acquisition, the
termination or the release comes to, each taken for itself. -/
def Point.mark? (config : Config) (block : String) (c : Context) (p : Pool) (sig : Option Signal)
    (after : Strand Point BlockResult) : Point → Option Mark
  | .begin =>
    match after with
    | .ready (.acquire ..) => some (.acquire block)
    | _ => none
  | .acquire _ a => (Strand.upshot? (Acquire.demand config block) c p sig a).map .acquired
  | .refuse .. => none
  | .run .. => Mark.ofSignal? sig
  | .retire _ sandbox ending t =>
    (Strand.upshot? (Termination.demand sandbox.id) c p sig t).map fun _ => .ran ending
  | .conclude .. =>
    match after with
    | .ready (.release _ id _) => some (.release id)
    | _ => none
  | .release _ id r => (Strand.upshot? (Release.demand id) c p sig r).map fun _ => .released

/-- The mark that a turn of a block leaves. -/
def mark? (config : Config) (block : String) (c : Context) (p : Pool) (sig : Option Signal)
    (before after : Strand Point BlockResult) : Option Mark :=
  match after with
  | .panicked _ => some .brokeOff
  | _ => before.point?.bind (·.mark? config block c p sig after)

/-- **The marks of a block that has come to its end**: it acquires once; the runner is called once if it
got a sandbox, with that sandbox, and never otherwise; and the sandbox is given back once, when the runner
has ended. -/
inductive Complete (block : String) : List Mark → Prop where
  | refused (error : PoolError) : Complete block [.acquire block, .acquired (.error error)]
  | ran (sandbox : Snapshot) (ending : RunEnd) : Complete block [.acquire block,
      .acquired (.ok sandbox), .run sandbox block, .ran ending, .release sandbox.id, .released]

/-- The marks of a block at a point, where it is before its question or waits for the reply (`out`). -/
def Point.Marked (block : String) (out : Bool) (marks : List Mark) : Point → Prop
  | .begin => marks = []
  | .acquire .. => marks = [.acquire block]
  | .refuse _ error => marks = [.acquire block, .acquired (.error error)]
  | .run _ sandbox =>
    marks = [.acquire block, .acquired (.ok sandbox)] ++ if out then [.run sandbox block] else []
  | .retire _ sandbox .. => marks = [.acquire block, .acquired (.ok sandbox), .run sandbox block]
  | .conclude _ sandbox ending =>
    marks = [.acquire block, .acquired (.ok sandbox), .run sandbox block, .ran ending]
  | .release _ id _ => ∃ sandbox ending, id = sandbox.id ∧ marks = [.acquire block,
      .acquired (.ok sandbox), .run sandbox block, .ran ending, .release sandbox.id]

/-- The marks of a block, wherever it is. -/
def Marked (block : String) (marks : List Mark) : Strand Point BlockResult → Prop
  | .ready point => point.Marked block false marks
  | .waiting point => point.Marked block true marks
  | .done _ => Complete block marks
  | .panicked _ => False

variable {config : Config} {c : Context} {p : Pool} {out : Bool} {sig : Option Signal}
  {block : String} {marks : List Mark}

theorem marked_standing {point : Point} :
    Marked block marks (.standing point out) ↔ point.Marked block out marks := by
  cases out <;> exact Iff.rfl

/-- What a block has left so far are the first marks of one that has come to its end. -/
theorem Marked.exists_complete {st : Strand Point BlockResult} (h : Marked block marks st) :
    ∃ word, Complete block word ∧ marks <+: word := by
  have hpoint : ∀ {point : Point} {out : Bool}, point.Marked block out marks →
      ∃ word, Complete block word ∧ marks <+: word := by
    intro point out h
    cases point with
    | begin => exact ⟨_, .refused default, h ▸ List.nil_prefix⟩
    | acquire since a => exact ⟨_, .refused default, [.acquired (.error default)], by rw [h]; rfl⟩
    | refuse since error => exact ⟨_, .refused error, h ▸ List.prefix_rfl⟩
    | run since sandbox =>
      cases out with
      | false => exact ⟨_, .ran sandbox default, [.run sandbox block, .ran default, .release sandbox.id,
          .released], by rw [h]; rfl⟩
      | true => exact ⟨_, .ran sandbox default, [.ran default, .release sandbox.id, .released],
          by rw [h]; rfl⟩
    | retire since sandbox ending t =>
      exact ⟨_, .ran sandbox default, [.ran default, .release sandbox.id, .released], by rw [h]; rfl⟩
    | conclude since sandbox ending =>
      exact ⟨_, .ran sandbox ending, [.release sandbox.id, .released], by rw [h]; rfl⟩
    | release ran id r =>
      obtain ⟨sandbox, ending, -, rfl⟩ := h
      exact ⟨_, .ran sandbox ending, [.released], rfl⟩
  cases st with
  | ready point => exact hpoint h
  | waiting point => exact hpoint h
  | done r => exact ⟨marks, h, List.prefix_rfl⟩
  | panicked message => exact h.elim

theorem mark?_standing {b : Point} {after : Strand Point BlockResult}
    (h : ∀ message, after ≠ .panicked message) :
    mark? config block c p sig (.standing b out) after = b.mark? config block c p sig after := by
  unfold mark?
  rw [Strand.point?_standing]
  cases after with
  | panicked message => exact absurd rfl (h message)
  | _ => rfl

/-- **Every turn of a block leaves the next mark**, or none, unless something panics. -/
theorem Marked.turn {b : Point} {s : Scope (Option (Next Point BlockResult))}
    (ht : (demand config block b).Turn c p out sig s) (h : Marked block marks (.standing b out))
    (hsafe : ∀ message, Strand.land b s.result ≠ .panicked message) :
    Marked block (marks ++ (mark? config block c p sig (.standing b out) (.land b s.result)).toList)
      (.land b s.result) := by
  rw [marked_standing] at h
  rw [mark?_standing hsafe]
  cases b with
  | begin =>
    obtain ⟨rfl, -, rfl⟩ := Demand.turn_scope ht
    obtain rfl := h
    rfl
  | acquire since a =>
    obtain ⟨⟨pool, effects, result⟩, h₀, rfl⟩ := Demand.turn_map ht
    obtain rfl := h
    simp only [Point.mark?, Strand.upshot?_of_turn h₀]
    cases result with
    | none => rfl
    | some next =>
      cases next with
      | goto a' => rfl
      | done answer => cases answer <;> rfl
      | panic message => exact absurd rfl (hsafe message)
  | refuse since error =>
    obtain ⟨rfl, -, rfl⟩ := Demand.turn_scope ht
    obtain rfl := h
    exact .refused error
  | run since sandbox =>
    rcases Demand.turn_run ht with ⟨rfl, rfl, rfl⟩ | ⟨reply, rfl, rfl, rfl⟩
    · obtain rfl := h
      rfl
    · obtain rfl := h
      obtain ⟨terminates, ending⟩ := reply
      cases terminates <;> rfl
  | retire since sandbox ending t =>
    obtain ⟨⟨pool, effects, result⟩, h₀, rfl⟩ := Demand.turn_map ht
    obtain rfl := h
    simp only [Point.mark?, Strand.upshot?_of_turn h₀]
    cases result with
    | none => rfl
    | some next =>
      cases next with
      | goto t' => rfl
      | done r => rfl
      | panic message => exact absurd rfl (hsafe message)
  | conclude since sandbox ending =>
    obtain ⟨rfl, -, rfl⟩ := Demand.turn_scope ht
    obtain rfl := h
    exact ⟨sandbox, ending, rfl, rfl⟩
  | release ran id r =>
    obtain ⟨⟨pool, effects, result⟩, h₀, rfl⟩ := Demand.turn_map ht
    obtain ⟨sandbox, ending, rfl, rfl⟩ := h
    simp only [Point.mark?, Strand.upshot?_of_turn h₀]
    cases result with
    | none => exact ⟨sandbox, ending, rfl, rfl⟩
    | some next =>
      cases next with
      | goto r' => exact ⟨sandbox, ending, rfl, rfl⟩
      | done result => exact .ran sandbox ending
      | panic message => exact absurd rfl (hsafe message)

end BlockRun

namespace Execution

/-! ## What is seen of several blocks -/

/-- What is seen of an execution. A block is known by its lane and by its place there. -/
inductive Entry where
  | dispatch (lane place : Nat) (block : String)
  | mark (lane place : Nat) (m : BlockRun.Mark)
  /-- The teardown of an abort begins. -/
  | teardown
  deriving Repr

namespace Entry

/-- The lane, place and name of a block that is dispatched. -/
def dispatch? : Entry → Option (Nat × Nat × String)
  | dispatch lane place block => some (lane, place, block)
  | _ => none

/-- The mark of a block. -/
def mark? (lane place : Nat) : Entry → Option BlockRun.Mark
  | mark l p m => if l = lane ∧ p = place then some m else none
  | _ => none

/-- The lane that the entry is about. -/
def lane? : Entry → Option Nat
  | dispatch lane .. => some lane
  | mark lane .. => some lane
  | teardown => none

/-- Something has panicked, but not a runner. -/
def brokeOff : Entry → Bool
  | mark _ _ .brokeOff => true
  | _ => false

end Entry

/-- The blocks that are dispatched. -/
def dispatched (trail : List Entry) : List (Nat × Nat × String) := trail.filterMap (·.dispatch?)

/-- What is seen of one block. -/
def marks (trail : List Entry) (lane place : Nat) : List BlockRun.Mark :=
  trail.filterMap (·.mark? lane place)

/-- A block on its way. -/
structure Errand where
  lane : Nat
  block : String
  strand : Strand BlockRun.Point BlockResult

/-- All blocks of earlier lanes are complete, and if no lane is given, all blocks are. -/
def Clear (trail : List Entry) (lane? : Option Nat) : Prop :=
  ∀ l place block, .dispatch l place block ∈ trail → (∀ lane, lane? = some lane → l < lane) →
    BlockRun.Complete block (marks trail l place)

/-- **The barrier**: whatever is seen of a lane is seen when all blocks of earlier lanes are complete, and
a teardown begins when all blocks are. -/
inductive Barred : List Entry → Prop where
  | nil : Barred []
  | snoc {trail : List Entry} {e : Entry} (h : Barred trail) (hc : Clear trail e.lane?) :
      Barred (trail ++ [e])

/-- What is seen of several blocks fits where they are. -/
structure Tracks (trail : List Entry) (work : Nat → Option Errand) : Prop where
  /-- A block that was dispatched is complete or under way. -/
  settled : ∀ lane place block, .dispatch lane place block ∈ trail →
    BlockRun.Complete block (marks trail lane place) ∨ ∃ st, work place = some ⟨lane, block, st⟩
  /-- A block that is under way was dispatched, and has left the marks that fit where it is. -/
  marked : ∀ place e, work place = some e → .dispatch e.lane place e.block ∈ trail ∧
    BlockRun.Marked e.block (marks trail e.lane place) e.strand
  /-- Only blocks that were dispatched leave marks. -/
  placed : ∀ lane place m, .mark lane place m ∈ trail → ∃ block, .dispatch lane place block ∈ trail
  /-- Every block has a place of its own. -/
  single : ((dispatched trail).map fun d => (d.1, d.2.1)).Nodup
  barred : Barred trail

variable {trail : List Entry} {work : Nat → Option Errand} {lane place : Nat} {block : String}
  {e : Entry}

theorem mem_dispatched :
    (lane, place, block) ∈ dispatched trail ↔ .dispatch lane place block ∈ trail := by
  unfold dispatched
  rw [List.mem_filterMap]
  constructor
  · rintro ⟨e, he, hd⟩
    cases e <;> cases hd
    exact he
  · exact fun h => ⟨_, h, rfl⟩

theorem mem_dispatch_snoc {l p : Nat} {b : String} :
    .dispatch l p b ∈ trail ++ [.dispatch lane place block]
      ↔ .dispatch l p b ∈ trail ∨ l = lane ∧ p = place ∧ b = block := by
  simp

/-- What is seen later and dispatches no block leaves the blocks that were dispatched as they are. -/
theorem dispatched_append {later : List Entry} (hl : dispatched later = []) :
    dispatched (trail ++ later) = dispatched trail := by
  unfold dispatched at hl ⊢
  rw [List.filterMap_append, hl, List.append_nil]

theorem mem_dispatch_append {later : List Entry} (hl : dispatched later = []) :
    .dispatch lane place block ∈ trail ++ later ↔ .dispatch lane place block ∈ trail := by
  rw [← mem_dispatched, dispatched_append hl, mem_dispatched]

theorem dispatched_mark (mark : Option BlockRun.Mark) :
    dispatched (mark.map (.mark lane place)).toList = [] := by
  cases mark <;> rfl

/-- What is seen later and is no mark leaves the marks of a block as they are. -/
theorem marks_snoc (he : e.mark? lane place = none) :
    marks (trail ++ [e]) lane place = marks trail lane place := by
  unfold marks
  rw [List.filterMap_append, List.filterMap_cons_none he, List.filterMap_nil, List.append_nil]

/-- What was seen later was not yet there. -/
theorem Barred.clear {before after : List Entry} (h : Barred (before ++ e :: after)) :
    Clear before e.lane? := by
  generalize hall : before ++ e :: after = all at h
  induction h generalizing after with
  | nil => simp at hall
  | @snoc trail last h hc ih =>
    rcases List.eq_nil_or_concat after with rfl | ⟨rest, x, rfl⟩
    · obtain ⟨rfl, hlast⟩ := List.append_inj' hall rfl
      cases hlast
      exact hc
    · rw [List.concat_eq_append, ← List.cons_append, ← List.append_assoc] at hall
      exact ih (List.append_inj' hall rfl).1

namespace Tracks

/-- A place of a lane is that of one block. -/
theorem block_unique (h : Tracks trail work) {block' : String}
    (hb : .dispatch lane place block ∈ trail) (hb' : .dispatch lane place block' ∈ trail) :
    block = block' := by
  have heq := List.inj_on_of_nodup_map h.single (mem_dispatched.2 hb) (mem_dispatched.2 hb') rfl
  simpa using heq

/-- What was not dispatched has left no marks. -/
theorem marks_eq_nil (h : Tracks trail work) (hnew : ∀ block, .dispatch lane place block ∉ trail) :
    marks trail lane place = [] := by
  refine List.filterMap_eq_nil_iff.2 fun e he => ?_
  cases e with
  | mark l p m =>
    refine if_neg ?_
    rintro ⟨rfl, rfl⟩
    obtain ⟨block, hmem⟩ := h.placed _ _ m he
    exact hnew block hmem
  | _ => rfl

/-- When the blocks that are under way are all of one lane, those of earlier lanes are complete. -/
theorem clear_lane (h : Tracks trail work) (hlane : ∀ place e, work place = some e → e.lane = lane) :
    Clear trail (some lane) := by
  intro l place block hd hlt
  rcases h.settled l place block hd with hc | ⟨st, hw⟩
  · exact hc
  · exact absurd (hlane place _ hw) (Nat.ne_of_lt (hlt lane rfl))

/-- Nothing is seen when somebody else moves. -/
theorem congr {work' : Nat → Option Errand} (h : Tracks trail work)
    (hw : ∀ place, work' place = work place) : Tracks trail work' := by
  rwa [show work' = work from funext hw]

/-- A block is dispatched. -/
theorem dispatch (h : Tracks trail work) (hnew : ∀ block, .dispatch lane place block ∉ trail)
    (hlane : ∀ place e, work place = some e → e.lane = lane) (block : String) :
    Tracks (trail ++ [.dispatch lane place block])
      (Function.update work place (some ⟨lane, block, .ready .begin⟩)) := by
  have hidle : work place = none := by
    cases hw : work place with
    | none => rfl
    | some e => exact absurd (hlane place e hw ▸ (h.marked place e hw).1) (hnew e.block)
  refine ⟨fun l p b hd => ?_, fun p e he => ?_, fun l p m hm => ?_, ?_,
    h.barred.snoc (h.clear_lane hlane)⟩
  · rw [marks_snoc rfl]
    rcases mem_dispatch_snoc.1 hd with hd | ⟨rfl, rfl, rfl⟩
    · refine (h.settled l p b hd).imp_right fun ⟨st, hw⟩ => ⟨st, ?_⟩
      rw [Function.update_of_ne _, hw]
      rintro rfl
      rw [hidle] at hw
      cases hw
    · exact .inr ⟨_, Function.update_self ..⟩
  · rw [marks_snoc rfl, mem_dispatch_snoc]
    by_cases hp : p = place
    · subst hp
      rw [Function.update_self] at he
      cases he
      exact ⟨.inr ⟨rfl, rfl, rfl⟩, h.marks_eq_nil hnew⟩
    · rw [Function.update_of_ne hp] at he
      exact (h.marked p e he).imp_left .inl
  · have hm : .mark l p m ∈ trail := by simpa using hm
    exact (h.placed l p m hm).imp fun b hd => List.mem_append_left _ hd
  · have hall : dispatched (trail ++ [.dispatch lane place block])
        = dispatched trail ++ [(lane, place, block)] := List.filterMap_append
    rw [hall, List.map_append, List.nodup_append]
    refine ⟨h.single, List.nodup_singleton _, ?_⟩
    intro x hx y hy heq
    obtain ⟨⟨l, p, b⟩, hd, rfl⟩ := List.mem_map.1 hx
    cases List.mem_singleton.1 hy
    cases heq
    exact hnew b (mem_dispatched.1 hd)

/-- A block that is under way takes a turn. -/
theorem turn (h : Tracks trail work) {e : Errand} (he : work place = some e)
    (hlane : ∀ place e', work place = some e' → e'.lane = e.lane) {mark : Option BlockRun.Mark}
    {st : Strand BlockRun.Point BlockResult}
    (hm : BlockRun.Marked e.block (marks trail e.lane place ++ mark.toList) st) :
    Tracks (trail ++ (mark.map (.mark e.lane place)).toList)
      (Function.update work place (if st.ended then none else some { e with strand := st })) := by
  have hhere : marks (trail ++ (mark.map (Entry.mark e.lane place)).toList) e.lane place
      = marks trail e.lane place ++ mark.toList := by
    cases mark <;> simp [marks, Entry.mark?]
  have hthere : ∀ {l p}, ¬ (l = e.lane ∧ p = place) →
      marks (trail ++ (mark.map (Entry.mark e.lane place)).toList) l p = marks trail l p := by
    intro l p hne
    cases mark with
    | none => simp [marks]
    | some m => exact marks_snoc (if_neg fun ⟨hl, hp⟩ => hne ⟨hl.symm, hp.symm⟩)
  have hdispatch := (h.marked place e he).1
  refine ⟨fun l p b hd => ?_, fun p e' he' => ?_, fun l p m hmark => ?_, ?_, ?_⟩
  · rw [mem_dispatch_append (dispatched_mark mark)] at hd
    by_cases heq : l = e.lane ∧ p = place
    · obtain ⟨rfl, rfl⟩ := heq
      rw [hhere, h.block_unique hd hdispatch]
      cases st with
      | done r => exact .inl hm
      | panicked message => exact hm.elim
      | ready point => exact .inr ⟨_, Function.update_self ..⟩
      | waiting point => exact .inr ⟨_, Function.update_self ..⟩
    · rw [hthere heq]
      refine (h.settled l p b hd).imp_right fun ⟨st', hw⟩ => ⟨st', ?_⟩
      rw [Function.update_of_ne _, hw]
      rintro rfl
      exact heq ⟨hlane p _ hw, rfl⟩
  · rw [mem_dispatch_append (dispatched_mark mark)]
    by_cases hp : p = place
    · subst hp
      rw [Function.update_self] at he'
      split at he'
      · cases he'
      · cases he'
        exact ⟨hdispatch, hhere.symm ▸ hm⟩
    · rw [Function.update_of_ne hp] at he'
      rw [hthere fun heq => hp heq.2]
      exact h.marked p e' he'
  · simp only [mem_dispatch_append (dispatched_mark mark)]
    rcases List.mem_append.1 hmark with hmark | hmark
    · exact h.placed l p m hmark
    · obtain ⟨m', -, hm'⟩ := Option.map_eq_some_iff.1 (Option.mem_toList.1 hmark)
      cases hm'
      exact ⟨_, hdispatch⟩
  · rw [dispatched_append (dispatched_mark mark)]
    exact h.single
  · cases mark with
    | none => simpa using h.barred
    | some m => exact h.barred.snoc (h.clear_lane hlane)

/-- The pool is torn down when no block is under way. -/
theorem teardown (h : Tracks trail work) (hnone : ∀ place, work place = none) :
    Tracks (trail ++ [.teardown]) work := by
  refine ⟨fun l p b hd => ?_, fun p e he => ?_, fun l p m hm => ?_, ?_, h.barred.snoc ?_⟩
  · rw [marks_snoc rfl]
    exact h.settled l p b ((mem_dispatch_append rfl).1 hd)
  · rw [hnone] at he
    cases he
  · have hm : .mark l p m ∈ trail := by simpa using hm
    exact (h.placed l p m hm).imp fun b => (mem_dispatch_append rfl).2
  · rw [dispatched_append rfl]
    exact h.single
  · intro l p b hd _
    rcases h.settled l p b hd with hc | ⟨st, hw⟩
    · exact hc
    · rw [hnone] at hw
      cases hw

end Tracks

end Execution

end SandboxPool
