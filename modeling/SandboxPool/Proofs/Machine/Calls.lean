import SandboxPool.Proofs.Machine.Endings
import SandboxPool.Proofs.Machine.Events

/-!
# What has been done to end a sandbox

A history tells what has been done to end a sandbox: the calls to stop and to remove its container
(`History.calls`), the ports that terminations gave back (`History.settled`), and the events that
took it to its end (`History.endings`).

* A move adds to these only if it is made by somebody who has the termination in hand
  (`Machine.spares_or`), and there is only one who does (`Machine.ending_unique`).
* A call that returns takes the termination to its next stage (`Act.returned`).
-/

namespace SandboxPool

variable {config : Config} {id : String} {port : UInt16} {c : Context} {p : Pool} {out : Bool}
  {sig : Option Signal}

/-! ## What a termination does -/

namespace Termination

/-- The calls of a termination, each when it is put and when it has returned. -/
def calls : List (Action × Bool) :=
  [(.stop, false), (.stop, true), (.remove true, false), (.remove true, true)]

end Termination

/-- The calls of a termination that is at a stage, and there waits for a reply or not. -/
def Stage.calls (awaits : Bool) : Stage → List (Action × Bool)
  | stop => Termination.calls.take (if awaits then 1 else 0)
  | remove => Termination.calls.take (if awaits then 3 else 2)
  | settle => Termination.calls

/-! ## What has been done to a sandbox -/

/-- A call to stop or to remove the container of a sandbox, and whether it has returned. -/
def Signal.ending? (id : String) (s : Signal) : Option (Action × Bool) :=
  s.ends?.bind fun x => if x.1 = id then some x.2 else none

/-- The state from which the event takes a sandbox to its end. -/
def Event.ending? (id : String) (e : Event) : Option State :=
  e.ends?.bind fun x => if x.1 = id then some x.2 else none

/-- The port that a leaf is about to give back for a sandbox. -/
def Leaf.settles? (id : String) : Leaf → Option UInt16
  | termination id' (.settle port) => if id' = id then some port else none
  | _ => none

namespace History

variable {h : History} {m m' : Machine} {move : Move} {notes : List Note}

/-- The calls to stop and to remove the container of a sandbox, each when it was put and when it
returned. -/
def calls (h : History) (id : String) : List (Action × Bool) := h.signals.filterMap (·.ending? id)

/-- The ports that terminations of a sandbox gave back. -/
def settled (h : History) (id : String) : List UInt16 :=
  h.filterMap fun x => (x.1.leaf? (x.1.mover x.2)).bind (·.settles? id)

/-- The events that were published. -/
def events (h : History) : List Event :=
  h.flatMap fun x => ((x.1.next x.2).map fun y => y.2.filterMap (·.event?)).getD []

/-- The states from which events took a sandbox to its end. -/
def endings (h : History) (id : String) : List State := h.events.filterMap (·.ending? id)

theorem calls_append : (h ++ [(m, move)]).calls id
    = h.calls id ++ ((m.signal? move).bind (·.ending? id)).toList := by
  unfold calls
  rw [signals_append, List.filterMap_append]
  cases m.signal? move with
  | none => rfl
  | some s => 
    simp only [Option.toList_some, List.filterMap_cons, List.filterMap_nil, Option.bind_some]
    cases s.ending? id <;> rfl

theorem settled_append : (h ++ [(m, move)]).settled id
    = h.settled id ++ ((m.leaf? (m.mover move)).bind (·.settles? id)).toList := by
  unfold settled
  rw [List.filterMap_append, List.filterMap_cons, List.filterMap_nil]
  cases (m.leaf? (m.mover move)).bind (·.settles? id) <;> rfl

theorem events_append (hn : m.next move = some (m', notes)) : (h ++ [(m, move)]).events
    = h.events ++ notes.filterMap (·.event?) := by
  unfold events
  rw [List.flatMap_append, List.flatMap_cons, List.flatMap_nil, List.append_nil, hn]
  rfl

theorem endings_append (hn : m.next move = some (m', notes)) : (h ++ [(m, move)]).endings id
    = h.endings id ++ (notes.filterMap (·.event?)).filterMap (·.ending? id) := by
  unfold endings
  rw [events_append hn, List.filterMap_append]

/-- The termination of a sandbox has come as far as its calls say, and not to its end. -/
structure At (h : History) (id : String) (calls : List (Action × Bool)) : Prop where
  calls : h.calls id = calls
  settled : h.settled id = []
  endings : h.endings id = []

/-- A move has nothing to do with the end of a sandbox. -/
structure Spares (m : Machine) (move : Move) (notes : List Note) (id : String) : Prop where
  signal : (m.signal? move).bind (·.ending? id) = none
  leaf : (m.leaf? (m.mover move)).bind (·.settles? id) = none
  events : (notes.filterMap (·.event?)).filterMap (·.ending? id) = []

namespace Spares

theorem calls_eq (hs : Spares m move notes id) : (h ++ [(m, move)]).calls id = h.calls id := by
  rw [calls_append, hs.signal, Option.toList_none, List.append_nil]

theorem settled_eq (hs : Spares m move notes id) :
    (h ++ [(m, move)]).settled id = h.settled id := by
  rw [settled_append, hs.leaf, Option.toList_none, List.append_nil]

theorem endings_eq (hs : Spares m move notes id) (hn : m.next move = some (m', notes)) :
    (h ++ [(m, move)]).endings id = h.endings id := by
  rw [endings_append hn, hs.events, List.append_nil]

theorem at_next {calls : List (Action × Bool)} (hs : Spares m move notes id)
    (hn : m.next move = some (m', notes)) (ha : h.At id calls) : (h ++ [(m, move)]).At id calls :=
  ⟨hs.calls_eq.trans ha.calls, hs.settled_eq.trans ha.settled, (hs.endings_eq hn).trans ha.endings⟩

end Spares

end History

/-! ## Who ends a sandbox -/

theorem Signal.ending?_eq_none {s : Signal} (h : s.ends? = none) : s.ending? id = none := by
  unfold ending?
  rw [h]
  rfl

theorem Event.ending?_eq_none {e : Event} (h : e.ends? = none) : e.ending? id = none := by
  unfold ending?
  rw [h]
  rfl

/-- What is seen of the turns of a termination concerns its sandbox, and only when it is behind its
claim. -/
theorem Termination.turn_ends {id' : String} {t : Point} {s : Scope (Option Unit)}
    (h : (demand id' t).bare.Turn c p out sig s) :
    (∀ signal, sig = some signal → (∃ port stage, t = Stage.point port stage) ∧
      ∃ x, signal.ends? = some (id', x)) ∧
    ∀ e ∈ s.events, (∃ port, t = .settle port) ∧ ∃ source, e.ends? = some (id', source) := by
  cases t with
  | claim =>
    obtain ⟨-, rfl, rfl⟩ := Demand.turn_scope h
    refine ⟨fun signal hs => (by cases hs), fun e he => ?_⟩
    have hnone : (claim id' p).events = [] := by
      unfold claim Scope.events
      split
      · rfl
      · next r _ =>
        split
        · rfl
        · exact r.events_calm
    have hmem : e ∈ (claim id' p).events := he
    rw [hnone] at hmem
    cases hmem
  | expire g =>
    obtain ⟨-, rfl, rfl⟩ := Demand.turn_scope h
    refine ⟨fun signal hs => (by cases hs), fun e he => ?_⟩
    have hnone : (expire id' g p).events = [] := by
      unfold expire
      split
      · rfl
      · split <;> rfl
    have hmem : e ∈ (expire id' g p).events := he
    rw [hnone] at hmem
    cases hmem
  | stop port =>
    have hstage : Point.stop port = Stage.point port .stop := rfl
    rcases Demand.turn_act h with ⟨-, rfl, rfl⟩ | ⟨r, -, rfl, rfl⟩
    all_goals
      refine ⟨fun signal hs => ?_, fun e he => by cases he⟩
      cases hs
      exact ⟨⟨port, .stop, hstage⟩, _, rfl⟩
  | remove port =>
    have hstage : Point.remove port = Stage.point port .remove := rfl
    rcases Demand.turn_act h with ⟨-, rfl, rfl⟩ | ⟨r, -, rfl, rfl⟩
    all_goals
      refine ⟨fun signal hs => ?_, fun e he => by cases he⟩
      cases hs
      exact ⟨⟨port, .remove, hstage⟩, _, rfl⟩
  | settle port =>
    obtain ⟨-, rfl, rfl⟩ := Demand.turn_scope h
    refine ⟨fun signal hs => (by cases hs), fun e he => ⟨⟨port, rfl⟩, ?_⟩⟩
    have hmem : e ∈ (settle id' port p).events := he
    cases hf : p.find? id' with
    | none =>
      have hfind : (({ p with ports := p.ports.release port } : Pool).dropClaim id').find? id'
          = none := hf
      simp only [settle, hfind] at hmem
      cases hmem
    | some r =>
      rw [settle_eq hf] at hmem
      obtain rfl := List.mem_singleton.1 hmem
      refine ⟨r.state, ?_⟩
      rw [← (Pool.mem_of_find? hf).2]
      rfl

namespace Machine

variable {m m' : Machine} {move : Move} {notes : List Note}

/-- **A move spares a sandbox, unless it is made by somebody who terminates it.** -/
theorem spares_or (ho : m.Ordered) (hn : m.next move = some (m', notes)) (id : String) :
    History.Spares m move notes id ∨
      ∃ port stage, (m.mover move, .ending id port stage) ∈ m.hands := by
  rcases next_leaf ho hn with hs | ⟨l, sig, r, ht⟩
  · refine .inl ⟨?_, ?_, ?_⟩
    · rw [hs.signal]
      rfl
    · rw [hs.leaf]
      rfl
    · rw [hs.events]
      rfl
  obtain ⟨⟨e, hturn, hev⟩, hheard, -, -, ⟨x, hx⟩, hleaf⟩ := ht
  have hinner := Leaf.innermost_of_leaf? hx
  by_cases hterm : ∃ id' t, l = .termination id' t
  · obtain ⟨id', t, rfl⟩ := hterm
    obtain ⟨hsignals, hevents⟩ := Termination.turn_ends hturn
    -- whoever is behind the claim has the termination in hand
    have hends : (∃ port stage, t = Stage.point port stage) → id' = id →
        ∃ port stage, (m.mover move, .ending id port stage) ∈ m.hands := by
      rintro ⟨port, stage, rfl⟩ rfl
      rcases hleaf with hleaf | ⟨-, id'', g, hexp⟩
      · exact ⟨port, stage, (ending_iff ho).2 hleaf⟩
      · cases stage <;> cases hexp
    by_cases hid : id' = id
    · by_cases hstage : ∃ port stage, t = Stage.point port stage
      · exact .inr (hends hstage hid)
      · refine .inl ⟨?_, ?_, ?_⟩
        · cases hsig : m.signal? move with
          | none => rfl
          | some signal => exact absurd (hsignals signal (hheard.trans hsig)).1 hstage
        · rcases hleaf with hleaf | ⟨hleaf, -⟩
          · rw [hleaf]
            cases t with
            | settle port => exact absurd ⟨port, .settle, rfl⟩ hstage
            | _ => rfl
          · rw [hleaf]
            rfl
        · rw [hev]
          refine List.filterMap_eq_nil_iff.2 fun event hevent => ?_
          obtain ⟨⟨port, rfl⟩, -⟩ := hevents event hevent
          exact absurd ⟨port, .settle, rfl⟩ hstage
    · refine .inl ⟨?_, ?_, ?_⟩
      · cases hsig : m.signal? move with
        | none => rfl
        | some signal =>
          obtain ⟨-, y, hy⟩ := hsignals signal (hheard.trans hsig)
          simp only [Option.bind_some, Signal.ending?, hy, hid, if_false]
      · rcases hleaf with hleaf | ⟨hleaf, -⟩
        · rw [hleaf]
          cases t <;> simp [Leaf.settles?, hid]
        · rw [hleaf]
          rfl
      · rw [hev]
        refine List.filterMap_eq_nil_iff.2 fun event hevent => ?_
        obtain ⟨-, source, hsource⟩ := hevents event hevent
        simp only [Event.ending?, hsource, Option.bind_some, hid, if_false]
  · have hno : ∀ id t, l ≠ .termination id t := fun id t he => hterm ⟨id, t, he⟩
    refine .inl ⟨?_, ?_, ?_⟩
    · cases hsig : m.signal? move with
      | none => rfl
      | some signal =>
        exact Signal.ending?_eq_none (Leaf.signal_ends hinner hno hturn (hheard.trans hsig))
    · rcases hleaf with hleaf | ⟨hleaf, -⟩
      · rw [hleaf]
        cases l with
        | termination id t => exact absurd rfl (hno id t)
        | _ => rfl
      · rw [hleaf]
        rfl
    · rw [hev]
      refine List.filterMap_eq_nil_iff.2 fun event hevent => ?_
      exact Event.ending?_eq_none ((Leaf.mild hinner hno hturn).events event hevent).2

/-- Whoever terminates a sandbox takes a turn of the termination. -/
theorem takes_of_ending (ho : m.Ordered) (hn : m.next move = some (m', notes)) {stage : Stage}
    (he : (m.mover move, .ending id port stage) ∈ m.hands) :
    ∃ sig r, m.Takes move m' notes (.termination id (stage.point port)) sig r := by
  have hleaf := (ending_iff ho).1 he
  rcases next_leaf ho hn with hs | ⟨l, sig, r, ht⟩
  · rw [hs.leaf] at hleaf
    cases hleaf
  · rcases ht.leaf.2 with hl | ⟨hnone, -⟩
    · obtain rfl := Option.some.inj (hl.symm.trans hleaf)
      exact ⟨sig, r, ht⟩
    · rw [hnone] at hleaf
      cases hleaf

/-- Nobody who terminates a sandbox spares it. -/
theorem not_spares (ho : m.Ordered) (hn : m.next move = some (m', notes)) {stage : Stage}
    (he : (m.mover move, .ending id port stage) ∈ m.hands) :
    ¬ History.Spares m move notes id := by
  intro hs
  obtain ⟨sig, r, ⟨e, hturn, -⟩, hheard, -⟩ := takes_of_ending ho hn he
  have hsignal := hs.signal
  rw [← hheard] at hsignal
  cases stage with
  | stop =>
    rcases Demand.turn_act hturn with ⟨-, rfl, -⟩ | ⟨reply, -, rfl, -⟩ <;>
      simp [Leaf.heard, Signal.ending?, Signal.ends?, Ask.ends?] at hsignal
  | remove =>
    rcases Demand.turn_act hturn with ⟨-, rfl, -⟩ | ⟨reply, -, rfl, -⟩ <;>
      simp [Leaf.heard, Signal.ending?, Signal.ends?, Ask.ends?] at hsignal
  | settle =>
    have hleaf := hs.leaf
    rw [(ending_iff ho).1 he] at hleaf
    simp [Stage.point, Leaf.settles?] at hleaf

end Machine

/-! ## Calls in acts -/

/-- The end of a call to stop or to remove is not aside. -/
theorem Signal.aside_of_returned {s : Signal} {action : Action}
    (h : s.ends? = some (id, action, true)) : s.aside = false := by
  cases s with
  | sent a => cases ha : a.ends? <;> simp [ends?, ha] at h
  | got a r =>
    cases a with
    | run sandbox block => cases h
    | daemon call =>
      cases call with
      | act action' id' => cases action' <;> first | rfl | cases h
      | _ => cases h

theorem Signal.ends?_of_stopped? {s : Signal} (h : s.stopped? = some id) :
    s.ends? = some (id, .stop, true) := by
  unfold stopped? at h
  split at h
  · cases h
    rfl
  · cases h

theorem Signal.ends?_of_removed? {s : Signal} (h : s.removed? = some id) :
    ∃ force, s.ends? = some (id, .remove force, true) := by
  unfold removed? at h
  split at h
  · cases h
    exact ⟨_, rfl⟩
  · cases h

section Acts

variable {q : Pool} {x y : List Hand} {s : Signal} {action : Action}

/-- A call that returns takes a termination to its next stage. -/
theorem Act.returned (h : Act p x sig q y) (hs : sig = some s)
    (he : s.ends? = some (id, action, true)) :
    ∃ port stage stage', x = [.ending id port stage] ∧ y = [.ending id port stage'] ∧
      stage'.calls false = stage.calls true ++ [(action, true)] := by
  subst hs
  cases h with
  | aside _ haside =>
    have hno := haside s rfl
    rw [Signal.aside_of_returned he] at hno
    cases hno
  | stopped id' port r =>
    cases he
    exact ⟨port, .stop, .remove, rfl, rfl, rfl⟩
  | removed id' port r =>
    cases he
    exact ⟨port, .remove, .settle, rfl, rfl, rfl⟩
  | call => cases he
  | created => cases he
  | refused => cases he

/-- A call that is put changes nothing of what is in hand. -/
theorem Act.sent (h : Act p x sig q y) (hs : sig = some s)
    (he : s.ends? = some (id, action, false)) : x = [] ∧ y = [] := by
  subst hs
  cases h with
  | aside => exact ⟨rfl, rfl⟩
  | _ => cases he

/-- Somebody begins to terminate a sandbox only if nobody has done so, and without a signal. -/
theorem Act.begins (hd : p.Distinct) (h : Act p x sig q y)
    (hm : .ending id port .stop ∈ y) : sig = none ∧ ¬ p.Doomed id := by
  cases h with
  | @claim r before hb hr hl hc =>
    simp only [List.mem_singleton, Hand.ending.injEq] at hm
    obtain ⟨rfl, rfl, -⟩ := hm
    refine ⟨rfl, ?_⟩
    rintro ⟨r', hr', hid, hend | hclaim⟩
    · obtain rfl := hd.eq_of_id hr hr' hid
      rw [hl] at hend
      cases hend
    · exact hc hclaim
  | enter l hl => rcases (hl _ hm).cases with ⟨id', he⟩ | ⟨he, -⟩ <;> cases he
  | reserve n => cases List.eq_of_mem_replicate hm
  | _ => simp at hm

end Acts

/-! ## One termination of a sandbox -/

/-- Two things of a list that a map without duplicates takes to the same are the same. -/
theorem eq_of_nodup_filterMap {α β : Type} {f : α → Option β} {l : List α}
    (h : (l.filterMap f).Nodup) {a b : α} (ha : a ∈ l) (hb : b ∈ l) {x : β} (hfa : f a = some x)
    (hfb : f b = some x) : a = b := by
  induction l with
  | nil => cases ha
  | cons c rest ih =>
    have hrest : (rest.filterMap f).Nodup :=
      h.sublist ((List.sublist_cons_self c rest).filterMap f)
    have hno : ∀ d ∈ rest, f c = some x → f d ≠ some x := by
      intro d hd hc hfd
      rw [List.filterMap_cons_some hc] at h
      exact (List.nodup_cons.1 h).1 (List.mem_filterMap.2 ⟨d, hd, hfd⟩)
    rcases List.mem_cons.1 ha with rfl | ha'
    · rcases List.mem_cons.1 hb with rfl | hb'
      · rfl
      · exact absurd hfb (hno b hb' hfa)
    · rcases List.mem_cons.1 hb with rfl | hb'
      · exact absurd hfa (hno a ha' hfb)
      · exact ih hrest ha' hb'

namespace Machine

variable {m m' : Machine} {move : Move} {notes : List Note} {ids : List String} {ledger : Ledger}

/-- The sandbox that somebody terminates. -/
def ender? (t : Key × Hand) : Option String := t.2.ending?.map (·.1)

theorem enders_nodup (hb : Books config ids ledger m.pool m.things) :
    (m.hands.filterMap ender?).Nodup := by
  have heq : m.hands.filterMap ender? = (m.things.filterMap Hand.ending?).map (·.1) := by
    rw [things, List.filterMap_map, List.map_filterMap]
    rfl
  rw [heq]
  exact hb.claimed.nodup

/-- Only one termination of a sandbox is under way. -/
theorem ending_unique (hb : Books config ids ledger m.pool m.things) {k k' : Key}
    {port port' : UInt16} {stage stage' : Stage} (h : (k, .ending id port stage) ∈ m.hands)
    (h' : (k', .ending id port' stage') ∈ m.hands) : k = k' ∧ port = port' ∧ stage = stage' := by
  have heq := eq_of_nodup_filterMap (enders_nodup hb) h h' (x := id) rfl rfl
  simp only [Prod.mk.injEq, Hand.ending.injEq, true_and] at heq
  exact heq

end Machine

end SandboxPool
