import SandboxPool.Proofs.Machine.Calls

/-!
# Every sandbox is terminated once

Callers, teardowns, timers, failed starts, failed wakes and failed pauses all may set out to terminate
a sandbox, at the same time. One of them claims it; all others leave it alone. So there is at most one
call to stop its container and behind that one to remove it, and when both have returned, whatever
came of them, the port is given back, one event says that the sandbox is terminated, and it is counted.

* `Tally` says how far that is, by the stage of the one termination that is under way.
* `Machine.terminated_once` is what is left when this one is over, and before.
-/

namespace SandboxPool

variable {config : Config} {id : String} {port : UInt16} {c : Context} {p : Pool} {out : Bool}
  {sig : Option Signal}

/-! ## How far a termination has come -/

/-- What the calls, the events and the ports tell of all sandboxes. -/
structure Tally (h : History) (m : Machine) : Prop where
  spared : ∀ id, ¬ m.pool.Doomed id → h.At id []
  under : ∀ k id port stage, (k, .ending id port stage) ∈ m.hands →
    h.At id (stage.calls (m.awaits k))
  settled : ∀ r ∈ m.pool.records, r.live = false → h.calls r.id = Termination.calls ∧
    h.settled r.id = [r.port] ∧ ∃ source, source ≠ .terminated ∧ h.endings r.id = [source]

namespace Tally

open Machine

variable {m m' : Machine} {move : Move} {notes : List Note} {ids ids' : List String}
  {ledger ledger' : Ledger} {h : History}

theorem doomed_of_ending (hb : Books config ids ledger m.pool m.things) {k : Key} {stage : Stage}
    (he : (k, .ending id port stage) ∈ m.hands) : m.pool.Doomed id := by
  have hmem : Hand.ending id port stage ∈ m.things := List.mem_map_of_mem he
  obtain ⟨r, hr, rfl, -, -⟩ := hb.claimed.record _ (Claimed.mem_ending hmem)
  exact ⟨r, hr, rfl, .inr (hb.claimed.claim _ (Claimed.mem_ending hmem))⟩

/-- Whoever has just claimed a sandbox does not wait for a reply. -/
theorem not_awaits (ho' : m'.Ordered) {l : Leaf} {sig : Option Signal} {r : Option Unit}
    (ht : m.Takes move m' notes l sig r) (hs : m.signal? move = none)
    (he : (m.mover move, .ending id port .stop) ∈ m'.hands) :
    m'.awaits (m.mover move) = false := by
  obtain ⟨⟨e, hturn, -⟩, hheard, hawaits, hstays, -⟩ := ht
  cases r with
  | some u => exact hawaits
  | none =>
    -- it would have called for the end of the container, which would have been seen
    obtain rfl := Option.some.inj ((hstays rfl).symm.trans ((ending_iff ho').1 he))
    rcases Demand.turn_act hturn with ⟨-, rfl, -⟩ | ⟨reply, -, -, hresult⟩
    · rw [← hheard] at hs
      cases hs
    · simp at hresult

/-- A termination that is under way behind a move that spares the sandbox. -/
theorem under_spares (ho : m.Ordered) (hb : Books config ids ledger m.pool m.things)
    (hb' : Books config ids' ledger' m'.pool m'.things) (ht : Tally h m)
    (hn : m.next move = some (m', notes)) (hs : History.Spares m move notes id) {k : Key}
    {stage : Stage} (he : (k, .ending id port stage) ∈ m'.hands) :
    (h ++ [(m, move)]).At id (stage.calls (m'.awaits k)) := by
  obtain ⟨x, y, rest, q, hbefore, hafter, hact, -, hx, hy⟩ := next_hands ho hn
  rcases List.mem_append.1 (hafter.mem_iff.1 he) with hmem | hmem
  · obtain rfl : k = m.mover move := by
      rcases hy _ hmem with hkey | hres
      · exact hkey
      · cases hres
    have hthing : Hand.ending id port stage ∈ y.map (·.2) := List.mem_map_of_mem hmem
    have hsignal : ∀ {s : Signal} {action : Action}, m.signal? move = some s →
        s.ends? ≠ some (id, action, true) := by
      intro s action hsig hends
      have hnone := hs.signal
      rw [hsig] at hnone
      simp [Signal.ending?, hends] at hnone
    rcases hact.ending_or hthing with rfl | ⟨s, hsig, hstop, -⟩ | ⟨s, hsig, hremove, -⟩
    · obtain ⟨hnone, hfree⟩ := hact.begins hb.named.distinct hthing
      have hawaits : m'.awaits (m.mover move) = false := by
        rcases next_leaf ho hn with hstill | ⟨l, sig, r, htakes⟩
        · have hdoomed := doomed_of_ending hb' he
          rw [hstill.pool] at hdoomed
          exact absurd hdoomed hfree
        · exact not_awaits (next_posts ho hn).1 htakes hnone he
      rw [hawaits]
      exact hs.at_next hn (ht.spared id hfree)
    · exact absurd (Signal.ends?_of_stopped? hstop) (hsignal hsig)
    · obtain ⟨force, hends⟩ := Signal.ends?_of_removed? hremove
      exact absurd hends (hsignal hsig)
  · have hold : (k, .ending id port stage) ∈ m.hands :=
      hbefore.mem_iff.2 (List.mem_append_right _ hmem)
    have hk : m.mover move ≠ k := by
      rintro rfl
      exact not_spares ho hn hold hs
    obtain ⟨z, hz, -⟩ := mem_hands.1 hold
    rw [awaits_next ho hn hz hk]
    exact hs.at_next hn (ht.under k id port stage hold)

/-- What a turn of a termination that calls for the end of the container adds. -/
theorem at_called {calls : List (Action × Bool)} (ha : h.At id calls)
    (hn : m.next move = some (m', notes)) {s : Signal} (hs : m.signal? move = some s)
    {x : Action × Bool} (he : s.ends? = some (id, x))
    (hleaf : (m.leaf? (m.mover move)).bind (·.settles? id) = none)
    (hev : notes.filterMap (·.event?) = []) : (h ++ [(m, move)]).At id (calls ++ [x]) := by
  refine ⟨?_, ?_, ?_⟩
  · rw [History.calls_append, ha.calls, hs]
    simp [Signal.ending?, he]
  · rw [History.settled_append, hleaf, ha.settled]
    rfl
  · rw [History.endings_append hn, ha.endings, hev]
    rfl

/-- A termination that has called for the end of the container, or has got the reply. -/
theorem under_called (ho : m.Ordered) (hb : Books config ids ledger m.pool m.things)
    (ht : Tally h m) (hn : m.next move = some (m', notes)) {port₀ : UInt16} {stage₀ : Stage}
    (he₀ : (m.mover move, .ending id port₀ stage₀) ∈ m.hands) {s : Signal} {action : Action}
    {returned : Bool} (hs : m.signal? move = some s) (hends : s.ends? = some (id, action, returned))
    (hout : m.awaits (m.mover move) = returned) (hout' : m'.awaits (m.mover move) = !returned)
    (hleaf : (m.leaf? (m.mover move)).bind (·.settles? id) = none)
    (hev : notes.filterMap (·.event?) = [])
    (hcalls : returned = false → stage₀.calls true = stage₀.calls false ++ [(action, false)])
    {k : Key} {stage : Stage} (he : (k, .ending id port stage) ∈ m'.hands) :
    (h ++ [(m, move)]).At id (stage.calls (m'.awaits k)) := by
  have hat := at_called (ht.under _ id port₀ stage₀ he₀) hn hs hends hleaf hev
  rw [hout] at hat
  obtain ⟨x, y, rest, q, hbefore, hafter, hact, -, hx, hy⟩ := next_hands ho hn
  cases returned with
  | false =>
    -- nothing changes hands
    obtain ⟨hxnil, hynil⟩ := hact.sent hs hends
    rw [List.map_eq_nil_iff] at hxnil hynil
    subst hxnil hynil
    have hsame : (k, .ending id port stage) ∈ m.hands := hbefore.mem_iff.2 (hafter.mem_iff.1 he)
    obtain ⟨rfl, -, rfl⟩ := ending_unique hb hsame he₀
    rw [hout', Bool.not_false, hcalls rfl]
    exact hat
  | true =>
    obtain ⟨port₁, stage₁, stage', hxeq, hyeq, hnext⟩ := hact.returned hs hends
    have hone : Hand.ending id port₁ stage₁ ∈ x.map (·.2) := by
      rw [hxeq]
      exact List.mem_singleton_self _
    obtain ⟨⟨k₁, t₁⟩, hmem₁, rfl⟩ := List.mem_map.1 hone
    obtain ⟨-, -, rfl⟩ :=
      ending_unique hb (hbefore.mem_iff.2 (List.mem_append_left _ hmem₁)) he₀
    rcases List.mem_append.1 (hafter.mem_iff.1 he) with hmem | hmem
    · obtain rfl : k = m.mover move := by
        rcases hy _ hmem with hkey | hres
        · exact hkey
        · cases hres
      have hthing : Hand.ending id port stage ∈ y.map (·.2) := List.mem_map_of_mem hmem
      rw [hyeq, List.mem_singleton, Hand.ending.injEq] at hthing
      obtain ⟨-, -, rfl⟩ := hthing
      rw [hout', Bool.not_true, hnext]
      exact hat
    · -- another one that terminates the sandbox cannot be there
      have hnodup := (hbefore.filterMap ender?).nodup_iff.1 (enders_nodup hb)
      rw [List.filterMap_append, List.nodup_append] at hnodup
      exact absurd rfl (hnodup.2.2 id (List.mem_filterMap.2 ⟨_, hmem₁, rfl⟩) id
        (List.mem_filterMap.2 ⟨_, hmem, rfl⟩))

/-- The last turn of a termination. -/
theorem settles (ho : m.Ordered) (hb : Books config ids ledger m.pool m.things)
    (hn : m.next move = some (m', notes))
    (he : (m.mover move, .ending id port .settle) ∈ m.hands) :
    ∃ r, m.pool.find? id = some r ∧ r.live = true ∧ r.port = port ∧
      m'.pool = (Termination.settle id port m.pool).pool ∧ m.signal? move = none ∧
      notes.filterMap (·.event?) = [.transition id r.state .terminated none] := by
  obtain ⟨sig, r, ⟨e, hturn, hev⟩, hheard, -⟩ := takes_of_ending ho hn he
  have hmem : Hand.ending id port .settle ∈ m.things := List.mem_map_of_mem he
  obtain ⟨record, hrec, rfl, hlive, rfl⟩ := hb.claimed.record _ (Claimed.mem_ending hmem)
  have hf := hb.named.distinct.find?_of_mem hrec
  obtain ⟨-, rfl, hscope⟩ := Demand.turn_scope hturn
  have heffects : e = (Termination.settle record.id record.port m.pool).effects :=
    congrArg Scope.effects hscope
  refine ⟨record, hf, hlive, rfl, congrArg Scope.pool hscope, hheard.symm, ?_⟩
  rw [hev, heffects, Termination.settle_eq hf]
  rfl

/-- A termination that is under way behind a turn of it. -/
theorem under_ender (ho : m.Ordered) (hb : Books config ids ledger m.pool m.things)
    (hb' : Books config ids' ledger' m'.pool m'.things) (ht : Tally h m)
    (hn : m.next move = some (m', notes)) {port₀ : UInt16} {stage₀ : Stage}
    (he₀ : (m.mover move, .ending id port₀ stage₀) ∈ m.hands) {k : Key} {stage : Stage}
    (he : (k, .ending id port stage) ∈ m'.hands) :
    (h ++ [(m, move)]).At id (stage.calls (m'.awaits k)) := by
  obtain ⟨sig, r, ⟨e, hturn, hev⟩, hheard, hawaits, -, -⟩ := takes_of_ending ho hn he₀
  have hleaf := (ending_iff ho).1 he₀
  cases stage₀ with
  | stop =>
    have hnot : (m.leaf? (m.mover move)).bind (·.settles? id) = none := by
      rw [hleaf]
      rfl
    rcases Demand.turn_act hturn with ⟨hout, rfl, hscope⟩ | ⟨reply, hout, rfl, hscope⟩
    all_goals
      simp only [Scope.mk.injEq] at hscope
      obtain ⟨-, rfl, rfl⟩ := hscope
    · exact under_called ho hb ht hn he₀ hheard.symm rfl hout hawaits hnot hev (fun _ => rfl) he
    · exact under_called ho hb ht hn he₀ hheard.symm rfl hout hawaits hnot hev (by simp) he
  | remove =>
    have hnot : (m.leaf? (m.mover move)).bind (·.settles? id) = none := by
      rw [hleaf]
      rfl
    rcases Demand.turn_act hturn with ⟨hout, rfl, hscope⟩ | ⟨reply, hout, rfl, hscope⟩
    all_goals
      simp only [Scope.mk.injEq] at hscope
      obtain ⟨-, rfl, rfl⟩ := hscope
    · exact under_called ho hb ht hn he₀ hheard.symm rfl hout hawaits hnot hev (fun _ => rfl) he
    · exact under_called ho hb ht hn he₀ hheard.symm rfl hout hawaits hnot hev (by simp) he
  | settle =>
    -- the sandbox is terminated, so that nobody terminates it any more
    obtain ⟨r, hf, -, -, hpool, -, -⟩ := settles ho hb hn he₀
    have hmem : Hand.ending id port stage ∈ m'.things := List.mem_map_of_mem he
    obtain ⟨r', hr', hid, hlive, -⟩ := hb'.claimed.record _ (Claimed.mem_ending hmem)
    obtain ⟨ended, hended, hide, -, hend⟩ := Termination.ends_settle hf port₀
    rw [← hpool] at hended
    obtain rfl := hb'.named.distinct.eq_of_id hr' hended (hide.trans hid.symm)
    rw [hlive] at hend
    cases hend

/-- A sandbox that is terminated behind a move. -/
theorem over_next (ho : m.Ordered) (hb : Books config ids ledger m.pool m.things) (ht : Tally h m)
    (hn : m.next move = some (m', notes)) {r : Record} (hr : r ∈ m'.pool.records)
    (hend : r.live = false) : (h ++ [(m, move)]).calls r.id = Termination.calls ∧
      (h ++ [(m, move)]).settled r.id = [r.port] ∧
      ∃ source, source ≠ .terminated ∧ (h ++ [(m, move)]).endings r.id = [source] := by
  obtain ⟨x, y, rest, q, hbefore, -, hact, hq, hx, -⟩ := next_hands ho hn
  have hthings : m.things.Perm (x.map (·.2) ++ rest.map (·.2)) := by
    rw [← List.map_append]
    exact hbefore.map _
  have hrq : r ∈ q.records := hq.records ▸ hr
  obtain ⟨r₀, hr₀, hid, hport, hold⟩ := (hb.named.perm hthings).ended hact hrq hend
  rw [← hid, ← hport]
  rcases hold with hdead | ⟨port, giver, hxeq⟩
  · -- nobody terminates it any more
    have hs : History.Spares m move notes r₀.id := by
      rcases spares_or ho hn r₀.id with hs | ⟨port, stage, he⟩
      · exact hs
      · have hmem : Hand.ending r₀.id port stage ∈ m.things := List.mem_map_of_mem he
        obtain ⟨r₁, hr₁, hid₁, hlive, -⟩ := hb.claimed.record _ (Claimed.mem_ending hmem)
        obtain rfl := hb.named.distinct.eq_of_id hr₀ hr₁ hid₁
        rw [hdead] at hlive
        cases hlive
    obtain ⟨hcalls, hsettled, source, hsource, hendings⟩ := ht.settled r₀ hr₀ hdead
    exact ⟨hs.calls_eq.trans hcalls, hs.settled_eq.trans hsettled, source, hsource,
      (hs.endings_eq hn).trans hendings⟩
  · have hone : Hand.ending r₀.id port .settle ∈ x.map (·.2) := by
      rw [hxeq]
      exact List.mem_cons_self ..
    obtain ⟨⟨k, t⟩, hmem, rfl⟩ := List.mem_map.1 hone
    obtain rfl : k = m.mover move := hx _ hmem
    have he : (m.mover move, .ending r₀.id port .settle) ∈ m.hands :=
      hbefore.mem_iff.2 (List.mem_append_left _ hmem)
    obtain ⟨r₁, hf, hlive, rfl, -, hsignal, hev⟩ := settles ho hb hn he
    obtain rfl : r₁ = r₀ := Option.some.inj (hf.symm.trans (hb.named.distinct.find?_of_mem hr₀))
    obtain ⟨hcalls, hsettled, hendings⟩ := ht.under _ _ _ _ he
    refine ⟨?_, ?_, r₁.state, ?_, ?_⟩
    · rw [History.calls_append, hsignal, hcalls]
      rfl
    · rw [History.settled_append, (ending_iff ho).1 he, hsettled]
      simp [Stage.point, Leaf.settles?]
    · rintro hstate
      unfold Record.live at hlive
      rw [hstate] at hlive
      cases hlive
    · rw [History.endings_append hn, hev, hendings]
      simp [Event.ending?, Event.ends?]

end Tally

namespace Machine

variable {seed : BitVec 128} {pool : Pool} {now : Instant} {h : History} {m m' : Machine}
  {move : Move} {notes : List Note}

theorem Reaches.tally (hp : Pool.create config seed = .ok pool)
    (hr : (ofPool pool now).Reaches h m) (hf : h.Fresh) : Tally h m := by
  induction hr with
  | start =>
    obtain ⟨-, rfl⟩ := create_eq_ok_iff.1 hp
    exact ⟨fun id _ => ⟨rfl, rfl, rfl⟩, (fun k id port stage he => by cases he),
      fun r hr => by cases hr⟩
  | @next h m m' move notes hr hn ih =>
    have hfresh := History.fresh_of_append hf
    have ho := hr.ordered_ofPool
    have hb := hr.books hp hfresh
    have hb' := (hr.next hn).books hp hf
    have ht := ih hfresh
    refine ⟨fun id hfree => ?_, fun k id port stage he => ?_, fun r hr => ht.over_next ho hb hn hr⟩
    · have hfree₀ : ¬ m.pool.Doomed id := fun hd => hfree (hr.doomed_next hp hfresh hn hd)
      rcases spares_or ho hn id with hs | ⟨port, stage, he⟩
      · exact hs.at_next hn (ht.spared id hfree₀)
      · exact absurd (Tally.doomed_of_ending hb he) hfree₀
    · rcases spares_or ho hn id with hs | ⟨port₀, stage₀, he₀⟩
      · exact ht.under_spares ho hb hb' hn hs he
      · exact ht.under_ender ho hb hb' hn he₀ he

end Machine

/-! ## Terminated sandboxes are counted -/

/-- The sandboxes that are terminated. -/
def Pool.deadIds (p : Pool) : List String := (p.records.filter (!·.live)).map (·.id)

theorem Pool.mem_deadIds : id ∈ p.deadIds ↔ ∃ r ∈ p.records, r.live = false ∧ r.id = id := by
  simp [deadIds, and_assoc]

theorem Pool.Distinct.deadIds_nodup (hd : p.Distinct) : p.deadIds.Nodup :=
  hd.sublist (List.filter_sublist.map _)

theorem Pool.length_deadIds (p : Pool) :
    p.deadIds.length = p.records.countP (·.state == .terminated) := by
  rw [deadIds, List.length_map, ← List.countP_eq_length_filter]
  refine List.countP_congr fun r _ => ?_
  simp [Record.live, State.terminal]

/-- What a turn of a termination of a sandbox with a port does to the ports and to the count. -/
def Termination.Point.Books (port : UInt16) (p p' : Pool) : Point → Prop
  | .settle port' => port' = port ∧ p'.ports = p.ports.release port ∧
      p'.stats.terminated = p.stats.terminated + 1
  | _ => p'.ports = p.ports ∧ p'.stats.terminated = p.stats.terminated

/-- A turn of a termination before its last one leaves the ports and the count. -/
theorem Termination.turn_keeps {t : Point} {s : Scope (Option Unit)} (ht : ∀ port, t ≠ .settle port)
    (h : (demand id t).bare.Turn c p out sig s) :
    s.pool.ports = p.ports ∧ s.pool.stats.terminated = p.stats.terminated := by
  cases t with
  | claim =>
    obtain ⟨-, -, rfl⟩ := Demand.turn_scope h
    show (claim id p).pool.ports = _ ∧ (claim id p).pool.stats.terminated = _
    unfold claim
    split
    · exact ⟨rfl, rfl⟩
    · split <;> exact ⟨rfl, rfl⟩
  | expire g =>
    obtain ⟨-, -, rfl⟩ := Demand.turn_scope h
    show (expire id g p).pool.ports = _ ∧ (expire id g p).pool.stats.terminated = _
    unfold expire
    split
    · exact ⟨rfl, rfl⟩
    · split <;> exact ⟨rfl, rfl⟩
  | stop port =>
    rcases Demand.turn_act h with ⟨-, -, rfl⟩ | ⟨reply, -, -, rfl⟩ <;> exact ⟨rfl, rfl⟩
  | remove port =>
    rcases Demand.turn_act h with ⟨-, -, rfl⟩ | ⟨reply, -, -, rfl⟩ <;> exact ⟨rfl, rfl⟩
  | settle port => exact absurd rfl (ht port)

/-- What a turn of a termination does to the ports and to the count. -/
theorem Termination.turn_books {r : Record} (hf : p.find? id = some r) {t : Point}
    {s : Scope (Option Unit)} (hport : ∀ port, t = .settle port → port = r.port)
    (h : (demand id t).bare.Turn c p out sig s) : t.Books r.port p s.pool := by
  cases t with
  | settle port =>
    obtain rfl := hport port rfl
    obtain ⟨-, -, rfl⟩ := Demand.turn_scope h
    show _ ∧ (settle id r.port p).pool.ports = _ ∧ (settle id r.port p).pool.stats.terminated = _
    rw [settle_eq hf]
    exact ⟨rfl, rfl, rfl⟩
  | _ => exact turn_keeps (by simp) h

namespace Machine

variable {seed : BitVec 128} {pool : Pool} {now : Instant} {h : History} {m m' : Machine}
  {move : Move} {notes : List Note} {ids ids' : List String} {ledger ledger' : Ledger}

/-- What is terminated behind a move was so before, or has just been settled. -/
theorem mem_deadIds_next (ho : m.Ordered) (hb : Books config ids ledger m.pool m.things)
    (hn : m.next move = some (m', notes)) : id ∈ m'.pool.deadIds ↔
      id ∈ m.pool.deadIds ∨ ∃ port, (m.mover move, .ending id port .settle) ∈ m.hands := by
  obtain ⟨x, y, rest, q, hbefore, -, hact, hq, hx, -⟩ := next_hands ho hn
  have hthings : m.things.Perm (x.map (·.2) ++ rest.map (·.2)) := by
    rw [← List.map_append]
    exact hbefore.map _
  have hnamed := hb.named.perm hthings
  rw [Pool.mem_deadIds, Pool.mem_deadIds, hq.records]
  constructor
  · rintro ⟨r, hr, hend, rfl⟩
    obtain ⟨r₀, hr₀, hid, -, hdead | ⟨port, giver, hxeq⟩⟩ := hnamed.ended hact hr hend
    · exact .inl ⟨r₀, hr₀, hdead, hid⟩
    · have hone : Hand.ending r₀.id port .settle ∈ x.map (·.2) := by
        rw [hxeq]
        exact List.mem_cons_self ..
      obtain ⟨⟨k, t⟩, hmem, rfl⟩ := List.mem_map.1 hone
      obtain rfl : k = m.mover move := hx _ hmem
      rw [← hid]
      exact .inr ⟨port, hbefore.mem_iff.2 (List.mem_append_left _ hmem)⟩
  · rintro (⟨r, hr, hend, rfl⟩ | ⟨port, he⟩)
    · obtain ⟨r', hr', hid, -, hsame | ⟨hdead, -⟩⟩ := hnamed.successor hact hr
      · exact ⟨r', hr', hsame.trans hend, hid⟩
      · exact ⟨r', hr', hdead, hid⟩
    · obtain ⟨r, hf, -, -, hpool, -⟩ := Tally.settles ho hb hn he
      obtain ⟨ended, hmem, hid, -, hend⟩ := Termination.ends_settle hf port
      rw [← hpool, hq.records] at hmem
      exact ⟨ended, hmem, hend, hid⟩

/-- What a move of a termination does to the ports and to the count. -/
theorem books_next (ho : m.Ordered) (hb : Books config ids ledger m.pool m.things)
    (hn : m.next move = some (m', notes)) {r : Record} (hr : r ∈ m.pool.records)
    {t : Termination.Point} (hl : m.leaf? (m.mover move) = some (.termination r.id t)) :
    t.Books r.port m.pool m'.pool := by
  rcases next_leaf ho hn with hs | ⟨l, sig, result, htakes⟩
  · rw [hs.leaf] at hl
    cases hl
  · obtain ⟨⟨e, hturn, -⟩, -, -, -, -, hleaf | ⟨hnone, -⟩⟩ := htakes
    · obtain rfl := Option.some.inj (hleaf.symm.trans hl)
      refine Termination.turn_books (hb.named.distinct.find?_of_mem hr) ?_ hturn
      rintro port rfl
      have he : (m.mover move, .ending r.id port .settle) ∈ m.hands := (ending_iff ho).2 hl
      have hmem : Hand.ending r.id port .settle ∈ m.things := List.mem_map_of_mem he
      obtain ⟨r', hr', hid, -, hport⟩ := hb.claimed.record _ (Claimed.mem_ending hmem)
      obtain rfl := hb.named.distinct.eq_of_id hr hr' hid
      exact hport.symm
    · rw [hnone] at hl
      cases hl

/-- A move that settles no sandbox leaves the count. -/
theorem terminated_next (ho : m.Ordered) (hn : m.next move = some (m', notes))
    (hno : ∀ id port, (m.mover move, .ending id port .settle) ∉ m.hands) :
    m'.pool.stats.terminated = m.pool.stats.terminated := by
  rcases next_leaf ho hn with hs | ⟨l, sig, r, ⟨e, hturn, -⟩, -, -, -, ⟨x, hx⟩, hleaf⟩
  · rw [hs.pool]
  · by_cases hterm : ∃ id t, l = .termination id t
    · obtain ⟨id, t, rfl⟩ := hterm
      refine (Termination.turn_keeps (fun port ht => ?_) hturn).2
      subst ht
      rcases hleaf with hleaf | ⟨-, id', g, he⟩
      · exact hno id port ((ending_iff ho).2 hleaf)
      · cases he
    · exact (Leaf.mild (Leaf.innermost_of_leaf? hx) (fun id t he => hterm ⟨id, t, he⟩)
        hturn).terminated

theorem Reaches.counted (hp : Pool.create config seed = .ok pool)
    (hr : (ofPool pool now).Reaches h m) (hf : h.Fresh) :
    m.pool.stats.terminated = m.pool.deadIds.length := by
  induction hr with
  | start =>
    obtain ⟨-, rfl⟩ := create_eq_ok_iff.1 hp
    rfl
  | @next h m m' move notes hr hn ih =>
    have hfresh := History.fresh_of_append hf
    have ho := hr.ordered_ofPool
    have hb := hr.books hp hfresh
    have hnodup := hb.named.distinct.deadIds_nodup
    have hnodup' := ((hr.next hn).books hp hf).named.distinct.deadIds_nodup
    by_cases hsettle : ∃ id port, (m.mover move, .ending id port .settle) ∈ m.hands
    · obtain ⟨id, port, he⟩ := hsettle
      obtain ⟨r, hfind, hlive, rfl, hpool, -⟩ := Tally.settles ho hb hn he
      have hnew : id ∉ m.pool.deadIds := by
        intro hdead
        obtain ⟨r', hr', hend, rfl⟩ := Pool.mem_deadIds.1 hdead
        rw [hb.named.distinct.find?_of_mem hr'] at hfind
        cases hfind
        rw [hend] at hlive
        cases hlive
      have hperm : m'.pool.deadIds.Perm (id :: m.pool.deadIds) := by
        refine (List.perm_ext_iff_of_nodup hnodup' (List.nodup_cons.2 ⟨hnew, hnodup⟩)).2 fun id' => ?_
        rw [mem_deadIds_next ho hb hn, List.mem_cons]
        constructor
        · rintro (hold | ⟨port', he'⟩)
          · exact .inr hold
          · have hsame := ((ending_iff ho).1 he').symm.trans ((ending_iff ho).1 he)
            simp only [Option.some.injEq, Leaf.termination.injEq] at hsame
            exact .inl hsame.1
        · rintro (rfl | hold)
          · exact .inr ⟨_, he⟩
          · exact .inl hold
      rw [hperm.length_eq, List.length_cons, ← ih hfresh, hpool, Termination.settle_eq hfind]
      rfl
    · have hno : ∀ id port, (m.mover move, .ending id port .settle) ∉ m.hands :=
        fun id port he => hsettle ⟨id, port, he⟩
      have hperm : m'.pool.deadIds.Perm m.pool.deadIds := by
        refine (List.perm_ext_iff_of_nodup hnodup' hnodup).2 fun id => ?_
        rw [mem_deadIds_next ho hb hn]
        exact ⟨fun hor => hor.elim (fun hold => hold) fun ⟨port, he⟩ => absurd he (hno id port), .inl⟩
      rw [hperm.length_eq, terminated_next ho hn hno, ih hfresh]

end Machine

/-! ## Exactly once -/

/-- What has been done, and will be done next, to end a sandbox with a record. -/
structure TerminatedOnce (h : History) (m : Machine) (r : Record) : Prop where
  /-- There is one call to stop the container and then one to remove it, or not yet. -/
  calls : h.calls r.id <+: Termination.calls
  /-- As long as the sandbox is live, its port is not given back, and no event ends it. -/
  live : r.live = true → h.settled r.id = [] ∧ h.endings r.id = []
  /-- A terminated sandbox had both calls, gave back its port once, and had one event, which took it
  from a state that was not the last. -/
  ended : r.live = false → h.calls r.id = Termination.calls ∧ h.settled r.id = [r.port] ∧
    ∃ source, source ≠ .terminated ∧ h.endings r.id = [source]
  /-- Only the last move of the termination gives back the port and counts the sandbox. -/
  moves : ∀ move m' notes t, m.leaf? (m.mover move) = some (.termination r.id t) →
    m.next move = some (m', notes) → t.Books r.port m.pool m'.pool

namespace Machine

/-- **Every sandbox is terminated once.** In every interleaving of operations on a new pool, whoever
sets out to terminate a sandbox, and whatever the daemon answers as long as it gives out no identity
twice: at most one call to stop its container and one to remove it are put, in this order; its port is
given back once; one event takes it to its end; and it is counted once. -/
theorem terminated_once {config : Config} {seed : BitVec 128} {pool : Pool} {now : Instant}
    {h : History} {m : Machine} (hp : Pool.create config seed = .ok pool)
    (hr : (ofPool pool now).Reaches h m) (hf : h.Fresh) :
    m.pool.stats.terminated = m.pool.records.countP (·.state == .terminated) ∧
      ∀ r ∈ m.pool.records, TerminatedOnce h m r := by
  refine ⟨(hr.counted hp hf).trans m.pool.length_deadIds, fun r hrec => ?_⟩
  have ho := hr.ordered_ofPool
  have hb := hr.books hp hf
  have ht := hr.tally hp hf
  have hunder : r.live = true → ∃ calls, calls <+: Termination.calls ∧ h.At r.id calls := by
    intro hlive
    by_cases hd : m.pool.Doomed r.id
    · obtain ⟨r', hr', hid, hend | hclaim⟩ := hd
      · obtain rfl := hb.named.distinct.eq_of_id hrec hr' hid
        rw [hend] at hlive
        cases hlive
      · obtain ⟨⟨k, t⟩, hmem, port, stage, rfl⟩ := exists_ending hb hclaim
        refine ⟨_, ?_, ht.under k r.id port stage hmem⟩
        cases stage with
        | stop => exact List.take_prefix _ _
        | remove => exact List.take_prefix _ _
        | settle => exact List.prefix_refl _
    · exact ⟨[], List.nil_prefix, ht.spared r.id hd⟩
  refine ⟨?_, fun hlive => ?_, ht.settled r hrec,
    fun move m' notes t hl hn => books_next ho hb hn hrec hl⟩
  · cases hlive : r.live with
    | true =>
      obtain ⟨calls, hprefix, hat⟩ := hunder hlive
      rw [hat.calls]
      exact hprefix
    | false =>
      obtain ⟨hcalls, -⟩ := ht.settled r hrec hlive
      exact hcalls ▸ List.prefix_refl _
  · obtain ⟨calls, -, hat⟩ := hunder hlive
    exact ⟨hat.settled, hat.endings⟩

/-- A caller and a teardown terminate a sandbox at the same time, and its container can be neither
stopped nor removed. It is terminated once. -/
theorem terminated_once_by_two :
    let config : Config := { image := "img", maxSandboxes := 2 }
    ∃ pool h m r, Pool.create config 0 = .ok pool ∧ (ofPool pool 0).Reaches h m ∧ h.Fresh ∧
      r ∈ m.pool.records ∧ r.id = "c1" ∧ r.live = false ∧ m.quiet = true ∧
      m.pool.stats.terminated = m.pool.records.countP (·.state == .terminated) ∧
      TerminatedOnce h m r := by
  intro config
  let moves : List Move := [.order (.acquire "a"), .step 0 0, .step 0 0, .step 0 0,
    .reply 0 0 (.created (.ok "c1")), .step 0 0, .step 0 0, .reply 0 0 (.acted (.ok ())), .step 0 0,
    .reply 0 0 (.acted (.ok ())), .step 0 0,
    .order (.terminate "c1"), .order .teardown, .step 2 0, .step 1 0, .step 2 1, .step 2 0,
    .step 1 0, .reply 1 0 (.acted (.error (.api 500 "no"))), .step 1 0,
    .reply 1 0 (.acted (.error (.api 500 "no"))), .step 1 0]
  have hp : Pool.create config 0 = .ok (.ofConfig config 0) :=
    create_eq_ok_iff.2 ⟨by decide +kernel, rfl⟩
  have hrun : ((ofPool (.ofConfig config 0) 0).trace moves).any (fun x =>
      x.1.Fresh ∧ x.2.quiet = true ∧
        (x.2.pool.find? "c1").any (fun r => !r.live) = true) = true := by decide +kernel
  obtain ⟨x, ht, hx⟩ := (Option.any_eq_true _ _).1 hrun
  obtain ⟨hf, hquiet, hfound⟩ := of_decide_eq_true hx
  obtain ⟨r, hfind, hlive⟩ := (Option.any_eq_true _ _).1 hfound
  obtain ⟨hmem, hid⟩ := Pool.mem_of_find? hfind
  have hr := reaches_of_trace ht
  obtain ⟨hcount, honce⟩ := terminated_once hp hr hf
  exact ⟨_, x.1, x.2, r, hp, hr, hf, hmem, hid, by simpa using hlive, hquiet, hcount, honce r hmem⟩

end Machine

end SandboxPool
