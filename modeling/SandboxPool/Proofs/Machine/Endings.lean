import SandboxPool.Proofs.Machine.Books
import SandboxPool.Proofs.Pool.Wakes

/-!
# Terminations in a history

What has happened to a sandbox by the time that its termination has come to a point: the calls to
stop and to remove its container have returned, and its port was given back.

* `History.CleanedUp` says that all of this has happened.
* `Machine.Reaches.cleanedUp_iff`: of a sandbox that is doomed it has happened as soon as nobody
  terminates it any more, and not before.
-/

namespace SandboxPool

/-! ## Terminations at their points -/

namespace Termination

variable {id : String} {r : Record} {c : Context} {p : Pool} {out : Bool} {sig : Option Signal}

/-- Who has nothing to terminate any more leaves it to somebody else, or it is done. -/
theorem doomed_claim (hf : p.find? id = some r) {result : Result}
    (hr : (claim id p).result = .done result) : (claim id p).pool.Doomed id := by
  obtain ⟨hm, rfl⟩ := Pool.mem_of_find? hf
  simp only [claim, hf] at hr ⊢
  split at hr
  · next hno =>
    rw [if_pos hno]
    simp only [Bool.or_eq_true, Bool.not_eq_true', beq_iff_eq] at hno
    exact ⟨r, hm, rfl, hno⟩
  · cases hr

/-- A termination that settles ends the record that it finds. -/
theorem settle_eq (hf : p.find? id = some r) (port : UInt16) : settle id port p =
    ⟨(({ p with ports := p.ports.release port }.dropClaim id).put { r with
        state := .terminated, block := none, binders := 0, dormantSince := none,
        busy := false }).count fun s => { s with terminated := s.terminated + 1 },
      [.emit (.transition r.id r.state .terminated none)], .done (.ok ())⟩ := by
  have hadmits : r.state.admits .terminated = true := by cases r.state <;> rfl
  have hfind : (({ p with ports := p.ports.release port } : Pool).dropClaim id).find? id
      = some r := hf
  simp only [settle, hfind, Record.move_of_admits (r := { r with
    block := none, binders := 0, dormantSince := none, busy := false }) hadmits]
  rfl

/-- A termination that settles has terminated the sandbox. -/
theorem ends_settle (hf : p.find? id = some r) (port : UInt16) :
    ∃ ended ∈ (settle id port p).pool.records,
      ended.id = id ∧ ended.port = r.port ∧ ended.live = false := by
  have hfind : (({ p with ports := p.ports.release port } : Pool).dropClaim id).find? id
      = some r := hf
  obtain ⟨hr, hid⟩ := Pool.mem_of_find? hfind
  rw [settle_eq hf]
  exact ⟨_, Pool.mem_put_self hr rfl, hid, rfl, rfl⟩

theorem doomed_settle (hf : p.find? id = some r) (port : UInt16) :
    (settle id port p).pool.Doomed id := by
  obtain ⟨ended, hmem, hid, -, hend⟩ := ends_settle hf port
  exact ⟨ended, hmem, hid, .inl hend⟩

/-- A termination that was asked for goes on, or it has ended and the sandbox is doomed. -/
theorem goes_or {t : Point} {s : Scope (Option (Next Point Result))} (hf : p.find? id = some r)
    (ht : ∀ g, t ≠ .expire g) (h : (demand id t).Turn c p out sig s) :
    (∃ t', (Strand.land t s.result).point? = some t' ∧ ∀ g, t' ≠ .expire g) ∨
      (Strand.land t s.result).point? = none ∧ s.pool.Doomed id := by
  cases t with
  | expire g => exact absurd rfl (ht g)
  | stop port =>
    rcases Demand.turn_act h with ⟨-, -, rfl⟩ | ⟨reply, -, -, rfl⟩
    · exact .inl ⟨.stop port, rfl, by simp⟩
    · exact .inl ⟨.remove port, rfl, by simp⟩
  | remove port =>
    rcases Demand.turn_act h with ⟨-, -, rfl⟩ | ⟨reply, -, -, rfl⟩
    · exact .inl ⟨.remove port, rfl, by simp⟩
    · exact .inl ⟨.settle port, rfl, by simp⟩
  | claim =>
    obtain ⟨-, -, rfl⟩ := Demand.turn_scope h
    cases hr : (claim id p).result with
    | goto t' =>
      have hstop : ∃ port, t' = .stop port := by
        simp only [claim, hf] at hr
        split at hr
        · cases hr
        · cases hr
          exact ⟨_, rfl⟩
      obtain ⟨port, rfl⟩ := hstop
      refine .inl ⟨.stop port, ?_, by simp⟩
      simp only [Scope.map, hr]
      rfl
    | done result =>
      refine .inr ⟨?_, doomed_claim hf hr⟩
      simp only [Scope.map, hr]
      rfl
    | panic message =>
      refine absurd ?_ (steady id h message)
      simp only [Scope.map, hr]
  | settle port =>
    obtain ⟨-, -, rfl⟩ := Demand.turn_scope h
    refine .inr ⟨?_, doomed_settle hf port⟩
    cases hr : (settle id port p).result with
    | goto t' =>
      have hno : (settle id port p).result ≠ .goto t' := by
        unfold settle
        simp only
        split
        · simp
        · split <;> simp
      exact absurd hr hno
    | done result =>
      simp only [Scope.map, hr]
      rfl
    | panic message =>
      simp only [Scope.map, hr]
      rfl

end Termination

/-! ## What has happened -/

namespace History

variable {h : History} {m m' : Machine} {move : Move} {id : String}

/-- A call to stop the container of a sandbox has returned. -/
def Stopped (h : History) (id : String) : Prop := ∃ s ∈ h.signals, s.stopped? = some id

/-- A call to remove the container of a sandbox has returned. -/
def Removed (h : History) (id : String) : Prop := ∃ s ∈ h.signals, s.removed? = some id

/-- The port of a sandbox was free at some time when the sandbox had its record. -/
def Freed (h : History) (m : Machine) (id : String) : Prop :=
  ∃ q ∈ h.pools m, ∃ r, q.find? id = some r ∧ q.ports.inUse r.port = false

/-- The container of a sandbox was stopped and removed, and its port was given back. -/
structure CleanedUp (h : History) (m : Machine) (id : String) : Prop where
  stopped : h.Stopped id
  removed : h.Removed id
  freed : h.Freed m id

theorem Stopped.next (hs : h.Stopped id) : (h ++ [(m, move)]).Stopped id := by
  obtain ⟨s, hs, hid⟩ := hs
  refine ⟨s, ?_, hid⟩
  rw [signals_append]
  exact List.mem_append_left _ hs

theorem Removed.next (hs : h.Removed id) : (h ++ [(m, move)]).Removed id := by
  obtain ⟨s, hs, hid⟩ := hs
  refine ⟨s, ?_, hid⟩
  rw [signals_append]
  exact List.mem_append_left _ hs

theorem Freed.next (hs : h.Freed m id) : (h ++ [(m, move)]).Freed m' id := by
  obtain ⟨q, hq, r, hr, hfree⟩ := hs
  refine ⟨q, ?_, r, hr, hfree⟩
  rw [pools_append]
  exact List.mem_append_left _ hq

theorem CleanedUp.next (hc : h.CleanedUp m id) : (h ++ [(m, move)]).CleanedUp m' id :=
  ⟨hc.stopped.next, hc.removed.next, hc.freed.next⟩

/-- The signal of the last move is one of the history. -/
theorem mem_signals {s : Signal} (hs : m.signal? move = some s) : s ∈ (h ++ [(m, move)]).signals := by
  rw [signals_append, hs]
  exact List.mem_append_right _ (List.mem_singleton_self _)

end History

/-- What has happened to sandboxes that are terminated, and what pools on the way were like. -/
structure Past (h : History) (m : Machine) : Prop where
  stopped : ∀ {id : String} {port : UInt16} {stage : Stage}, .ending id port stage ∈ m.things →
    stage ≠ .stop → h.Stopped id
  removed : ∀ {id : String} {port : UInt16}, .ending id port .settle ∈ m.things → h.Removed id
  ended : ∀ r ∈ m.pool.records, r.live = false → h.CleanedUp m r.id
  pools : ∀ q ∈ h.pools m, ∀ r ∈ q.records, (r.live = true → q.ports.inUse r.port = true) ∧
    ∃ r' ∈ m.pool.records, r'.id = r.id ∧ (r.live = false → r'.live = false)

namespace Past

open Machine

variable {config : Config} {ids ids' : List String} {c c' : Ledger} {h : History}
  {m m' : Machine} {move : Move} {notes : List Note}

/-- The port of a live sandbox is in use. -/
theorem inUse_of_live {p : Pool} {l : List Hand} (hb : Books config ids c p l) {r : Record}
    (hr : r ∈ p.records) (hl : r.live = true) : p.ports.inUse r.port = true := by
  rw [hb.housed.holds.inUse]
  exact List.mem_append_left _ (Pool.mem_livePorts.2 ⟨r, hr, hl, rfl⟩)

/-- The terminations that go on have their calls behind them. -/
theorem endings_next (ho : m.Ordered) (hp : Past h m) (hn : m.next move = some (m', notes))
    {id : String} {port : UInt16} {stage : Stage} (hm : .ending id port stage ∈ m'.things) :
    (stage ≠ .stop → (h ++ [(m, move)]).Stopped id) ∧
      (stage = .settle → (h ++ [(m, move)]).Removed id) := by
  obtain ⟨x, y, rest, q, hb, ha, hact, -⟩ := next_things ho hn
  rcases List.mem_append.1 (ha.mem_iff.1 hm) with hy | hrest
  · rcases hact.ending_or hy with rfl | ⟨s, hs, hstop, rfl⟩ | ⟨s, hs, hremove, rfl, hx⟩
    · exact ⟨fun hne => absurd rfl hne, fun he => by cases he⟩
    · exact ⟨fun _ => ⟨s, History.mem_signals hs, hstop⟩, fun he => by cases he⟩
    · have hmem : Hand.ending id port .remove ∈ m.things :=
        hb.mem_iff.2 (List.mem_append_left _ hx)
      exact ⟨fun _ => (hp.stopped hmem (by simp)).next,
        fun _ => ⟨s, History.mem_signals hs, hremove⟩⟩
  · have hmem : Hand.ending id port stage ∈ m.things := hb.mem_iff.2 (List.mem_append_right _ hrest)
    refine ⟨fun hne => (hp.stopped hmem hne).next, ?_⟩
    rintro rfl
    exact (hp.removed hmem).next

/-- A sandbox that gets terminated has its stop and its removal behind it, and its port is free. -/
theorem ended_next (ho : m.Ordered) (hb : Books config ids c m.pool m.things)
    (hb' : Books config ids' c' m'.pool m'.things) (hp : Past h m)
    (hn : m.next move = some (m', notes)) :
    ∀ r ∈ m'.pool.records, r.live = false → (h ++ [(m, move)]).CleanedUp m' r.id := by
  intro r hr hl
  obtain ⟨x, y, rest, q, hbefore, -, hact, hq⟩ := next_things ho hn
  have hrq : r ∈ q.records := hq.records ▸ hr
  obtain ⟨r₀, hr₀, hid, hport, hend⟩ := (hb.named.perm hbefore).ended hact hrq hl
  rcases hend with hl₀ | ⟨port, giver, rfl⟩
  · rw [← hid]
    exact (hp.ended r₀ hr₀ hl₀).next
  · have hmem : Hand.ending r₀.id port .settle ∈ m.things :=
      hbefore.mem_iff.2 (List.mem_append_left _ (List.mem_cons_self ..))
    obtain ⟨r₁, hr₁, hid₁, -, hport₁⟩ := hb.claimed.record _ (Claimed.mem_ending hmem)
    obtain rfl := hb.named.distinct.eq_of_id hr₀ hr₁ hid₁
    have hfree : m'.pool.ports.inUse r.port = false := by
      rw [hq.ports, hact.ports_settle, Bool.eq_false_iff]
      intro hused
      exact (PortAllocator.inUse_release.1 hused).1 (hport.symm.trans hport₁)
    rw [← hid]
    refine ⟨(hp.stopped hmem (by simp)).next, (hp.removed hmem).next, m'.pool, ?_, r, ?_, hfree⟩
    · rw [History.pools_append]
      exact List.mem_append_right _ (List.mem_singleton_self _)
    · rw [hid]
      exact hb'.named.distinct.find?_of_mem hr

/-- Records stay in the pool, and what is terminated stays so. -/
theorem pools_next (ho : m.Ordered) (hb : Books config ids c m.pool m.things)
    (hb' : Books config ids' c' m'.pool m'.things) (hp : Past h m)
    (hn : m.next move = some (m', notes)) :
    ∀ q ∈ (h ++ [(m, move)]).pools m', ∀ r ∈ q.records,
      (r.live = true → q.ports.inUse r.port = true) ∧
      ∃ r' ∈ m'.pool.records, r'.id = r.id ∧ (r.live = false → r'.live = false) := by
  intro q hq r hr
  rw [History.pools_append] at hq
  rcases List.mem_append.1 hq with hq | hq
  · obtain ⟨hused, r₁, hr₁, hid₁, hl₁⟩ := hp.pools q hq r hr
    obtain ⟨x, y, rest, q', hbefore, -, hact, hq'⟩ := next_things ho hn
    obtain ⟨r₂, hr₂, hid₂, -, hlive⟩ := (hb.named.perm hbefore).successor hact hr₁
    refine ⟨hused, r₂, hq'.records ▸ hr₂, hid₂.trans hid₁, fun hl => ?_⟩
    rcases hlive with hsame | ⟨hend, -⟩
    · exact hsame.trans (hl₁ hl)
    · exact hend
  · obtain rfl := List.mem_singleton.1 hq
    exact ⟨inUse_of_live hb' hr, r, hr, rfl, fun hl => hl⟩

/-- A live sandbox was live in every pool on the way that had its record. -/
theorem live_before (h₀ : Past h m) (hd : m.pool.Distinct) {q : Pool} (hq : q ∈ h.pools m)
    {r r₀ : Record} (hr₀ : r₀ ∈ q.records) (hr : r ∈ m.pool.records) (hid : r₀.id = r.id)
    (hl : r.live = true) : r₀.live = true := by
  obtain ⟨-, r', hr', hid', hend⟩ := h₀.pools q hq r₀ hr₀
  obtain rfl := hd.eq_of_id hr hr' (hid'.trans hid)
  cases hl₀ : r₀.live with
  | true => rfl
  | false =>
    rw [hend hl₀] at hl
    cases hl

end Past

namespace Machine

variable {config : Config} {seed : BitVec 128} {pool : Pool} {now : Instant} {h : History}
  {m m' : Machine} {move : Move} {notes : List Note} {id : String}

theorem Reaches.past (hp : Pool.create config seed = .ok pool)
    (hr : (ofPool pool now).Reaches h m) (hf : h.Fresh) : Past h m := by
  induction hr with
  | start =>
    obtain ⟨-, rfl⟩ := create_eq_ok_iff.1 hp
    refine ⟨(fun hm => by cases hm), (fun hm => by cases hm), (fun r hr => by cases hr), ?_⟩
    intro q hq r hr
    obtain rfl := List.mem_singleton.1 hq
    cases hr
  | next hr hn ih =>
    have hfresh := History.fresh_of_append hf
    have ho := hr.ordered_ofPool
    have hb := hr.books hp hfresh
    have hb' := (hr.next hn).books hp hf
    have hpast := ih hfresh
    exact ⟨fun hm => (hpast.endings_next ho hn hm).1, fun hm => (hpast.endings_next ho hn hm).2 rfl,
      hpast.ended_next ho hb hb' hn, hpast.pools_next ho hb hb' hn⟩

/-- Where every block has a sandbox of its own, what is claimed to be woken is paused. -/
theorem Reaches.woken (hp : Pool.create config seed = .ok pool)
    (hmulti : config.parallelism = .multi) (hr : (ofPool pool now).Reaches h m) (hf : h.Fresh) :
    Woken m.pool m.things := by
  induction hr with
  | start =>
    obtain ⟨-, rfl⟩ := create_eq_ok_iff.1 hp
    exact ⟨List.nodup_nil, (fun _ h => by cases h), (fun _ h => by cases h), fun _ h => by cases h⟩
  | next hr hn ih =>
    have hfresh := History.fresh_of_append hf
    exact (ih hfresh).moves (hr.books hp hfresh).named (hr.not_sharing hp hmulti)
      (next_things hr.ordered_ofPool hn)

/-- Somebody terminates a sandbox that is claimed for that. -/
theorem exists_ending {ids : List String} {l : Ledger} (hb : Books config ids l m.pool m.things)
    (hc : m.pool.claim? id = some .terminating) :
    ∃ t ∈ m.hands, ∃ port stage, t.2 = .ending id port stage := by
  obtain ⟨⟨id', port⟩, hm, rfl⟩ := List.mem_map.1 (hb.claimed.ending id hc)
  obtain ⟨t, ht, hend⟩ := List.mem_filterMap.1 hm
  obtain ⟨x, hx, rfl⟩ := List.mem_map.1 ht
  cases hx₂ : x.2 with
  | ending id'' port' stage =>
    rw [hx₂] at hend
    cases hend
    exact ⟨x, hx, port, stage, hx₂⟩
  | _ =>
    rw [hx₂] at hend
    cases hend

/-- A sandbox that is doomed stays so. -/
theorem Reaches.doomed_next (hp : Pool.create config seed = .ok pool)
    (hr : (ofPool pool now).Reaches h m) (hf : h.Fresh) (hn : m.next move = some (m', notes))
    (hd : m.pool.Doomed id) : m'.pool.Doomed id := by
  obtain ⟨x, y, rest, q, hb, -, hact, hq⟩ := next_things hr.ordered_ofPool hn
  obtain ⟨r, hrec, hid, hend⟩ := hd.act ((hr.books hp hf).named.perm hb) hact
  refine ⟨r, ?_, hid, ?_⟩
  · rwa [hq.records]
  · rwa [hq.claim?]

/-- A sandbox that is doomed is cleaned up as soon as nobody terminates it, and not before. -/
theorem Reaches.cleanedUp_iff (hp : Pool.create config seed = .ok pool)
    (hr : (ofPool pool now).Reaches h m) (hf : h.Fresh) (hd : m.pool.Doomed id) :
    h.CleanedUp m id ↔ ∀ t ∈ m.hands, ∀ port stage, t.2 ≠ .ending id port stage := by
  have hb := hr.books hp hf
  have hpast := hr.past hp hf
  constructor
  · rintro ⟨-, -, q, hq, r, hfind, hfree⟩ t ht port stage he
    obtain ⟨hrq, rfl⟩ := Pool.mem_of_find? hfind
    obtain ⟨hused, r₁, hr₁, hid₁, hl₁⟩ := hpast.pools q hq r hrq
    have hend : r₁.live = false := by
      cases hl : r.live with
      | false => exact hl₁ hl
      | true =>
        rw [hused hl] at hfree
        cases hfree
    have hmem : Hand.ending r.id port stage ∈ m.things := he ▸ List.mem_map_of_mem ht
    obtain ⟨r₂, hr₂, hid₂, hl₂, -⟩ := hb.claimed.record _ (Claimed.mem_ending hmem)
    obtain rfl := hb.named.distinct.eq_of_id hr₁ hr₂ (hid₂.trans hid₁.symm)
    rw [hl₂] at hend
    cases hend
  · intro hnone
    obtain ⟨r, hrec, rfl, hl | hc⟩ := hd
    · exact hpast.ended r hrec hl
    · obtain ⟨t, ht, port, stage, he⟩ := exists_ending hb hc
      exact absurd he (hnone t ht port stage)

end Machine

end SandboxPool
