import SandboxPool.Proofs.Machine.Lags
import SandboxPool.Proofs.Pool.Coherence

/-!
# The record invariant

Where every block has a sandbox of its own, all the fields of a record are determined by each other at
every time: who is busy, what is claimed, what has a block, an end, or a time since when it is paused.
This needs nothing of callers, who may release and terminate what they do not hold.
-/

namespace SandboxPool

variable {config : Config} {seed : BitVec 128} {pool : Pool} {now : Instant} {h h₁ h₂ : History}
  {m m₁ : Machine} {ids : List String}

namespace Machine

/-- What is kept of records where every block has a sandbox of its own. -/
structure Trim (m : Machine) : Prop where
  woken : Woken m.pool m.things
  sharing : .sharing ∉ m.things
  coherent : m.pool.Coherent

theorem trim_ofPool (hp : Pool.create config seed = .ok pool) : (ofPool pool now).Trim := by
  obtain ⟨-, rfl⟩ := create_eq_ok_iff.1 hp
  exact ⟨⟨List.nodup_nil, (fun _ hid => by cases hid), (fun _ hid => by cases hid),
    fun _ hid => by cases hid⟩, List.not_mem_nil, fun _ hr => (by cases hr), fun _ hc => by cases hc⟩

/-- Every move keeps records trim. -/
theorem Trim.next {ledger : Ledger} {m' : Machine} {move : Move} {notes : List Note}
    (hmulti : m.pool.config.parallelism = .multi) (hb : Books config ids ledger m.pool m.things)
    (ht : m.Trim) (ho : m.Ordered) (hn : m.next move = some (m', notes)) : m'.Trim := by
  have hm := next_things ho hn
  exact ⟨ht.woken.moves hb.named ht.sharing hm, hm.not_sharing hmulti ht.sharing,
    ht.coherent.moves hb.named hb.claimed ht.woken ht.sharing hm⟩

/-- Records are trim, also where ends come late. -/
theorem Lags.trim (hp : Pool.create config seed = .ok pool) (hmulti : config.parallelism = .multi)
    (hr : (ofPool pool now).Lags h m) (hf : h.Fresh) (hdated : h.Dated) : m.Trim := by
  induction hr with
  | start => exact trim_ofPool hp
  | @next h m m' move notes hr hn ih =>
    obtain ⟨hbefore, -⟩ := hdated.of_append
    have hfresh := History.fresh_of_append hf
    have ht := hr.ticking hp hbefore
    refine (ih hfresh hbefore).next ?_ (hr.books hp hbefore hfresh) ht.ordered hn
    rw [ht.capped.config_eq, hmulti]
  | late hr hg hno hl ih =>
    obtain ⟨rfl, -⟩ := (hr.ticking hp hdated).late hno hl
    obtain ⟨hwoken, hsharing, hcoherent⟩ := ih hf hdated
    refine ⟨?_, ?_, hcoherent⟩
    · rw [things_start_done]
      exact hwoken
    · rw [things_start_done]
      exact hsharing

/-- The record of a terminated sandbox stays as it is. -/
theorem Lags.mem_of_ended (hp : Pool.create config seed = .ok pool)
    (hmulti : config.parallelism = .multi) (hr₁ : (ofPool pool now).Lags h₁ m₁)
    (hr : m₁.Lags h₂ m) (hf : (h₁ ++ h₂).Fresh) (hdated : (h₁ ++ h₂).Dated) {r : Record}
    (hrec : r ∈ m₁.pool.records) (hend : r.live = false) : r ∈ m.pool.records := by
  induction hr with
  | start => exact hrec
  | @next h₂ m m' move notes hr hn ih =>
    rw [← List.append_assoc] at hf hdated
    have hfresh := History.fresh_of_append hf
    obtain ⟨hbefore, -⟩ := hdated.of_append
    have hall := hr₁.append hr
    have hb := hall.books hp hbefore hfresh
    have ht := hall.trim hp hmulti hfresh hbefore
    obtain ⟨x, y, rest, q, hx, -, hact, hq⟩ := next_things (hall.ticking hp hbefore).ordered hn
    rw [hq.records]
    exact hact.mem_of_ended (hb.named.perm hx) (hb.claimed.perm hx) (ht.woken.perm hx)
      (fun hs => ht.sharing (hx.mem_iff.2 (List.mem_append_left _ hs))) (ih hfresh hbefore) hend
  | late hr hg hno hl ih =>
    obtain ⟨rfl, -⟩ := ((hr₁.append hr).ticking hp hdated).late hno hl
    exact ih hf hdated

/-- **The record invariant.** Where every block has a sandbox of its own, in every interleaving of
operations on a new pool, by whichever callers, where whoever carries out an end may come late, whatever
the daemon answers as long as it gives out no identity twice, and as long as the calendar covers the ends
that are set:

* A record is busy exactly if its sandbox is claimed, and only live sandboxes are claimed. One that is
  claimed to be woken is paused, and has neither an end nor a time since when it is paused.
* A record has a block exactly if the sandbox runs, and counts no blocks that share it.
* It has an end exactly if the sandbox is paused and not claimed; then it has the time since when it is
  paused, which no sandbox has that is not paused.
* The record of a terminated sandbox never changes again. -/
theorem records_coherent {config : Config} {seed : BitVec 128} {pool : Pool} {now : Instant}
    {h : History} {m : Machine} (hp : Pool.create config seed = .ok pool)
    (hmulti : config.parallelism = .multi) (hr : (ofPool pool now).Lags h m) (hf : h.Fresh)
    (hdated : h.Dated) :
    (∀ r ∈ m.pool.records,
      (r.busy = true ↔ (m.pool.claim? r.id).isSome = true) ∧
      (m.pool.claim? r.id = some .waking →
        r.state = .dormant ∧ r.timer = none ∧ r.dormantSince = none) ∧
      (r.block.isSome = true ↔ r.state = .running) ∧
      (r.timer.isSome = true ↔ r.state = .dormant ∧ m.pool.claim? r.id = none) ∧
      (r.timer.isSome = true → r.dormantSince.isSome = true) ∧
      (r.dormantSince.isSome = true → r.state = .dormant) ∧
      r.binders = 0) ∧
    (∀ id, (m.pool.claim? id).isSome = true → ∃ r, m.pool.find? id = some r ∧ r.live = true) ∧
    ∀ h₁ m₁ h₂, (ofPool pool now).Lags h₁ m₁ → m₁.Lags h₂ m → h = h₁ ++ h₂ →
      ∀ id r, m₁.pool.find? id = some r → r.state = .terminated → m.pool.find? id = some r := by
  have hcoherent := (hr.trim hp hmulti hf hdated).coherent
  have ht := hr.ticking hp hdated
  have hd := ht.capped.distinct
  refine ⟨fun r hrec => ?_, fun id hclaim => ?_, ?_⟩
  · have hfits := hcoherent.records r hrec
    -- an end that a record knows of is that of a pause, and a pause has one
    have hparked : r.timer.isSome = true ↔ r.state = .dormant ∧ m.pool.claim? r.id = none := by
      refine ⟨hfits.timer, fun hpark => ?_⟩
      obtain ⟨since, t, -, htimer, -⟩ := ht.kept r hrec hpark
      rw [htimer]
      rfl
    refine ⟨by rw [hfits.busy], fun hc => ⟨(hfits.waking hc).1, ?_, (hfits.waking hc).2⟩, hfits.block,
      hparked, fun htimer => ?_, hfits.since, hfits.binders⟩
    · cases htimer : r.timer with
      | none => rfl
      | some t =>
        have hnone := (hfits.timer (by rw [htimer]; rfl)).2
        rw [hc] at hnone
        cases hnone
    · obtain ⟨since, t, hsince, -⟩ := ht.kept r hrec (hparked.1 htimer)
      rw [hsince]
      rfl
  · obtain ⟨r, hrec, rfl⟩ := hcoherent.claims id hclaim
    exact ⟨r, hd.find?_of_mem hrec, (hcoherent.records r hrec).live hclaim⟩
  · rintro h₁ m₁ h₂ hr₁ hr₂ rfl id r hfind hs
    obtain ⟨hrec, rfl⟩ := Pool.mem_of_find? hfind
    refine hd.find?_of_mem (hr₁.mem_of_ended hp hmulti hr₂ hf hdated hrec ?_)
    simp [Record.live, State.terminal, hs]

/-- Of three sandboxes one is parked, one is being woken, and one was terminated. -/
theorem records_coherent_three :
    let config : Config := { image := "img", maxSandboxes := 3 }
    ∃ pool h m, Pool.create config 0 = .ok pool ∧ config.parallelism = .multi ∧
      (ofPool pool 0).Lags h m ∧ h.Fresh ∧ h.Dated ∧ ∃ r₁ ∈ m.pool.records, ∃ r₂ ∈ m.pool.records,
        r₁.state = .dormant ∧ r₁.busy = false ∧ r₁.timer.isSome = true ∧ r₁.dormantSince = some 0 ∧
        r₂.state = .dormant ∧ r₂.busy = true ∧ r₂.timer = none ∧ r₂.dormantSince = none ∧
        m.pool.records.map (·.state) = [.dormant, .terminated, .dormant] := by
  intro config
  let start (n : Nat) (id : String) : List Move := [.order (.acquire id), .step n 0, .step n 0,
    .step n 0, .reply n 0 (.created (.ok id)), .step n 0, .step n 0, .reply n 0 (.acted (.ok ())),
    .step n 0, .reply n 0 (.acted (.ok ())), .step n 0]
  let park (n : Nat) (id : String) : List Move := [.order (.release id), .step n 0, .step n 0,
    .reply n 0 (.acted (.ok ())), .step n 0]
  let moves : List Move := start 0 "a" ++ start 1 "b" ++ start 2 "c" ++ park 3 "a" ++ park 4 "c" ++
    [.order (.terminate "b"), .step 5 0, .step 5 0, .reply 5 0 (.acted (.ok ())), .step 5 0,
      .reply 5 0 (.acted (.ok ())), .step 5 0, .order (.acquire "d"), .step 6 0]
  have hp : Pool.create config 0 = .ok (.ofConfig config 0) :=
    create_eq_ok_iff.2 ⟨by decide +kernel, rfl⟩
  have hrun : ((ofPool (.ofConfig config 0) 0).trace moves).any (fun x =>
      x.1.Fresh ∧ x.1.Dated ∧ x.2.pool.records.map (·.state) = [.dormant, .terminated, .dormant] ∧
      (∃ r ∈ x.2.pool.records, r.dormantSince = some 0 ∧ x.2.pool.Parked r) ∧
      ∃ r ∈ x.2.pool.records, x.2.pool.claim? r.id = some .waking) = true := by decide +kernel
  obtain ⟨x, ht, hx⟩ := (Option.any_eq_true _ _).1 hrun
  obtain ⟨hf, hdated, hstates, ⟨r₁, hr₁, hsince, hpark⟩, r₂, hr₂, hwaking⟩ := of_decide_eq_true hx
  have hr := Lags.of_reaches (reaches_of_trace ht)
  obtain ⟨hrecords, -, -⟩ := records_coherent hp rfl hr hf hdated
  obtain ⟨hbusy₁, -, -, htimer₁, -⟩ := hrecords r₁ hr₁
  obtain ⟨hbusy₂, hwakes, -⟩ := hrecords r₂ hr₂
  obtain ⟨hdormant, htimer₂, hsince₂⟩ := hwakes hwaking
  refine ⟨_, x.1, x.2, hp, rfl, hr, hf, hdated, r₁, hr₁, r₂, hr₂, hpark.1, ?_, htimer₁.2 hpark, hsince,
    hdormant, hbusy₂.2 (by rw [hwaking]; rfl), htimer₂, hsince₂, hstates⟩
  rw [← Bool.not_eq_true, hbusy₁, hpark.2]
  simp

end Machine

end SandboxPool
