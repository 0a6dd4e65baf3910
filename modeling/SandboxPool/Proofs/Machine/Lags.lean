import SandboxPool.Proofs.Machine.Alarms
import SandboxPool.Proofs.Machine.Course

/-!
# Ends that come late

An end that has come or was called off is not set any more. But whoever was to carry it out may already
be on the way, and come at any time behind that: `Machine.Lags` are the runs in which this may happen
too. As long as the calendar covers the ends that are set (`History.Dated`), every parked sandbox keeps
its end in all these runs, and an end that comes late does nothing (`Machine.Ticking`).
-/

namespace SandboxPool

variable {config : Config} {seed : BitVec 128} {pool : Pool} {now : Instant} {h h₁ h₂ : History}
  {m m₀ m₁ m' : Machine} {move : Move} {notes : List Note} {id : String}

/-- All ends that were set are due before the calendar ends. -/
def History.Dated (h : History) : Prop := ∀ x ∈ h, SandboxPool.Dated (x.1.effects x.2)

instance (h : History) : Decidable h.Dated := inferInstanceAs (Decidable (∀ _ ∈ _, _))

theorem History.Dated.of_append (hd : (h₁ ++ h₂).Dated) : h₁.Dated ∧ h₂.Dated :=
  ⟨fun x hx => hd x (List.mem_append_left _ hx), fun x hx => hd x (List.mem_append_right _ hx)⟩

namespace Machine

/-! ## Runs in which ends may come late -/

/-- A machine that is reached from another one, where an end that is not set any more, because it has
come or was called off, may still come at any time. -/
inductive Lags (m₀ : Machine) : History → Machine → Prop where
  | start : Lags m₀ [] m₀
  | next {h : History} {m m' : Machine} {move : Move} {notes : List Note} (hr : Lags m₀ h m)
      (hn : m.next move = some (m', notes)) : Lags m₀ (h ++ [(m, move)]) m'
  | late {h : History} {m m' : Machine} {alarm : Alarm} {notes : List Note} (hr : Lags m₀ h m)
      (hg : alarm.generation < m.pool.generation)
      (hno : ∀ a ∈ m.alarms, a.generation ≠ alarm.generation)
      (hl : m.expire alarm = some (m', notes)) : Lags m₀ h m'

theorem Lags.of_reaches (hr : m₀.Reaches h m) : m₀.Lags h m := by
  induction hr with
  | start => exact .start
  | next _ hn ih => exact ih.next hn

theorem Lags.append (hr : m₀.Lags h₁ m₁) (hs : m₁.Lags h₂ m) : m₀.Lags (h₁ ++ h₂) m := by
  induction hs with
  | start => rwa [List.append_nil]
  | next _ hn ih => rw [← List.append_assoc]; exact ih.next hn
  | late _ hg hno hl ih => exact ih.late hg hno hl

/-- A history can be cut at any of its moves. -/
theorem Lags.split (hr : m₀.Lags (h₁ ++ (m₁, move) :: h₂) m) : ∃ m₂ notes, m₀.Lags h₁ m₁ ∧
    m₁.next move = some (m₂, notes) ∧ m₂.Lags h₂ m := by
  generalize hh : h₁ ++ (m₁, move) :: h₂ = h at hr
  induction hr generalizing h₂ with
  | start => simp at hh
  | @next h m m' last notes hr hn ih =>
    rcases List.eq_nil_or_concat h₂ with rfl | ⟨h₃, x, rfl⟩
    · obtain ⟨rfl, hlast⟩ := List.append_inj' hh rfl
      cases hlast
      exact ⟨m', notes, hr, hn, .start⟩
    · rw [List.concat_eq_append] at hh ⊢
      rw [← List.cons_append, ← List.append_assoc] at hh
      obtain ⟨hfirst, hlast⟩ := List.append_inj' hh rfl
      cases hlast
      obtain ⟨m₂, notes₂, hbefore, hmove, hbehind⟩ := ih hfirst
      exact ⟨m₂, notes₂, hbefore, hmove, hbehind.next hn⟩
  | late _ hg hno hl ih =>
    obtain ⟨m₂, notes₂, hbefore, hmove, hbehind⟩ := ih hh
    exact ⟨m₂, notes₂, hbefore, hmove, hbehind.late hg hno hl⟩

/-- What every machine keeps, also where ends come late. -/
structure Ticking (config : Config) (m : Machine) : Prop where
  ordered : m.Ordered
  capped : Capped config m.pool m.things
  timed : Timed m.pool m.alarms
  kept : Kept config.dormancy m.pool m.alarms

/-- An operation that has ended has nothing in hand. -/
theorem things_start_done (m : Machine) (id : String) (r : Termination.Result) :
    (m.start (.terminate id (.done r))).things = m.things := by
  unfold things hands
  rw [posts_start, hands_append, List.map_append]
  exact List.append_nil _

theorem Timed.unfired (ht : Timed m.pool m.alarms) (move : Move) :
    Timed m.pool (m.unfired move) := by
  cases move with
  | fire g => exact ht.filter _
  | _ => exact ht

theorem timed_ofConfig (config : Config) (seed : BitVec 128) : Timed (.ofConfig config seed) [] :=
  ⟨List.nodup_nil, (fun _ ha => by cases ha), (fun _ hr => by cases hr), fun _ hr => by cases hr⟩

/-- The ends that are set have generations of their own, wherever the calendar ends. -/
theorem Reaches.timed (hp : Pool.create config seed = .ok pool) (hr : (ofPool pool now).Reaches h m) :
    Timed m.pool m.alarms := by
  induction hr with
  | start =>
    obtain ⟨-, rfl⟩ := create_eq_ok_iff.1 hp
    exact timed_ofConfig config seed
  | next hr hn ih =>
    obtain ⟨⟨new, htick, -⟩, halarms⟩ := next_tick hr.ordered_ofPool (hr.capped hp).distinct hn
    rw [halarms]
    exact (Timed.unfired ih _).tick htick

namespace Ticking

/-- An end that comes late does nothing, but an operation has come to its end. -/
theorem expired_eq (ht : Ticking config m) {alarm : Alarm}
    (hno : ∀ a ∈ m.alarms, a.generation ≠ alarm.generation) :
    m.expired alarm = m.start (.terminate alarm.id (.done (.ok ()))) := by
  have hidle : Termination.expire alarm.id alarm.generation m.pool = _ :=
    ht.kept.expire_idle ht.capped.distinct hno
  have hset : m.alarms.filter (·.generation != alarm.generation) = m.alarms :=
    List.filter_eq_self.2 fun a ha => bne_iff_ne.2 (hno a ha)
  unfold expired start
  rw [hidle, hset]
  rfl

theorem next (hv : config.Valid) (ht : Ticking config m) (hn : m.next move = some (m', notes))
    (hdated : SandboxPool.Dated (m.effects move)) : Ticking config m' := by
  have hd := ht.capped.distinct
  obtain ⟨⟨new, htick, -⟩, halarms⟩ := next_tick ht.ordered hd hn
  refine ⟨(next_posts ht.ordered hn).1, ht.capped.moves hv (next_things ht.ordered hn), ?_, ?_⟩
  · rw [halarms]
    exact (Timed.unfired ht.timed move).tick htick
  · cases move with
    | fire g =>
      obtain ⟨alarm, hmem, rfl, -, rfl⟩ := next_fire ht.ordered hn
      exact ht.kept.fire hd ht.timed hmem
    | _ =>
      rw [halarms]
      exact ht.kept.tick (congrArg Config.dormancy ht.capped.config_eq) ht.timed htick hdated

theorem late (ht : Ticking config m) {alarm : Alarm}
    (hno : ∀ a ∈ m.alarms, a.generation ≠ alarm.generation)
    (hl : m.expire alarm = some (m', notes)) :
    m' = m.start (.terminate alarm.id (.done (.ok ()))) ∧ Ticking config m' := by
  rw [expire_eq ht.ordered, ht.expired_eq hno] at hl
  cases hl
  refine ⟨rfl, ordered_start ht.ordered trivial, ?_, ht.timed, ht.kept⟩
  rw [things_start_done]
  exact ht.capped

theorem lags (hv : config.Valid) (ht : Ticking config m₀) (hr : m₀.Lags h m) (hdated : h.Dated) :
    Ticking config m := by
  induction hr with
  | start => exact ht
  | next _ hn ih =>
    obtain ⟨hbefore, hlast⟩ := hdated.of_append
    exact (ih hbefore).next hv hn (hlast _ (List.mem_singleton_self _))
  | late _ hg hno hl ih => exact ((ih hdated).late hno hl).2

end Ticking

theorem ticking_ofPool (hp : Pool.create config seed = .ok pool) :
    Ticking config (ofPool pool now) := by
  obtain ⟨hv, rfl⟩ := create_eq_ok_iff.1 hp
  exact ⟨ordered_ofPool _ _, ⟨rfl, List.nodup_nil, rfl, Nat.zero_le _⟩, timed_ofConfig config seed,
    fun _ hr => by cases hr⟩

/-- Every parked sandbox keeps its end, also where ends come late. -/
theorem Lags.ticking (hp : Pool.create config seed = .ok pool) (hr : (ofPool pool now).Lags h m)
    (hdated : h.Dated) : Ticking config m :=
  (ticking_ofPool hp).lags (create_eq_ok_iff.1 hp).1 hr hdated

/-- The books are in order, also where ends come late. -/
theorem Lags.books (hp : Pool.create config seed = .ok pool) (hr : (ofPool pool now).Lags h m)
    (hdated : h.Dated) (hf : h.Fresh) : Books config h.created h.ledger m.pool m.things := by
  induction hr with
  | start =>
    obtain ⟨-, rfl⟩ := create_eq_ok_iff.1 hp
    exact books_ofConfig config seed
  | @next h m m' move notes hr hn ih =>
    obtain ⟨hbefore, -⟩ := hdated.of_append
    have hbooks := ih hbefore (History.fresh_of_append hf)
    unfold History.Fresh at hf
    rw [History.created_append] at hf ⊢
    rw [History.ledger_append]
    exact hbooks.moves (next_things (hr.ticking hp hbefore).ordered hn) hf
  | late hr hg hno hl ih =>
    obtain ⟨rfl, -⟩ := (hr.ticking hp hdated).late hno hl
    rw [things_start_done]
    exact ih hdated hf

/-- As long as no identity is given out twice, every end that is set is the one that the record of its
sandbox knows of. -/
theorem Lags.sole (hp : Pool.create config seed = .ok pool) (hr : (ofPool pool now).Lags h m)
    (hdated : h.Dated) (hf : h.Fresh) : Sole m.pool m.alarms := by
  induction hr with
  | start => exact fun a ha => by cases ha
  | @next h m m' move notes hr hn ih =>
    obtain ⟨hbefore, hlast⟩ := hdated.of_append
    have hfresh := History.fresh_of_append hf
    have ht := hr.ticking hp hbefore
    have hb := hr.books hp hbefore hfresh
    obtain ⟨⟨new, htick, hnew⟩, halarms⟩ := next_tick ht.ordered ht.capped.distinct hn
    have hunfired : Sole m.pool (m.unfired move) := by
      cases move with
      | fire g => exact (ih hbefore hfresh).filter _
      | _ => exact ih hbefore hfresh
    rw [halarms]
    refine hunfired.tick ht.capped.distinct htick (fun id hid => ?_) (fun id hid r hrec => ?_)
      (hlast _ (List.mem_singleton_self _))
    · obtain ⟨x, y, rest, q, hx, -, hact, hq⟩ := next_things ht.ordered hn
      obtain ⟨r, hrec, hrid, hend⟩ := hid.act (hb.named.perm hx) hact
      refine ⟨r, ?_, hrid, ?_⟩
      · rwa [hq.records]
      · rwa [hq.claim?]
    · obtain ⟨port, hmade⟩ := hnew id hid
      exact hb.named.ne_of_made hmade hrec
  | late hr hg hno hl ih =>
    obtain ⟨rfl, -⟩ := (hr.ticking hp hdated).late hno hl
    exact ih hdated hf

/-! ## The pause of an end -/

/-- The move is that of a release which parks the sandbox: the sandbox was running, nobody had a claim
on it, and its end is set under a generation. -/
structure Parks (m : Machine) (move : Move) (id : String) (g : Nat) : Prop where
  generation : m.pool.generation = g
  running : ∃ r ∈ m.pool.records, r.id = id ∧ r.state = .running ∧ m.pool.claim? id = none
  armed : .arm id g (m.now + m.pool.config.dormancy.nanos) ∈ m.effects move

/-- A parked sandbox has been parked since the time that its record has, by the release that set its
end. -/
theorem Lags.parked_since (hp : Pool.create config seed = .ok pool)
    (hr : (ofPool pool now).Lags h m) (hdated : h.Dated) {r : Record} (hrec : r ∈ m.pool.records)
    (hpark : m.pool.Parked r) : ∃ x ∈ h, r.dormantSince = some x.1.now ∧ ∃ t, r.timer = some t ∧
      x.1.Parks x.2 r.id t.generation := by
  induction hr generalizing r with
  | start =>
    obtain ⟨-, rfl⟩ := create_eq_ok_iff.1 hp
    cases hrec
  | @next h m m' move notes hr hn ih =>
    obtain ⟨hbefore, hlast⟩ := hdated.of_append
    have ht := hr.ticking hp hbefore
    obtain ⟨⟨new, htick, -⟩, -⟩ := next_tick ht.ordered ht.capped.distinct hn
    rcases htick.parked_or (hlast _ (List.mem_singleton_self _)) hrec hpark with
      ⟨r₀, hr₀, hp₀, hid, htimer, hsince⟩ | ⟨hsince, htimer, ⟨r₀, hr₀, hid, hs, hc⟩, harm⟩
    · obtain ⟨x, hx, hnow, t, ht, hparks⟩ := ih hbefore hr₀ hp₀
      exact ⟨x, List.mem_append_left _ hx, hsince.symm.trans hnow, t, htimer.symm.trans ht,
        hid ▸ hparks⟩
    · obtain ⟨t, ht, hg⟩ := Option.map_eq_some_iff.1 htimer
      exact ⟨(m, move), List.mem_append_right _ (List.mem_singleton_self _), hsince, t, ht,
        hg.symm, ⟨r₀, hr₀, hid, hs, hc⟩, hg ▸ harm⟩
  | late hr hg hno hl ih =>
    obtain ⟨rfl, -⟩ := (hr.ticking hp hdated).late hno hl
    exact ih hdated hrec hpark

end Machine

end SandboxPool
