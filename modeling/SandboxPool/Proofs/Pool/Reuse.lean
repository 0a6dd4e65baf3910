import SandboxPool.Proofs.Machine.Events
import SandboxPool.Proofs.Machine.Upshots

/-!
# Acquisitions that are counted

A pool counts the acquisitions that an idle sandbox serves, those that wake a sandbox and those that
start one. Nothing but an acquisition itself changes these counters (`Leaf.keeps_acquired`), and it
does so in three places: where it binds an idle sandbox, where it has woken one, and where it
reserves a start.

* `Acquire.Accounts` says how the counters change with an acquisition: it is counted where it begins
  to start a sandbox, or else where it gets one, up to two ways of joining the shared sandbox.
* `Acquire.accounts`: so they do in every turn of an acquisition.
-/

namespace SandboxPool

variable {β : Type} {config : Config} {c : Context} {p : Pool} {out : Bool} {sig : Option Signal}
  {block id : String}

/-- How many acquisitions are counted: each as served by an idle sandbox, by waking one or by starting
one. -/
def Stats.acquired (s : Stats) : Nat := s.idleHits + s.wakes + s.coldStarts

/-! ## Turns that count no acquisition -/

/-- A turn counts an acquisition only if the scope does in which it is made. -/
theorem Demand.Turn.keeps_acquired {d : Demand β} {s : Scope (Option β)} (h : d.Turn c p out sig s)
    (hscope : ∀ body, d = .scope body → (body c p).pool.stats.acquired = p.stats.acquired) :
    s.pool.stats.acquired = p.stats.acquired := by
  cases h with
  | scope body => exact hscope body rfl
  | _ => rfl

theorem Termination.keeps_acquired {t : Point} {s : Scope (Option (Next Point Result))}
    (h : (demand id t).Turn c p out sig s) : s.pool.stats.acquired = p.stats.acquired := by
  refine h.keeps_acquired fun body hbody => ?_
  cases t with
  | claim =>
    cases hbody
    show (claim id p).pool.stats.acquired = _
    unfold claim
    split
    · rfl
    · split <;> rfl
  | expire generation =>
    cases hbody
    show (expire id generation p).pool.stats.acquired = _
    unfold expire
    split
    · rfl
    · split <;> rfl
  | settle port =>
    cases hbody
    show (settle id port p).pool.stats.acquired = _
    unfold settle
    simp only
    split
    · rfl
    · split <;> rfl
  | _ => cases hbody

theorem Spawn.keeps_acquired {job : Job} {s : Point} {sc : Scope (Option (Next Point Result))}
    (h : (demand config job s).Turn c p out sig sc) :
    sc.pool.stats.acquired = p.stats.acquired := by
  cases s with
  | discard id error t =>
    obtain ⟨s₀, h₀, rfl⟩ := Demand.turn_map h
    exact Termination.keeps_acquired h₀
  | allocate =>
    obtain ⟨-, -, rfl⟩ := Demand.turn_scope h
    show (allocate job p).pool.stats.acquired = _
    unfold allocate
    split <;> rfl
  | giveBack port cause =>
    obtain ⟨-, -, rfl⟩ := Demand.turn_scope h
    rfl
  | register id port =>
    obtain ⟨-, -, rfl⟩ := Demand.turn_scope h
    rfl
  | publish id =>
    obtain ⟨-, -, rfl⟩ := Demand.turn_scope h
    show (publish job id p).pool.stats.acquired = _
    unfold publish
    split
    · rfl
    · split
      · rfl
      · simp only
        split
        · rfl
        · split
          · rfl
          · next bound q next hbind =>
            show q.stats.acquired = _
            rw [(bind_ok hbind).1]
            rfl
  | _ => exact h.keeps_acquired fun body hbody => by cases hbody

theorem Release.keeps_acquired {r : Point} {s : Scope (Option (Next Point Result))}
    (h : (demand id r).Turn c p out sig s) : s.pool.stats.acquired = p.stats.acquired := by
  cases r with
  | check =>
    obtain ⟨-, -, rfl⟩ := Demand.turn_scope h
    show (check id p).pool.stats.acquired = _
    unfold check
    split
    · rfl
    · split
      · rfl
      · split <;> rfl
  | pause => exact h.keeps_acquired fun body hbody => by cases hbody
  | discard cause t =>
    obtain ⟨s₀, h₀, rfl⟩ := Demand.turn_map h
    exact Termination.keeps_acquired h₀
  | park =>
    obtain ⟨-, -, rfl⟩ := Demand.turn_scope h
    show (park id c p).pool.stats.acquired = _
    unfold park
    split
    · rfl
    · split
      · rfl
      · simp only
        split <;> rfl
  | drop =>
    obtain ⟨-, -, rfl⟩ := Demand.turn_scope h
    show (drop id p).pool.stats.acquired = _
    unfold drop
    split
    · rfl
    · split <;> rfl

theorem Prewarm.keeps_acquired {count : Nat} {point : Point} {s : Scope (Option Unit)}
    (h : ((conduct config count).leader point).bare.Turn c p out sig s) :
    s.pool.stats.acquired = p.stats.acquired := by
  refine h.keeps_acquired fun body hbody => ?_
  cases point with
  | gate => cases hbody
  | reserve =>
    cases hbody
    show (reserve count p).pool.stats.acquired = _
    unfold reserve
    simp only
    split <;> rfl
  | gather =>
    cases hbody
    rfl
  | leave r =>
    cases hbody
    show (leave r p).pool.stats.acquired = _
    unfold leave
    split <;> rfl

theorem Teardown.keeps_acquired {point : Point} {s : Scope (Option Unit)}
    (h : (conduct.leader point).bare.Turn c p out sig s) :
    s.pool.stats.acquired = p.stats.acquired := by
  refine h.keeps_acquired fun body hbody => ?_
  cases point with
  | collect =>
    cases hbody
    show (collect p).pool.stats.acquired = _
    unfold collect
    split <;> rfl
  | gather =>
    cases hbody
    rfl

theorem Cleanup.keeps_acquired {point : Point} {s : Scope (Option Unit)}
    (h : (conduct.leader point).bare.Turn c p out sig s) :
    s.pool.stats.acquired = p.stats.acquired := by
  refine h.keeps_acquired fun body hbody => ?_
  cases point with
  | list => cases hbody
  | compare containers =>
    cases hbody
    show (compare containers p).pool.stats.acquired = _
    unfold compare
    split <;> rfl
  | gather =>
    cases hbody
    rfl

theorem Execution.keeps_acquired {plan : Plan} {point : Point} {s : Scope (Option Unit)}
    (hp : point.leaf plan = .execute plan point)
    (h : (leader config plan point).bare.Turn c p out sig s) :
    s.pool.stats.acquired = p.stats.acquired := by
  refine h.keeps_acquired fun body hbody => ?_
  cases point with
  | begin =>
    cases hbody
    show (begin plan p).pool.stats.acquired = _
    unfold begin
    split <;> rfl
  | lane progress =>
    cases hbody
    show (lane progress c p).pool.stats.acquired = _
    unfold lane
    split
    · rfl
    · split <;> rfl
  | solo progress block b => exact absurd hp (b.leaf_ne_execute block)
  | dispatch progress sent waiting =>
    cases hbody
    show (dispatch progress sent waiting c p).pool.stats.acquired = _
    unfold dispatch
    split
    · rfl
    · split <;> rfl
  | settle progress ran interrupted =>
    cases hbody
    show (settle progress ran interrupted c p).pool.stats.acquired = _
    unfold settle
    simp only
    split
    · rfl
    · split
      · rfl
      · split <;> rfl
  | teardown progress index =>
    cases hbody
    show (teardown progress index p).pool.stats.acquired = _
    unfold teardown
    split <;> rfl
  | _ =>
    cases hbody
    rfl

namespace Leaf

/-- The leaf is an acquisition itself. -/
def acquires : Leaf → Bool
  | acquire .. => true
  | _ => false

/-- **Nothing but an acquisition itself counts acquisitions.** -/
theorem keeps_acquired {l : Leaf} {s : Scope (Option Unit)} (hl : l.Innermost)
    (hno : l.acquires = false) (h : (l.demand config).Turn c p out sig s) :
    s.pool.stats.acquired = p.stats.acquired := by
  cases l with
  | termination id t =>
    obtain ⟨s₀, h₀, rfl⟩ := Demand.turn_map h
    exact Termination.keeps_acquired h₀
  | spawn job s =>
    obtain ⟨s₀, h₀, rfl⟩ := Demand.turn_map h
    exact Spawn.keeps_acquired h₀
  | acquire block a => cases hno
  | release id r =>
    obtain ⟨s₀, h₀, rfl⟩ := Demand.turn_map h
    exact Release.keeps_acquired h₀
  | run block b =>
    refine h.keeps_acquired fun body hbody => ?_
    cases b with
    | acquire since a => exact absurd hl (a.leaf_ne_run block)
    | retire since sandbox ending t => cases hl
    | release ran id r => exact absurd hl (r.leaf_ne_run id)
    | run since sandbox => cases hbody
    | _ =>
      cases hbody
      rfl
  | prewarm count point => exact Prewarm.keeps_acquired h
  | teardown point => exact Teardown.keeps_acquired h
  | cleanup point => exact Cleanup.keeps_acquired h
  | reclaim id point => exact h.keeps_acquired fun body hbody => by cases point <;> cases hbody
  | execute plan point => exact Execution.keeps_acquired hl h

end Leaf

/-! ## How an acquisition is accounted for -/

namespace Acquire

/-- The acquisition has begun to start a sandbox, if it had (`old`) where it moved last. -/
def Point.begun (old : Bool) : Point → Bool
  | .cold _ | .shared _ => true
  | .join _ | .leave _ => old
  | _ => false

theorem begun_start (config : Config) (old : Bool) : (start config).begun old = false := by
  unfold start
  split <;> rfl

/-- The acquisition joins the shared sandbox, and finds it idle or not. -/
def Point.joins (p : Pool) (idle : Bool) : Point → Bool
  | .join id => (p.find? id).any fun r => (r.state == .idle) == idle
  | _ => false

/-- The counters behind a turn of an acquisition that has begun to start a sandbox, or has not: it is
counted where it begins, or else where it is served, unless it joins a sandbox that is idle. If it joins
one that it has started and that is not idle, it is counted again. -/
def Accounts (p : Pool) (a : Point) (begun : Bool) (q : Pool) : Strand Point Result → Prop
  | .ready a' | .waiting a' =>
    q.stats.acquired + begun.toNat = p.stats.acquired + (a'.begun begun).toNat
  | .done (.ok _) => q.stats.acquired + (!begun && a.joins p true).toNat + begun.toNat =
    p.stats.acquired + 1 + (begun && a.joins p false).toNat
  | .done (.error _) => q.stats.acquired = p.stats.acquired
  | .panicked _ => True

/-- An acquisition is counted where it reserves a start. -/
theorem coldOr_accounts (error : PoolError) (p : Pool) (a : Point) :
    Accounts p a false (coldOr error p).pool (.ofNext (coldOr error p).result) := by
  unfold coldOr
  split
  · rfl
  · next q hq =>
    obtain ⟨-, rfl⟩ := Pool.reserve?_eq_some_iff.1 hq
    rfl

/-- A sandbox that is bound is counted once. -/
theorem bind_acquired {q p₀ : Pool} {r bound : Record} {e : Event} (f : Stats → Stats)
    (hf : (f p₀.stats).acquired = p₀.stats.acquired + 1)
    (hb : Spawn.bind block r p₀ = .ok (bound, q, e)) :
    (q.count f).stats.acquired = p₀.stats.acquired + 1 := by
  show (f q.stats).acquired = _
  rw [(Spawn.bind_ok hb).1]
  exact hf

theorem pick_accounts (block : String) (c : Context) (p : Pool) :
    Accounts p .pick false (pick block c p).pool (.ofNext (pick block c p).result) := by
  unfold pick
  split
  · unfold take
    split
    · rfl
    · next hb => exact bind_acquired _ (by simp only [Stats.acquired]; omega) hb
  · rfl
  · exact coldOr_accounts _ _ _

theorem rebind_accounts (block id : String) (p : Pool) :
    Accounts p (.rebind id) false (rebind block id p).pool (.ofNext (rebind block id p).result) := by
  unfold rebind
  split
  · rfl
  · simp only
    split
    · rfl
    · split
      · rfl
      · split
        · rfl
        · next hb =>
          have hcount := bind_acquired (fun s => { s with wakes := s.wakes + 1 })
            (by simp only [Stats.acquired]; omega) hb
          exact hcount

/-- A sandbox that is joined while it is idle has been counted with the start of it. -/
theorem join_accounts (block id : String) (old : Bool) (p : Pool) :
    Accounts p (.join id) old (join block id p).pool (.ofNext (join block id p).result) := by
  unfold join leave
  cases hf : p.find? id with
  | none => rfl
  | some r =>
    by_cases hidle : r.state = .idle
    · simp only [hidle, if_true]
      show p.stats.acquired + _ + _ = p.stats.acquired + 1 + _
      simp only [Point.joins, hf, Option.any_some, hidle]
      cases old <;> rfl
    · simp only [hidle, if_false]
      show Stats.acquired { p.stats with idleHits := p.stats.idleHits + 1 } + _ + _ =
        p.stats.acquired + 1 + _
      have hno : (r.state == .idle) = false := by simpa using hidle
      simp only [Point.joins, hf, Option.any_some, hno, Stats.acquired]
      cases old <;> simp <;> omega

/-- **In every turn an acquisition is accounted for.** -/
theorem accounts (old : Bool) {a : Point} {s : Scope (Option (Next Point Result))}
    (h : (demand config block a).Turn c p out sig s) :
    Accounts p a (a.begun old) s.pool (.land a s.result) := by
  cases a with
  | pick =>
    obtain ⟨-, -, rfl⟩ := Demand.turn_scope h
    exact pick_accounts block c p
  | unpause id port =>
    rcases Demand.turn_act h with ⟨-, -, rfl⟩ | ⟨r, -, -, rfl⟩
    · rfl
    · cases r <;> rfl
  | probe id port =>
    rcases Demand.turn_health h with ⟨-, -, rfl⟩ | ⟨r, -, -, rfl⟩
    · rfl
    · cases r <;> rfl
  | rebind id =>
    obtain ⟨-, -, rfl⟩ := Demand.turn_scope h
    exact rebind_accounts block id p
  | failed error =>
    obtain ⟨-, -, rfl⟩ := Demand.turn_scope h
    cases error <;> rfl
  | retire id error t =>
    obtain ⟨s₀, h₀, rfl⟩ := Demand.turn_map h
    have hsame := Termination.keeps_acquired h₀
    obtain ⟨q, e, result⟩ := s₀
    cases result with
    | none => exact hsame
    | some next =>
      cases next with
      | panic message => trivial
      | _ => exact hsame
  | replace error =>
    obtain ⟨-, -, rfl⟩ := Demand.turn_scope h
    exact coldOr_accounts _ _ _
  | cold t =>
    obtain ⟨s₀, h₀, rfl⟩ := Demand.turn_map h
    have hsame := Spawn.keeps_acquired h₀
    obtain ⟨q, e, result⟩ := s₀
    cases result with
    | none => exact congrArg (· + 1) hsame
    | some next =>
      cases next with
      | goto t' => exact congrArg (· + 1) hsame
      | done r =>
        cases r with
        | ok snap => exact congrArg (· + 1) hsame
        | error e => exact hsame
      | panic message => trivial
  | gate =>
    obtain ⟨-, -, -, rfl⟩ := Demand.turn_gate h
    rfl
  | find =>
    obtain ⟨-, -, rfl⟩ := Demand.turn_scope h
    show Accounts p .find false (find c p).pool (.ofNext (find c p).result)
    unfold find
    split <;> rfl
  | reserve =>
    obtain ⟨-, -, rfl⟩ := Demand.turn_scope h
    show Accounts p .reserve false (reserve p).pool (.ofNext (reserve p).result)
    unfold reserve
    split
    · rfl
    · next q hq =>
      obtain ⟨-, rfl⟩ := Pool.reserve?_eq_some_iff.1 hq
      rfl
  | shared t =>
    obtain ⟨s₀, h₀, rfl⟩ := Demand.turn_map h
    have hsame := Spawn.keeps_acquired h₀
    obtain ⟨q, e, result⟩ := s₀
    cases result with
    | none => exact congrArg (· + 1) hsame
    | some next =>
      cases next with
      | goto t' => exact congrArg (· + 1) hsame
      | done r => cases r <;> exact congrArg (· + 1) hsame
      | panic message => trivial
  | join id =>
    obtain ⟨-, -, rfl⟩ := Demand.turn_scope h
    exact join_accounts block id old p
  | leave error =>
    obtain ⟨-, -, rfl⟩ := Demand.turn_scope h
    rfl

end Acquire

end SandboxPool
