import SandboxPool.Proofs.FailedWake
import SandboxPool.Proofs.Machine.Refusals
import SandboxPool.Proofs.Machine.Upshots

/-!
# The errors of an acquisition

Where every block has a sandbox of its own, an acquisition is to fail for want of room, or of what
the start fails of that it makes itself. But what a sandbox did not wake of is carried along while
that sandbox is terminated, and the acquisition fails of it if by then no start can be reserved: if
somebody else is still terminating the sandbox, or has taken its place.

* `Acquire.Blames` says which error an acquisition carries along at each point.
* `Acquire.Expected` has the errors that an acquisition is to fail of, and where.
* `Machine.wake_error_surfaces_iff` is the main result.
-/

namespace SandboxPool

variable {config : Config} {seed : BitVec 128} {pool p : Pool} {now : Instant} {c : Context}
  {h : History} {m m' : Machine} {move : Move} {notes : List Note} {k : Key} {out : Bool}
  {sig : Option Signal} {block id : String} {error : PoolError}

namespace Acquire

variable {a a' : Point} {old : Option String} {s : Scope (Option (Next Point Result))}

/-! ## What is carried along -/

/-- The error that an acquisition carries along at a point is that the sandbox did not wake which it
has claimed, and what its start carries along is an error of starts. -/
def Blames (old : Option String) : Point → Prop
  | .probe id _ | .rebind id => old = some id
  | .retire id error _ => old = some id ∧ ∃ reason, error = .wakeFailed id reason
  | .failed error | .replace error => ∃ id reason, old = some id ∧ error = .wakeFailed id reason
  | .cold s => s.Carries (·.isStart = true)
  | _ => True

theorem blames_start (config : Config) (old : Option String) : Blames old (start config) := by
  unfold start
  split <;> trivial

/-- A turn of an acquisition keeps to the sandbox that it has claimed. -/
theorem blames_next (hb : Backed p a) (h : (demand config block a).Turn c p out sig s)
    (ha : (Strand.land a s.result).point? = some a') (hold : Blames old a) :
    Blames (a.claimed old) a' := by
  cases a with
  | pick =>
    obtain ⟨-, -, rfl⟩ := Demand.turn_scope h
    simp only [Scope.map, pick] at ha
    split at ha
    · unfold take at ha
      split at ha <;> cases ha
    · cases ha
      trivial
    · unfold coldOr at ha
      split at ha <;> cases ha
      trivial
  | unpause id port =>
    rcases Demand.turn_act h with ⟨-, -, rfl⟩ | ⟨r, -, -, rfl⟩
    · cases ha
      trivial
    · cases r <;> cases ha
      · exact ⟨id, _, rfl, rfl⟩
      · rfl
  | probe id port =>
    rcases Demand.turn_health h with ⟨-, -, rfl⟩ | ⟨r, -, -, rfl⟩
    · cases ha
      exact hold
    · cases r <;> cases ha
      · exact ⟨id, _, hold, rfl⟩
      · exact hold
  | rebind id =>
    obtain ⟨-, -, rfl⟩ := Demand.turn_scope h
    by_cases hc : p.claim? id = some .waking
    · -- the sandbox is paused, so that it is bound to the block
      obtain ⟨r, hf, hs⟩ := hb.dormant id hc
      have hfind : (p.dropClaim id).find? id = some r := hf
      have hadmits : r.state.admits .idle = true := by rw [hs]; rfl
      simp only [Scope.map, rebind, hc, bne_self_eq_false, Bool.false_eq_true, if_false, hfind,
        Record.move_of_admits (r := { r with busy := false }) hadmits,
        Spawn.bind_idle (r := { r with busy := false, state := .idle }) rfl] at ha
      cases ha
    · have hne : (p.claim? id != some .waking) = true := by simpa using hc
      simp only [Scope.map, rebind, hne, if_true] at ha
      cases ha
      exact ⟨id, _, hold, rfl⟩
  | failed error =>
    obtain ⟨-, -, rfl⟩ := Demand.turn_scope h
    obtain ⟨id, reason, hid, rfl⟩ := hold
    cases ha
    exact ⟨hid, reason, rfl⟩
  | retire id error t =>
    obtain ⟨s₀, -, -, ⟨t', -, rfl⟩ | ⟨r, -, hr⟩⟩ := Strand.point?_into h ha
    · exact hold
    · cases hr
      obtain ⟨hid, reason, rfl⟩ := hold
      exact ⟨id, reason, hid, rfl⟩
  | replace error =>
    obtain ⟨-, -, rfl⟩ := Demand.turn_scope h
    simp only [Scope.map, coldOr] at ha
    split at ha <;> cases ha
    trivial
  | cold t =>
    obtain ⟨s₀, h₀, -, ⟨t', ht', rfl⟩ | ⟨r, -, hr⟩⟩ := Strand.point?_into h ha
    · have hcarries : t'.Carries (·.isStart = true) :=
        Strand.Keeps.of_point? ((Spawn.ensures_carries (fun _ he => he) hold).lands h₀ hold) ht'
      exact hcarries
    · cases hr
  | gate =>
    obtain ⟨-, -, -, rfl⟩ := Demand.turn_gate h
    cases ha
    trivial
  | find =>
    obtain ⟨-, -, rfl⟩ := Demand.turn_scope h
    simp only [Scope.map, find] at ha
    split at ha <;> cases ha <;> trivial
  | reserve =>
    obtain ⟨-, -, rfl⟩ := Demand.turn_scope h
    simp only [Scope.map, reserve] at ha
    split at ha <;> cases ha
    trivial
  | shared t =>
    obtain ⟨s₀, -, -, ⟨t', -, rfl⟩ | ⟨r, -, hr⟩⟩ := Strand.point?_into h ha
    · trivial
    · cases r <;> cases hr <;> trivial
  | join id =>
    obtain ⟨-, -, rfl⟩ := Demand.turn_scope h
    simp only [Scope.map, join] at ha
    split at ha
    · cases ha
    · split at ha <;> cases ha
  | leave error =>
    obtain ⟨-, -, rfl⟩ := Demand.turn_scope h
    cases ha

/-! ## What an acquisition fails of -/

/-- The errors that an acquisition is to fail of, and where: that there is no sandbox, where it finds
none and cannot reserve a start, or what the start fails of that it makes. -/
inductive Expected (config : Config) (c : Context) (block : String) (p : Pool) :
    Point → PoolError → Prop where
  | full (h : p.Spent) : Expected config c block p .pick (.noSandboxAvailable config.effectiveMax)
  | start {t : Spawn.Point} {out : Bool} {sig : Option Signal} {error : PoolError}
      {s : Scope (Option (Next Spawn.Point Spawn.Result))}
      (h : (Spawn.demand config ⟨.service, some block⟩ t).Turn c p out sig s)
      (he : s.result = some (.done (.error error))) : Expected config c block p (.cold t) error

/-- Where no start can be reserved, an acquisition that is to replace a sandbox fails of its error. -/
theorem coldOr_eq_error_iff {error' : PoolError} :
    (coldOr error p).result = .done (.error error') ↔
      error' = error ∧ p.config.effectiveMax ≤ p.occupancy := by
  unfold coldOr Pool.reserve?
  by_cases hlt : p.occupancy < p.config.effectiveMax
  · simp only [hlt, if_true]
    constructor
    · intro h
      cases h
    · rintro ⟨-, hle⟩
      exact absurd hlt (Nat.not_lt.2 hle)
  · simp only [hlt, if_false, Next.done.injEq, Except.error.injEq]
    exact ⟨fun h => ⟨h.symm, Nat.not_lt.1 hlt⟩, fun h => h.1.symm⟩

/-- **What an acquisition fails of**, where every block has a sandbox of its own. -/
theorem expected_or_replace (hc : p.config = config) (hf : a.Fits .multi) (hb : Backed p a)
    (h : (demand config block a).Turn c p out sig s) (hs : s.result = some (.done (.error error))) :
    Expected config c block p a error ∨ a = .replace error := by
  cases a with
  | pick =>
    obtain ⟨-, -, rfl⟩ := Demand.turn_scope h
    have hpick : (pick block c p).result = .done (.error error) := Option.some.inj hs
    have hfull : error = .noSandboxAvailable config.effectiveMax := by
      unfold pick at hpick
      split at hpick
      · next hr =>
        have hidle := List.find?_some hr
        simp only [Record.selectable, Bool.and_eq_true, beq_iff_eq] at hidle
        unfold take at hpick
        rw [Spawn.bind_idle hidle.1] at hpick
        cases hpick
      · cases hpick
      · rw [hc] at hpick
        exact (coldOr_eq_error_iff.1 hpick).1
    subst hfull
    exact .inl (.full (spent_of_pick hpick))
  | replace error' =>
    obtain ⟨-, -, rfl⟩ := Demand.turn_scope h
    obtain rfl := (coldOr_eq_error_iff.1 (Option.some.inj hs)).1
    exact .inr rfl
  | cold t =>
    obtain ⟨s₀, h₀, rfl⟩ := Demand.turn_map h
    obtain ⟨next, hnext, hinto⟩ := Option.map_eq_some_iff.1 hs
    cases next with
    | done r =>
      cases hinto
      exact .inl (.start h₀ hnext)
    | _ => cases hinto
  | rebind id =>
    obtain ⟨-, -, rfl⟩ := Demand.turn_scope h
    simp only [Scope.map, rebind] at hs
    split at hs
    · cases hs
    · split at hs
      · cases hs
      · split at hs
        · cases hs
        · split at hs <;> cases hs
  | unpause id port =>
    rcases Demand.turn_act h with ⟨-, -, rfl⟩ | ⟨r, -, -, rfl⟩
    · cases hs
    · cases r <;> cases hs
  | probe id port =>
    rcases Demand.turn_health h with ⟨-, -, rfl⟩ | ⟨r, -, -, rfl⟩
    · cases hs
    · cases r <;> cases hs
  | failed error' =>
    obtain ⟨-, -, rfl⟩ := Demand.turn_scope h
    cases error' <;> cases hs
  | retire id error' t =>
    obtain ⟨s₀, -, rfl⟩ := Demand.turn_map h
    obtain ⟨next, -, hinto⟩ := Option.map_eq_some_iff.1 hs
    cases next <;> cases hinto
  | _ => cases hf

end Acquire

/-! ## The machine -/

namespace Machine

variable {x : Post} {a : Acquire.Point}

/-- Every acquisition carries along at most the error of the wake that it has tried. -/
theorem Reaches.blames (hp : Pool.create config seed = .ok pool)
    (hmulti : config.parallelism = .multi) (hr : (ofPool pool now).Reaches h m) (hf : h.Fresh)
    (hx : (k, x) ∈ m.posts) (ha : x.acquiring? = some a) : Acquire.Blames (h.wakes k) a := by
  induction hr generalizing k x a with
  | start =>
    rw [posts_ofPool] at hx
    cases hx
  | @next h m m' move notes hr hn ih =>
    have hfresh := History.fresh_of_append hf
    have ho := hr.ordered_ofPool
    rw [History.wakes_append]
    cases next_post ho hn hx with
    | stay hx hk =>
      rw [if_neg hk]
      exact ih hfresh hx ha
    | order o _ hy =>
      rw [acquiring?_ofOrder hy ha]
      exact Acquire.blames_start _ _
    | @turn place x₀ _ _ _ _ hk hold hp' ht hy =>
      obtain ⟨hplace, out, hfollows⟩ := ht.follows hy ha
      obtain rfl : m.mover move = k := hk.trans (Prod.ext rfl hplace.symm)
      rcases hfollows with rfl | ⟨block, a₀, s, ha₀, hturn, -, hland⟩
      · exact Acquire.blames_start _ _
      · have hx₀ : (m.mover move, x₀) ∈ m.posts := by
          rcases hold with hold | ⟨id, g, rfl⟩
          · rwa [← hplace] at hold
          · cases ha₀
        rw [if_pos rfl, acquiring?_eq ho hx₀, ha₀]
        exact Acquire.blames_next (hr.backed hp hmulti hfresh hx₀ ha₀) hturn hland
          (ih hfresh hx₀ ha₀)

/-- **When the error of a wake comes out.** Where every block has a sandbox of its own, in every
interleaving of operations on a new pool and whatever the daemon answers as long as it gives out no
identity twice: an acquisition that fails, fails because it finds nothing to reuse where every start
is taken, and says so with the cap, or of what the start fails of that it makes itself; or else of
what a paused sandbox did not wake of that it had claimed. It fails of the latter exactly if every
start is taken where it would replace that sandbox. -/
theorem wake_error_surfaces_iff {config : Config} {seed : BitVec 128} {pool : Pool} {now : Instant}
    {h : History} {m m' : Machine} {move : Move} {notes : List Note} {k : Key} {block : String}
    {a : Acquire.Point} (hp : Pool.create config seed = .ok pool)
    (hmulti : config.parallelism = .multi) (hr : (ofPool pool now).Reaches h m) (hf : h.Fresh)
    (hn : m.next move = some (m', notes)) (ha : m.acquisition? k = some (block, a)) :
    (∀ error, m'.upshot? k = some (.error error) →
      m.mover move = k ∧ Acquire.Expected config m.context block m.pool a error ∨
        ∃ id reason, error = .wakeFailed id reason ∧ h.wakes k = some id) ∧
      ∀ id reason, m'.upshot? k = some (.error (.wakeFailed id reason)) ↔
        m.mover move = k ∧ a = .replace (.wakeFailed id reason) ∧
          config.effectiveMax ≤ m.pool.occupancy := by
  have hconfig : m.pool.config = config := by
    obtain ⟨-, rfl⟩ := create_eq_ok_iff.1 hp
    exact hr.config_eq
  obtain ⟨x, hx, hxa⟩ := mem_of_acquisition? ha
  have hacquiring := Post.acquiring?_of_acquisition? hxa
  have hblames := hr.blames hp hmulti hf hx hacquiring
  have hback := hr.backed hp hmulti hf hx hacquiring
  have hfits : a.Fits .multi := by
    have hfit := (hr.fits hx).acquiring hacquiring
    rw [← hconfig] at hmulti
    rwa [← hr.config_eq, hmulti] at hfit
  cases next_acquisition hr.ordered_ofPool hn ha with
  | stay hk _ hu =>
    refine ⟨fun error he => ?_, fun id reason => ⟨fun he => ?_, fun hall => absurd hall.1 hk⟩⟩
    · rw [hu] at he
      cases he
    · rw [hu] at he
      cases he
  | @turn out sig s hk ht _ _ hu =>
    rw [hconfig] at ht
    have hresult : ∀ error, m'.upshot? k = some (.error error) →
        s.result = some (.done (.error error)) := by
      intro error he
      rw [hu] at he
      obtain ⟨q, e, result⟩ := s
      cases result with
      | none => cases he
      | some next => cases next <;> cases he; rfl
    refine ⟨fun error he => ?_, fun id reason => ⟨fun he => ?_, ?_⟩⟩
    · rcases Acquire.expected_or_replace hconfig hfits hback ht (hresult error he) with hexp | rfl
      · exact .inl ⟨hk, hexp⟩
      · obtain ⟨id, reason, hid, rfl⟩ := hblames
        exact .inr ⟨id, reason, rfl, hid⟩
    · have hs := hresult _ he
      rcases Acquire.expected_or_replace hconfig hfits hback ht hs with hexp | rfl
      · -- a start does not wake anything
        cases hexp with
        | start h he =>
          cases (Spawn.ensures_carries (fun _ he => he) hblames).of_turn h _ he
      · obtain ⟨-, -, rfl⟩ := Demand.turn_scope ht
        have hocc := (Acquire.coldOr_eq_error_iff.1 (Option.some.inj hs)).2
        rw [hconfig] at hocc
        exact ⟨hk, rfl, hocc⟩
    · rintro ⟨-, rfl, hocc⟩
      obtain ⟨-, -, rfl⟩ := Demand.turn_scope ht
      rw [← hconfig] at hocc
      have hcold : (Acquire.coldOr (.wakeFailed id reason) m.pool).result
          = .done (.error (.wakeFailed id reason)) := Acquire.coldOr_eq_error_iff.2 ⟨rfl, hocc⟩
      rw [hu]
      simp only [Scope.map, hcold]
      rfl

/-- The one sandbox that there may be is woken in vain, and a caller terminates it meanwhile. The
acquisition leaves it to the caller, finds that it still takes up the only place, and fails of what
the sandbox did not wake of. -/
theorem wake_error_surfaces :
    let config : Config := { image := "img", maxSandboxes := 1 }
    let error : PoolError := .wakeFailed "c1" "unpause failed: runtime API error (500): no"
    ∃ pool h m m' notes, Pool.create config 0 = .ok pool ∧ config.parallelism = .multi ∧
      (ofPool pool 0).Reaches h m ∧ h.Fresh ∧ m.next (.step 2 0) = some (m', notes) ∧
      m.acquisition? (2, 0) = some ("b", .replace error) ∧
      m'.upshot? (2, 0) = some (.error error) ∧
      ¬ Acquire.Expected config m.context "b" m.pool (.replace error) error := by
  intro config error
  let moves : List Move := [.order (.acquire "a"), .step 0 0, .step 0 0, .step 0 0,
    .reply 0 0 (.created (.ok "c1")), .step 0 0, .step 0 0, .reply 0 0 (.acted (.ok ())), .step 0 0,
    .reply 0 0 (.acted (.ok ())), .step 0 0,
    .order (.release "c1"), .step 1 0, .step 1 0, .reply 1 0 (.acted (.ok ())), .step 1 0,
    .order (.acquire "b"), .step 2 0, .step 2 0,
    .order (.terminate "c1"), .step 3 0, .step 3 0,
    .reply 2 0 (.acted (.error (.api 500 "no"))), .step 2 0, .step 2 0]
  have hp : Pool.create config 0 = .ok (.ofConfig config 0) :=
    create_eq_ok_iff.2 ⟨by decide +kernel, rfl⟩
  have hrun : ((ofPool (.ofConfig config 0) 0).trace moves).any (fun x =>
      x.1.Fresh ∧ (x.2.next (.step 2 0)).isSome = true ∧
        x.2.acquisition? (2, 0) = some ("b", .replace error) ∧
        config.effectiveMax ≤ x.2.pool.occupancy) = true := by decide +kernel
  obtain ⟨x, ht, hx⟩ := (Option.any_eq_true _ _).1 hrun
  obtain ⟨hf, hsome, ha, hocc⟩ := of_decide_eq_true hx
  obtain ⟨⟨m', notes⟩, hn⟩ := Option.isSome_iff_exists.1 hsome
  have hr := reaches_of_trace ht
  have hsurfaces := (wake_error_surfaces_iff hp rfl hr hf hn ha).2 "c1"
    "unpause failed: runtime API error (500): no"
  exact ⟨_, x.1, x.2, m', notes, hp, rfl, hr, hf, hn, ha, hsurfaces.2 ⟨rfl, rfl, hocc⟩,
    fun hexp => by cases hexp⟩

end Machine

end SandboxPool
