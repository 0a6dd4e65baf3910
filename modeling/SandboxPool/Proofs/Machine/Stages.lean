import SandboxPool.Proofs.Machine.Custody
import SandboxPool.Proofs.Machine.Upkeep
import SandboxPool.Proofs.Pool.Passages

/-!
# Stages of the upkeep

Who has a sandbox in custody stands in a phase of its upkeep (`Tender.Stands`), and a sandbox that nobody
has in custody rests between two calls (`State.Rests`).

* A turn of such a process takes the upkeep to its next phase, dooms the sandbox, or leaves it at rest
  (`Tender.Turn.advances`).
* Whoever gets a sandbox into custody enters its record, or finds it at rest (`Tender.Turn.begins`).
-/

namespace SandboxPool

variable {config : Config} {c : Context} {p q : Pool} {out : Bool} {sig : Option Signal}
  {block id : String} {port : UInt16} {r : Record} {phase : Phase}

/-- In this state a sandbox rests behind so many calls. -/
def State.Rests : State → Nat → Prop
  | idle, n => n % 3 = 2
  | running, n => n % 3 = 2
  | dormant, n => 0 < n ∧ n % 3 = 0
  | _, _ => False

/-! ## Where a process stands -/

/-- The phase of the upkeep in which a spawn stands. -/
inductive Spawn.Point.Stands (id : String) (port : UInt16) : Spawn.Point → Bool → Phase → Prop where
  | start (out : Bool) : Stands id port (.start id port) out (.of 0 out)
  | probe (out : Bool) : Stands id port (.probe id port) out (.of 1 out)
  | publish : Stands id port (.publish id) false (.ready 2)
  | discard {n : Nat} (error : PoolError) : Stands id port (.discard id error .claim) false (.failed n)

/-- The phase of the upkeep in which an acquisition stands. -/
inductive Acquire.Point.Stands (id : String) (port : UInt16) : Acquire.Point → Bool → Phase → Prop where
  | unpause {n : Nat} (h₀ : 0 < n) (h : n % 3 = 0) (out : Bool) :
      Stands id port (.unpause id port) out (.of n out)
  | probe {n : Nat} (h : n % 3 = 1) (out : Bool) : Stands id port (.probe id port) out (.of n out)
  | rebind {n : Nat} (h : n % 3 = 2) : Stands id port (.rebind id) false (.ready n)
  | failed {n : Nat} (cause : String) :
      Stands id port (.failed (.wakeFailed id cause)) false (.failed n)
  | retire {n : Nat} (error : PoolError) : Stands id port (.retire id error .claim) false (.failed n)
  | cold {s : Spawn.Point} {out : Bool} {phase : Phase} (h : s.Stands id port out phase) :
      Stands id port (.cold s) out phase

/-- The phase of the upkeep in which a release stands. -/
inductive Release.Point.Stands : Release.Point → Bool → Phase → Prop where
  | pause {n : Nat} (h : n % 3 = 2) (out : Bool) : Stands .pause out (.of n out)
  | park {n : Nat} (h₀ : 0 < n) (h : n % 3 = 0) : Stands .park false (.ready n)
  | discard {n : Nat} (cause : DaemonError) : Stands (.discard cause .claim) false (.failed n)

/-- The phase of the upkeep of a sandbox in which a tender stands. -/
inductive Tender.Stands (id : String) (port : UInt16) : Tender → Bool → Phase → Prop where
  | spawn {job : Spawn.Job} {s : Spawn.Point} {out : Bool} {phase : Phase}
      (hkind : job.kind = .service) (h : s.Stands id port out phase) :
      Stands id port (.spawn job s) out phase
  | acquire {block : String} {a : Acquire.Point} {out : Bool} {phase : Phase}
      (h : a.Stands id port out phase) : Stands id port (.acquire block a) out phase
  | release {r : Release.Point} {out : Bool} {phase : Phase} (h : r.Stands out phase) :
      Stands id port (.release id r) out phase

/-! ## Turns of those who have a sandbox in custody -/

/-- What becomes of the upkeep of a sandbox in a turn of a process that stands in a phase of it. -/
inductive Advances {σ : Type} (S : σ → Bool → Phase → Prop) (id : String) (port : UInt16)
    (phase : Phase) (entry : Option Upkeep.Entry) (q : Pool) : Option σ → Bool → Prop where
  /-- The process stands in the next phase. -/
  | stands {point : σ} {out : Bool} {next : Phase} (h : S point out next)
      (hlog : next.log port = phase.log port ++ entry.toList) :
      Advances S id port phase entry q (some point) out
  /-- The sandbox is doomed. -/
  | dooms {point : Option σ} {out : Bool} (h : q.Doomed id) :
      Advances S id port phase entry q point out
  /-- The process is at its end, and the sandbox rests. -/
  | rests {r : Record} {n : Nat} (hr : r ∈ q.records) (hid : r.id = id) (h : r.state.Rests n)
      (hphase : phase = .ready n) (hentry : entry = none) :
      Advances S id port phase entry q none false

namespace Advances

variable {σ τ α β : Type} {S : σ → Bool → Phase → Prop} {S' : τ → Bool → Phase → Prop}
  {entry : Option Upkeep.Entry} {point : σ} {n : Nat}

theorem map {f : σ → τ} {o : Option σ} (hS : ∀ {point out phase}, S point out phase →
    S' (f point) out phase) (h : Advances S id port phase entry q o out) :
    Advances S' id port phase entry q (o.map f) out := by
  cases h with
  | stands h hlog => exact .stands (hS h) hlog
  | dooms h => exact .dooms h
  | rests hr hid h hphase hentry => exact .rests hr hid h hphase hentry

/-- A process that contains this one advances with it. -/
theorem into {f : σ → τ} {next : Option (Next σ α)} {k : α → Next τ β}
    (hS : ∀ {point out phase}, S point out phase → S' (f point) out phase)
    (hk : ∀ a, (Strand.ofNext (k a)).point? = none)
    (h : Advances S id port phase entry q (Strand.land point next).point? next.isNone) :
    Advances S' id port phase entry q
      (Strand.land (f point) (next.map (Next.into f k))).point? (next.map (Next.into f k)).isNone := by
  have hpoint : (Strand.land (f point) (next.map (Next.into f k))).point?
      = (Strand.land point next).point?.map f := by
    cases next with
    | none => rfl
    | some next =>
      cases next with
      | done a => exact hk a
      | _ => rfl
  rw [hpoint, Option.isNone_map]
  exact h.map hS

/-- The next call is made or answered. -/
theorem call {call : Call} {next : Except DaemonError Unit → Next σ α}
    {s : Scope (Option (Next σ α))}
    (h : out = false ∧ sig = some (.sent (.daemon call)) ∧ s = ⟨p, [], none⟩ ∨
      ∃ r, out = true ∧ sig = some (.got (.daemon call) (.acted r)) ∧ s = ⟨p, [], some (next r)⟩)
    (hentry : entry = sig.bind (·.upkeep?)) (hcall : call.upkeep? = some (Upkeep.due port n))
    (hwait : S point true (.asked n))
    (hok : ∃ point', next (.ok ()) = .goto point' ∧ S point' false (.ready (n + 1)))
    (herror : ∀ e, ∃ point', next (.error e) = .goto point' ∧ S point' false (.failed n)) :
    Advances S id port (.of n out) entry s.pool (Strand.land point s.result).point?
      s.result.isNone := by
  subst hentry
  rcases h with ⟨rfl, rfl, rfl⟩ | ⟨r, rfl, rfl, rfl⟩
  · refine .stands hwait ?_
    simp only [Option.bind_some, Signal.upkeep?, hcall]
    rfl
  · cases r with
    | ok =>
      obtain ⟨point', hnext, hS⟩ := hok
      simp only [hnext]
      refine .stands hS ?_
      simp only [Option.bind_some, Signal.upkeep?, hcall]
      exact Phase.log_succeeded
    | error e =>
      obtain ⟨point', hnext, hS⟩ := herror e
      simp only [hnext]
      refine .stands hS ?_
      simp only [Option.bind_some, Signal.upkeep?, hcall]
      exact Phase.log_failed

end Advances

section Turns

variable (hd : p.Distinct) (hr : r ∈ p.records)
include hd hr

/-- Who claims a sandbox for its end dooms it, or it is doomed already. -/
theorem Termination.dooms {β : Type} {f : Next Point Result → β} {s : Scope (Option β)}
    (h : ((demand r.id .claim).map f).Turn c p out sig s) : s.pool.Doomed r.id := by
  obtain ⟨s₀, h₀, rfl⟩ := Demand.turn_map h
  obtain ⟨-, -, rfl⟩ := Demand.turn_scope h₀
  show (claim r.id p).pool.Doomed r.id
  simp only [claim, hd.find?_of_mem hr]
  split
  · next hno =>
    simp only [Bool.or_eq_true, Bool.not_eq_true', beq_iff_eq] at hno
    exact ⟨r, hr, rfl, hno⟩
  · exact ⟨_, Pool.mem_put_self hr rfl, rfl, .inr (by rw [Pool.claim?_setClaim, if_pos rfl])⟩

/-- A turn of a spawn that stands in a phase of the upkeep. -/
theorem Spawn.advances {job : Job} {s : Point} {sc : Scope (Option (Next Point Result))}
    (hkind : job.kind = .service) (hfits : Care.start.Fits p r) (hs : s.Stands r.id r.port out phase)
    (h : (demand config job s).Turn c p out sig sc) :
    Advances (Point.Stands r.id r.port) r.id r.port phase ((s.leaf job).upkeep? r.id sig) sc.pool
      (Strand.land s sc.result).point? sc.result.isNone := by
  cases hs with
  | start =>
    refine .call (Demand.turn_act h) (Leaf.upkeep?_of_serves rfl) rfl (.start true)
      ⟨_, ?_, .probe false⟩ fun e => ⟨_, rfl, .discard _⟩
    simp only [hkind]
  | probe =>
    exact .call (Demand.turn_health h) (Leaf.upkeep?_of_serves rfl) rfl (.probe true)
      ⟨_, rfl, .publish⟩ fun e => ⟨_, rfl, .discard _⟩
  | discard error => exact .dooms (Termination.dooms hd hr h)
  | publish =>
    obtain ⟨-, rfl, rfl⟩ := Demand.turn_scope h
    have hadmits : r.state.admits .idle = true := by
      rw [show r.state = .starting from hfits]
      rfl
    simp only [publish, hd.find?_of_mem hr, Record.move_of_admits hadmits]
    cases hb : job.block with
    | none => exact .rests (Pool.mem_put_self hr rfl) rfl (by rfl) rfl rfl
    | some name =>
      simp only [bind_idle (r := { r with state := .idle }) rfl]
      have hput : (p.put { r with state := .idle }).put
          { r with state := .running, block := some name }
          = p.put { r with state := .running, block := some name } := Pool.put_put p rfl
      have hmem : { r with state := .running, block := some name } ∈
          ((p.put { r with state := .idle }).put
            { r with state := .running, block := some name }).records := by
        rw [hput]
        exact Pool.mem_put_self hr rfl
      exact .rests hmem rfl (by rfl) rfl rfl

/-- A turn of an acquisition that stands in a phase of the upkeep. -/
theorem Acquire.advances {a : Point} {sc : Scope (Option (Next Point Result))} {care : Care}
    (hcare : a.charge? = some (care, r.id)) (hfits : care.Fits p r)
    (ha : a.Stands r.id r.port out phase) (h : (demand config block a).Turn c p out sig sc) :
    Advances (Point.Stands r.id r.port) r.id r.port phase ((a.leaf block).upkeep? r.id sig) sc.pool
      (Strand.land a sc.result).point? sc.result.isNone := by
  cases ha with
  | unpause h₀ hn =>
    exact .call (Demand.turn_act h) (Leaf.upkeep?_of_serves rfl)
      (congrArg some (Upkeep.due_unpause h₀ hn).symm) (.unpause h₀ hn true)
      ⟨_, rfl, .probe (by omega) false⟩ fun e => ⟨_, rfl, .failed _⟩
  | probe hn =>
    exact .call (Demand.turn_health h) (Leaf.upkeep?_of_serves rfl)
      (congrArg some (Upkeep.due_health hn).symm) (.probe hn true)
      ⟨_, rfl, .rebind (by omega)⟩ fun e => ⟨_, rfl, .failed _⟩
  | rebind hn =>
    cases hcare
    obtain ⟨hdormant, hclaim⟩ := hfits
    obtain ⟨-, rfl, rfl⟩ := Demand.turn_scope h
    have hadmits : r.state.admits .idle = true := by
      rw [hdormant]
      rfl
    have hfind : (p.dropClaim r.id).find? r.id = some r := hd.find?_of_mem hr
    simp only [rebind, hclaim, bne_self_eq_false, Bool.false_eq_true, if_false, hfind,
      Record.move_of_admits (r := { r with busy := false }) hadmits,
      Spawn.bind_idle (r := { r with busy := false, state := .idle }) rfl]
    have hput : ((p.dropClaim r.id).put { r with busy := false, state := .idle }).put
        { r with busy := false, state := .running, block := some block }
        = (p.dropClaim r.id).put { r with busy := false, state := .running, block := some block } :=
      Pool.put_put _ rfl
    have hmem : { r with busy := false, state := .running, block := some block } ∈
        (((p.dropClaim r.id).put { r with busy := false, state := .idle }).put
          { r with busy := false, state := .running, block := some block }).records := by
      rw [hput]
      exact Pool.mem_put_self (p := p.dropClaim r.id) hr rfl
    exact .rests hmem rfl hn rfl rfl
  | failed cause =>
    obtain ⟨-, rfl, rfl⟩ := Demand.turn_scope h
    exact .stands (.retire _) (List.append_nil _).symm
  | retire error => exact .dooms (Termination.dooms hd hr h)
  | cold hs =>
    obtain ⟨s₀, h₀, rfl⟩ := Demand.turn_map h
    have hfits' : Care.start.Fits p r := by
      obtain ⟨id, -, he⟩ := Option.map_eq_some_iff.1 hcare
      cases he
      exact hfits
    exact (Spawn.advances hd hr rfl hfits' hs h₀).into .cold fun _ => rfl

/-- A turn of a release that stands in a phase of the upkeep. -/
theorem Release.advances {point : Point} {sc : Scope (Option (Next Point Result))}
    (hfree : p.claim? r.id = none) (hfits : Care.release.Fits p r) (hs : point.Stands out phase)
    (h : (demand r.id point).Turn c p out sig sc) :
    Advances Point.Stands r.id r.port phase ((point.leaf r.id).upkeep? r.id sig) sc.pool
      (Strand.land point sc.result).point? sc.result.isNone := by
  cases hs with
  | pause hn =>
    exact .call (Demand.turn_act h) (Leaf.upkeep?_of_serves rfl)
      (congrArg some (Upkeep.due_pause hn).symm) (.pause hn true)
      ⟨_, rfl, .park (by omega) (by omega)⟩ fun e => ⟨_, rfl, .discard _⟩
  | park h₀ hn =>
    obtain ⟨-, rfl, rfl⟩ := Demand.turn_scope h
    have hrunning : r.state = .running := hfits
    simp only [park, hd.find?_of_mem hr, hrunning, hfree, bne_self_eq_false, Option.isSome_none,
      Bool.or_self, Bool.false_eq_true, if_false]
    split <;> exact .rests (Pool.mem_put_self hr rfl) rfl ⟨h₀, hn⟩ rfl rfl
  | discard cause => exact .dooms (Termination.dooms hd hr h)

/-- **A turn of whoever has a sandbox in custody takes its upkeep on**, unless it dooms the sandbox or
leaves it at rest. -/
theorem Tender.Turn.advances {t : Tender} {o : Option Tender} {w : Bool} {care : Care}
    (hcare : t.charge? = some (care, r.id)) (hfits : care.Fits p r)
    (hfree : r.state = .running → p.claim? r.id = none) (ht : t.Stands r.id r.port out phase)
    (h : t.Turn config c p out sig q o w) :
    Advances (Tender.Stands r.id r.port) r.id r.port phase (t.leaf.upkeep? r.id sig) q o w := by
  cases h with
  | spawn h =>
    cases ht with
    | spawn hkind hs =>
      have hstart : Care.start.Fits p r := by
        obtain ⟨id, -, he⟩ := Option.map_eq_some_iff.1 hcare
        cases he
        exact hfits
      exact (Spawn.advances hd hr hkind hstart hs h).map (.spawn hkind)
  | acquire h =>
    cases ht with
    | acquire ha => exact (Acquire.advances hd hr hcare hfits ha h).map .acquire
  | release h =>
    cases ht with
    | release hs =>
      have hrunning : Care.release.Fits p r := by
        obtain ⟨-, he⟩ := Option.ite_none_right_eq_some.1 hcare
        cases he
        exact hfits
      exact (Release.advances hd hr (hfree hrunning) hrunning hs h).map .release

end Turns

/-! ## Who gets a sandbox into custody -/

/-- A termination that is under way does not begin again. -/
theorem Termination.ensures_claimed (id : String) (t : Point) : (demand id t).Ensures
    fun next => (Strand.ofNext next).Keeps (· ≠ .claim) fun _ => True := by
  cases t with
  | claim =>
    refine Demand.ensures_scope fun _ p => ?_
    unfold claim
    split
    · trivial
    · split
      · trivial
      · exact Point.noConfusion
  | expire g =>
    refine Demand.ensures_scope fun _ p => ?_
    unfold expire
    split
    · trivial
    · split
      · trivial
      · exact Point.noConfusion
  | stop port => exact Demand.ensures_act fun _ => Point.noConfusion
  | remove port => exact Demand.ensures_act fun _ => Point.noConfusion
  | settle port =>
    refine Demand.ensures_scope fun _ p => ?_
    unfold settle
    simp only
    split
    · trivial
    · split <;> trivial

/-- A spawn that has a sandbox in custody had it before, or registers it. -/
theorem Spawn.ensures_charge (job : Job) {s : Point} (hs : ∀ id port, s ≠ .register id port) :
    (demand config job s).Ensures fun next => (Strand.ofNext next).Keeps
      (fun s' => s'.charge? = none ∨ s'.charge? = s.charge?) fun _ => True := by
  cases s with
  | allocate =>
    refine Demand.ensures_scope fun _ p => ?_
    unfold allocate
    split
    · trivial
    · exact .inl rfl
  | create spec port =>
    refine Demand.ensures_create fun r => ?_
    cases r <;> exact .inl rfl
  | giveBack port cause => exact Demand.ensures_scope fun _ _ => trivial
  | register id port => exact absurd rfl (hs id port)
  | start id port =>
    refine Demand.ensures_act fun r => ?_
    cases r with
    | error cause => exact .inr rfl
    | ok => cases job.kind <;> exact .inr rfl
  | probe id port =>
    refine Demand.ensures_health fun r => ?_
    cases r <;> exact .inr rfl
  | discard id error t =>
    refine (Termination.ensures_claimed id t).into (fun t' ht' => .inl ?_) fun _ _ => trivial
    cases t' <;> first | rfl | exact absurd rfl ht'
  | publish id =>
    refine Demand.ensures_scope fun _ p => ?_
    unfold publish
    split
    · trivial
    · split
      · trivial
      · simp only
        split
        · trivial
        · split <;> trivial

/-- An acquisition that has a sandbox in custody had it before, unless it picks one or registers it. -/
theorem Acquire.ensures_charge (block : String) {a : Point} (ha : a.Fits .multi) (hpick : a ≠ .pick)
    (hregister : ∀ id port, a ≠ .cold (.register id port)) :
    (demand config block a).Ensures fun next => (Strand.ofNext next).Keeps
      (fun a' => a'.charge? = none ∨ a'.charge? = a.charge?) fun _ => True := by
  have hcold : ∀ (error : PoolError) (p : Pool), (Strand.ofNext (coldOr error p).result).Keeps
      (fun a' => a'.charge? = none ∨ a'.charge? = a.charge?) fun _ => True := by
    intro error p
    unfold coldOr
    split
    · trivial
    · exact .inl rfl
  cases a with
  | pick => exact absurd rfl hpick
  | unpause id port =>
    refine Demand.ensures_act fun r => ?_
    cases r <;> exact .inr rfl
  | probe id port =>
    refine Demand.ensures_health fun r => ?_
    cases r <;> exact .inr rfl
  | rebind id =>
    refine Demand.ensures_scope fun _ p => ?_
    unfold rebind
    split
    · exact .inr rfl
    · simp only
      split
      · exact .inl rfl
      · next r _ =>
        cases hadmits : r.state.admits .idle with
        | false =>
          simp only [Record.move_of_not_admits (r := { r with busy := false }) hadmits]
          exact .inl rfl
        | true =>
          simp only [Record.move_of_admits (r := { r with busy := false }) hadmits,
            Spawn.bind_idle (r := { r with busy := false, state := .idle }) rfl]
          trivial
  | failed error =>
    refine Demand.ensures_scope fun _ p => ?_
    cases error <;> exact .inr rfl
  | retire id error t =>
    refine (Termination.ensures_claimed id t).into (fun t' ht' => .inl ?_) fun _ _ => .inl rfl
    cases t' <;> first | rfl | exact absurd rfl ht'
  | replace error => exact Demand.ensures_scope fun _ p => hcold error p
  | cold s =>
    have hs : ∀ id port, s ≠ .register id port := fun id port he => hregister id port (he ▸ rfl)
    refine (Spawn.ensures_charge _ hs).into (fun s' hs' => hs'.imp (fun h => ?_) fun h => ?_)
      fun _ _ => trivial
    · exact congrArg (Option.map _) h
    · exact congrArg (Option.map _) h
  | _ => cases ha

/-- A release that has a sandbox in custody had it before. -/
theorem Release.ensures_keeps (id : String) (point : Point) : (demand id point).Ensures
    fun next => (Strand.ofNext next).Keeps (fun point' => point'.keeps = true → point.keeps = true ∧
      (point' = .check → point = .check)) fun _ => True := by
  cases point with
  | check =>
    refine Demand.ensures_scope fun _ p => ?_
    unfold check
    split
    · trivial
    · split
      · trivial
      · split
        · trivial
        · exact fun _ => ⟨rfl, fun _ => rfl⟩
  | pause =>
    refine Demand.ensures_act fun r => ?_
    cases r <;> exact fun _ => ⟨rfl, Point.noConfusion⟩
  | discard cause t =>
    refine (Termination.ensures_claimed id t).into (fun t' ht' h => ?_) fun _ _ => trivial
    cases t' <;> first | exact absurd rfl ht' | cases h
  | park =>
    refine Demand.ensures_scope fun c p => ?_
    unfold park
    split
    · trivial
    · split
      · trivial
      · simp only
        split <;> trivial
  | drop =>
    refine Demand.ensures_scope fun _ p => ?_
    unfold drop
    split
    · trivial
    · split <;> trivial

/-- The sandbox that a tender keeps up: it has it in custody, and a release has looked at it. -/
def Tender.tends? : Tender → Option String
  | release _ .check => none
  | t => t.charge?.map (·.2)

namespace Tender

variable {t t' : Tender} {w : Bool}

theorem charge?_of_tends? (h : t.tends? = some id) : ∃ care, t.charge? = some (care, id) := by
  have hmap : t.charge?.map (·.2) = some id := by
    cases t with
    | release id' r =>
      cases r with
      | check => cases h
      | _ => exact h
    | _ => exact h
  obtain ⟨⟨care, id'⟩, hc, rfl⟩ := Option.map_eq_some_iff.1 hmap
  exact ⟨care, hc⟩

theorem Fresh.tends? (h : t.Fresh config) : t.tends? = none := by
  cases t with
  | spawn job s =>
    cases h
    rfl
  | acquire block a =>
    cases h
    unfold Acquire.start
    cases config.parallelism <;> rfl
  | release id r =>
    cases h
    unfold Release.start
    cases config.parallelism <;> rfl

theorem Stands.tends? (h : t.Stands id port out phase) : t.tends? = some id := by
  cases h with
  | spawn hkind h => cases h <;> rfl
  | acquire h =>
    cases h with
    | cold h => cases h <;> rfl
    | _ => rfl
  | release h => cases h <;> rfl

/-- Whoever is about to keep up a sandbox, to make it idle or to park it tends it. -/
theorem tends?_of_leaf (h : t.leaf.serves? = some id ∨ t.leaf.rouses? = some id ∨
    t.leaf = .release id .park) : t.tends? = some id := by
  have hspawn : ∀ {job : Spawn.Job} {s : Spawn.Point}, (s.leaf job).serves? = some id ∨
      (s.leaf job).rouses? = some id ∨ s.leaf job = .release id .park → s.charge? = some id := by
    intro job s h
    cases s <;> rcases h with h | h | h <;> cases h <;> rfl
  cases t with
  | spawn job s => simp [tends?, charge?, hspawn h]
  | acquire block a =>
    cases a with
    | cold s => simp [tends?, charge?, Acquire.Point.charge?, hspawn h]
    | shared s => simp [tends?, charge?, Acquire.Point.charge?, hspawn h]
    | _ => rcases h with h | h | h <;> cases h <;> rfl
  | release id' r => cases r <;> rcases h with h | h | h <;> cases h <;> rfl

theorem tends?_release {r : Release.Point} (h : r.keeps = true) (hcheck : r ≠ .check) :
    (release id r).tends? = some id := by
  cases r with
  | check => exact absurd rfl hcheck
  | discard cause s => cases s <;> first | rfl | cases h
  | drop => cases h
  | _ => rfl

theorem keeps_of_tends? {r : Release.Point} {id' : String} (h : (release id' r).tends? = some id) :
    id' = id ∧ r.keeps = true ∧ r ≠ .check := by
  obtain ⟨care, hc⟩ := charge?_of_tends? h
  obtain ⟨hkeeps, he⟩ := Option.ite_none_right_eq_some.1 hc
  cases he
  exact ⟨rfl, hkeeps, by rintro rfl; cases h⟩

/-- **Whoever begins to tend a sandbox enters its record or finds it at rest**: an acquisition finds it
paused and free, and a release finds it running. -/
theorem Turn.begins (hkind : ∀ job s, t = .spawn job s → job.kind = .service)
    (hfits : ∀ block a, t = .acquire block a → a.Fits .multi) (ht : t.tends? ≠ some id)
    (ht' : t'.tends? = some id) (h : t.Turn config c p out sig q (some t') w) :
    (t.leaf.enters? = some id ∧ ∃ r ∈ q.records, r.id = id ∧ t'.Stands id r.port w (.ready 0)) ∨
      ∃ r ∈ p.records, r.id = id ∧
        (r.state = .dormant ∧ p.claim? id = none ∨ t = .release id .check) ∧
        ∀ n, r.state.Rests n → t'.Stands id r.port w (.ready n) := by
  generalize ho : some t' = o at h
  cases h with
  | @spawn job s sc h =>
    obtain ⟨s', hs', rfl⟩ := Option.map_eq_some_iff.1 ho.symm
    by_cases hregister : ∃ id port, s = .register id port
    · obtain ⟨id', port, rfl⟩ := hregister
      obtain ⟨-, -, rfl⟩ := Demand.turn_scope h
      cases hs'
      cases ht'
      exact .inl ⟨rfl, _, List.mem_append_right _ (List.mem_singleton_self _), rfl,
        .spawn (hkind _ _ rfl) (.start false)⟩
    · have hlands := (Spawn.ensures_charge job fun id port he => hregister ⟨id, port, he⟩).lands h
        (.inr rfl)
      exfalso
      rcases hlands.of_point? hs' with hnone | hsame
      · simp [tends?, charge?, hnone] at ht'
      · exact ht (by simpa [tends?, charge?, hsame] using ht')
  | @acquire block a sc h =>
    obtain ⟨a', ha', rfl⟩ := Option.map_eq_some_iff.1 ho.symm
    by_cases hpick : a = .pick
    · subst hpick
      obtain ⟨-, -, rfl⟩ := Demand.turn_scope h
      simp only [Scope.map, Acquire.pick] at ha'
      cases hidle : Acquire.candidate? (·.selectable .idle) c p with
      | some r =>
        obtain ⟨-, -, hs⟩ := Acquire.mem_of_selectable hidle
        simp only [hidle, Acquire.take, Spawn.bind_idle hs] at ha'
        cases ha'
      | none =>
        cases hdormant : Acquire.candidate? (·.selectable .dormant) c p with
        | some r =>
          obtain ⟨hr, hfree, hs⟩ := Acquire.mem_of_selectable hdormant
          simp only [hidle, hdormant] at ha'
          cases ha'
          cases ht'
          refine .inr ⟨r, hr, rfl, .inl ⟨hs, hfree⟩, fun n hn => ?_⟩
          rw [hs] at hn
          exact .acquire (.unpause hn.1 hn.2 false)
        | none =>
          simp only [hidle, hdormant, Acquire.coldOr] at ha'
          split at ha' <;> cases ha'
          cases ht'
    · by_cases hregister : ∃ id port, a = .cold (.register id port)
      · obtain ⟨id', port, rfl⟩ := hregister
        obtain ⟨-, -, rfl⟩ := Demand.turn_scope h
        cases ha'
        cases ht'
        exact .inl ⟨rfl, _, List.mem_append_right _ (List.mem_singleton_self _), rfl,
          .acquire (.cold (.start false))⟩
      · have hlands := (Acquire.ensures_charge block (hfits _ _ rfl) hpick
          fun id port he => hregister ⟨id, port, he⟩).lands h (.inr rfl)
        exfalso
        rcases hlands.of_point? ha' with hnone | hsame
        · simp [tends?, charge?, hnone] at ht'
        · exact ht (by simpa [tends?, charge?, hsame] using ht')
  | @release id' point sc h =>
    obtain ⟨point', hpoint', rfl⟩ := Option.map_eq_some_iff.1 ho.symm
    obtain ⟨rfl, hkeeps', hlooked⟩ := keeps_of_tends? ht'
    by_cases hcheck : point = .check
    · subst hcheck
      obtain ⟨-, -, rfl⟩ := Demand.turn_scope h
      simp only [Scope.map, Release.check] at hpoint'
      split at hpoint'
      · cases hpoint'
      · next r hfind =>
        obtain ⟨hr, hid⟩ := Pool.mem_of_find? hfind
        split at hpoint'
        · cases hpoint'
        · split at hpoint'
          · cases hpoint'
          · next hadmits =>
            cases hpoint'
            refine .inr ⟨r, hr, hid, .inr rfl, fun n hn => .release (.pause ?_ false)⟩
            have hrunning : r.state = .running := by
              rw [State.check_eq_ok_iff] at hadmits
              cases hs : r.state <;> rw [hs] at hadmits <;> first | rfl | cases hadmits
            rwa [hrunning] at hn
    · have hlands := (Release.ensures_keeps id' point).lands h fun hk => ⟨hk, id⟩
      exact absurd (tends?_release (hlands.of_point? hpoint' hkeeps').1 hcheck) ht

/-- Whoever enters the record of a sandbox tends it from then on. -/
theorem Turn.enters {o : Option Tender} (h : t.Turn config c p out sig q o w)
    (hl : t.leaf.enters? = some id) : ∃ t', o = some t' ∧ t'.tends? = some id := by
  have hspawn : ∀ {job : Spawn.Job} {s : Spawn.Point}, (s.leaf job).enters? = some id →
      ∃ port, s = .register id port := by
    intro job s h
    cases s <;> cases h
    exact ⟨_, rfl⟩
  cases h with
  | spawn h =>
    obtain ⟨port, rfl⟩ := hspawn hl
    obtain ⟨-, -, rfl⟩ := Demand.turn_scope h
    exact ⟨_, rfl, rfl⟩
  | @acquire block a sc h =>
    cases a with
    | cold s =>
      obtain ⟨port, rfl⟩ := hspawn hl
      obtain ⟨-, -, rfl⟩ := Demand.turn_scope h
      exact ⟨_, rfl, rfl⟩
    | shared s =>
      obtain ⟨port, rfl⟩ := hspawn hl
      obtain ⟨-, -, rfl⟩ := Demand.turn_scope h
      exact ⟨_, rfl, rfl⟩
    | _ => cases hl
  | @release id' r sc h => cases r <;> cases hl

end Tender

/-! ## Sandboxes that others work on -/

/-- A sandbox that rests goes on to rest in the turn of a leaf that does not work on it. -/
theorem Leaf.Passes.rests {l : Leaf} {e : List Event} {r' : Record} (h : l.Passes p q e)
    (hrouse : l.rouses? ≠ some id) (hpark : l ≠ .release id .park) (hnew : l.enters? ≠ some id)
    (hr' : r' ∈ q.records) (hid : r'.id = id) (hlive : r'.live = true) :
    ∃ r ∈ p.records, r.id = id ∧ ∀ n, r.state.Rests n → r'.state.Rests n := by
  have hold : r' ∈ p.records → ∃ r ∈ p.records, r.id = id ∧ ∀ n, r.state.Rests n → r'.state.Rests n :=
    fun hmem => ⟨r', hmem, hid, fun _ h => h⟩
  cases h with
  | still hq => exact hold (hq ▸ hr')
  | enters hl port now =>
    rcases List.mem_append.1 hr' with hr' | hr'
    · exact hold (List.mem_filter.1 hr').1
    · obtain rfl := List.mem_singleton.1 hr'
      exact absurd (hl.trans (congrArg some hid)) hnew
  | @passes _ _ r _ hr hq hpassage =>
    rcases (Pool.mem_put hq hr hpassage.id_eq).1 hr' with rfl | ⟨hmem, -⟩
    · obtain rfl : r.id = id := hpassage.id_eq.symm.trans hid
      refine ⟨r, hr, rfl, fun n hrests => ?_⟩
      cases hpassage with
      | keep _ hs => rwa [hs]
      | publish _ hl => exact absurd hl hrouse
      | bind _ _ _ _ hl => exact absurd hl hrouse
      | take _ hi _ hs =>
        rw [hi] at hrests
        rw [hs]
        exact hrests
      | park hl => exact absurd hl hpark
      | settle _ _ hs =>
        rw [Record.live, hs] at hlive
        cases hlive
      | enter _ hi =>
        rw [hi] at hrests
        exact hrests
      | join => exact hrests
      | drop => exact hrests
    · exact hold hmem

/-- A release parks no sandbox but its own. -/
theorem Release.mem_of_park {r' : Record} (hr' : r' ∈ (park id c p).pool.records) (hne : r'.id ≠ id) :
    r' ∈ p.records := by
  unfold park at hr'
  cases hf : p.find? id with
  | none => simpa [hf] using hr'
  | some r =>
    obtain ⟨hr, rfl⟩ := Pool.mem_of_find? hf
    have hput : ∀ {r₁ : Record}, r' ∈ (p.put r₁).records → r₁.id = r.id → r' ∈ p.records := by
      intro r₁ hmem hid
      rcases (Pool.mem_put rfl hr hid).1 hmem with rfl | ⟨hmem, -⟩
      · exact absurd hid hne
      · exact hmem
    simp only [hf] at hr'
    split at hr'
    · exact hr'
    · split at hr'
      · exact hput hr' rfl
      · exact hput hr' rfl

/-- A sandbox goes on to rest in a turn of a leaf that neither makes it idle nor parks it, unless it has
just got its record. -/
theorem Leaf.rests_of_turn {l : Leaf} {e : List Effect} {res : Option Unit} {r' : Record}
    (hl : l.Innermost) (h : (l.demand config).Turn c p out sig ⟨q, e, res⟩)
    (hwork : ¬ (l.rouses? = some id ∨ l = .release id .park)) (hnew : l.enters? ≠ some id)
    (hr' : r' ∈ q.records) (hid : r'.id = id) (hlive : r'.live = true) :
    ∃ r ∈ p.records, r.id = id ∧ ∀ n, r.state.Rests n → r'.state.Rests n := by
  by_cases hpark : ∃ id', l = .release id' .park
  · obtain ⟨id', rfl⟩ := hpark
    obtain ⟨-, -, hscope⟩ := Demand.turn_scope h
    cases hscope
    refine ⟨r', Release.mem_of_park hr' fun he => hwork (.inr ?_), hid, fun _ h => h⟩
    rw [← he, hid]
  · have hpasses := Leaf.passes hl h fun id' he => absurd ⟨id', he⟩ hpark
    exact hpasses.rests (fun he => hwork (.inl he)) (fun he => hpark ⟨id, he⟩) hnew hr' hid hlive

namespace Machine

variable {m : Machine} {move : Move} {k : Key} {l : Leaf}

/-- A leaf that works on a sandbox that nobody ends is one of a tender. -/
theorem tends_of_leaf? (ho : m.Ordered) (hl : m.leaf? k = some l)
    (h : l.serves? = some id ∨ l.rouses? = some id ∨ l = .release id .park) :
    ∃ t, m.tender? k = some t ∧ t.leaf = l ∧ t.tends? = some id := by
  have htends : l.tends = true := by
    cases l <;> first | rfl | (rcases h with h | h | h <;> cases h)
  obtain ⟨t, ht, rfl⟩ := tender?_of_leaf? ho hl htends
  exact ⟨t, ht, rfl, Tender.tends?_of_leaf h⟩

/-- A move tells of the upkeep of a sandbox only if whoever moves tends it. -/
theorem upkeep_stays {h : History} (ho : m.Ordered)
    (hno : ∀ t, m.tender? (m.mover move) = some t → t.tends? ≠ some id) :
    (h ++ [(m, move)]).upkeep id = h.upkeep id := by
  have hnone : (m.leaf? (m.mover move)).bind (·.upkeep? id (m.signal? move)) = none := by
    cases hl : m.leaf? (m.mover move) with
    | none => rfl
    | some l =>
      refine if_neg fun hserves => ?_
      obtain ⟨t, ht, -, htends⟩ := tends_of_leaf? ho hl (.inl hserves)
      exact hno t ht htends
  rw [History.upkeep_append, hnone]
  exact List.append_nil _

end Machine

end SandboxPool
