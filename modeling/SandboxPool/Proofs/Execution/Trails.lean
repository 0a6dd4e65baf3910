import SandboxPool.Proofs.Execution.Discipline
import SandboxPool.Proofs.Execution.Strides
import SandboxPool.Proofs.Settled

/-!
# The trail of an execution

`History.trail` has what is seen of an execution: the blocks that it dispatches, the marks that these
leave, and the beginning of a teardown. Where the execution is at work on a block is its errand there
(`Execution.errand?`). Every stride of an execution in which nothing panics but a runner keeps that both
fit (`Execution.Trailed.stride`), and so does every move of a machine (`Machine.Reaches.trailed`).
-/

namespace SandboxPool

namespace Execution

variable {config : Config} {plan : Plan} {c : Context} {p : Pool} {t t' : Run} {place : Nat}
  {sig : Option Signal} {sc : Scope Run} {s : Progress} {trail : List Entry}

/-! ## Blocks that are under way -/

/-- The lane of a group that is under way. -/
def groupLane? : Strand Point Result → Option Nat
  | .ready (.dispatch s ..) | .ready (.gather s ..) => some s.index
  | _ => none

/-- The block that a member runs. -/
def memberErrand? (lane : Nat) : Strand Duty Yield → Option Errand
  | .ready (.run block b) => some ⟨lane, block, .ready b⟩
  | .waiting (.run block b) => some ⟨lane, block, .waiting b⟩
  | _ => none

/-- The only block of a lane, which the execution runs itself. -/
def soloErrand? : Strand Point Result → Option Errand
  | .ready (.solo s block b) => some ⟨s.index, block, .ready b⟩
  | .waiting (.solo s block b) => some ⟨s.index, block, .waiting b⟩
  | _ => none

/-- The block that a place of an execution runs. -/
def errand? (t : Run) : Nat → Option Errand
  | 0 => soloErrand? t.leader
  | serial + 1 =>
    (groupLane? t.leader).bind fun lane => (t.member? serial).bind fun x => memberErrand? lane x.strand

/-- Where a member that runs a block is, or what it has come to. -/
def memberStrand? : Strand Duty Yield → Option (Strand BlockRun.Point BlockResult)
  | .ready (.run _ b) => some (.ready b)
  | .waiting (.run _ b) => some (.waiting b)
  | .done (.ran r) => some (.done r)
  | .panicked message => some (.panicked message)
  | _ => none

/-- Where the only block of a lane is, or what it has come to. -/
def soloStrand? : Strand Point Result → Option (Strand BlockRun.Point BlockResult)
  | .ready (.solo _ _ b) => some (.ready b)
  | .waiting (.solo _ _ b) => some (.waiting b)
  | .ready (.settle _ [r] _) => some (.done r)
  | .panicked message => some (.panicked message)
  | _ => none

/-- Where the block of a place is when the place has just taken a turn. -/
def strand? (t : Run) : Nat → Option (Strand BlockRun.Point BlockResult)
  | 0 => soloStrand? t.leader
  | serial + 1 => (t.went? serial).bind memberStrand?

/-! ## What is seen of a turn -/

/-- The place of the block that an execution dispatches next. -/
def seat (t : Run) : Nat :=
  match t.leader with
  | .ready (.dispatch ..) => t.hired + 1
  | _ => 0

/-- The mark that the turn of a place leaves. -/
def turnMark? (config : Config) (c : Context) (p : Pool) (sig : Option Signal) (place : Nat)
    (t t' : Run) : Option Entry :=
  (errand? t place).bind fun e => (strand? t' place).bind fun st =>
    (BlockRun.mark? config e.block c p sig e.strand st).map (.mark e.lane place)

/-- The turn of a place begins a teardown. -/
def tearsDown (place : Nat) (t : Run) : Bool :=
  match place, t.leader with
  | 0, .ready (.teardown ..) => true
  | _, _ => false

/-- What is seen of the turn of a place. -/
def entries (config : Config) (c : Context) (p : Pool) (sig : Option Signal) (place : Nat)
    (t t' : Run) : List Entry :=
  (dispatches c.aborted place t).map (fun d => .dispatch d.1 (seat t) d.2) ++
    (if tearsDown place t then [.teardown] else []) ++ (turnMark? config c p sig place t t').toList

/-- The lanes that may have been seen when an execution is at a point are those below. -/
def laneBound? : Strand Point Result → Option Nat
  | .ready .begin => some 0
  | .ready (.lane s) => some s.index
  | .ready (.solo s ..) | .waiting (.solo s ..) | .ready (.dispatch s ..) | .ready (.gather s ..)
  | .ready (.settle s ..) => some (s.index + 1)
  | _ => none

/-- What is seen of an execution fits where it is. -/
structure Trailed (trail : List Entry) (t : Run) : Prop where
  tracks : Tracks trail (errand? t)
  places : ∀ lane place block, .dispatch lane place block ∈ trail → place ≤ t.hired
  lanes : ∀ bound, laneBound? t.leader = some bound →
    ∀ lane place block, .dispatch lane place block ∈ trail → lane < bound

/-- The lane that is under way. -/
def openLane? : Strand Point Result → Option Nat
  | .ready (.solo s ..) | .waiting (.solo s ..) => some s.index
  | st => groupLane? st

theorem memberErrand?_lane {lane : Nat} {st : Strand Duty Yield} {e : Errand}
    (h : memberErrand? lane st = some e) : e.lane = lane := by
  unfold memberErrand? at h
  split at h <;> cases h <;> rfl

theorem soloErrand?_lane {leader : Strand Point Result} {e : Errand}
    (h : soloErrand? leader = some e) : openLane? leader = some e.lane := by
  unfold soloErrand? at h
  split at h <;> cases h <;> rfl

theorem openLane?_of_group {leader : Strand Point Result} {lane : Nat}
    (h : groupLane? leader = some lane) :
    openLane? leader = some lane ∧ soloErrand? leader = none := by
  unfold groupLane? at h
  split at h <;> cases h <;> exact ⟨rfl, rfl⟩

/-- All blocks that an execution runs are of the lane that is under way. -/
theorem errand?_lane {e : Errand} (h : errand? t place = some e) : openLane? t.leader = some e.lane := by
  cases place with
  | zero => exact soloErrand?_lane h
  | succ serial =>
    obtain ⟨lane, hlane, h⟩ := Option.bind_eq_some_iff.1 h
    obtain ⟨x, -, h⟩ := Option.bind_eq_some_iff.1 h
    rw [memberErrand?_lane h]
    exact (openLane?_of_group hlane).1

theorem errand?_eq_none (h : openLane? t.leader = none) (place : Nat) : errand? t place = none := by
  cases he : errand? t place with
  | none => rfl
  | some e =>
    rw [errand?_lane he] at h
    cases h

/-- A group runs the same blocks if its members are where they were. -/
theorem errand?_congr (lane : Nat) (hl : groupLane? t.leader = some lane)
    (hl' : groupLane? t'.leader = some lane) (hm : ∀ serial, t'.member? serial = t.member? serial)
    (place : Nat) : errand? t' place = errand? t place := by
  cases place with
  | zero =>
    show soloErrand? t'.leader = soloErrand? t.leader
    rw [(openLane?_of_group hl).2, (openLane?_of_group hl').2]
  | succ serial => simp only [errand?, hl, hl', hm]

/-- Nothing is seen of a turn of the execution itself that neither dispatches a block nor runs one nor
begins a teardown. -/
theorem entries_eq_nil {point : Point} (hl : t.leader = .ready point)
    (hd : point.dispatches c.aborted = []) (hsolo : ∀ s block b, point ≠ .solo s block b)
    (hteardown : ∀ s index, point ≠ .teardown s index) : entries config c p sig 0 t t' = [] := by
  have herrand : errand? t 0 = none := by
    show soloErrand? t.leader = none
    rw [hl]
    cases point with
    | solo s block b => exact absurd rfl (hsolo s block b)
    | _ => rfl
  have htears : tearsDown 0 t = false := by
    unfold tearsDown
    rw [hl]
    cases point with
    | teardown s index => exact absurd rfl (hteardown s index)
    | _ => rfl
  have hdispatches : dispatches c.aborted 0 t = [] := by
    unfold dispatches
    rw [hl]
    exact hd
  unfold entries turnMark?
  rw [hdispatches, htears, herrand]
  rfl

/-- What is seen of the turn of a place that dispatches nothing and begins no teardown is its mark. -/
theorem entries_eq_mark (hd : dispatches c.aborted place t = [])
    (ht : tearsDown place t = false) : entries config c p sig place t t' = (turnMark? config c p sig place t t').toList := by
  unfold entries
  rw [hd, ht]
  rfl

/-- What the turn of a block leaves. -/
theorem turnMark?_eq {e : Errand} {st : Strand BlockRun.Point BlockResult} (he : errand? t place = some e)
    (hst : strand? t' place = some st) :
    turnMark? config c p sig place t t' = (BlockRun.mark? config e.block c p sig e.strand st).map (.mark e.lane place) := by
  simp only [turnMark?, he, hst, Option.bind_some]

namespace Trailed

/-- A turn of which nothing is seen. -/
theorem quiet (h : Trailed trail t) (hnone : entries config c p sig place t t' = [])
    (hw : ∀ place, errand? t' place = errand? t place) (hh : t.hired ≤ t'.hired)
    (hb : ∀ bound, laneBound? t'.leader = some bound →
      ∃ bound', laneBound? t.leader = some bound' ∧ bound' ≤ bound) :
    Trailed (trail ++ entries config c p sig place t t') t' := by
  rw [hnone, List.append_nil]
  refine ⟨h.tracks.congr hw, fun l p b hd => (h.places l p b hd).trans hh, fun bound hbound => ?_⟩
  obtain ⟨bound', hbefore, hle⟩ := hb bound hbound
  exact fun l p b hd => (h.lanes bound' hbefore l p b hd).trans_le hle

/-- A turn of the execution itself where no lane is under way. -/
theorem rest {point : Point} (h : Trailed trail t) (hl : t.leader = .ready point)
    (hd : point.dispatches c.aborted = []) (hteardown : ∀ s index, point ≠ .teardown s index)
    (hnone : openLane? (.ready point) = none) (hnone' : openLane? t'.leader = none)
    (hh : t.hired ≤ t'.hired)
    (hb : ∀ bound, laneBound? t'.leader = some bound →
      ∃ bound', laneBound? t.leader = some bound' ∧ bound' ≤ bound) :
    Trailed (trail ++ entries config c p sig 0 t t') t' := by
  refine h.quiet (entries_eq_nil hl hd ?_ hteardown) (fun place => ?_) hh hb
  · rintro s block b rfl
    cases hnone
  · rw [← hl] at hnone
    rw [errand?_eq_none hnone, errand?_eq_none hnone']

/-- A turn of the execution itself after which no lane comes any more. -/
theorem close {point : Point} (h : Trailed trail t) (hl : t.leader = .ready point)
    (hd : point.dispatches c.aborted = []) (hteardown : ∀ s index, point ≠ .teardown s index)
    (hnone : openLane? (.ready point) = none) (hnone' : openLane? t'.leader = none)
    (hb : laneBound? t'.leader = none) (hh : t.hired ≤ t'.hired) :
    Trailed (trail ++ entries config c p sig 0 t t') t' := by
  refine h.rest hl hd hteardown hnone hnone' hh fun bound hbound => ?_
  rw [hb] at hbound
  cases hbound

/-- The execution dispatches a block, in the lane that is under way. -/
theorem dispatch {lane : Nat} {block : String} (h : Trailed trail t)
    (hentries : entries config c p sig 0 t t' = [.dispatch lane place block])
    (hnew : ∀ b, .dispatch lane place b ∉ trail)
    (hlane : ∀ q e, errand? t q = some e → e.lane = lane)
    (hw : errand? t' = Function.update (errand? t) place (some ⟨lane, block, .ready .begin⟩))
    (hp : place ≤ t'.hired) (hh : t.hired ≤ t'.hired)
    (hbefore : ∀ l q b, .dispatch l q b ∈ trail → l < lane + 1)
    (hb : laneBound? t'.leader = some (lane + 1)) :
    Trailed (trail ++ entries config c p sig 0 t t') t' := by
  rw [hentries]
  refine ⟨hw ▸ h.tracks.dispatch hnew hlane block, fun l q b hd => ?_, fun bound hbound l q b hd => ?_⟩
  · rcases mem_dispatch_snoc.1 hd with hd | ⟨-, rfl, -⟩
    · exact (h.places l q b hd).trans hh
    · exact hp
  · rw [hb] at hbound
    cases hbound
    rcases mem_dispatch_snoc.1 hd with hd | ⟨rfl, -, -⟩
    · exact hbefore l q b hd
    · exact Nat.lt_succ_self _

/-- The execution dispatches the only block of a lane. -/
theorem block {id : String} {rest : List Lane} (h : Trailed trail t) (hl : t.leader = .ready (.lane s))
    (hr : s.rest = .block id :: rest) (haborted : c.aborted = false) :
    Trailed (trail ++ entries config c p sig 0 t { t with leader := .ready (.solo s id .begin) })
      { t with leader := .ready (.solo s id .begin) } := by
  have hnone : openLane? t.leader = none := by
    rw [hl]
    rfl
  have hbound := h.lanes s.index (by rw [hl]; rfl)
  have hentries : entries config c p sig 0 t { t with leader := .ready (.solo s id .begin) }
      = [.dispatch s.index 0 id] := by
    have hd : dispatches c.aborted 0 t = [(s.index, id)] := by
      simp [dispatches, hl, Point.dispatches, hr, haborted]
    simp [entries, hd, seat, tearsDown, turnMark?, hl, errand?_eq_none hnone]
  refine h.dispatch hentries (fun b hd => Nat.lt_irrefl _ (hbound _ _ _ hd)) (fun q e he => ?_)
    (funext fun q => ?_) (Nat.zero_le _) (Nat.le_refl _)
    (fun l q b hd => Nat.lt_succ_of_lt (hbound l q b hd)) rfl
  · rw [errand?_eq_none hnone] at he
    cases he
  · cases q with
    | zero =>
      rw [Function.update_self]
      rfl
    | succ serial =>
      rw [Function.update_of_ne (Nat.succ_ne_zero serial), errand?_eq_none hnone]
      rfl

/-- The execution dispatches a block of a group. -/
theorem hire {block : String} {sent waiting : List String} (ho : t.Ordered) (h : Trailed trail t)
    (hl : t.leader = .ready (.dispatch s sent (block :: waiting))) (haborted : c.aborted = false)
    (ht : t' = { t with
      leader := .ready (.dispatch s (sent ++ [block]) waiting)
      active := t.active ++ Team.enrol t.hired [(block, .run block .begin)]
      hired := t.hired + 1 }) :
    Trailed (trail ++ entries config c p sig 0 t t') t' := by
  have hgroup : groupLane? t.leader = some s.index := by
    rw [hl]
    rfl
  have hgroup' : groupLane? t'.leader = some s.index := by
    rw [ht]
    rfl
  have hentries : entries config c p sig 0 t t' = [.dispatch s.index (t.hired + 1) block] := by
    have hd : dispatches c.aborted 0 t = [(s.index, block)] := by
      simp [dispatches, hl, Point.dispatches, haborted]
    have herrand : errand? t 0 = none := (openLane?_of_group hgroup).2
    simp [entries, hd, seat, tearsDown, turnMark?, hl, herrand]
  have hmember : ∀ serial, t'.member? serial
      = if serial = t.hired then some ⟨t.hired, block, .ready (.run block .begin)⟩
        else t.member? serial := by
    intro serial
    have hsplit : t'.member? serial = (t.member? serial).or
        (if t.hired = serial then some ⟨t.hired, block, .ready (.run block .begin)⟩ else none) := by
      rw [ht]
      simp [Team.member?, Team.enrol, List.find?_append, List.find?_singleton]
    rw [hsplit]
    by_cases he : serial = t.hired
    · subst he
      have hold : t.member? t.hired = none := by
        refine List.find?_eq_none.2 fun x hx => ?_
        have hlt := ho.lt x hx
        simp only [beq_iff_eq]
        omega
      rw [hold, if_pos rfl, Option.none_or]
    · rw [if_neg he, if_neg fun h => he h.symm, Option.or_none]
  refine h.dispatch hentries (fun b hd => Nat.not_succ_le_self _ (h.places _ _ _ hd)) (fun q e he => ?_)
    (funext fun q => ?_) (Nat.le_of_eq (by rw [ht])) (by rw [ht]; exact Nat.le_succ _)
    (h.lanes (s.index + 1) (by rw [hl]; rfl)) (by rw [ht]; rfl)
  · have hlane := errand?_lane he
    rw [(openLane?_of_group hgroup).1] at hlane
    exact (Option.some.inj hlane).symm
  · cases q with
    | zero =>
      rw [Function.update_of_ne (Nat.succ_ne_zero _).symm]
      show soloErrand? t'.leader = soloErrand? t.leader
      rw [(openLane?_of_group hgroup).2, (openLane?_of_group hgroup').2]
    | succ serial =>
      show ((groupLane? t'.leader).bind fun lane => (t'.member? serial).bind fun x =>
        memberErrand? lane x.strand) = _
      rw [hgroup', hmember]
      by_cases he : serial = t.hired
      · subst he
        rw [if_pos rfl, Function.update_self]
        rfl
      · rw [if_neg he, Function.update_of_ne (fun h => he (Nat.succ.inj h))]
        simp only [errand?, hgroup]

/-- The execution begins a teardown. -/
theorem teardown {index : Nat} (h : Trailed trail t)
    (hl : t.leader = .ready (.teardown s index)) (hnone' : openLane? t'.leader = none)
    (hb : laneBound? t'.leader = none) (hh : t.hired ≤ t'.hired) :
    Trailed (trail ++ entries config c p sig 0 t t') t' := by
  have hnone : openLane? t.leader = none := by
    rw [hl]
    rfl
  have hentries : entries config c p sig 0 t t' = [.teardown] := by
    have hd : dispatches c.aborted 0 t = [] := by
      simp [dispatches, hl, Point.dispatches]
    simp [entries, hd, tearsDown, turnMark?, hl, errand?_eq_none hnone]
  rw [hentries]
  refine ⟨(h.tracks.teardown fun place => errand?_eq_none hnone place).congr fun place => ?_,
    fun l q b hd => (h.places l q b ((mem_dispatch_append rfl).1 hd)).trans hh, fun bound hbound => ?_⟩
  · rw [errand?_eq_none hnone, errand?_eq_none hnone']
  · rw [hb] at hbound
    cases hbound

/-- A block takes a turn, wherever it is run. -/
theorem turn {e : Errand} {st : Strand BlockRun.Point BlockResult} (h : Trailed trail t)
    (he : errand? t place = some e) (hst : strand? t' place = some st)
    (hentries : entries config c p sig place t t' = (turnMark? config c p sig place t t').toList)
    (hm : BlockRun.Marked e.block
      (marks trail e.lane place ++ (BlockRun.mark? config e.block c p sig e.strand st).toList) st)
    (hw : errand? t' = Function.update (errand? t) place
      (if st.ended then none else some { e with strand := st }))
    (hh : t'.hired = t.hired)
    (hb : ∀ bound, laneBound? t'.leader = some bound → laneBound? t.leader = some bound) :
    Trailed (trail ++ entries config c p sig place t t') t' := by
  have hlane : ∀ q e', errand? t q = some e' → e'.lane = e.lane := fun q e' he' =>
    Option.some.inj ((errand?_lane he').symm.trans (errand?_lane he))
  rw [hentries, turnMark?_eq he hst]
  refine ⟨hw ▸ h.tracks.turn he hlane hm, fun l q b hd => ?_, fun bound hbound l q b hd => ?_⟩ <;>
    rw [mem_dispatch_append (dispatched_mark _)] at hd
  · exact hh ▸ h.places l q b hd
  · exact h.lanes bound (hb bound hbound) l q b hd

end Trailed

/-! ## The marks of blocks -/

theorem mark?_panicked {block message : String} {before : Strand BlockRun.Point BlockResult} :
    BlockRun.mark? config block c p sig before (.panicked message) = some .brokeOff := rfl

/-- A block of which no panic is seen has not panicked. -/
theorem not_panicked {e : Errand} {st : Strand BlockRun.Point BlockResult}
    (he : errand? t place = some e) (hst : strand? t' place = some st)
    (hsafe : ∀ x ∈ entries config c p sig place t t', x.brokeOff = false) (message : String) :
    st ≠ .panicked message := by
  rintro rfl
  have hmark : turnMark? config c p sig place t t' = some (.mark e.lane place .brokeOff) := by
    rw [turnMark?_eq he hst, mark?_panicked]
    rfl
  have hmem : Entry.mark e.lane place .brokeOff ∈ entries config c p sig place t t' := by
    unfold entries
    rw [hmark]
    exact List.mem_append_right _ (List.mem_singleton_self _)
  cases hsafe _ hmem

/-- The execution itself runs the only block of a lane. -/
theorem errand?_solo {block : String} {b : BlockRun.Point} {out : Bool}
    (hl : t.leader = .standing (.solo s block b) out) :
    errand? t 0 = some ⟨s.index, block, .standing b out⟩ := by
  show soloErrand? t.leader = _
  rw [hl]
  cases out <;> rfl

theorem strand?_solo {block : String} {b : BlockRun.Point} {r : Option (Next BlockRun.Point BlockResult)}
    (hl : t'.leader = .land (.solo s block b)
      (r.map (.into (.solo s block) fun r => .goto (.settle s [r] false)))) :
    strand? t' 0 = some (.land b r) := by
  show soloStrand? t'.leader = _
  rw [hl]
  cases r with
  | none => rfl
  | some next => cases next <;> rfl

/-- A member runs a block of a group. -/
theorem errand?_run {n lane : Nat} {m : Member String Duty Yield} {block : String} {b : BlockRun.Point}
    {out : Bool} (hlane : groupLane? t.leader = some lane) (hm : t.member? n = some m)
    (hs : m.strand = .standing (.run block b) out) :
    errand? t (n + 1) = some ⟨lane, block, .standing b out⟩ := by
  simp only [errand?, hlane, hm, Option.bind_some, hs]
  cases out <;> rfl

theorem strand?_run {n : Nat} {m : Member String Duty Yield} {block : String} {b : BlockRun.Point}
    {r : Option (Next BlockRun.Point BlockResult)} (ho : t.Ordered) (hm : t.member? n = some m) :
    strand? (t.update m (.land (.run block b) (r.map (.into (.run block) fun r => .done (.ran r)))))
      (n + 1) = some (.land b r) := by
  simp only [strand?, Team.went?_update ho hm, Option.bind_some]
  cases r with
  | none => rfl
  | some next => cases next <;> rfl

namespace Trailed

/-- The execution itself takes a turn of a block. -/
theorem solo {block : String} {b : BlockRun.Point} {out : Bool}
    {s₀ : Scope (Option (Next BlockRun.Point BlockResult))} (h : Trailed trail t)
    (hl : t.leader = .standing (.solo s block b) out)
    (hturn : (BlockRun.demand config block b).Turn c p out sig s₀)
    (ht : t' = { t with
      leader := .land (.solo s block b)
        (s₀.result.map (.into (.solo s block) fun r => .goto (.settle s [r] false))) })
    (hsafe : ∀ x ∈ entries config c p sig 0 t t', x.brokeOff = false) :
    Trailed (trail ++ entries config c p sig 0 t t') t' := by
  have he := errand?_solo hl
  have hst : strand? t' 0 = some (.land b s₀.result) := strand?_solo (by rw [ht])
  have hd : dispatches c.aborted 0 t = [] := by
    unfold dispatches
    rw [hl]
    cases out <;> rfl
  have htears : tearsDown 0 t = false := by
    unfold tearsDown
    rw [hl]
    cases out <;> rfl
  have hgroup : groupLane? t.leader = none := by
    rw [hl]
    cases out <;> rfl
  have hgroup' : groupLane? t'.leader = none := by
    rw [ht]
    cases s₀.result with
    | none => rfl
    | some next => cases next <;> rfl
  refine h.turn he hst (entries_eq_mark hd htears)
    ((h.tracks.marked 0 _ he).2.turn hturn (not_panicked he hst hsafe)) (funext fun q => ?_)
    (by rw [ht]) fun bound hb => ?_
  · cases q with
    | zero =>
      rw [Function.update_self]
      show soloErrand? t'.leader = _
      rw [ht]
      cases s₀.result with
      | none => rfl
      | some next => cases next <;> rfl
    | succ serial =>
      rw [Function.update_of_ne (Nat.succ_ne_zero serial)]
      simp only [errand?, hgroup, hgroup', Option.bind_none]
  · have hbefore : laneBound? t.leader = some (s.index + 1) := by
      rw [hl]
      cases out <;> rfl
    rw [hbefore, ← hb, ht]
    rw [ht] at hb
    cases hresult : s₀.result with
    | none => rfl
    | some next =>
      cases next with
      | panic message =>
        rw [hresult] at hb
        cases hb
      | _ => rfl

/-- Only the member that takes a turn runs something else behind it. -/
theorem errand?_update (ho : t.Ordered) {n : Nat} {m : Member String Duty Yield}
    (hm : t.member? n = some m) (st : Strand Duty Yield) : errand? (t.update m st)
      = Function.update (errand? t) (n + 1) ((groupLane? t.leader).bind (memberErrand? · st)) := by
  funext q
  have hserial : m.serial = n := (Team.member?_split ho hm).1
  cases q with
  | zero =>
    rw [Function.update_of_ne (Nat.succ_ne_zero n).symm]
    simp only [errand?, Team.update_leader]
  | succ k =>
    by_cases hk : k = n
    · subst hk
      rw [Function.update_self]
      simp only [errand?, Team.update_leader, Team.member?_update_self ho hm]
      cases st <;> rfl
    · rw [Function.update_of_ne fun he => hk (Nat.succ.inj he)]
      simp only [errand?, Team.update_leader, Team.member?_update_of_ne (hserial.symm ▸ hk)]

/-- A member takes a turn. -/
theorem member {n : Nat} {m : Member String Duty Yield} {sc : Scope (Strand Duty Yield)}
    (ho : t.Ordered) (h : Trailed trail t) (hm : t.member? n = some m)
    (hturn : m.strand.Turn (Execution.member config) c p sig sc)
    (hsafe : ∀ x ∈ entries config c p sig (n + 1) t (t.update m sc.result), x.brokeOff = false) :
    Trailed (trail ++ entries config c p sig (n + 1) t (t.update m sc.result)) (t.update m sc.result) := by
  have hupdate := errand?_update ho hm sc.result
  have hbound : laneBound? (t.update m sc.result).leader = laneBound? t.leader := by
    rw [Team.update_leader]
  have hentries : entries config c p sig (n + 1) t (t.update m sc.result)
      = (turnMark? config c p sig (n + 1) t (t.update m sc.result)).toList := entries_eq_mark rfl rfl
  -- a member that runs no block is not seen
  have hidle : errand? t (n + 1) = none →
      (groupLane? t.leader).bind (memberErrand? · sc.result) = none →
      Trailed (trail ++ entries config c p sig (n + 1) t (t.update m sc.result)) (t.update m sc.result) := by
    intro hnone hnone'
    refine h.quiet ?_ (fun q => ?_) (Nat.le_of_eq (Team.update_hired ..).symm)
      fun bound hb => ⟨bound, hbound ▸ hb, Nat.le_refl _⟩
    · rw [hentries]
      unfold turnMark?
      rw [hnone]
      rfl
    · rw [hupdate, hnone', ← hnone, Function.update_eq_self]
  obtain ⟨d, out, s₀, hs, hd, hresult⟩ := hturn.at_point
  cases hlane : groupLane? t.leader with
  | none => exact hidle (by simp only [errand?, hlane, Option.bind_none]) (by simp [hlane])
  | some lane =>
    cases d with
    | terminate id q =>
      obtain ⟨⟨_, _, r⟩, -, rfl⟩ := Demand.turn_map hd
      refine hidle ?_ ?_
      · simp only [errand?, hlane, hm, Option.bind_some, hs]
        cases out <;> rfl
      · rw [hlane, hresult]
        cases r with
        | none => rfl
        | some next => cases next <;> rfl
    | run block b =>
      obtain ⟨⟨_, _, r⟩, hrun, rfl⟩ := Demand.turn_map hd
      have he := errand?_run hlane hm hs
      have hst : strand? (t.update m sc.result) (n + 1) = some (.land b r) := by
        rw [hresult]
        exact strand?_run ho hm
      refine h.turn he hst hentries
        ((h.tracks.marked _ _ he).2.turn hrun (not_panicked he hst hsafe)) ?_
        (Team.update_hired ..) fun bound hb => hbound ▸ hb
      rw [hupdate, hlane, hresult]
      congr 1
      cases r with
      | none => rfl
      | some next => cases next <;> rfl

/-- **Every stride of an execution in which nothing panics but a runner keeps what is seen of it fitting
where it is.** Members are there only while the execution waits for them. -/
theorem stride (ho : t.Ordered) (hg : (Activity.execute plan t).Gathered) (h : Trailed trail t)
    (hs : Stride config plan c p t place sig sc)
    (hsafe : ∀ x ∈ entries config c p sig place t sc.result, x.brokeOff = false) :
    Trailed (trail ++ entries config c p sig place t sc.result) sc.result := by
  have hle : Nat.le t.hired t.hired := Nat.le_refl _
  cases hs with
  | refuse hl hc => exact h.close hl rfl (by simp) rfl rfl rfl hle
  | begin hl hc =>
    refine h.rest hl rfl (by simp) rfl rfl hle fun bound hb => ?_
    rw [hl]
    exact ⟨0, rfl, Nat.zero_le _⟩
  | @complete s hl hr =>
    have hd : (Point.lane s).dispatches c.aborted = [] := by simp [Point.dispatches, hr]
    exact h.close hl hd (by simp) rfl rfl rfl hle
  | @stop s first rest hl hr ha =>
    have hd : (Point.lane s).dispatches c.aborted = [] := by
      simp only [Point.dispatches, hr, ha]
      split <;> rfl
    exact h.close hl hd (by simp) rfl rfl rfl hle
  | block hl hr ha => exact h.block hl hr ha
  | @group s g rest hl hr ha =>
    have hd : (Point.lane s).dispatches c.aborted = [] := by simp [Point.dispatches, hr]
    have hnone : openLane? t.leader = none := by
      rw [hl]
      rfl
    have hempty : t.active = [] := Team.Gathered.active_of_point hg (congrArg Strand.point? hl) rfl
    refine h.quiet (entries_eq_nil hl hd (by simp) (by simp)) (fun q => ?_) hle fun bound hb => ?_
    · rw [errand?_eq_none hnone]
      cases q with
      | zero => rfl
      | succ serial => simp [errand?, groupLane?, Team.member?, hempty]
    · cases hb
      rw [hl]
      exact ⟨s.index, rfl, Nat.le_succ _⟩
  | solo hl hturn => exact h.solo hl hturn rfl hsafe
  | @hired s sent hl =>
    refine h.quiet (entries_eq_nil hl rfl (by simp) (by simp)) ?_ hle fun bound hb => ?_
    · exact errand?_congr s.index (by rw [hl]; rfl) rfl fun _ => rfl
    · cases hb
      rw [hl]
      exact ⟨_, rfl, Nat.le_refl _⟩
  | @interrupt s sent rest block hl ha =>
    have hd : (Point.dispatch s sent (block :: rest)).dispatches c.aborted = [] := by
      simp [Point.dispatches, ha]
    refine h.quiet (entries_eq_nil hl hd (by simp) (by simp)) ?_ hle fun bound hb => ?_
    · exact errand?_congr s.index (by rw [hl]; rfl) rfl fun _ => rfl
    · cases hb
      rw [hl]
      exact ⟨_, rfl, Nat.le_refl _⟩
  | hire hl ha => exact h.hire ho hl ha rfl
  | @gather s sent interrupted hl hempty =>
    refine h.quiet (entries_eq_nil hl rfl (by simp) (by simp)) (fun q => ?_) hle fun bound hb => ?_
    · cases q with
      | zero =>
        show none = soloErrand? t.leader
        rw [hl]
        rfl
      | succ serial => simp [errand?, groupLane?, Team.member?, hempty, hl]
    · cases hb
      rw [hl]
      exact ⟨_, rfl, Nat.le_refl _⟩
  | broken hl => exact h.close hl rfl (by simp) rfl rfl rfl hle
  | overruled hl ha => exact h.close hl rfl (by simp) rfl rfl rfl hle
  | halt hl ha hm hf => exact h.close hl rfl (by simp) rfl rfl rfl hle
  | @pass s ran hl ha hf =>
    refine h.rest hl rfl (by simp) rfl rfl hle fun bound hb => ?_
    cases hb
    rw [hl]
    exact ⟨s.index + 1, rfl, Nat.le_refl _⟩
  | abort hl => exact h.close hl rfl (by simp) rfl rfl rfl hle
  | spare hl hn => exact h.teardown hl rfl rfl hle
  | collect hl hn => exact h.teardown hl rfl rfl (Nat.le_add_right _ _)
  | cleared hl hempty => exact h.close hl rfl (by simp) rfl rfl rfl hle
  | finish hl => exact h.close hl rfl (by simp) rfl rfl rfl hle
  | member hm hturn => exact h.member ho hm hturn hsafe

end Trailed

end Execution

/-! ## The machine -/

/-- What is seen of an execution. -/
def History.trail (h : History) (n : Nat) : List Execution.Entry :=
  h.deeds (fun m move a =>
    match a, (m.next move).bind (·.1.activity? n) with
    | .execute _ t, some (.execute _ t') =>
      Execution.entries m.pool.config m.context m.pool (m.talk? move) (m.mover move).2 t t'
    | _, _ => []) n

namespace Machine

variable {pool : Pool} {now : Instant} {h : History} {m m' : Machine} {move : Move} {n place : Nat}
  {plan : Plan} {t : Execution.Run} {sig : Option Signal} {s : Scope Execution.Run}

/-- A stride adds what is seen of it. -/
theorem Strode.trail (hs : m.Strode n plan t move m' place sig s) :
    (h ++ [(m, move)]).trail n = h.trail n
      ++ Execution.entries m.pool.config m.context m.pool sig place t s.result := by
  obtain ⟨notes, hn, -⟩ := hs.next
  unfold History.trail
  rw [History.deeds_turn (congrArg Prod.fst hs.mover) hs.here]
  simp only [hn, hs.mover, Option.bind_some, hs.there, hs.talk]

/-- **What is seen of an execution fits where it is**, wherever the machine gets, as long as nothing panics
but a runner. -/
theorem Reaches.trailed (hr : (ofPool pool now).Reaches h m)
    (ha : m.activity? n = some (.execute plan t)) (hsafe : ∀ e ∈ h.trail n, e.brokeOff = false) :
    Execution.Trailed (h.trail n) t := by
  refine hr.executions
    (I := fun h t => (∀ e ∈ h.trail n, e.brokeOff = false) → Execution.Trailed (h.trail n) t)
    (Machine.ordered_ofPool pool now) (fun t h₀ => by cases h₀) (fun hr he _ => ?_) (fun hm ih hsafe => ?_)
    (fun hr hs ih hsafe => ?_) ha hsafe
  · subst he
    rw [show History.trail _ _ = [] from hr.withstands.deeds_new _]
    exact ⟨⟨fun _ _ _ hd => (by cases hd), fun place e he => (by cases place <;> cases he),
      fun _ _ _ hm => (by cases hm), .nil, .nil⟩, fun _ _ _ hd => (by cases hd),
      fun _ _ _ _ _ hd => (by cases hd)⟩
  · rw [show History.trail _ _ = _ from History.deeds_stay hm] at hsafe ⊢
    exact ih hsafe
  · rw [hs.trail] at hsafe ⊢
    have hbefore := ih fun e he => hsafe e (List.mem_append_left _ he)
    exact hbefore.stride hs.ordered (hr.gathered hs.here) hs.stride
      fun e he => hsafe e (List.mem_append_right _ he)

end Machine

end SandboxPool
