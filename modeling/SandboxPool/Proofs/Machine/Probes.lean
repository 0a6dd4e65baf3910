import SandboxPool.Proofs.Machine.Gate
import SandboxPool.Proofs.Machine.Tenders
import SandboxPool.Proofs.Machine.Upkeep

/-!
# Calls for sandboxes that no blocks share

Sandboxes are paused, unpaused and probed only where every block has one of its own. Where blocks share
a sandbox, nobody ever comes to a point that wants such a call (`Machine.Reaches.ask_shared`), and none
is ever made (`Machine.Reaches.signals_shared`).

All such points but one lie on paths of the other model. The last one is the probe of a spawn, and a
spawn comes to it only for a sandbox with a service (`Machine.Reaches.calm`).
-/

namespace SandboxPool

variable {config : Config} {c : Context} {p p' : Pool} {out : Bool} {sig : Option Signal}
  {block id : String}

/-- The call is made only for a sandbox that no blocks share. -/
def Call.exclusive : Call → Bool
  | .act .pause _ | .act .unpause _ | .health .. => true
  | _ => false

/-! ## Probes of spawns -/

/-- A spawn at the point probes only a sandbox with a service. -/
def Spawn.Point.Calm (kind : SpawnKind) : Spawn.Point → Prop
  | .probe .. => kind = .service
  | _ => True

/-- An acquisition at the point does not probe a sandbox that blocks share. -/
def Acquire.Point.Calm : Acquire.Point → Prop
  | .shared s => s.Calm .shared
  | _ => True

theorem Spawn.ensures_calm (job : Job) (s : Point) : (demand config job s).Ensures
    fun next => (Strand.ofNext next).Keeps (Point.Calm job.kind) fun _ => True := by
  cases s with
  | allocate =>
    refine Demand.ensures_scope fun _ p => ?_
    unfold allocate
    split <;> trivial
  | create spec port =>
    refine Demand.ensures_create fun r => ?_
    cases r <;> trivial
  | giveBack port cause => exact Demand.ensures_scope fun _ _ => trivial
  | register id port => exact Demand.ensures_scope fun _ _ => trivial
  | start id port =>
    refine Demand.ensures_act fun r => ?_
    cases r with
    | error cause => trivial
    | ok =>
      cases hkind : job.kind with
      | service => rfl
      | shared => trivial
  | probe id port =>
    refine Demand.ensures_health fun r => ?_
    cases r <;> trivial
  | discard id error t => exact (Demand.ensures_true _).into (fun _ _ => trivial) fun _ _ => trivial
  | publish id =>
    refine Demand.ensures_scope fun _ p => ?_
    unfold publish
    split
    · trivial
    · split
      · trivial
      · simp only
        split
        · trivial
        · split <;> trivial

theorem Acquire.ensures_calm (a : Point) : (demand config block a).Ensures
    fun next => (Strand.ofNext next).Keeps Point.Calm fun _ => True := by
  have hcold : ∀ (error : PoolError) (p : Pool),
      (Strand.ofNext (coldOr error p).result).Keeps Point.Calm fun _ => True := by
    intro error p
    unfold coldOr
    split <;> trivial
  cases a with
  | pick =>
    refine Demand.ensures_scope fun _ p => ?_
    unfold pick
    split
    · unfold take
      split <;> trivial
    · trivial
    · exact hcold _ p
  | unpause id port =>
    refine Demand.ensures_act fun r => ?_
    cases r <;> trivial
  | probe id port =>
    refine Demand.ensures_health fun r => ?_
    cases r <;> trivial
  | rebind id =>
    refine Demand.ensures_scope fun _ p => ?_
    unfold rebind
    split
    · trivial
    · simp only
      split
      · trivial
      · split
        · trivial
        · split <;> trivial
  | failed error =>
    refine Demand.ensures_scope fun _ p => ?_
    cases error <;> trivial
  | retire id error t => exact (Demand.ensures_true _).into (fun _ _ => trivial) fun _ _ => trivial
  | replace error => exact Demand.ensures_scope fun _ p => hcold error p
  | cold s => exact (Demand.ensures_true _).into (fun _ _ => trivial) fun _ _ => trivial
  | gate => exact Demand.ensures_gate trivial
  | find =>
    refine Demand.ensures_scope fun _ p => ?_
    unfold find
    split <;> trivial
  | reserve =>
    refine Demand.ensures_scope fun _ p => ?_
    unfold reserve leave
    split <;> trivial
  | shared s =>
    refine (Spawn.ensures_calm _ s).into (fun _ hs => hs) fun r _ => ?_
    cases r <;> trivial
  | join id =>
    refine Demand.ensures_scope fun _ p => ?_
    unfold join leave
    split
    · trivial
    · simp only
      split <;> trivial
  | leave error => exact Demand.ensures_scope fun _ _ => trivial

namespace Tender

/-- Whoever tends a sandbox probes a new one only for its service. -/
def Calm : Tender → Prop
  | spawn job s => s.Calm job.kind
  | acquire _ a => a.Calm
  | release .. => True

theorem Fresh.calm {t : Tender} (h : t.Fresh config) : t.Calm := by
  cases t with
  | spawn job s =>
    cases h
    trivial
  | acquire block a =>
    cases h
    unfold Acquire.start
    cases config.parallelism <;> trivial
  | release id r => trivial

theorem Turn.calm {t t' : Tender} {o' : Option Tender} {w : Bool}
    (h : t.Turn config c p out sig p' o' w) (ht : t.Calm) (ho : o' = some t') : t'.Calm := by
  cases h with
  | spawn h =>
    obtain ⟨s', hs', rfl⟩ := Option.map_eq_some_iff.1 ho
    exact ((Spawn.ensures_calm _ _).lands h ht).of_point? hs'
  | acquire h =>
    obtain ⟨a', ha', rfl⟩ := Option.map_eq_some_iff.1 ho
    exact ((Acquire.ensures_calm _).lands h ht).of_point? ha'
  | release h =>
    obtain ⟨r', -, rfl⟩ := Option.map_eq_some_iff.1 ho
    trivial

end Tender

/-! ## Calls -/

/-- Where the exclusive calls are wanted. -/
theorem Leaf.of_exclusive {l : Leaf} (hl : l.Innermost) {call : Call}
    (ha : (l.demand config).ask? = some (.daemon call)) (he : call.exclusive = true) :
    (∃ job id port, l = .spawn job (.probe id port)) ∨
      (∃ block id port, l = .acquire block (.unpause id port)) ∨
      (∃ block id port, l = .acquire block (.probe id port)) ∨ ∃ id, l = .release id .pause := by
  have hupkeep : call.upkeep? ≠ none := by
    intro hno
    cases call with
    | act action id =>
      cases action with
      | pause | unpause => cases hno
      | _ => cases he
    | health => cases hno
    | _ => cases he
  obtain ⟨id, hserves, -⟩ := serves?_of_upkeep hl ha hupkeep
  cases l with
  | spawn job s =>
    cases s with
    | start id port =>
      cases ha
      cases he
    | probe id port => exact .inl ⟨job, id, port, rfl⟩
    | _ => cases hserves
  | acquire block a =>
    cases a with
    | unpause id port => exact .inr (.inl ⟨block, id, port, rfl⟩)
    | probe id port => exact .inr (.inr (.inl ⟨block, id, port, rfl⟩))
    | _ => cases hserves
  | release id r =>
    cases r with
    | pause => exact .inr (.inr (.inr ⟨id, rfl⟩))
    | _ => cases hserves
  | _ => cases hserves

/-- Where blocks share a sandbox, no post whose tender is calm wants an exclusive call. -/
theorem Post.ask_shared {x : Post} {l : Leaf} (hsingle : config.parallelism = .single)
    (hx : x.Fits .single) (hcalm : ∀ t, x.tender? config = some t → t.Calm)
    (hl : x.leaf? config = some l) {call : Call} (ha : (l.demand config).ask? = some (.daemon call)) :
    call.exclusive = false := by
  have hfits := hx.leaf hl
  rw [Bool.eq_false_iff]
  intro he
  rcases Leaf.of_exclusive (Leaf.innermost_of_leaf? hl) ha he with
    ⟨job, id, port, rfl⟩ | ⟨block, id, port, rfl⟩ | ⟨block, id, port, rfl⟩ | ⟨id, rfl⟩
  · obtain ⟨t, ht, hleaf⟩ := Post.tender?_of_leaf? hl rfl
    have hkind := hcalm t ht
    cases t with
    | spawn job' s =>
      obtain ⟨-, -, -, rfl⟩ := Post.spawn_of_tender? ht
      cases s <;> cases hleaf
      rw [Tender.Calm, Spawn.Point.Calm, Prewarm.job, hsingle] at hkind
      cases hkind
    | acquire block a =>
      have hpath := hx.acquiring (Post.acquiring?_of_tender? ht)
      cases a with
      | cold s => cases hpath
      | shared s =>
        cases s <;> cases hleaf
        cases hkind
      | _ => cases hleaf
    | release id r => cases r <;> cases hleaf
  · cases hfits
  · cases hfits
  · cases hfits

namespace Machine

variable {pool : Pool} {now : Instant} {h : History} {m : Machine}

/-- Every spawn probes only a sandbox with a service. -/
theorem Reaches.calm (hr : (ofPool pool now).Reaches h m) {k : Key} {x : Post}
    (hx : (k, x) ∈ m.posts) {t : Tender} (ht : x.tender? pool.config = some t) : t.Calm := by
  induction hr generalizing k x t with
  | start =>
    rw [posts_ofPool] at hx
    cases hx
  | next hr hn ih =>
    have ho := hr.ordered_ofPool
    rw [← hr.config_eq] at ht ih
    obtain ⟨o', w, htends⟩ := tends_next ho hn
    rcases htends.behind _ x t hx ht with ⟨hx, -⟩ | ⟨rfl, ho', -⟩ | hfresh
    · exact ih hx ht
    · have hgoes := htends.goes
      generalize hbefore : tender? _ _ = o at hgoes
      cases hgoes with
      | turn hturn =>
        obtain ⟨y, hy, hyt⟩ := mem_of_tender? hbefore
        exact hturn.calm (ih hy hyt) ho'
      | starts hstarts => exact (hstarts t ho').calm
    · exact hfresh.calm

/-- **Where blocks share a sandbox, nobody wants to pause, unpause or probe one.** -/
theorem Reaches.ask_shared (hsingle : pool.config.parallelism = .single)
    (hr : (ofPool pool now).Reaches h m) {k : Key} {l : Leaf} (hl : m.leaf? k = some l) {call : Call}
    (ha : (l.demand m.pool.config).ask? = some (.daemon call)) : call.exclusive = false := by
  obtain ⟨x, hx, hleaf⟩ := mem_of_leaf? hl
  rw [hr.config_eq] at hleaf ha
  exact Post.ask_shared hsingle (hsingle ▸ hr.fits hx) (fun t => hr.calm hx) hleaf ha

/-- No such call is ever made. -/
theorem Reaches.signals_shared (hsingle : pool.config.parallelism = .single)
    (hr : (ofPool pool now).Reaches h m) {call : Call} (hc : .sent (.daemon call) ∈ h.signals) :
    call.exclusive = false := by
  induction hr with
  | start => cases hc
  | @next h m m' move notes hr hn ih =>
    rw [History.signals_append] at hc
    rcases List.mem_append.1 hc with hc | hc
    · exact ih hc
    · have hsignal := Option.mem_toList.1 hc
      rcases next_leaf hr.ordered_ofPool hn with
        hs | ⟨l, sig, r, ⟨e, hturn, -⟩, hheard, -, -, -, hleaf⟩
      · rw [hs.signal] at hsignal
        cases hsignal
      · have hsig : sig = some (.sent (.daemon call)) := by
          rw [hsignal] at hheard
          cases l <;> first | exact hheard | cases hheard
        obtain ⟨a, ha, hsent | ⟨r, hgot⟩⟩ := hturn.ask hsig
        · cases hsent
          rcases hleaf with hleaf | ⟨-, id, g, rfl⟩
          · exact hr.ask_shared hsingle hleaf ha
          · cases ha
        · cases hgot

end Machine

end SandboxPool
