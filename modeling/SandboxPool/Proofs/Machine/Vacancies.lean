import SandboxPool.Proofs.Machine.Outstanding

/-!
# Behind the gate without a shared sandbox

Where blocks share a sandbox, an acquisition that has not found it reserves the start of a new one. It is
alone behind the gate then, so that nobody starts a sandbox. If nobody has ever called a termination or a
teardown (`History.Terminates`), all records are those of sandboxes that are terminated, and the pool has
room (`Machine.Reaches.occupancy_eq_zero`).
-/

namespace SandboxPool

variable {config : Config} {c : Context} {p q : Pool} {out : Bool} {sig : Option Signal} {id block : String}
  {t : Hand} {z : Slot}

/-! ## Calls of terminations -/

/-- The runner of the block has called for the end of its sandbox. -/
def BlockRun.Point.terminates : BlockRun.Point → Bool
  | .retire .. => true
  | _ => false

/-- The post is one of an execution that tears the pool down, or of a block whose runner has called for
the end of its sandbox. -/
def Post.terminates : Post → Bool
  | execute _ s => s.point?.any fun point => point.ends || point.block?.any (·.terminates)
  | duty s => s.point?.any fun d => d.ends || d.block?.any (·.terminates)
  | _ => false

/-- The post is a teardown, or a termination under way. -/
def Post.clears : Post → Bool
  | terminate _ s => !s.ended
  | teardown _ => true
  | _ => false

/-- A caller calls a termination or a teardown. -/
def Move.terminates : Move → Bool
  | .order (.terminate _) | .order .teardown => true
  | _ => false

/-- Somebody has called a termination or a teardown: a caller, the runner of a block, or an execution
that was aborted. -/
def History.Terminates (h : History) : Prop :=
  ∃ x ∈ h, x.2.terminates = true ∨ ∃ y ∈ x.1.posts, y.2.terminates = true

/-! ## Places where blocks share a sandbox -/

section Hands

theorem Acquire.shared_of_hand {a : Point} (ha : a.Fits .single) (ht : t ∈ hand out a)
    (hz : t.slot? = some z) : ∃ s, a = .shared s := by
  cases a with
  | shared s => exact ⟨s, rfl⟩
  | gate | find | reserve | join | leave =>
    obtain rfl := List.mem_singleton.1 ht
    cases hz
  | _ => cases ha

theorem BlockRun.shared_of_hand {b : Point} (hb : b.Fits .single) (hno : b.terminates = false)
    (ht : t ∈ hand block out b) (hz : t.slot? = some z) :
    ∃ s, b.acquiring? = some (.shared s) := by
  cases b with
  | acquire since a =>
    obtain ⟨s, rfl⟩ := Acquire.shared_of_hand hb ht hz
    exact ⟨s, rfl⟩
  | retire => cases hno
  | release ran id r =>
    cases r with
    | drop =>
      rcases List.mem_cons.1 ht with rfl | ht
      · cases hz
      · obtain rfl := List.mem_singleton.1 ht
        cases hz
    | _ => cases hb
  | run | conclude =>
    obtain rfl := List.mem_singleton.1 ht
    cases hz
  | begin | refuse => cases ht

/-- **Where blocks share a sandbox**, a place is taken by a spawn of a prewarm or of the shared sandbox,
or by a termination. -/
theorem Post.shared_of_hand {x : Post} (hx : x.Fits .single) (hno : x.terminates = false)
    (ht : t ∈ x.hand) (hz : t.slot? = some z) : (∃ s, x = .spawn s) ∨
      (∃ s, x.acquiring? = some (.shared s)) ∨ x.clears = true := by
  cases x with
  | acquire name s =>
    obtain ⟨out, a, ha, hmem⟩ := Strand.exists_of_mem_hand (f := Acquire.hand) ht fun r hr => by
      cases r with
      | ok s =>
        obtain rfl := List.mem_singleton.1 hr
        cases hz
      | error e => cases hr
    obtain ⟨s', rfl⟩ := Acquire.shared_of_hand (Strand.Keeps.of_point? hx ha) hmem hz
    exact .inr (.inl ⟨s', ha⟩)
  | release id s =>
    obtain ⟨-, r, hr, hmem⟩ := Strand.exists_of_mem_hand
      (f := fun _ => Release.hand [.returning id] id) ht fun _ => List.not_mem_nil
    have hfits := Strand.Keeps.of_point? hx hr
    cases r with
    | drop =>
      rcases List.mem_cons.1 hmem with rfl | hmem
      · cases hz
      · obtain rfl := List.mem_singleton.1 hmem
        cases hz
    | _ => cases hfits
  | terminate id s =>
    obtain ⟨-, point, hp, -⟩ := Strand.exists_of_mem_hand
      (f := fun _ => Termination.hand [] id) ht fun _ => List.not_mem_nil
    refine .inr (.inr ?_)
    rw [clears, Strand.ended_of_point? hp]
    rfl
  | spawn s => exact .inl ⟨s, rfl⟩
  | execute plan s =>
    obtain ⟨out, point, hp, hmem⟩ := Strand.exists_of_mem_hand ht (by simp)
    rw [terminates, hp] at hno
    cases point with
    | solo progress name b =>
      have hfits : (Execution.Point.solo progress name b).Fits .single := Strand.Keeps.of_point? hx hp
      obtain ⟨s', hs'⟩ := BlockRun.shared_of_hand hfits hno hmem hz
      exact .inr (.inl ⟨s', Option.bind_eq_some_iff.2 ⟨_, hp, hs'⟩⟩)
    | _ => cases hmem
  | duty s =>
    obtain ⟨out, d, hd, hmem⟩ := Strand.exists_of_mem_hand ht (by simp)
    rw [terminates, hd] at hno
    cases d with
    | run name b =>
      have hfits : (Execution.Duty.run name b).Fits .single := Strand.Keeps.of_point? hx hd
      obtain ⟨s', hs'⟩ := BlockRun.shared_of_hand hfits hno hmem hz
      exact .inr (.inl ⟨s', Option.bind_eq_some_iff.2 ⟨_, hd, hs'⟩⟩)
    | terminate id point => cases hno
  | _ => cases ht

end Hands

/-- There is no pause that could come to its end. -/
theorem Termination.ended_of_expire {g : Nat} {sc : Scope (Strand Point Result)} (hp : p.Awake)
    (h : (Strand.ready (.expire g)).Turn (demand id) c p sig sc) : sc.result.ended = true := by
  obtain ⟨point, out, s, hst, hturn, rfl⟩ := h.at_point
  cases out with
  | true => cases hst
  | false =>
    cases hst
    obtain ⟨-, -, rfl⟩ := Demand.turn_scope hturn
    unfold expire
    cases hf : p.find? id with
    | none => rfl
    | some r =>
      have hne : r.state ≠ .dormant := hp.of_find? hf
      simp [hne, Scope.map, Strand.land, Strand.ofNext, Strand.ended]

/-- A turn begins no termination, unless it is one of a post that has called for some. No pause can come
to its end where there is none. -/
theorem Post.Turned.clears {p' : Pool} {e : List Effect} {place : Nat} {x : Post}
    {after : List (Nat × Post)} (h : x.Turned config c p place sig p' e after) (hp : p.Awake)
    (hx : x.clears = false ∨ ∃ id g, x = .terminate id (.ready (.expire g))) :
    ∀ y ∈ after, y.2.clears = false := by
  have hends : ∀ {id : String} {s : Strand Termination.Point Termination.Result}
      {sig : Option Signal} {sc : Scope (Strand Termination.Point Termination.Result)},
      x = .terminate id s → s.Turn (Termination.demand id) c p sig sc →
      (Post.terminate id sc.result).clears = false := by
    rintro id s sig sc rfl hturn
    rcases hx with hx | ⟨id', g, he⟩
    · obtain ⟨point, out, -, rfl, -⟩ := hturn.at_point
      cases out <;> cases hx
    · cases he
      rw [Post.clears, Termination.ended_of_expire hp hturn]
      rfl
  cases h with
  | acquire | release =>
    intro y hy
    obtain rfl := List.mem_singleton.1 hy
    rfl
  | terminate ht =>
    intro y hy
    obtain rfl := List.mem_singleton.1 hy
    exact hends rfl ht
  | teardown ht =>
    cases ht with
    | leader hlead n =>
      rcases hx with hx | ⟨id, g, he⟩
      · cases hx
      · cases he
    | member ht hafter =>
      intro y hy
      rcases hafter with rfl | ⟨-, rfl⟩
      · obtain rfl := List.mem_singleton.1 hy
        exact hends rfl ht
      · cases hy
  | prewarm ht => exact (ht.forall (·.clears = false) (fun _ => rfl) fun _ _ => rfl).2
  | cleanup ht => exact (ht.forall (·.clears = false) (fun _ => rfl) fun _ _ => rfl).2
  | execute ht => exact (ht.forall (·.clears = false) (fun _ => rfl) fun _ _ => rfl).2

/-- An acquisition reserves the start of the shared sandbox only when it has looked for it. -/
theorem Acquire.ensures_reserve {a : Point} (ha : a.Fits .single) (hno : a ≠ .find) :
    (demand config block a).Ensures
      fun next => (Strand.ofNext next).Keeps (· ≠ .reserve) fun _ => True := by
  cases a with
  | gate => exact Demand.ensures_gate (by simp [Strand.ofNext, Strand.Keeps])
  | find => exact absurd rfl hno
  | reserve =>
    refine Demand.ensures_scope fun _ p => ?_
    unfold reserve leave
    split
    · trivial
    · simp [Strand.ofNext, Strand.Keeps]
  | shared s =>
    refine (Demand.ensures_true _).into (by simp) fun r _ => ?_
    cases r <;> simp [Strand.ofNext, Strand.Keeps]
  | join id =>
    refine Demand.ensures_scope fun _ p => ?_
    unfold join leave
    split
    · trivial
    · simp only
      split <;> trivial
  | leave error => exact Demand.ensures_scope fun _ _ => trivial
  | _ => cases ha

/-- Whoever goes on to reserve the start of the shared sandbox has looked for it, and has found none that
is live and not claimed. -/
theorem Acquire.unclaimed_of_reserve {a : Point} {s : Scope (Option (Next Point Result))}
    (ha : a.Fits .single) (h : (demand config block a).Turn c p out sig s)
    (hr : (Strand.land a s.result).point? = some .reserve) :
    a = .find ∧ s.pool = p ∧ ∀ r ∈ p.unclaimed, r.live = false := by
  by_cases hfind : a = .find
  · subst hfind
    obtain ⟨-, -, rfl⟩ := Demand.turn_scope h
    refine ⟨rfl, ?_, ?_⟩
    · unfold find
      split <;> rfl
    · cases hf : candidate? (·.live) c p with
      | none => exact candidate?_eq_none.1 hf
      | some r =>
        simp only [find, hf] at hr
        cases hr
  · exfalso
    cases hres : s.result with
    | none =>
      rw [hres] at hr
      obtain rfl : a = .reserve := Option.some.inj hr
      obtain ⟨-, -, rfl⟩ := Demand.turn_scope h
      cases hres
    | some next =>
      rw [hres] at hr
      have hkeeps := (ensures_reserve ha hfind).of_turn h next hres
      exact hkeeps.of_point? (P := (· ≠ .reserve)) hr rfl

/-! ## The machine -/

namespace Machine

variable {seed : BitVec 128} {pool : Pool} {now : Instant} {h : History} {m m' : Machine} {move : Move}
  {notes : List Note} {k : Key} {x : Post}

theorem terminates_append (hn : h.Terminates) : History.Terminates (h ++ [(m, move)]) := by
  obtain ⟨x, hx, hcalls⟩ := hn
  exact ⟨x, List.mem_append_left _ hx, hcalls⟩

section Single

variable (hp : Pool.create config seed = .ok pool) (hsingle : config.parallelism = .single)
  (hr : (ofPool pool now).Reaches h m)
include hp hsingle hr

omit hr in
theorem parallelism_eq : pool.config.parallelism = .single := by
  obtain ⟨-, rfl⟩ := create_eq_ok_iff.1 hp
  exact hsingle

/-- If nobody has called a termination or a teardown, there is none under way. -/
theorem Reaches.unterminated (hno : ¬ h.Terminates) (hx : (k, x) ∈ m.posts) : x.clears = false := by
  have hempty : pool.records = [] := by
    obtain ⟨-, rfl⟩ := create_eq_ok_iff.1 hp
    rfl
  induction hr generalizing k x with
  | start =>
    rw [posts_ofPool] at hx
    cases hx
  | @next h m m' move notes hr hn ih =>
    have hsame : ∀ {k : Key} {x : Post}, (k, x) ∈ m.posts → x.clears = false :=
      fun hx => ih (fun hcalls => hno (terminates_append hcalls)) hx
    have hmove : move.terminates = false := by
      rw [Bool.eq_false_iff]
      exact fun hcalls => hno ⟨_, List.mem_append_right _ (List.mem_singleton_self _), .inl hcalls⟩
    cases next_post hr.ordered_ofPool hn hx with
    | stay hx => exact hsame hx
    | order o _ hx _ hm =>
      subst hm
      cases o with
      | terminate | teardown => cases hmove
      | _ =>
        obtain ⟨-, rfl⟩ := Prod.mk.inj (List.mem_singleton.1 hx)
        rfl
    | turn _ hold _ ht hx =>
      exact ht.clears (hr.awake (parallelism_eq hp hsingle) hempty) (hold.imp_left hsame) _ hx

/-- While somebody behind the gate looks for the shared sandbox, or joins it, nobody has a place in hand,
unless somebody has called a termination or a teardown. -/
theorem Reaches.placeless {a : Acquire.Point}
    (hno : ¬ History.Terminates (h ++ [(m, move)])) (hx : (k, x) ∈ m.posts)
    (ha : x.acquiring? = some a) (hi : a.inside = true) (hs : ∀ s, a ≠ .shared s) :
    ∀ t ∈ m.things, t.slot? = none := by
  intro t ht
  cases hz : t.slot? with
  | none => rfl
  | some z =>
    exfalso
    have hc := parallelism_eq hp hsingle
    obtain ⟨⟨k', t⟩, hmem, rfl⟩ := List.mem_map.1 ht
    obtain ⟨y, hy, hhand⟩ := mem_hands.1 hmem
    obtain ⟨hspawn, -, hshared⟩ := hr.spawnless hc hx ha hi hs hy
    have hfits : y.Fits .single := hc ▸ hr.fits hy
    have hcalls : y.terminates = false := by
      rw [Bool.eq_false_iff]
      exact fun hcalls =>
        hno ⟨_, List.mem_append_right _ (List.mem_singleton_self _), .inr ⟨_, hy, hcalls⟩⟩
    rcases Post.shared_of_hand hfits hcalls hhand hz with ⟨s, he⟩ | ⟨s, he⟩ | hclears
    · exact hspawn s he
    · exact hshared s he
    · rw [hr.unterminated hp hsingle (fun hcalls => hno (terminates_append hcalls)) hy] at hclears
      cases hclears

omit hsingle in
/-- A claim on a sandbox is a place in hand. -/
theorem Reaches.unclaimed_of_placeless (hf : h.Fresh) (hnone : ∀ t ∈ m.things, t.slot? = none) {id : String} :
    m.pool.claim? id = none := by
  have hhand : ∀ {t : Hand}, t ∈ m.things → t.slot? ≠ some (.sandbox id) := by
    intro t ht hz
    rw [hnone t ht] at hz
    cases hz
  cases hclaim : m.pool.claim? id with
  | none => rfl
  | some c =>
    exfalso
    cases c with
    | waking => exact hhand ((hr.tended hp hf).waking id hclaim) rfl
    | terminating =>
      obtain ⟨t, ht, port, stage, he⟩ := exists_ending (hr.books hp hf) hclaim
      exact hhand (List.mem_map_of_mem ht) (by rw [he]; rfl)

/-- **Whoever reserves the start of the shared sandbox has found none**: all others are terminated by
then, unless somebody has called a termination or a teardown. -/
theorem Reaches.doomed_of_reserve (hf : h.Fresh) (hno : ¬ h.Terminates) (hx : (k, x) ∈ m.posts)
    (ha : x.acquiring? = some .reserve) : ∀ r ∈ m.pool.records, m.pool.Doomed r.id := by
  induction hr generalizing k x with
  | start =>
    rw [posts_ofPool] at hx
    cases hx
  | @next h m m' move notes hr hn ih =>
    have hfresh := History.fresh_of_append hf
    have hbefore : ¬ h.Terminates := fun hcalls => hno (terminates_append hcalls)
    have hstart : ∀ {config : Config}, config = pool.config → Acquire.start config ≠ .reserve := by
      rintro - rfl
      unfold Acquire.start
      split <;> simp
    -- no sandbox is new behind the move
    have hids : ∀ {x : Post} {a : Acquire.Point}, (k, x) ∈ m.posts → x.acquiring? = some a →
        a.inside = true → (∀ s, a ≠ .shared s) →
        m'.pool.records.map (·.id) = m.pool.records.map (·.id) := by
      intro x a hx ha hi hs
      have hplaceless := hr.placeless hp hsingle hno hx ha hi hs
      obtain ⟨l, l', rest, q, hb, -, hact, hq⟩ := next_things hr.ordered_ofPool hn
      rw [hq.records]
      refine hact.map_id_eq fun id port hmade => ?_
      cases hplaceless _ (hb.mem_iff.2 (List.mem_append_left _ hmade))
    cases next_post hr.ordered_ofPool hn hx with
    | stay hx =>
      intro r hrec
      have hid := List.mem_map_of_mem (f := (·.id)) hrec
      rw [hids hx ha rfl (by simp)] at hid
      obtain ⟨r₀, hr₀, he⟩ := List.mem_map.1 hid
      rw [← he]
      exact hr.doomed_next hp hfresh hn (ih hfresh hbefore hx ha r₀ hr₀)
    | order o _ hx => exact absurd (acquiring?_ofOrder hx ha).symm (hstart hr.config_eq)
    | @turn place x₀ sig p' e after hk hold hpool ht hx =>
      obtain ⟨rfl, out, hstarted | ⟨block, a₀, s, hxa, hturn, hpool', hland⟩⟩ := ht.follows hx ha
      · exact absurd hstarted.symm (hstart hr.config_eq)
      · rcases hold with hold | ⟨id, g, rfl⟩
        · have hfits : a₀.Fits .single := parallelism_eq hp hsingle ▸ (hr.fits hold).acquiring hxa
          obtain ⟨rfl, hsame, hdead⟩ := Acquire.unclaimed_of_reserve hfits hturn hland
          have hplaceless := hr.placeless hp hsingle hno hold hxa rfl (by simp)
          rw [hpool, hpool', hsame]
          intro r hrec
          refine ((hr.capped hp).distinct.doomed_iff hrec).2 (.inl (hdead r ?_))
          refine List.mem_filter.2 ⟨hrec, ?_⟩
          rw [hr.unclaimed_of_placeless hp hfresh hplaceless]
          rfl
        · cases hxa

/-- **Where blocks share a sandbox and it could not be found, the pool is empty**, unless somebody has
called a termination or a teardown. -/
theorem Reaches.occupancy_eq_zero (hf : h.Fresh) (hno : ¬ History.Terminates (h ++ [(m, move)]))
    (hx : (k, x) ∈ m.posts) (ha : x.acquiring? = some .reserve) : m.pool.occupancy = 0 := by
  have hplaceless := hr.placeless hp hsingle hno hx ha rfl (by simp)
  have hpending : m.pool.pending = 0 := by
    rw [(hr.capped hp).pending, List.countP_eq_zero]
    intro t ht hres
    have hslot := Hand.slot?_of_reserves hres
    rw [hplaceless t ht] at hslot
    cases hslot
  have hlive : m.pool.liveRecords = [] := by
    refine List.filter_eq_nil_iff.2 fun r hrec hlive => ?_
    have hdoomed := hr.doomed_of_reserve hp hsingle hf (fun hcalls => hno (terminates_append hcalls))
      hx ha r hrec
    rcases ((hr.capped hp).distinct.doomed_iff hrec).1 hdoomed with hdead | hclaim
    · rw [hlive] at hdead
      cases hdead
    · rw [hr.unclaimed_of_placeless hp hf hplaceless] at hclaim
      cases hclaim
  unfold Pool.occupancy Pool.liveCount
  rw [hpending, hlive]
  rfl

end Single

end Machine

end SandboxPool
