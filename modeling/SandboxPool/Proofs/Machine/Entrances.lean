import SandboxPool.Proofs.Machine.Gate
import SandboxPool.Proofs.Machine.Upshots

/-!
# The gate is not left shut

Where blocks share a sandbox, the gate is shut only while somebody is behind it
(`Machine.Reaches.exists_inside`): acquisitions and prewarms open it when they leave, whatever they come
to, and nobody else shuts it. So whoever is before the gate when no one is behind it can enter.
-/

namespace SandboxPool

variable {σ α τ β κ : Type} {config : Config} {c : Context} {p p' : Pool} {out : Bool}
  {sig : Option Signal} {e : List Effect} {place : Nat} {block id : String} {x : Post}
  {after : List (Nat × Post)}

/-! ## Processes that do not shut the gate -/

/-- The gate is shut behind a turn only if it was so before. -/
def Demand.Shy (d : Demand β) : Prop :=
  ∀ ⦃c : Context⦄ ⦃p : Pool⦄ ⦃out : Bool⦄ ⦃sig : Option Signal⦄ ⦃s : Scope (Option β)⦄,
    d.Turn c p out sig s → s.pool.gateHeld = true → p.gateHeld = true

namespace Demand

variable {γ : Type} {d : Demand β}

theorem shy_scope {body : Context → Pool → Scope β}
    (h : ∀ c p, (body c p).pool.gateHeld = true → p.gateHeld = true) : (scope body).Shy := by
  intro c p out sig s ht
  obtain ⟨-, -, rfl⟩ := turn_scope ht
  exact h c p

/-- Who puts a question leaves the pool alone. -/
theorem shy_ask (h : d.ask?.isSome = true) : d.Shy := by
  intro c p out sig s ht
  cases ht with
  | scope => cases h
  | gate => cases h
  | send => exact fun h => h
  | receive => exact fun h => h

theorem Shy.map (h : d.Shy) (f : β → γ) : (d.map f).Shy := by
  intro c p out sig s ht
  obtain ⟨s₀, h₀, rfl⟩ := turn_map ht
  exact h h₀

end Demand

/-- The leader does not shut the gate. -/
def Intent.Shy : Intent κ σ α τ β → Prop
  | .demand d => d.Shy
  | .hire body => ∀ c p, (body c p).pool.gateHeld = true → p.gateHeld = true
  | .join _ => True

theorem Intent.Shy.of_turn {i : Intent κ σ α τ β} {s : Scope (Option (Next τ β))}
    {tasks : List (κ × σ)} (h : i.Shy) (ht : i.Turn c p out sig s tasks) :
    s.pool.gateHeld = true → p.gateHeld = true := by
  cases ht with
  | demand ht => exact h ht
  | hire => exact h c p
  | join => exact fun h => h

theorem Termination.shy (id : String) (t : Point) : (demand id t).Shy := by
  cases t with
  | claim =>
    refine Demand.shy_scope fun _ p => ?_
    unfold claim
    split
    · exact fun h => h
    · split <;> exact fun h => h
  | expire generation =>
    refine Demand.shy_scope fun _ p => ?_
    unfold expire
    split
    · exact fun h => h
    · split <;> exact fun h => h
  | stop port => exact Demand.shy_ask rfl
  | remove port => exact Demand.shy_ask rfl
  | settle port =>
    refine Demand.shy_scope fun _ p => ?_
    unfold settle
    simp only
    split
    · exact fun h => h
    · split <;> exact fun h => h

theorem Spawn.shy (config : Config) (job : Job) (s : Point) : (demand config job s).Shy := by
  cases s with
  | allocate =>
    refine Demand.shy_scope fun _ p => ?_
    unfold allocate
    split <;> exact fun h => h
  | create spec port => exact Demand.shy_ask rfl
  | giveBack port cause => exact Demand.shy_scope fun _ _ h => h
  | register id port => exact Demand.shy_scope fun _ _ h => h
  | start id port => exact Demand.shy_ask rfl
  | probe id port => exact Demand.shy_ask rfl
  | discard id error t => exact (Termination.shy id t).map _
  | publish id =>
    refine Demand.shy_scope fun _ p => ?_
    unfold publish
    split
    · exact fun h => h
    · split
      · exact fun h => h
      · simp only
        split
        · exact fun h => h
        · unfold bind
          split
          · exact fun h => h
          · next hb =>
            split at hb
            · cases hb
            · cases hb
              exact fun h => h

theorem Release.shy (id : String) (r : Point) : (demand id r).Shy := by
  cases r with
  | check =>
    refine Demand.shy_scope fun _ p => ?_
    unfold check
    split
    · exact fun h => h
    · split
      · exact fun h => h
      · split <;> exact fun h => h
  | pause => exact Demand.shy_ask rfl
  | discard cause t => exact (Termination.shy id t).map _
  | park =>
    refine Demand.shy_scope fun c p => ?_
    unfold park
    split
    · exact fun h => h
    · split
      · exact fun h => h
      · simp only
        split <;> exact fun h => h
  | drop =>
    refine Demand.shy_scope fun _ p => ?_
    unfold drop
    split
    · exact fun h => h
    · split <;> exact fun h => h

/-- A block does not shut the gate unless it acquires. -/
theorem BlockRun.shy {b : Point} (hb : b.acquiring? = none) : (demand config block b).Shy := by
  cases b with
  | begin => exact Demand.shy_scope fun _ _ h => h
  | acquire since a => cases hb
  | refuse since error => exact Demand.shy_scope fun _ _ h => h
  | run since sandbox => exact Demand.shy_ask rfl
  | retire since sandbox ending t => exact (Termination.shy sandbox.id t).map _
  | conclude since sandbox ending => exact Demand.shy_scope fun _ _ h => h
  | release ran id r => exact (Release.shy id r).map _

theorem Execution.Duty.shy {d : Duty} (hd : d.acquiring? = none) : (member config d).Shy := by
  cases d with
  | run block b => exact (BlockRun.shy hd).map _
  | terminate id t => exact (Termination.shy id t).map _

theorem Execution.Point.shy {plan : Plan} {point : Point} (hp : point.acquiring? = none) :
    (leader config plan point).Shy := by
  cases point with
  | begin =>
    refine Demand.shy_scope fun _ p => ?_
    unfold Execution.begin
    split <;> exact fun h => h
  | lane progress =>
    refine Demand.shy_scope fun c p => ?_
    unfold Execution.lane
    split
    · exact fun h => h
    · split <;> exact fun h => h
  | solo progress block b => exact (BlockRun.shy hp).map _
  | dispatch progress sent waiting =>
    intro c p
    show (Execution.dispatch progress sent waiting c p).pool.gateHeld = true → _
    unfold Execution.dispatch
    split
    · exact fun h => h
    · split <;> exact fun h => h
  | gather progress sent interrupted => trivial
  | settle progress ran interrupted =>
    refine Demand.shy_scope fun c p => ?_
    unfold Execution.settle
    simp only
    split
    · exact fun h => h
    · split
      · exact fun h => h
      · split <;> exact fun h => h
  | abort progress index => exact Demand.shy_scope fun _ _ h => h
  | teardown progress index =>
    intro c p
    show (Execution.teardown progress index p).pool.gateHeld = true → _
    unfold Execution.teardown
    split <;> exact fun h => h
  | cleared progress index => trivial
  | finish progress status => exact Demand.shy_scope fun _ _ h => h

theorem Teardown.shy (point : Point) : (conduct.leader point).Shy := by
  cases point with
  | collect =>
    intro c p
    show (collect p).pool.gateHeld = true → _
    unfold collect
    split <;> exact fun h => h
  | gather => trivial

theorem Cleanup.shy (point : Point) : (conduct.leader point).Shy := by
  cases point with
  | list => exact Demand.shy_ask rfl
  | compare containers =>
    intro c p
    show (compare containers p).pool.gateHeld = true → _
    unfold compare
    split <;> exact fun h => h
  | gather => trivial

/-! ## Posts -/

/-- A turn of a strand that does not shut the gate where it is. -/
theorem Strand.Turn.shy {demand : σ → Demand (Next σ α)} {st : Strand σ α} {sc : Scope (Strand σ α)}
    (h : st.Turn demand c p sig sc) (hs : ∀ point, st.point? = some point → (demand point).Shy) :
    sc.pool.gateHeld = true → p.gateHeld = true := by
  obtain ⟨point, out, s, rfl, ht, rfl⟩ := h.at_point
  exact hs point (Strand.point?_standing point out) ht

/-- A turn of a team whose leader and members do not shut the gate where they are. -/
theorem Team.Acted.shy {conduct : Conduct κ σ α τ β} {leader : Strand τ β → Post}
    {member : κ → Strand σ α → Post}
    (h : Team.Acted conduct leader member c p place x sig p' e after)
    (hl : ∀ s point, x = leader s → s.point? = some point → (conduct.leader point).Shy)
    (hm : ∀ task s point, x = member task s → s.point? = some point →
      (conduct.member task point).Shy) : p'.gateHeld = true → p.gateHeld = true := by
  cases h with
  | leader hlead =>
    obtain ⟨point, out, s, rfl, ht, rfl⟩ := hlead.at_point
    exact (hl _ point rfl (Strand.point?_standing point out)).of_turn ht
  | member ht => exact ht.shy fun point => hm _ _ point rfl

namespace Post

/-- A post that neither prewarms nor acquires does not shut the gate. -/
theorem Turned.shy (h : x.Turned config c p place sig p' e after) (ha : x.acquiring? = none)
    (hp : ∀ count s, x ≠ .prewarm count s) : p'.gateHeld = true → p.gateHeld = true := by
  cases h with
  | acquire ht =>
    obtain ⟨point, out, s, rfl, -, -⟩ := ht.at_point
    simp [acquiring?] at ha
  | release ht => exact ht.shy fun point _ => Release.shy _ point
  | terminate ht => exact ht.shy fun point _ => Termination.shy _ point
  | prewarm ht =>
    exact ht.shy (fun s _ he _ => absurd he (hp _ s)) fun _ _ point _ _ => Spawn.shy _ _ point
  | teardown ht =>
    exact ht.shy (fun _ point _ _ => Teardown.shy point) fun task _ point _ _ =>
      Termination.shy task point
  | cleanup ht =>
    refine ht.shy (fun _ point _ _ => Cleanup.shy point) fun _ _ point _ _ => ?_
    cases point <;> exact Demand.shy_ask rfl
  | execute ht =>
    refine ht.shy (fun s point he hpoint => Execution.Point.shy ?_)
      fun task s point he hpoint => Execution.Duty.shy ?_
    all_goals
      rw [he] at ha
      simpa only [acquiring?, hpoint, Option.bind_some] using ha

theorem exists_acquisition? {a : Acquire.Point} (h : x.acquiring? = some a) :
    ∃ block, x.acquisition? = some (block, a) := by
  have hrun : ∀ {b : BlockRun.Point} (block : String), b.acquiring? = some a →
      b.acquiring?.map (block, ·) = some (block, a) := by
    intro b block hb
    rw [hb]
    rfl
  cases x with
  | acquire block s => exact ⟨block, congrArg (Option.map (block, ·)) h⟩
  | execute plan s =>
    obtain ⟨point, hp, h⟩ := Option.bind_eq_some_iff.1 h
    show ∃ block, s.point?.bind (·.acquisition?) = some (block, a)
    rw [hp]
    cases point with
    | solo progress block b => exact ⟨block, hrun block h⟩
    | _ => cases h
  | duty s =>
    obtain ⟨d, hd, h⟩ := Option.bind_eq_some_iff.1 h
    show ∃ block, s.point?.bind (·.acquisition?) = some (block, a)
    rw [hd]
    cases d with
    | run block b => exact ⟨block, hrun block h⟩
    | terminate id t => cases h
  | _ => cases h

/-- A turn of a prewarm itself. -/
theorem Turned.of_prewarm {count : Nat} {s : Strand Prewarm.Point Prewarm.Result}
    (h : (Post.prewarm count s).Turned config c p place sig p' e after) : ∃ sc tasks,
      s.Lead (Prewarm.conduct config count).leader c p sig sc tasks ∧ p' = sc.pool ∧
        (place, .prewarm count sc.result) ∈ after := by
  generalize hx : Post.prewarm count s = x at h
  have hnone : ∀ {κ σ α τ β : Type} {conduct : Conduct κ σ α τ β} {leader : Strand τ β → Post}
      {member : κ → Strand σ α → Post} {sig : Option Signal},
      Team.Acted conduct leader member c p place x sig p' e after →
      (∀ s', leader s' ≠ .prewarm count s) → (∀ task s', member task s' ≠ .prewarm count s) → False :=
    fun ht hl hm => (ht.forall (· ≠ .prewarm count s) hl hm).1 hx.symm
  cases h with
  | prewarm ht =>
    cases ht with
    | leader hlead =>
      cases hx
      exact ⟨_, _, hlead, rfl, List.mem_cons_self ..⟩
    | member => cases hx
  | teardown ht => exact (hnone ht (by simp) (by simp)).elim
  | cleanup ht => exact (hnone ht (by simp) (by simp)).elim
  | execute ht => exact (hnone ht (by simp) (by simp)).elim
  | _ => cases hx

end Post

/-! ## Entering and leaving -/

/-- Where blocks share a sandbox, an acquisition is behind the gate from its first turn on, and opens it
when it leaves. -/
theorem Acquire.inside_or_open {a : Point} {s : Scope (Option (Next Point Result))}
    (hf : a.Fits .single) (h : (demand config block a).Turn c p out sig s) :
    (∃ a', (Strand.land a s.result).point? = some a' ∧ a'.inside = true) ∨
      s.pool.gateHeld = false := by
  cases a with
  | gate =>
    obtain ⟨-, -, -, rfl⟩ := Demand.turn_gate h
    exact .inl ⟨.find, rfl, rfl⟩
  | find =>
    obtain ⟨-, -, rfl⟩ := Demand.turn_scope h
    refine .inl ?_
    simp only [Scope.map, find]
    split
    · next r _ => exact ⟨.join r.id, rfl, rfl⟩
    · exact ⟨.reserve, rfl, rfl⟩
  | reserve =>
    obtain ⟨-, -, rfl⟩ := Demand.turn_scope h
    simp only [Scope.map, reserve]
    split
    · exact .inr rfl
    · exact .inl ⟨.shared .allocate, rfl, rfl⟩
  | shared t =>
    refine .inl ?_
    obtain ⟨⟨pool, effects, result⟩, h₀, rfl⟩ := Demand.turn_map h
    cases result with
    | none => exact ⟨.shared t, rfl, rfl⟩
    | some next =>
      cases next with
      | goto t' => exact ⟨.shared t', rfl, rfl⟩
      | done r =>
        cases r with
        | ok sandbox => exact ⟨.join sandbox.id, rfl, rfl⟩
        | error error => exact ⟨.leave error, rfl, rfl⟩
      | panic message => exact absurd rfl (Spawn.steady config _ h₀ message)
  | join id =>
    obtain ⟨-, -, rfl⟩ := Demand.turn_scope h
    refine .inr ?_
    simp only [Scope.map, join]
    split
    · rfl
    · split <;> rfl
  | leave error =>
    obtain ⟨-, -, rfl⟩ := Demand.turn_scope h
    exact .inr rfl
  | _ => cases hf

/-- Where blocks share a sandbox, a prewarm is behind the gate from its first turn on, and opens it when
it leaves. -/
theorem Prewarm.inside_or_open {count : Nat} {point : Point} {s : Scope (Option (Next Point Result))}
    {tasks : List (Unit × Spawn.Point)} (hc : p.config.parallelism = .single)
    (h : ((conduct config count).leader point).Turn c p out sig s tasks) :
    (∃ point', (Strand.land point s.result).point? = some point' ∧ point'.inside = true) ∨
      s.pool.gateHeld = false := by
  cases point with
  | gate =>
    obtain ⟨hd, -⟩ := Intent.turn_demand h
    obtain ⟨-, -, -, rfl⟩ := Demand.turn_gate hd
    exact .inl ⟨.reserve, rfl, rfl⟩
  | reserve =>
    obtain ⟨-, -, rfl, -⟩ := Intent.turn_hire h
    refine .inl ?_
    simp only [Scope.map, reserve]
    split
    · exact ⟨.leave (.ok 0), rfl, rfl⟩
    · exact ⟨.gather, rfl, rfl⟩
  | gather =>
    obtain ⟨-, -, ⟨ended, rfl⟩, -⟩ := Intent.turn_join h
    exact .inl ⟨.leave (result ended), rfl, rfl⟩
  | leave r =>
    obtain ⟨hd, -⟩ := Intent.turn_demand h
    obtain ⟨-, -, rfl⟩ := Demand.turn_scope hd
    refine .inr ?_
    simp only [Scope.map, leave, hc]

/-- **Whoever acquires is behind the gate after its turn, or leaves it open.** -/
theorem Post.Turned.inside_or_open_of_acquiring (h : x.Turned config c p place sig p' e after)
    (hf : x.Fits .single) {a : Acquire.Point} (ha : x.acquiring? = some a) :
    (∃ y ∈ after, y.2.inside = true) ∨ p'.gateHeld = false := by
  obtain ⟨block, hacq⟩ := exists_acquisition? ha
  obtain ⟨out, sig₀, s, y, hturn, rfl, rfl, hya, -⟩ := h.acquires_to hacq
  refine (Acquire.inside_or_open (hf.acquiring ha) hturn).imp_left fun ⟨a', ha', hi⟩ => ?_
  rw [ha'] at hya
  exact ⟨_, List.mem_singleton_self _, inside_of_acquiring? (acquiring?_of_acquisition? hya) hi⟩

/-- **Whoever prewarms is behind the gate after its turn, or leaves it open.** -/
theorem Post.Turned.inside_or_open_of_prewarm (hc : p.config.parallelism = .single) {count : Nat}
    {s : Strand Prewarm.Point Prewarm.Result}
    (h : (Post.prewarm count s).Turned config c p place sig p' e after) :
    (∃ y ∈ after, y.2.inside = true) ∨ p'.gateHeld = false := by
  obtain ⟨sc, tasks, hlead, rfl, hmem⟩ := h.of_prewarm
  obtain ⟨point, out, s₀, rfl, ht, rfl⟩ := hlead.at_point
  refine (Prewarm.inside_or_open hc ht).imp_left fun ⟨point', hp', hi⟩ => ⟨_, hmem, ?_⟩
  show (Strand.land point s₀.result).point?.any (·.inside) = true
  rw [hp']
  exact hi

namespace Machine

variable {m m' : Machine} {move : Move} {notes : List Note} {pool : Pool} {now : Instant}
  {h : History}

/-- **The gate is shut only while somebody is behind it.** -/
theorem Reaches.exists_inside (hc : pool.config.parallelism = .single)
    (hopen : pool.gateHeld = false) (hr : (ofPool pool now).Reaches h m)
    (hheld : m.pool.gateHeld = true) : ∃ k x, (k, x) ∈ m.posts ∧ x.inside = true := by
  induction hr with
  | start =>
    rw [show (ofPool pool now).pool.gateHeld = false from hopen] at hheld
    cases hheld
  | @next h m m' move notes hr hn ih =>
    have ho := hr.ordered_ofPool
    -- whoever is behind the gate and does not move is still there
    have hstay : m.pool.gateHeld = true → (∀ x, (m.mover move, x) ∈ m.posts → x.inside = false) →
        ∃ k x, (k, x) ∈ m'.posts ∧ x.inside = true := by
      intro hbefore hmover
      obtain ⟨k, x, hx, hi⟩ := ih hbefore
      refine ⟨k, x, post_next ho hn hx fun hk => ?_, hi⟩
      rw [hmover x (hk ▸ hx)] at hi
      cases hi
    by_cases hmover : ∃ x, (m.mover move, x) ∈ m.posts
    · obtain ⟨x, hx⟩ := hmover
      obtain ⟨sig, e, after, rest, ht, -, hafter⟩ := posts_of_mover ho hn hx
      have hconfig : m.pool.config.parallelism = .single := by rw [hr.config_eq, hc]
      have hbehind : ((∃ y ∈ after, y.2.inside = true) ∨ m'.pool.gateHeld = false) →
          ∃ k x, (k, x) ∈ m'.posts ∧ x.inside = true := by
        rintro (⟨y, hy, hi⟩ | hfree)
        · exact ⟨_, y.2, hafter.mem_iff.2 (List.mem_append_left _ (List.mem_map_of_mem hy)), hi⟩
        · rw [hheld] at hfree
          cases hfree
      cases hacq : x.acquiring? with
      | some a => exact hbehind (ht.inside_or_open_of_acquiring (hc ▸ hr.fits hx) hacq)
      | none =>
        by_cases hprewarm : ∃ count s, x = .prewarm count s
        · obtain ⟨count, s, rfl⟩ := hprewarm
          exact hbehind (ht.inside_or_open_of_prewarm hconfig)
        · have hnot : ∀ count s, x ≠ .prewarm count s := fun count s he => hprewarm ⟨count, s, he⟩
          refine hstay (ht.shy hacq hnot hheld) fun x' hx' => ?_
          rw [post_unique ho hx' hx]
          cases hi : x.inside with
          | false => rfl
          | true =>
            rcases Post.inside_cases hi with hcase | ⟨a, ha, -⟩
            · exact absurd hcase hprewarm
            · rw [hacq] at ha
              cases ha
    · have hnone : ∀ x, (m.mover move, x) ∈ m.posts → x.inside = false :=
        fun x hx => absurd ⟨x, hx⟩ hmover
      rcases next_leaf ho hn with hs | ⟨l, sig, r, ⟨e, hturn, -⟩, -, -, -, -, hl⟩
      · exact hstay (hs.pool ▸ hheld) hnone
      · rcases hl with hl | ⟨-, id, g, rfl⟩
        · obtain ⟨x, hx, -⟩ := mem_of_leaf? hl
          exact absurd ⟨x, hx⟩ hmover
        · have hshy : ((Termination.demand id (.expire g)).bare).Shy := (Termination.shy id _).map _
          exact hstay (hshy hturn hheld) hnone

end Machine

end SandboxPool
