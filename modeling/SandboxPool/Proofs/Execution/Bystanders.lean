import SandboxPool.Proofs.Execution.Users
import SandboxPool.Proofs.Settled

/-!
# Operations beside an execution

Other operations may go on while an execution does. Those that neither acquire sandboxes nor give them
back leave the sandboxes in use alone, whatever they do to the others (`Machine.next_level`). So if only
such operations are there, the pool knows the sandboxes that the execution uses, from its start to its
end (`Machine.Reaches.accounted`).
-/

namespace SandboxPool

variable {config : Config} {c : Context} {p : Pool} {place : Nat} {sig : Option Signal}
  {a : Activity} {x : Nat × Post} {n : Nat}

namespace Activity

/-- The operation gives sandboxes to blocks, or takes them back. -/
def lends : Activity → Bool
  | acquire .. | release .. | execute .. => true
  | _ => false

/-- The operation does so, and has not ended. -/
def lending (a : Activity) : Bool := a.lends && !a.ended

theorem lends_of_ended (h : a.lending = false) (he : a.ended = false) : a.lends = false := by
  simpa [lending, he] using h

/-- Operations that do not lend have nothing in hand that somebody uses. -/
theorem hand_uses (h : a.lends = false) (hx : x ∈ a.posts) : ∀ t ∈ x.2.hand, t.uses = false := by
  have hterminate : ∀ (id : String) (s : Strand Termination.Point Termination.Result),
      ∀ t ∈ (Post.terminate id s).hand, t.uses = false := fun id s =>
    Strand.hand_uses (fun _ => Termination.hand_uses (by simp)) fun _ _ _ ht => by cases ht
  cases a with
  | terminate id s =>
    obtain rfl := List.mem_singleton.1 hx
    exact hterminate id s
  | prewarm count t =>
    rcases List.mem_cons.1 hx with rfl | hx
    · exact fun t ht => by cases ht
    · obtain ⟨y, -, rfl⟩ := List.mem_map.1 hx
      exact Strand.hand_uses Spawn.hand_uses fun _ _ _ ht => by cases ht
  | teardown t =>
    rcases List.mem_cons.1 hx with rfl | hx
    · exact fun t ht => by cases ht
    · obtain ⟨y, -, rfl⟩ := List.mem_map.1 hx
      exact hterminate _ _
  | cleanup t =>
    rcases List.mem_cons.1 hx with rfl | hx
    · exact fun t ht => by cases ht
    · obtain ⟨y, -, rfl⟩ := List.mem_map.1 hx
      exact fun t ht => by cases ht
  | _ => cases h

/-- Who takes a turn has not ended. -/
theorem Turn.ended_eq_false {s : Scope Activity} (hg : a.Gathered)
    (h : a.Turn config c p place sig s) (hl : a.lends = true) : a.ended = false := by
  have hstrand : ∀ {σ α : Type} {demand : σ → Demand (Next σ α)} {st : Strand σ α}
      {sc : Scope (Strand σ α)}, st.Turn demand c p sig sc → st.ended = false := by
    intro σ α demand st sc hst
    obtain ⟨point, out, s₀, rfl, -, -⟩ := hst.at_point
    cases out <;> rfl
  cases h with
  | acquire _ h => exact hstrand h
  | release _ h => exact hstrand h
  | execute h =>
    show Strand.ended _ = false
    cases h with
    | @demand point d out sig s hleader => rw [hleader]; cases out <;> rfl
    | hire hleader => rw [hleader]; rfl
    | join hleader => rw [hleader]; rfl
    | member hm =>
      rcases hg with hnone | ⟨point, hleader, -⟩
      · have hmem := Team.mem_of_member? hm
        rw [hnone] at hmem
        cases hmem
      · rw [hleader]
        rfl
  | _ => cases hl

/-- An operation stays one of its kind. -/
theorem Turn.lends_eq {s : Scope Activity} (h : a.Turn config c p place sig s) :
    s.result.lends = a.lends := by
  cases h <;> rfl

/-- An operation that has just started has not ended. -/
theorem ended_ofOrder (config : Config) (o : Order) : (ofOrder config o).ended = false := by
  cases o <;> rfl

/-- Who makes an acquisition lends. -/
theorem lending_of_acquiring (hg : a.Gathered) (hx : x ∈ a.posts) {point : Acquire.Point}
    (ha : x.2.acquiring? = some point) : a.lending = true := by
  cases a with
  | acquire block s =>
    obtain rfl := List.mem_singleton.1 hx
    have hended : s.ended = false := Strand.ended_of_point? ha
    simp [lending, lends, ended, hended]
  | execute plan t =>
    have hended : t.leader.ended = false := by
      rcases List.mem_cons.1 hx with rfl | hx
      · obtain ⟨point', hp, -⟩ := Option.bind_eq_some_iff.1 ha
        exact Strand.ended_of_point? hp
      · obtain ⟨y, hy, -⟩ := List.mem_map.1 hx
        cases he : t.leader.ended with
        | false => rfl
        | true =>
          rw [Team.Gathered.active_nil hg he] at hy
          cases hy
    simp [lending, lends, ended, hended]
  | release id s =>
    obtain rfl := List.mem_singleton.1 hx
    cases ha
  | terminate id s =>
    obtain rfl := List.mem_singleton.1 hx
    cases ha
  | _ =>
    rcases List.mem_cons.1 hx with rfl | hx
    · cases ha
    · obtain ⟨y, -, rfl⟩ := List.mem_map.1 hx
      cases ha

end Activity

namespace Machine

variable {m m' m₁ : Machine} {h₁ h₂ : History} {move : Move} {notes : List Note} {pool : Pool}
  {now : Instant} {seed : BitVec 128} {plan : Plan} {t : Execution.Run}

/-- Nobody but one operation gives sandboxes to blocks or takes them back. -/
def Alone (m : Machine) (n : Nat) : Prop := ∀ a ∈ m.activities, a.1 ≠ n → a.2.lending = false

instance (m : Machine) (n : Nat) : Decidable (m.Alone n) :=
  inferInstanceAs (Decidable (∀ a ∈ m.activities, _))

/-- Who does not lend has nothing in hand that somebody uses. -/
theorem hand_uses (ho : m.Ordered) (ha : ∀ a, m.activity? n = some a → a.lends = false)
    {k : Key} {t : Hand} (hk : k.1 = n) (ht : (k, t) ∈ m.hands) : t.uses = false := by
  obtain ⟨x, hx, ht⟩ := mem_hands.1 ht
  obtain ⟨a, hmem, hx⟩ := mem_posts.1 hx
  exact Activity.hand_uses (ha a (hk ▸ activity?_of_mem ho hmem)) hx t ht

/-- **Whoever moves beside an operation that is alone leaves the sandboxes in use alone.** -/
theorem next_level (ho : m.Ordered) (hg : ∀ k a, m.activity? k = some a → a.Gathered)
    (ha : m.Alone n) (ha' : m'.Alone n) (hn : m.next move = some (m', notes))
    (hm : (m.mover move).1 ≠ n) : m.pool.Level m'.pool := by
  obtain ⟨x, y, rest, q, hb, hbehind, hact, hq, hx, hy⟩ := next_hands ho hn
  have ho' := (next_posts ho hn).1
  have hafter : ∀ b, m'.activity? (m.mover move).1 = some b → b.lends = false ∧
      ∀ a, m.activity? (m.mover move).1 = some a → a.lends = false := by
    intro b hb
    have hlending := ha' _ (activity?_mem hb) hm
    have hnone : (m.mover move).1 = m.started →
        ∀ a, m.activity? (m.mover move).1 = some a → a.lends = false := by
      intro he a hsome
      have hlt := activity?_lt ho hsome
      omega
    cases next_course ho hn hb with
    | stay _ hne => exact absurd rfl hne
    | order o he =>
      exact ⟨Activity.lends_of_ended hlending (Activity.ended_ofOrder _ o), hnone he⟩
    | fire he => exact ⟨rfl, hnone he⟩
    | @turn place a sig s hsome hk ht =>
      have hnot : a.lends = false := by
        cases hl : a.lends with
        | false => rfl
        | true =>
          have hlends := Activity.lends_of_ended (ha _ (activity?_mem hsome) hm)
            (ht.ended_eq_false (hg _ a hsome) hl)
          rw [hl] at hlends
          cases hlends
      refine ⟨ht.lends_eq.trans hnot, fun a' ha' => ?_⟩
      rw [hsome] at ha'
      cases ha'
      exact hnot
  have hbefore : ∀ a, m.activity? (m.mover move).1 = some a → a.lends = false := by
    intro a hsome
    obtain ⟨b, hb⟩ := exists_activity ho'
      (Nat.lt_of_lt_of_le (activity?_lt ho hsome) (started_le hn))
    exact (hafter b hb).2 a hsome
  refine (hact.level (fun t ht => ?_) fun t ht => ?_).alike hq
  · obtain ⟨z, hz, rfl⟩ := List.mem_map.1 ht
    exact hand_uses ho hbefore (congrArg Prod.fst (hx z hz))
      (hb.mem_iff.2 (List.mem_append_left _ hz))
  · obtain ⟨z, hz, rfl⟩ := List.mem_map.1 ht
    rcases hy z hz with hk | hreserved
    · exact hand_uses ho' (fun b hb => (hafter b hb).1) (congrArg Prod.fst hk)
        (hbehind.mem_iff.2 (List.mem_append_left _ hz))
    · rw [hreserved]
      rfl

/-- The posts of an execution are on the paths of the model of the pool. -/
theorem Reaches.execution_fits (hr : (ofPool pool now).Reaches h₁ m)
    (ha : m.activity? n = some (.execute plan t)) :
    t.leader.Keeps (Execution.Point.Fits pool.config.parallelism) (fun _ => True) ∧
      ∀ x ∈ t.active, x.strand.Keeps (Execution.Duty.Fits pool.config.parallelism) fun _ => True := by
  have hposts : ∀ x ∈ (Activity.execute plan t).posts, x.2.Fits pool.config.parallelism :=
    fun x hx => hr.fits (k := (n, x.1)) (mem_posts.2 ⟨_, activity?_mem ha, hx⟩)
  exact ⟨hposts _ (List.mem_cons_self ..),
    fun x hx => hposts _ (List.mem_cons_of_mem _ (List.mem_map_of_mem hx))⟩

/-- **The pool knows the sandboxes that an execution uses**, as long as nobody else gives sandboxes to
blocks or takes them back. -/
theorem Reaches.accounted (hp : Pool.create config seed = .ok pool)
    (hr₁ : (ofPool pool now).Reaches h₁ m₁) (hr₂ : m₁.Reaches h₂ m) (hf : (h₁ ++ h₂).Fresh)
    (halone : ∀ x ∈ h₂.map (·.1) ++ [m], x.Alone n) (hlt : n < m₁.started)
    (hbase : ∀ t, m₁.activity? n = some (.execute plan t) →
      Pool.Accounted config.parallelism m₁.pool (Execution.users t))
    (ha : m.activity? n = some (.execute plan t)) :
    Pool.Accounted config.parallelism m.pool (Execution.users t) := by
  have hfresh : ∀ {h : History} {x : Machine × Move}, (h₁ ++ (h ++ [x])).Fresh → (h₁ ++ h).Fresh := by
    intro h x hf
    rw [← List.append_assoc] at hf
    exact History.fresh_of_append hf
  have hbehind : ∀ {h : History} {m m' : Machine} {move : Move},
      (∀ x ∈ (h ++ [(m, move)]).map (·.1) ++ [m'], x.Alone n) →
      (∀ x ∈ h.map (·.1) ++ [m], x.Alone n) ∧ m'.Alone n := by
    intro h m m' move hall
    refine ⟨fun x hx => hall x ?_, hall m' (by simp)⟩
    rw [List.map_append]
    exact List.mem_append_left _ hx
  refine hr₂.along (I := fun h m t => (h₁ ++ h).Fresh → (∀ x ∈ h.map (·.1) ++ [m], x.Alone n) →
    Pool.Accounted config.parallelism m.pool (Execution.users t)) hr₁.ordered_ofPool
    (fun t hbegin _ _ => hbase t hbegin) ?_ ?_ ?_ ha hf halone
  · intro h m m' move notes hr hn he
    have hle := hr.started_le
    omega
  · intro h m m' move notes t hr hn hm hact ih hf halone
    obtain ⟨hbefore, hafter⟩ := hbehind halone
    have hall := hr₁.append hr
    have hlevel := next_level hall.ordered_ofPool (fun _ _ => hall.gathered)
      (hbefore m (by simp)) hafter hn hm
    exact (ih (hfresh hf) hbefore).level (fun _ => hall.doomed_next hp (hfresh hf) hn) hlevel
  · intro h m m' move t place sig s hr hs ih hf halone
    obtain ⟨notes, hn, -⟩ := hs.next
    have hall := hr₁.append hr
    have hsame := (hall.capped hp).config_eq
    obtain ⟨hleader, hmembers⟩ := hall.execution_fits hs.here
    rw [← hall.config_eq] at hleader hmembers
    have hdoom : ∀ id, m.pool.Doomed id → s.pool.Doomed id := by
      rw [← hs.pool]
      exact fun _ => hall.doomed_next hp (hfresh hf) hn
    have hwaking : m.pool.config.parallelism = .multi → ∀ id,
        m.pool.claim? id = some .waking → ∃ r ∈ m.pool.records, r.id = id ∧ r.state = .dormant :=
      fun hmulti => (hall.woken hp (hsame ▸ hmulti) (hfresh hf)).claim
    have hnow := hs.stride.accounted rfl (hall.books hp (hfresh hf)).named.distinct hwaking hdoom
      hs.ordered hleader hmembers
    rw [hsame, ← hs.pool] at hnow
    exact hnow (ih (hfresh hf) (hbehind halone).1)

end Machine

end SandboxPool
