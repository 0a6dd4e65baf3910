import SandboxPool.Proofs.Pool.Acts

/-!
# Every move is an act

The things that the posts of a machine have in hand, each under the key of its post. A move is an
act with things of one post; a new post has at most a reserved start that its leader made for it.
-/

namespace SandboxPool

variable {κ σ α τ β : Type} {config : Config} {c : Context} {p p' : Pool} {sig : Option Signal}
  {e : List Effect}

/-- What posts have in hand, each thing under the key of its post. -/
def hands (posts : List (κ × Post)) : List (κ × Hand) :=
  posts.flatMap fun x => x.2.hand.map fun t => (x.1, t)

theorem hands_cons (k : κ) (x : Post) (rest : List (κ × Post)) :
    hands ((k, x) :: rest) = x.hand.map (fun t => (k, t)) ++ hands rest := List.flatMap_cons

theorem hands_append (a b : List (κ × Post)) : hands (a ++ b) = hands a ++ hands b :=
  List.flatMap_append

theorem hands_perm {a b : List (κ × Post)} (h : a.Perm b) : (hands a).Perm (hands b) :=
  h.flatMap_right _

/-- An act with things that are all under one key before. Behind it they still are, or they are
reserved starts of new posts. -/
def MovesAt (k : κ) (p : Pool) (before : List (κ × Hand)) (sig : Option Signal) (p' : Pool)
    (after : List (κ × Hand)) : Prop :=
  ∃ x y rest q, before.Perm (x ++ rest) ∧ after.Perm (y ++ rest) ∧
    Act p (x.map (·.2)) sig q (y.map (·.2)) ∧ q.Alike p' ∧ (∀ t ∈ x, t.1 = k) ∧
    ∀ t ∈ y, t.1 = k ∨ t.2 = .reserved

/-- An act of a post is one under its key. -/
theorem Moves.at {before after : List Hand} (h : Moves p before sig p' after) (k : κ) :
    MovesAt k p (before.map fun t => (k, t)) sig p' (after.map fun t => (k, t)) := by
  obtain ⟨x, y, rest, q, hb, ha, hact, hq⟩ := h
  have hsnd : ∀ l : List Hand, (l.map fun t => (k, t)).map (·.2) = l := by
    intro l
    rw [List.map_map]
    exact List.map_id' l
  have hkey : ∀ l : List Hand, ∀ t ∈ l.map (fun t => (k, t)), t.1 = k := by
    intro l t ht
    obtain ⟨t₀, -, rfl⟩ := List.mem_map.1 ht
    rfl
  refine ⟨x.map fun t => (k, t), y.map fun t => (k, t), rest.map fun t => (k, t), q, ?_, ?_, ?_, hq,
    hkey x, fun t ht => .inl (hkey y t ht)⟩
  · rw [← List.map_append]
    exact hb.map _
  · rw [← List.map_append]
    exact ha.map _
  · rw [hsnd, hsnd]
    exact hact

theorem MovesAt.frame {k : κ} {before after : List (κ × Hand)} (h : MovesAt k p before sig p' after)
    (others : List (κ × Hand)) : MovesAt k p (before ++ others) sig p' (after ++ others) := by
  obtain ⟨x, y, rest, q, hb, ha, hact, hq, hx, hy⟩ := h
  refine ⟨x, y, rest ++ others, q, ?_, ?_, hact, hq, hx, hy⟩
  · rw [← List.append_assoc]
    exact hb.append_right others
  · rw [← List.append_assoc]
    exact ha.append_right others

theorem MovesAt.perm {k : κ} {before after before' after' : List (κ × Hand)}
    (h : MovesAt k p before sig p' after) (hb' : before'.Perm before) (ha' : after'.Perm after) :
    MovesAt k p before' sig p' after' := by
  obtain ⟨x, y, rest, q, hb, ha, hact⟩ := h
  exact ⟨x, y, rest, q, hb'.trans hb, ha'.trans ha, hact⟩

theorem MovesAt.map {κ' : Type} {k : κ} {before after : List (κ × Hand)}
    (h : MovesAt k p before sig p' after) (f : κ → κ') :
    MovesAt (f k) p (before.map fun t => (f t.1, t.2)) sig p' (after.map fun t => (f t.1, t.2)) := by
  obtain ⟨x, y, rest, q, hb, ha, hact, hq, hx, hy⟩ := h
  have hsnd : ∀ l : List (κ × Hand), (l.map fun t => (f t.1, t.2)).map (·.2) = l.map (·.2) := by
    intro l
    rw [List.map_map]
    rfl
  refine ⟨x.map fun t => (f t.1, t.2), y.map fun t => (f t.1, t.2), rest.map fun t => (f t.1, t.2), q,
    ?_, ?_, ?_, hq, fun t ht => ?_, fun t ht => ?_⟩
  · rw [← List.map_append]
    exact hb.map _
  · rw [← List.map_append]
    exact ha.map _
  · rw [hsnd, hsnd]
    exact hact
  · obtain ⟨t₀, h₀, rfl⟩ := List.mem_map.1 ht
    exact congrArg f (hx t₀ h₀)
  · obtain ⟨t₀, h₀, rfl⟩ := List.mem_map.1 ht
    rcases hy t₀ h₀ with hk | hres
    · exact .inl (congrArg f hk)
    · exact .inr hres

/-! ## Teams -/

namespace Team

/-- New members with nothing in hand. -/
theorem hands_stand_nil {member : κ → Strand σ α → Post} {tasks : List (κ × σ)}
    (h : ∀ t ∈ tasks, (member t.1 (.ready t.2)).hand = []) (n : Nat) :
    hands (stand member (enrol n tasks)) = [] := by
  induction tasks generalizing n with
  | nil => rfl
  | cons task rest ih =>
    have hrest := ih (fun t ht => h t (List.mem_cons_of_mem _ ht)) (n + 1)
    simp only [stand, enrol, List.map_cons] at hrest ⊢
    rw [hands_cons, hrest, h task (List.mem_cons_self ..)]
    rfl

/-- New members with a reserved start each. -/
theorem hands_stand_reserved {member : κ → Strand σ α → Post} {tasks : List (κ × σ)}
    (h : ∀ t ∈ tasks, (member t.1 (.ready t.2)).hand = [.reserved]) (n : Nat) :
    (hands (stand member (enrol n tasks))).map (·.2) = List.replicate tasks.length .reserved := by
  induction tasks generalizing n with
  | nil => rfl
  | cons task rest ih =>
    have hrest := ih (fun t ht => h t (List.mem_cons_of_mem _ ht)) (n + 1)
    simp only [stand, enrol, List.map_cons] at hrest ⊢
    rw [hands_cons, List.map_append, hrest, h task (List.mem_cons_self ..)]
    rfl

/-- A turn of a leader that starts members with nothing in hand. -/
theorem leader_moves {leader : Strand τ β → Post} {member : κ → Strand σ α → Post} {place n : Nat}
    {s s' : Strand τ β} {tasks : List (κ × σ)}
    (h : Moves p (leader s).hand sig p' (leader s').hand)
    (ht : ∀ t ∈ tasks, (member t.1 (.ready t.2)).hand = []) :
    MovesAt place p (hands [(place, leader s)]) sig p'
      (hands ((place, leader s') :: stand member (enrol n tasks))) := by
  have hm := h.at place
  rw [hands_cons, hands_cons, hands_stand_nil ht]
  exact hm.frame []

/-- A turn of a member, which leaves its post empty-handed when it ends. -/
theorem member_moves {demand : σ → Demand (Next σ α)} {f : Bool → σ → List Hand}
    {member : Strand σ α → Post} (hs : Sound config demand f fun _ => [])
    (hm : ∀ st, (member st).hand = st.hand f fun _ => []) (hp : p.config = config)
    {st : Strand σ α} {sc : Scope (Strand σ α)} (h : st.Turn demand c p sig sc) {place : Nat}
    {after : List (Nat × Post)}
    (ha : after = [(place, member sc.result)] ∨ sc.result.ended = true ∧ after = []) :
    MovesAt place p (hands [(place, member st)]) sig sc.pool (hands after) := by
  have hmoves := (hs.strand hp h).at place
  rw [hands_cons, hm]
  rcases ha with rfl | ⟨he, rfl⟩
  · rw [hands_cons, hm]
    exact hmoves.frame []
  · rw [Strand.hand_ended he] at hmoves
    exact hmoves.frame []

end Team

namespace Intent

variable {out : Bool} {s : Scope (Option (Next τ β))} {tasks : List (κ × σ)}

theorem turn_demand {d : Demand (Next τ β)}
    (h : (demand d : Intent κ σ α τ β).Turn c p out sig s tasks) :
    d.Turn c p out sig s ∧ tasks = [] := by
  cases h with
  | demand h => exact ⟨h, rfl⟩

theorem turn_hire {body : Context → Pool → Scope (List (κ × σ) × Next τ β)}
    (h : (hire body : Intent κ σ α τ β).Turn c p out sig s tasks) :
    out = false ∧ sig = none ∧ s = (body c p).map (fun x => some x.2) ∧
      tasks = (body c p).result.1 := by
  cases h with
  | hire => exact ⟨rfl, rfl, rfl, rfl⟩

theorem turn_join {next : Context → List (Ended κ α) → Next τ β}
    (h : (join next : Intent κ σ α τ β).Turn c p out sig s tasks) :
    out = false ∧ sig = none ∧ (∃ ended, s = ⟨p, [], some (next c ended)⟩) ∧ tasks = [] := by
  cases h with
  | join _ ended => exact ⟨rfl, rfl, ⟨ended, rfl⟩, rfl⟩

/-- A turn of the strand of a leader is one at its point. -/
theorem turn_of_lead {leader : τ → Intent κ σ α τ β} {st : Strand τ β} {sc : Scope (Strand τ β)}
    (h : st.Lead leader c p sig sc tasks) :
    ∃ point out s, (leader point).Turn c p out sig s tasks ∧ sc = s.map (Strand.land point) ∧
      ∀ (f : Bool → τ → List Hand) (g : β → List Hand), st.hand f g = f out point := by
  obtain ⟨point, out, s, rfl, ht, rfl⟩ := h.at_point
  refine ⟨point, out, s, ht, rfl, fun f g => ?_⟩
  cases out <;> rfl

end Intent

/-! ## Leaders -/

/-- The leader of a prewarm reserves the starts that its members have in hand. -/
theorem Prewarm.lead_moves {count place n : Nat} {st : Strand Point Result}
    {sc : Scope (Strand Point Result)} {tasks : List (Unit × Spawn.Point)}
    (h : st.Lead (conduct config count).leader c p sig sc tasks) :
    MovesAt place p (hands [(place, .prewarm count st)]) sig sc.pool
      (hands ((place, .prewarm count sc.result) :: Team.stand (fun _ => .spawn)
        (Team.enrol n tasks))) := by
  obtain ⟨point, out, s, ht, rfl, -⟩ := Intent.turn_of_lead h
  have hidle : ∀ {q : Pool} {st st' : Strand Point Result}, p.Alike q →
      MovesAt place p (hands [(place, .prewarm count st)]) none q
        (hands ((place, .prewarm count st') ::
          Team.stand (fun _ : Unit => .spawn) (Team.enrol n []))) :=
    fun ha => Team.leader_moves (.aside_none ha []) fun t ht => by cases ht
  cases point with
  | gate =>
    obtain ⟨hd, rfl⟩ := Intent.turn_demand ht
    obtain ⟨rfl, rfl, -, rfl⟩ := Demand.turn_gate hd
    exact hidle ⟨rfl, rfl, rfl, rfl, rfl⟩
  | reserve =>
    obtain ⟨rfl, rfl, rfl, rfl⟩ := Intent.turn_hire ht
    simp only [reserve]
    split
    · exact hidle (.refl p)
    · next hroom =>
      generalize htasks : (List.replicate (room count p) ((), Spawn.Point.allocate)) = tasks
      have hall : ∀ t ∈ tasks, (Post.spawn (.ready t.2)).hand = [.reserved] := by
        intro t ht
        rw [← htasks] at ht
        rw [List.eq_of_mem_replicate ht]
        rfl
      have hlen : tasks.length = room count p := by rw [← htasks, List.length_replicate]
      have hbound : p.occupancy + room count p ≤ max 1 p.config.effectiveMax := by
        unfold room at hroom ⊢
        omega
      refine ⟨[], hands (Team.stand (fun _ : Unit => .spawn) (Team.enrol n tasks)), [],
        p.reserve (room count p), List.Perm.refl _, ?_, ?_, .refl _, (fun t ht => by cases ht), ?_⟩
      · rw [hands_cons, List.append_nil]
        exact List.Perm.refl _
      · rw [Team.hands_stand_reserved hall, hlen]
        exact Act.reserve _ hbound
      · intro t ht
        have hmem := List.mem_map_of_mem (f := fun x : Nat × Hand => x.2) ht
        rw [Team.hands_stand_reserved hall] at hmem
        exact .inr (List.eq_of_mem_replicate hmem)
  | gather =>
    obtain ⟨rfl, rfl, ⟨ended, rfl⟩, rfl⟩ := Intent.turn_join ht
    exact hidle (.refl p)
  | leave r =>
    obtain ⟨hd, rfl⟩ := Intent.turn_demand ht
    obtain ⟨rfl, rfl, rfl⟩ := Demand.turn_scope hd
    simp only [leave, Scope.map]
    split
    · exact hidle (.refl p)
    · exact hidle ⟨rfl, rfl, rfl, rfl, rfl⟩

/-- The leader of a teardown has nothing in hand. -/
theorem Teardown.lead_moves {place n : Nat} {st : Strand Point Unit}
    {sc : Scope (Strand Point Unit)} {tasks : List (String × Termination.Point)}
    (h : st.Lead conduct.leader c p sig sc tasks) :
    MovesAt place p (hands [(place, .teardown st)]) sig sc.pool
      (hands ((place, .teardown sc.result) :: Team.stand .terminate (Team.enrol n tasks))) := by
  obtain ⟨point, out, s, ht, rfl, -⟩ := Intent.turn_of_lead h
  cases point with
  | collect =>
    obtain ⟨rfl, rfl, rfl, rfl⟩ := Intent.turn_hire ht
    simp only [collect]
    split
    · exact Team.leader_moves (.aside_none (.refl p) []) fun t ht => by cases ht
    · refine Team.leader_moves (.aside_none (.refl p) []) fun t ht => ?_
      obtain ⟨r, -, rfl⟩ := List.mem_map.1 ht
      rfl
  | gather =>
    obtain ⟨rfl, rfl, ⟨ended, rfl⟩, rfl⟩ := Intent.turn_join ht
    exact Team.leader_moves (.aside_none (.refl p) []) fun t ht => by cases ht

/-- The leader of a cleanup has nothing in hand and leaves the pool as it is. -/
theorem Cleanup.lead_moves {place n : Nat} {st : Strand Point Nat} {sc : Scope (Strand Point Nat)}
    {tasks : List (String × Reclaim.Point)} (h : st.Lead conduct.leader c p sig sc tasks) :
    MovesAt place p (hands [(place, .cleanup st)]) none sc.pool
      (hands ((place, .cleanup sc.result) :: Team.stand .reclaim (Team.enrol n tasks))) := by
  obtain ⟨point, out, s, ht, rfl, -⟩ := Intent.turn_of_lead h
  have hpool : s.pool = p := by
    cases point with
    | list =>
      obtain ⟨hd, rfl⟩ := Intent.turn_demand ht
      rcases Demand.turn_list hd with ⟨-, -, rfl⟩ | ⟨r, -, -, rfl⟩ <;> rfl
    | compare containers =>
      obtain ⟨-, -, rfl, rfl⟩ := Intent.turn_hire ht
      simp only [compare, Scope.map]
      split <;> rfl
    | gather =>
      obtain ⟨-, -, ⟨ended, rfl⟩, -⟩ := Intent.turn_join ht
      rfl
  refine Team.leader_moves (.aside_none ?_ []) fun t ht => rfl
  show p.Alike s.pool
  rw [hpool]

/-- The leader of an execution has in hand what the block has that it runs. -/
theorem Execution.lead_moves {plan : Plan} {place n : Nat} {st : Strand Point Result}
    {sc : Scope (Strand Point Result)} {tasks : List (String × Duty)} (hp : p.config = config)
    (h : st.Lead (conduct config plan).leader c p sig sc tasks) :
    MovesAt place p (hands [(place, .execute plan st)]) sig sc.pool
      (hands ((place, .execute plan sc.result) ::
        Team.stand (fun _ => .duty) (Team.enrol n tasks))) := by
  obtain ⟨point, out, s, ht, rfl, hst⟩ := Intent.turn_of_lead h
  have hmain : Moves p (hand out point) sig s.pool
      ((Strand.land point s.result).hand hand fun _ => []) ∧
      ∀ t ∈ tasks, (Post.duty (.ready t.2)).hand = [] := by
    have hsame : Moves p [] none p [] := .aside_none (.refl p) []
    cases point with
    | begin =>
      obtain ⟨hd, rfl⟩ := Intent.turn_demand ht
      obtain ⟨rfl, rfl, rfl⟩ := Demand.turn_scope hd
      refine ⟨?_, fun t ht => by cases ht⟩
      simp only [begin]
      split
      · exact hsame
      · have ha : p.Alike p.draw.2 := ⟨rfl, rfl, rfl, rfl, rfl⟩
        exact .aside_none ha []
    | lane s =>
      obtain ⟨hd, rfl⟩ := Intent.turn_demand ht
      obtain ⟨rfl, rfl, rfl⟩ := Demand.turn_scope hd
      refine ⟨?_, fun t ht => by cases ht⟩
      simp only [lane]
      split
      · exact hsame
      · next first _ _ =>
        split
        · exact hsame
        · cases first <;> exact hsame
    | solo s block b =>
      obtain ⟨hd, rfl⟩ := Intent.turn_demand ht
      refine ⟨?_, fun t ht => by cases ht⟩
      refine (BlockRun.sound config block).into [] _ _ (fun out t => ?_) (fun a => rfl) (.inl rfl)
        hp hd
      simp only [hand, List.append_nil]
    | dispatch s sent waiting =>
      obtain ⟨rfl, rfl, rfl, rfl⟩ := Intent.turn_hire ht
      simp only [dispatch]
      split
      · exact ⟨hsame, fun t ht => by cases ht⟩
      · split
        · exact ⟨hsame, fun t ht => by cases ht⟩
        · refine ⟨hsame, fun t ht => ?_⟩
          obtain rfl := List.mem_singleton.1 ht
          rfl
    | gather s sent interrupted =>
      obtain ⟨rfl, rfl, ⟨ended, rfl⟩, rfl⟩ := Intent.turn_join ht
      exact ⟨hsame, fun t ht => by cases ht⟩
    | settle s ran interrupted =>
      obtain ⟨hd, rfl⟩ := Intent.turn_demand ht
      obtain ⟨rfl, rfl, rfl⟩ := Demand.turn_scope hd
      refine ⟨?_, fun t ht => by cases ht⟩
      simp only [settle]
      split
      · exact hsame
      · split
        · exact hsame
        · split <;> exact hsame
    | abort s index =>
      obtain ⟨hd, rfl⟩ := Intent.turn_demand ht
      obtain ⟨rfl, rfl, rfl⟩ := Demand.turn_scope hd
      exact ⟨hsame, fun t ht => by cases ht⟩
    | teardown s index =>
      obtain ⟨rfl, rfl, rfl, rfl⟩ := Intent.turn_hire ht
      simp only [teardown]
      split
      · exact ⟨hsame, fun t ht => by cases ht⟩
      · refine ⟨hsame, fun t ht => ?_⟩
        obtain ⟨r, -, rfl⟩ := List.mem_map.1 ht
        rfl
    | cleared s index =>
      obtain ⟨rfl, rfl, ⟨ended, rfl⟩, rfl⟩ := Intent.turn_join ht
      exact ⟨hsame, fun t ht => by cases ht⟩
    | finish s status =>
      obtain ⟨hd, rfl⟩ := Intent.turn_demand ht
      obtain ⟨rfl, rfl, rfl⟩ := Demand.turn_scope hd
      exact ⟨hsame, fun t ht => by cases ht⟩
  obtain ⟨hmoves, htasks⟩ := hmain
  refine Team.leader_moves ?_ htasks
  have hbefore : (Post.execute plan st).hand = hand out point := hst hand fun _ => []
  rw [hbefore]
  exact hmoves

/-! ## Posts and machines -/

theorem Reclaim.turn_pool {id : String} {point : Point} {out : Bool}
    {s : Scope (Option (Next Point Bool))} (h : (demand id point).Turn c p out sig s) : s.pool = p := by
  cases point with
  | stop => rcases Demand.turn_act h with ⟨-, -, rfl⟩ | ⟨r, -, -, rfl⟩ <;> rfl
  | remove => rcases Demand.turn_act h with ⟨-, -, rfl⟩ | ⟨r, -, -, rfl⟩ <;> rfl

/-- An act of a post that stays. -/
theorem Moves.post {x x' : Post} (h : Moves p x.hand sig p' x'.hand) (k : κ) :
    MovesAt k p (hands [(k, x)]) sig p' (hands [(k, x')]) := by
  rw [hands_cons, hands_cons]
  exact (h.at k).frame []

/-- A turn of a post is an act. -/
theorem Post.turned_moves {place : Nat} {x : Post} {after : List (Nat × Post)}
    (hp : p.config = config) (h : x.Turned config c p place sig p' e after) :
    MovesAt place p (hands [(place, x)]) sig p' (hands after) := by
  cases h with
  | acquire h =>
    have hm := (Acquire.sound config _).strand hp h
    exact Moves.post hm place
  | release h =>
    have hm := (Release.sound config .caller).strand hp h
    exact Moves.post hm place
  | terminate h =>
    have hm := (Termination.sound_alone config _).strand hp h
    exact Moves.post hm place
  | prewarm h =>
    cases h with
    | leader hl n => exact Prewarm.lead_moves hl
    | member ht ha => exact Team.member_moves (Spawn.sound_alone config _) (fun _ => rfl) hp ht ha
  | teardown h =>
    cases h with
    | leader hl n => exact Teardown.lead_moves hl
    | member ht ha =>
      exact Team.member_moves (Termination.sound_alone config _) (fun _ => rfl) hp ht ha
  | cleanup h =>
    cases h with
    | leader hl n => exact Cleanup.lead_moves hl
    | @member id s sig sc after ht ha =>
      have hpool : sc.pool = p := by
        obtain ⟨point, out, s₀, -, hturn, rfl⟩ := ht.at_point
        exact Reclaim.turn_pool hturn
      have hnone : hands after = [] := by
        rcases ha with rfl | ⟨-, rfl⟩
        · rfl
        · rfl
      rw [hpool, hnone]
      exact (Moves.aside_none (.refl p) []).at place
  | execute h =>
    cases h with
    | leader hl n => exact Execution.lead_moves hp hl
    | member ht ha => exact Team.member_moves (Execution.member_sound config) (fun _ => rfl) hp ht ha

namespace Machine

/-- What the posts of a machine have in hand. -/
def hands (m : Machine) : List (Key × Hand) := SandboxPool.hands m.posts

theorem mem_hands {m : Machine} {k : Key} {t : Hand} :
    (k, t) ∈ m.hands ↔ ∃ x, (k, x) ∈ m.posts ∧ t ∈ x.hand := by
  unfold hands SandboxPool.hands
  simp only [List.mem_flatMap, List.mem_map, Prod.mk.injEq]
  constructor
  · rintro ⟨⟨k', x⟩, hx, t', ht, rfl, rfl⟩
    exact ⟨x, hx, ht⟩
  · rintro ⟨x, hx, ht⟩
    exact ⟨(k, x), hx, t, ht, rfl, rfl⟩

theorem hands_keyed (n : Nat) (posts : List (Nat × Post)) :
    SandboxPool.hands (Activity.keyed n posts)
      = (SandboxPool.hands posts).map fun t => ((n, t.1), t.2) := by
  induction posts with
  | nil => rfl
  | cons x rest ih =>
    obtain ⟨place, x⟩ := x
    have hcons : Activity.keyed n ((place, x) :: rest) = ((n, place), x) :: Activity.keyed n rest := rfl
    rw [hcons, hands_cons, hands_cons, ih, List.map_append, List.map_map]
    rfl

end Machine

/-- The key of the post that moves. -/
def Machine.mover (m : Machine) : Move → Key
  | .step n place | .reply n place _ => (n, place)
  | _ => (m.started, 0)

/-- The post that moves is new, or the only one that changes. -/
theorem Machine.Shift.mover {m : Machine} {move : Move} {gone gone' : List (Key × Post)}
    (hs : m.Shift move gone p' e gone') :
    (m.mover move).1 = m.started ∨ ∃ x, gone = [(m.mover move, x)] := by
  cases hs with
  | step => exact .inr ⟨_, rfl⟩
  | reply => exact .inr ⟨_, rfl⟩
  | _ => exact .inl rfl

/-- What an order begins with. -/
theorem Activity.ofOrder_moves (hp : p.config = config) (o : Order) :
    MovesAt 0 p [] none p (SandboxPool.hands (ofOrder config o).posts) := by
  have hpost : ∀ x : Post, Moves p [] none p x.hand →
      MovesAt 0 p [] none p (SandboxPool.hands [(0, x)]) := by
    intro x h
    rw [hands_cons]
    exact (h.at 0).frame []
  have hnone : Moves p [] none p [] := .aside_none (.refl p) []
  cases o with
  | acquire block => exact hpost _ (Acquire.start_moves hp)
  | release id =>
    refine hpost _ ?_
    have hall : ∀ t ∈ Release.hand [.returning id] id (Release.start config), t.Entry p := by
      intro t ht
      unfold Release.start at ht
      cases hc : config.parallelism with
      | multi =>
        rw [hc] at ht
        obtain rfl := List.mem_singleton.1 ht
        trivial
      | single =>
        rw [hc] at ht
        rcases List.mem_cons.1 ht with rfl | ht
        · show p.config.parallelism = .single
          rw [hp, hc]
        · obtain rfl := List.mem_singleton.1 ht
          trivial
    exact (Act.enter _ hall).moves (.refl p)
  | terminate id => exact hpost (.terminate id (.ready .claim)) hnone
  | prewarm count =>
    refine hpost (.prewarm count _) hnone
  | teardown => exact hpost (.teardown _) hnone
  | cleanup => exact hpost (.cleanup _) hnone
  | execute plan => exact hpost (.execute plan _) hnone

/-- **A move is an act**, with things in hand of the post that moves; its signal is that of the
move. -/
theorem Machine.next_hands {m m' : Machine} (ho : m.Ordered) {move : Move} {notes : List Note}
    (h : m.next move = some (m', notes)) :
    MovesAt (m.mover move) m.pool m.hands (m.signal? move) m'.pool m'.hands := by
  obtain ⟨-, before, e, after, rest, hb, ha, hs⟩ := next_posts ho h
  have hlift : MovesAt (m.mover move) m.pool (SandboxPool.hands before) (m.signal? move) m'.pool
      (SandboxPool.hands after) := by
    generalize m'.pool = p' at hs
    cases hs with
    | abort | advance | vary => exact (Moves.aside_none (.refl _) []).at _
    | order o =>
      rw [hands_keyed]
      exact (Activity.ofOrder_moves rfl o).map fun place => (m.started, place)
    | @step n place x p' e after ht =>
      have hone := hands_keyed n [(place, x)]
      rw [hands_keyed]
      refine MovesAt.perm ?_ (.of_eq hone) (.refl _)
      exact (Post.turned_moves rfl ht).map fun place => (n, place)
    | @reply n place r x after ht =>
      have hone := hands_keyed n [(place, x)]
      rw [hands_keyed]
      refine MovesAt.perm ?_ (.of_eq hone) (.refl _)
      exact (Post.turned_moves rfl ht).map fun place => (n, place)
    | fire ht =>
      rw [hands_keyed]
      exact (Post.turned_moves rfl ht).map fun place => (m.started, place)
  refine (hlift.frame (SandboxPool.hands rest)).perm ?_ ?_
  · rw [← hands_append]
    exact hands_perm hb
  · rw [← hands_append]
    exact hands_perm ha

end SandboxPool
