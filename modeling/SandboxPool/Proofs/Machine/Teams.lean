import SandboxPool.Proofs.Machine.Turns
import Mathlib.Data.List.Nodup

/-!
# Turns of teams and of operations

`Team.Turn` lists all that can happen to a team: its leader takes a turn, starts members, or goes on
when all of them have ended, or a member takes a turn. `Activity.Turn` is a turn of an operation.

* A step or a reply is one of these turns (`Activity.turn_of_step`, `Activity.turn_of_reply`).
* Members keep numbers of their own (`Team.Ordered`), and each of them is as it was behind a turn
  unless it has taken the turn itself (`Team.Turn.member_or`).
* Members that are known to be busy stay so until something is true of the pool
  (`Team.Turn.busy_or`), and are there only while the leader waits for them (`Team.Turn.gathered`).
-/

namespace SandboxPool

/-! ## Members of a team -/

/-- The strand of a member that has ended. -/
def Ended.strand {κ σ α : Type} (e : Ended κ α) : Strand σ α :=
  match e.result with
  | .ok a => .done a
  | .error message => .panicked message

namespace Team

variable {κ σ α τ β : Type} {conduct : Conduct κ σ α τ β} {c : Context} {p : Pool}
  {t : Team κ σ α τ β} {m x : Member κ σ α} {st : Strand σ α}

/-- Members have different serial numbers, all below the number of the next one. -/
structure Ordered (t : Team κ σ α τ β) : Prop where
  nodup : (t.active.map (·.serial)).Nodup
  lt : ∀ m ∈ t.active, m.serial < t.hired

theorem ordered_start (point : τ) : (start point : Team κ σ α τ β).Ordered :=
  ⟨by simp [start], by simp [start]⟩

theorem mem_enrol {n : Nat} {tasks : List (κ × σ)} {x : Member κ σ α} (hx : x ∈ enrol n tasks) :
    ∃ t ∈ tasks, x.task = t.1 ∧ x.strand = .ready t.2 := by
  induction tasks generalizing n with
  | nil => cases hx
  | cons task rest ih =>
    rcases List.mem_cons.1 hx with rfl | hx
    · exact ⟨task, List.mem_cons_self .., rfl, rfl⟩
    · obtain ⟨t, ht, heq⟩ := ih hx
      exact ⟨t, List.mem_cons_of_mem _ ht, heq⟩

/-- New members are there for every task. -/
theorem exists_mem_enrol {tasks : List (κ × σ)} {task : κ × σ} (h : task ∈ tasks) (n : Nat) :
    ∃ x ∈ (enrol n tasks : List (Member κ σ α)), x.task = task.1 ∧ x.strand = .ready task.2 := by
  induction tasks generalizing n with
  | nil => cases h
  | cons first rest ih =>
    rcases List.mem_cons.1 h with rfl | h
    · exact ⟨_, List.mem_cons_self .., rfl, rfl⟩
    · obtain ⟨x, hx, heq⟩ := ih h (n + 1)
      exact ⟨x, List.mem_cons_of_mem _ hx, heq⟩

theorem enrol_serials (n : Nat) (tasks : List (κ × σ)) :
    (enrol n tasks : List (Member κ σ α)).map (·.serial) = List.range' n tasks.length := by
  induction tasks generalizing n with
  | nil => rfl
  | cons task rest ih =>
    simp only [enrol, List.map_cons, ih, List.length_cons, List.range'_succ]

/-- The member with a serial number stands between others with other numbers. -/
theorem member?_split (ho : t.Ordered) {n : Nat} {m : Member κ σ α} (h : t.member? n = some m) :
    m.serial = n ∧ ∃ l r, t.active = l ++ m :: r ∧ (∀ x ∈ l, x.serial ≠ n) ∧ ∀ x ∈ r, x.serial ≠ n := by
  unfold member? at h
  obtain ⟨hm, l, r, hs, hl⟩ := List.find?_eq_some_iff_append.1 h
  have hn : m.serial = n := by simpa using hm
  refine ⟨hn, l, r, hs, fun x hx => by simpa using hl x hx, fun x hx he => ?_⟩
  have hd := ho.nodup
  rw [hs, List.map_append, List.map_cons, List.nodup_append] at hd
  have hnot := (List.nodup_cons.1 hd.2.1).1
  exact hnot (List.mem_map.2 ⟨x, hx, by rw [he, hn]⟩)

theorem outcome?_isSome (st : Strand σ α) : (outcome? st).isSome = st.ended := by
  cases st <;> rfl

/-- A member that gets elsewhere is in its place among the others, or it is behind those that have
ended. -/
theorem update_cases {m : Member κ σ α} {l r : List (Member κ σ α)} (hs : t.active = l ++ m :: r)
    (hl : ∀ x ∈ l, x.serial ≠ m.serial) (hr : ∀ x ∈ r, x.serial ≠ m.serial) (st : Strand σ α) :
    ((t.update m st).active = l ++ { m with strand := st } :: r ∧ (t.update m st).ended = t.ended) ∨
      ∃ result, outcome? st = some result ∧ (t.update m st).active = l ++ r ∧
        (t.update m st).ended = t.ended ++ [⟨m.serial, m.task, result⟩] := by
  have hstay : ∀ ms : List (Member κ σ α), (∀ x ∈ ms, x.serial ≠ m.serial) →
      (ms.map fun old => if old.serial == m.serial then { old with strand := st } else old) = ms := by
    intro ms hms
    rw [List.map_congr_left (g := id) (fun x hx => by simp [hms x hx]), List.map_id]
  have hkeep : ∀ ms : List (Member κ σ α), (∀ x ∈ ms, x.serial ≠ m.serial) →
      ms.filter (·.serial != m.serial) = ms := by
    intro ms hms
    exact List.filter_eq_self.2 fun x hx => by simpa using hms x hx
  unfold update
  cases hout : outcome? st with
  | some result =>
    refine .inr ⟨result, rfl, ?_, rfl⟩
    simp only [hs, List.filter_append, List.filter_cons, bne_self_eq_false, Bool.false_eq_true,
      if_false, hkeep l hl, hkeep r hr]
  | none =>
    refine .inl ⟨?_, rfl⟩
    simp only [hs, List.map_append, List.map_cons, beq_self_eq_true, if_true, hstay l hl, hstay r hr]

theorem update_hired (m : Member κ σ α) (st : Strand σ α) : (t.update m st).hired = t.hired := by
  unfold update
  split <;> rfl

theorem update_leader (m : Member κ σ α) (st : Strand σ α) : (t.update m st).leader = t.leader := by
  unfold update
  split <;> rfl

/-- A member that gets elsewhere keeps its number. -/
theorem ordered_update (ho : t.Ordered) {n : Nat} (h : t.member? n = some m) (st : Strand σ α) :
    (t.update m st).Ordered := by
  obtain ⟨rfl, l, r, hs, hl, hr⟩ := member?_split ho h
  have hserial : t.active.map (·.serial) = l.map (·.serial) ++ m.serial :: r.map (·.serial) := by
    rw [hs, List.map_append, List.map_cons]
  have hlt : ∀ x, x ∈ l ∨ x = m ∨ x ∈ r → x.serial < t.hired := by
    intro x hx
    apply ho.lt
    rw [hs]
    rcases hx with hx | rfl | hx <;> simp [*]
  rcases update_cases hs hl hr st with ⟨ha, -⟩ | ⟨-, -, ha, -⟩
  · refine ⟨?_, fun x hx => ?_⟩
    · rw [ha, List.map_append, List.map_cons, ← hserial]
      exact ho.nodup
    · rw [ha, List.mem_append, List.mem_cons] at hx
      rw [update_hired]
      rcases hx with hx | rfl | hx
      · exact hlt x (.inl hx)
      · exact hlt m (.inr (.inl rfl))
      · exact hlt x (.inr (.inr hx))
  · refine ⟨?_, fun x hx => ?_⟩
    · rw [ha, List.map_append]
      have hd := ho.nodup
      rw [hserial] at hd
      exact hd.sublist (by simp)
    · rw [ha, List.mem_append] at hx
      rw [update_hired]
      rcases hx with hx | hx
      · exact hlt x (.inl hx)
      · exact hlt x (.inr (.inr hx))

/-- A leader that hires has the new posts beside the old ones. -/
theorem ordered_hire (ho : t.Ordered) (s : Strand τ β) (tasks : List (κ × σ)) :
    ({ t with
      leader := s
      active := t.active ++ enrol t.hired tasks
      hired := t.hired + tasks.length } : Team κ σ α τ β).Ordered := by
  have hnew : ∀ x ∈ (enrol t.hired tasks : List (Member κ σ α)),
      t.hired ≤ x.serial ∧ x.serial < t.hired + tasks.length := by
    intro x hx
    have hmem : x.serial ∈ List.range' t.hired tasks.length := by
      rw [← enrol_serials (α := α)]
      exact List.mem_map_of_mem hx
    simpa using hmem
  refine ⟨?_, fun x hx => ?_⟩
  · rw [List.map_append, enrol_serials, List.nodup_append]
    refine ⟨ho.nodup, List.nodup_range', ?_⟩
    intro a ha b hb
    obtain ⟨x, hx, rfl⟩ := List.mem_map.1 ha
    have hlt := ho.lt x hx
    simp only [List.mem_range'_1] at hb
    omega
  · rcases List.mem_append.1 hx with hx | hx
    · have hlt := ho.lt x hx
      simp only
      omega
    · exact (hnew x hx).2

theorem mem_of_member? {n : Nat} (h : t.member? n = some m) : m ∈ t.active :=
  List.mem_of_find?_eq_some h

theorem find?_of_nodup {γ : Type} {f : γ → Nat} {l : List γ} (hd : (l.map f).Nodup) {y : γ}
    (hy : y ∈ l) : l.find? (f · == f y) = some y := by
  cases hfind : l.find? (f · == f y) with
  | none => exact absurd (List.find?_eq_none.1 hfind y hy) (by simp)
  | some z =>
    have hf : f z = f y := by simpa using List.find?_some hfind
    rw [List.inj_on_of_nodup_map hd (List.mem_of_find?_eq_some hfind) hy hf]

theorem member?_of_mem (ho : t.Ordered) (hm : m ∈ t.active) : t.member? m.serial = some m :=
  find?_of_nodup ho.nodup hm

/-- A member with another number stays as it is. -/
theorem mem_update_of_ne (hx : x ∈ t.active) (hne : x.serial ≠ m.serial) :
    x ∈ (t.update m st).active := by
  unfold update
  split
  · exact List.mem_filter.2 ⟨hx, by simpa using hne⟩
  · exact List.mem_map.2 ⟨x, hx, by simp [hne]⟩

/-- A member that goes on is where its strand is. -/
theorem mem_update (hm : m ∈ t.active) (hst : st.ended = false) :
    { m with strand := st } ∈ (t.update m st).active := by
  unfold update
  split
  · next result hout =>
    rw [← outcome?_isSome, hout] at hst
    cases hst
  · exact List.mem_map.2 ⟨m, hm, by simp⟩

/-- Where another member is does not change. -/
theorem member?_update_of_ne {n : Nat} (hn : n ≠ m.serial) : (t.update m st).member? n = t.member? n := by
  unfold update member?
  split
  · rw [List.find?_filter]
    refine congrArg (List.find? · t.active) (funext fun x => ?_)
    by_cases hx : x.serial = n
    · simp [hx, hn]
    · simp [hx]
  · rw [List.find?_map]
    have hsame : ((·.serial == n) ∘ fun old : Member κ σ α =>
        if old.serial == m.serial then { old with strand := st } else old) = (·.serial == n) := by
      funext x
      simp only [Function.comp_apply]
      split <;> rfl
    rw [hsame]
    cases hfind : t.active.find? (·.serial == n) with
    | none => rfl
    | some x =>
      have hx : x.serial = n := by simpa using List.find?_some hfind
      simp [hx, hn]

/-- A member that gets elsewhere is there, unless it has ended. -/
theorem member?_update_self (ho : t.Ordered) {n : Nat} (h : t.member? n = some m) (st : Strand σ α) :
    (t.update m st).member? n = if st.ended then none else some { m with strand := st } := by
  have hm := mem_of_member? h
  obtain ⟨rfl, -⟩ := member?_split ho h
  cases hst : st.ended with
  | false => exact member?_of_mem (ordered_update ho h st) (mem_update hm hst)
  | true =>
    obtain ⟨result, hout⟩ := Option.isSome_iff_exists.1 ((outcome?_isSome st).trans hst)
    refine List.find?_eq_none.2 fun x hx => ?_
    unfold update at hx
    rw [hout] at hx
    simpa using (List.mem_filter.1 hx).2

/-- Where a member is that has just taken a turn. -/
def went? (t : Team κ σ α τ β) (n : Nat) : Option (Strand σ α) :=
  ((t.member? n).map (·.strand)).or (t.ended.getLast?.map (·.strand))

theorem went?_update (ho : t.Ordered) {n : Nat} (h : t.member? n = some m) (st : Strand σ α) :
    (t.update m st).went? n = some st := by
  unfold went?
  rw [member?_update_self ho h]
  cases hst : st.ended with
  | false => rfl
  | true =>
    have hlast : ∀ result, outcome? st = some result →
        (t.update m st).ended.getLast? = some ⟨m.serial, m.task, result⟩ := by
      intro result hout
      unfold update
      rw [hout]
      exact List.getLast?_concat
    cases st with
    | done a => simp [hlast _ rfl, Ended.strand]
    | panicked message => simp [hlast _ rfl, Ended.strand]
    | _ => cases hst

/-- Members that have ended are not there any more. -/
def Alive (t : Team κ σ α τ β) : Prop := ∀ x ∈ t.active, x.strand.ended = false

theorem Alive.update (h : t.Alive) (m : Member κ σ α) (st : Strand σ α) : (t.update m st).Alive := by
  intro x hx
  unfold Team.update at hx
  split at hx
  · exact h x (List.mem_filter.1 hx).1
  · next hout =>
    obtain ⟨y, hy, rfl⟩ := List.mem_map.1 hx
    split
    · rw [← outcome?_isSome, hout]
      rfl
    · exact h y hy

/-! ## Turns of a team -/

/-- All that can happen to a team: place 0 is the leader, and place `n + 1` the member with number
`n`. -/
inductive Turn (conduct : Conduct κ σ α τ β) (c : Context) (p : Pool) (t : Team κ σ α τ β) :
    (place : Nat) → Option Signal → Scope (Team κ σ α τ β) → Prop where
  | demand {point : τ} {d : Demand (Next τ β)} {out : Bool} {sig : Option Signal}
      {s : Scope (Option (Next τ β))} (hl : t.leader = .standing point out)
      (hd : conduct.leader point = .demand d) (h : d.Turn c p out sig s) :
      Turn conduct c p t 0 sig (s.map fun next => { t with leader := .land point next })
  | hire {point : τ} {body : Context → Pool → Scope (List (κ × σ) × Next τ β)}
      (hl : t.leader = .ready point) (hd : conduct.leader point = .hire body) :
      Turn conduct c p t 0 none ((body c p).map fun (tasks, next) =>
        { t with
          leader := .ofNext next
          active := t.active ++ enrol t.hired tasks
          hired := t.hired + tasks.length })
  | join {point : τ} {next : Context → List (Ended κ α) → Next τ β} (hl : t.leader = .ready point)
      (hd : conduct.leader point = .join next) (hnone : t.active = []) :
      Turn conduct c p t 0 none ⟨p, [], { t with leader := .ofNext (next c t.ended), ended := [] }⟩
  | member {n : Nat} {m : Member κ σ α} {sig : Option Signal} {sc : Scope (Strand σ α)}
      (hm : t.member? n = some m) (h : m.strand.Turn (conduct.member m.task) c p sig sc) :
      Turn conduct c p t (n + 1) sig (sc.map (t.update m))

/-- A step of a team is one of its turns. -/
theorem turn_of_step {place : Nat} {s : Scope (Team κ σ α τ β)}
    (h : t.step conduct c p place = some s) :
    t.Turn conduct c p place ((t.ask? conduct place).map .sent) s := by
  cases place with
  | zero =>
    simp only [step] at h
    split at h
    · next point hl =>
      have hstanding : t.leader = .standing point false := hl
      unfold lead at h
      split at h
      · next d hd =>
        obtain ⟨s₀, hs₀, rfl⟩ := Option.map_eq_some_iff.1 h
        have hask : (t.ask? conduct 0).map Signal.sent
            = ((Strand.ready point : Strand τ β).ask? fun _ => d).map .sent := by
          simp only [ask?, hl, hd, Strand.ask?]
        rw [hask]
        cases Strand.turn_of_step hs₀ with
        | ready ht => exact .demand hstanding hd ht
      · next body hd =>
        cases h
        have hask : t.ask? conduct 0 = none := by simp only [ask?, hl, hd]
        rw [hask]
        exact .hire hl hd
      · next next hd =>
        split at h
        · next hempty =>
          cases h
          have hask : t.ask? conduct 0 = none := by simp only [ask?, hl, hd]
          rw [hask]
          exact .join hl hd (List.isEmpty_iff.1 hempty)
        · cases h
    · cases h
  | succ n =>
    simp only [step] at h
    obtain ⟨m, hm, h⟩ := Option.bind_eq_some_iff.1 h
    obtain ⟨s₀, hs₀, rfl⟩ := Option.map_eq_some_iff.1 h
    have hask : t.ask? conduct (n + 1) = m.strand.ask? (conduct.member m.task) := by
      simp only [ask?, hm, Option.bind_some]
    rw [hask]
    exact .member hm (Strand.turn_of_step hs₀)

/-- A reply to a team is one of its turns. -/
theorem turn_of_reply {place : Nat} {r : Reply} {t' : Team κ σ α τ β}
    (h : t.reply conduct r place = some t') :
    ∃ a, t.ask? conduct place = some a ∧ t.Turn conduct c p place (some (.got a r)) ⟨p, [], t'⟩ := by
  cases place with
  | zero =>
    simp only [reply] at h
    split at h
    · next point hl =>
      split at h
      · next d hd =>
        obtain ⟨next, hn, rfl⟩ := Option.map_eq_some_iff.1 h
        have hask : ∃ a, d.ask? = some a := by
          cases d with
          | scope body => cases r <;> cases hn
          | gate next => cases r <;> cases hn
          | _ => exact ⟨_, rfl⟩
        obtain ⟨a, ha⟩ := hask
        have hstanding : t.leader = .standing point true := hl
        refine ⟨a, ?_, .demand hstanding hd (.receive d a r next ha hn)⟩
        simp only [ask?, hl, hd, ha]
      · cases h
    · cases h
  | succ n =>
    simp only [reply] at h
    obtain ⟨m, hm, h⟩ := Option.bind_eq_some_iff.1 h
    obtain ⟨st, hst, rfl⟩ := Option.map_eq_some_iff.1 h
    obtain ⟨a, hask, ht⟩ := Strand.turn_of_reply (c := c) (p := p) hst
    refine ⟨a, ?_, .member hm ht⟩
    simp only [ask?, hm, Option.bind_some, hask]

/-- Members keep numbers of their own. -/
theorem Turn.alive {place : Nat} {sig : Option Signal} {s : Scope (Team κ σ α τ β)}
    (h : t.Turn conduct c p place sig s) (ha : t.Alive) : s.result.Alive := by
  cases h with
  | demand => exact ha
  | hire =>
    intro x hx
    rcases List.mem_append.1 hx with hx | hx
    · exact ha x hx
    · obtain ⟨task, -, -, hs⟩ := mem_enrol hx
      rw [hs]
      rfl
  | join => exact ha
  | @member _ m _ sc => exact ha.update m sc.result

theorem Turn.ordered (ho : t.Ordered) {place : Nat} {sig : Option Signal}
    {s : Scope (Team κ σ α τ β)} (h : t.Turn conduct c p place sig s) : s.result.Ordered := by
  cases h with
  | demand => exact ⟨ho.nodup, ho.lt⟩
  | hire => exact ordered_hire ho _ _
  | join => exact ⟨ho.nodup, ho.lt⟩
  | member hm => exact ordered_update ho hm _

/-- Members that have ended keep their numbers, too. -/
structure Numbered (t : Team κ σ α τ β) : Prop where
  nodup : (t.active.map (·.serial) ++ t.ended.map (·.serial)).Nodup
  lt : ∀ e ∈ t.ended, e.serial < t.hired

theorem Numbered.hire (ho : t.Ordered) (hn : t.Numbered) (s : Strand τ β) (tasks : List (κ × σ)) :
    ({ t with
      leader := s
      active := t.active ++ enrol t.hired tasks
      hired := t.hired + tasks.length } : Team κ σ α τ β).Numbered := by
  refine ⟨?_, fun e he => Nat.lt_add_right _ (hn.lt e he)⟩
  have hnew : ∀ serial ∈ (enrol t.hired tasks : List (Member κ σ α)).map (·.serial),
      t.hired ≤ serial := by
    intro serial hs
    rw [enrol_serials] at hs
    exact (List.mem_range'_1.1 hs).1
  have hmid : (t.active.map (·.serial) ++ t.ended.map (·.serial)
      ++ (enrol t.hired tasks : List (Member κ σ α)).map (·.serial)).Nodup := by
    refine List.nodup_append.2 ⟨hn.nodup, ?_, fun a ha b hb => ?_⟩
    · rw [enrol_serials]
      exact List.nodup_range'
    · have hge := hnew b hb
      rcases List.mem_append.1 ha with ha | ha
      · obtain ⟨x, hx, rfl⟩ := List.mem_map.1 ha
        have hlt := ho.lt x hx
        omega
      · obtain ⟨e, he, rfl⟩ := List.mem_map.1 ha
        have hlt := hn.lt e he
        omega
  rw [List.map_append, List.append_assoc]
  rw [List.append_assoc] at hmid
  exact ((List.perm_append_comm.append_left _).nodup_iff).1 hmid

theorem Numbered.update (ho : t.Ordered) (hn : t.Numbered) {n : Nat} (h : t.member? n = some m)
    (st : Strand σ α) : (t.update m st).Numbered := by
  have hlt := ho.lt m (mem_of_member? h)
  obtain ⟨rfl, l, r, hs, hl, hr⟩ := member?_split ho h
  have hnodup := hn.nodup
  rw [hs] at hnodup
  rcases update_cases hs hl hr st with ⟨ha, he⟩ | ⟨result, -, ha, he⟩
  · refine ⟨?_, fun e hmem => ?_⟩
    · rw [ha, he]
      simpa using hnodup
    · rw [update_hired]
      exact hn.lt e (he ▸ hmem)
  · refine ⟨?_, fun e hmem => ?_⟩
    · rw [ha, he]
      have hperm : ((l ++ m :: r).map (·.serial) ++ t.ended.map (·.serial)).Perm
          ((l ++ r).map (·.serial)
            ++ (t.ended ++ [(⟨m.serial, m.task, result⟩ : Ended κ α)]).map (·.serial)) := by
        simp only [List.map_append, List.map_cons, List.map_nil]
        refine (List.perm_middle.append_right _).trans ?_
        rw [List.cons_append, ← List.append_assoc]
        exact List.perm_append_singleton _ _ |>.symm
      exact hperm.nodup_iff.1 hnodup
    · rw [update_hired]
      rw [he] at hmem
      rcases List.mem_append.1 hmem with hmem | hmem
      · exact hn.lt e hmem
      · obtain rfl := List.mem_singleton.1 hmem
        exact hlt

theorem Turn.numbered (ho : t.Ordered) (hn : t.Numbered) {place : Nat} {sig : Option Signal}
    {s : Scope (Team κ σ α τ β)} (h : t.Turn conduct c p place sig s) : s.result.Numbered := by
  cases h with
  | demand => exact ⟨hn.nodup, hn.lt⟩
  | hire => exact hn.hire ho _ _
  | join hl hd hnone => exact ⟨by simp [hnone], fun e he => by cases he⟩
  | member hm => exact hn.update ho hm _

/-- A member is there behind a turn, or it has taken the turn itself. -/
theorem Turn.member_or (ho : t.Ordered) {place : Nat} {sig : Option Signal}
    {s : Scope (Team κ σ α τ β)} (h : t.Turn conduct c p place sig s) (hx : x ∈ t.active) :
    x ∈ s.result.active ∨ ∃ sc, x.strand.Turn (conduct.member x.task) c p sig sc ∧
      s.pool = sc.pool ∧ s.result = t.update x sc.result := by
  cases h with
  | demand => exact .inl hx
  | hire => exact .inl (List.mem_append_left _ hx)
  | join hl hd hnone =>
    rw [hnone] at hx
    cases hx
  | @member n m sig sc hm ht =>
    by_cases he : x.serial = m.serial
    · obtain rfl : x = m := List.inj_on_of_nodup_map ho.nodup hx (mem_of_member? hm) he
      exact .inr ⟨sc, ht, rfl, rfl⟩
    · exact .inl (mem_update_of_ne hx he)

/-- A member is at a point where something is known of it. -/
def Busy (t : Team κ σ α τ β) (P : κ → σ → Prop) : Prop :=
  ∃ x ∈ t.active, ∃ q, x.strand.point? = some q ∧ P x.task q

/-- A member goes on from one point to another where the same is known of it, or something else is
true of the pool. -/
theorem Turn.busy_or {P : κ → σ → Prop} {Q : Pool → Prop} (ho : t.Ordered) {place : Nat}
    {sig : Option Signal} {s : Scope (Team κ σ α τ β)} (h : t.Turn conduct c p place sig s)
    (hb : t.Busy P)
    (hgoes : ∀ {task : κ} {q : σ} {out : Bool} {sc : Scope (Option (Next σ α))}, P task q →
      (conduct.member task q).Turn c p out sig sc →
      (∃ q', (Strand.land q sc.result).point? = some q' ∧ P task q') ∨ Q sc.pool) :
    s.result.Busy P ∨ Q s.pool := by
  obtain ⟨x, hx, q, hq, hP⟩ := hb
  rcases h.member_or ho hx with hx' | ⟨sc, ht, hpool, hresult⟩
  · exact .inl ⟨x, hx', q, hq, hP⟩
  · obtain ⟨point, out, s₀, hst, hturn, rfl⟩ := ht.at_point
    obtain rfl : q = point := by
      rw [hst, Strand.point?_standing] at hq
      exact (Option.some.inj hq).symm
    rcases hgoes hP hturn with ⟨q', hq', hP'⟩ | hQ
    · refine .inl ⟨{ x with strand := .land q s₀.result }, ?_, q', hq', hP'⟩
      rw [hresult]
      exact mem_update hx (Strand.ended_of_point? hq')
    · exact .inr (hpool ▸ hQ)

/-- A leader that waits for its members stays where it is as long as there is one. -/
theorem Turn.leader_of_busy {P : κ → σ → Prop} {place : Nat} {sig : Option Signal}
    {s : Scope (Team κ σ α τ β)} (h : t.Turn conduct c p place sig s) (hb : t.Busy P) {point : τ}
    {next : Context → List (Ended κ α) → Next τ β} (hl : t.leader = .ready point)
    (hd : conduct.leader point = .join next) : s.result.leader = .ready point := by
  cases h with
  | demand hl' hd' =>
    obtain ⟨-, rfl⟩ := Strand.standing_eq_ready.1 (hl'.symm.trans hl)
    rw [hd] at hd'
    cases hd'
  | hire hl' hd' =>
    rw [hl] at hl'
    cases hl'
    rw [hd] at hd'
    cases hd'
  | join hl' hd' hnone =>
    obtain ⟨x, hx, -⟩ := hb
    rw [hnone] at hx
    cases hx
  | member hm ht =>
    show (t.update _ _).leader = _
    rw [update_leader, hl]

/-- A leader that starts members goes on, and all of them are there. -/
theorem Turn.of_hire {sig : Option Signal} {s : Scope (Team κ σ α τ β)}
    (h : t.Turn conduct c p 0 sig s) {point : τ}
    {body : Context → Pool → Scope (List (κ × σ) × Next τ β)} (hl : t.leader = .ready point)
    (hd : conduct.leader point = .hire body) :
    s.pool = (body c p).pool ∧ s.result.leader = .ofNext (body c p).result.2 ∧
      ∀ P : κ → σ → Prop, (∃ task ∈ (body c p).result.1, P task.1 task.2) → s.result.Busy P := by
  cases h with
  | demand hl' hd' =>
    obtain ⟨-, rfl⟩ := Strand.standing_eq_ready.1 (hl'.symm.trans hl)
    rw [hd] at hd'
    cases hd'
  | hire hl' hd' =>
    rw [hl] at hl'
    cases hl'
    rw [hd] at hd'
    cases hd'
    refine ⟨rfl, rfl, fun P hP => ?_⟩
    obtain ⟨task, htask, hP⟩ := hP
    obtain ⟨x, hx, hxt, hxs⟩ := exists_mem_enrol (α := α) htask t.hired
    refine ⟨x, List.mem_append_right _ hx, task.2, ?_, ?_⟩
    · rw [hxs]
      rfl
    · rwa [hxt]
  | join hl' hd' =>
    rw [hl] at hl'
    cases hl'
    rw [hd] at hd'
    cases hd'

/-- Members are there only while the leader is at a point where it waits for them. -/
def Gathered (waits : τ → Bool) (t : Team κ σ α τ β) : Prop :=
  t.active = [] ∨ ∃ point, t.leader = .ready point ∧ waits point = true

/-- No members are there where the leader does not wait for them. -/
theorem Gathered.active_eq_nil {waits : τ → Bool} (hg : t.Gathered waits)
    (hno : ∀ point, t.leader = .ready point → waits point = false) : t.active = [] := by
  rcases hg with hnone | ⟨point, hl, hyes⟩
  · exact hnone
  · rw [hno point hl] at hyes
    cases hyes

theorem Gathered.active_of_point {waits : τ → Bool} {point : τ} (hg : t.Gathered waits)
    (hl : t.leader.point? = some point) (hno : waits point = false) : t.active = [] := by
  refine hg.active_eq_nil fun point' hl' => ?_
  rw [hl'] at hl
  cases hl
  exact hno

/-- A leader that starts members goes on to wait for them, and joins them before it does anything
else. -/
structure Conduct.Waits (conduct : Conduct κ σ α τ β) (waits : τ → Bool) : Prop where
  demand : ∀ {point d}, conduct.leader point = .demand d → waits point = false
  hire : ∀ {point body}, conduct.leader point = .hire body → ∀ c p,
    (body c p).result.1 = [] ∧ waits point = false ∨
      ∃ q, (body c p).result.2 = .goto q ∧ waits q = true

theorem Turn.gathered {waits : τ → Bool} (hw : Conduct.Waits conduct waits) {place : Nat}
    {sig : Option Signal} {s : Scope (Team κ σ α τ β)} (h : t.Turn conduct c p place sig s)
    (hg : t.Gathered waits) : s.result.Gathered waits := by
  cases h with
  | demand hl hd ht =>
    exact .inl (hg.active_of_point (by rw [hl, Strand.point?_standing]) (hw.demand hd))
  | hire hl hd =>
    rcases hw.hire hd c p with ⟨hnone, hno⟩ | ⟨q, hq, hyes⟩
    · refine .inl ?_
      show t.active ++ enrol t.hired _ = []
      rw [hg.active_of_point (by rw [hl]; rfl) hno, hnone]
      rfl
    · refine .inr ⟨q, ?_, hyes⟩
      show Strand.ofNext _ = _
      rw [hq]
      rfl
  | join hl hd hnone => exact .inl hnone
  | member hm ht =>
    rcases hg with hnone | ⟨point, hl, hyes⟩
    · have hmem := mem_of_member? hm
      rw [hnone] at hmem
      cases hmem
    · exact .inr ⟨point, (update_leader _ _).trans hl, hyes⟩

end Team

/-! ## Turns of operations -/

namespace Activity

variable {config : Config} {c : Context} {p : Pool} {place : Nat} {sig : Option Signal}

/-- The members of an operation have numbers of their own. -/
def Ordered : Activity → Prop
  | acquire .. | release .. | terminate .. => True
  | prewarm _ t => t.Ordered
  | teardown t => t.Ordered
  | cleanup t => t.Ordered
  | execute _ t => t.Ordered

theorem ordered_ofOrder (config : Config) (o : Order) : (ofOrder config o).Ordered := by
  cases o with
  | acquire block => trivial
  | release id => trivial
  | terminate id => trivial
  | prewarm count => exact Team.ordered_start _
  | teardown => exact Team.ordered_start _
  | cleanup => exact Team.ordered_start _
  | execute plan => exact Team.ordered_start _

theorem only_eq_some {β : Type} {place : Nat} {x : Option β} {y : β} (h : only place x = some y) :
    place = 0 ∧ x = some y := by
  unfold only at h
  split at h
  · next hp => exact ⟨hp, h⟩
  · cases h

/-- A turn of an operation. -/
inductive Turn (config : Config) (c : Context) (p : Pool) (place : Nat) :
    Activity → Option Signal → Scope Activity → Prop where
  | acquire {block : String} {st : Strand Acquire.Point Acquire.Result} {sig : Option Signal}
      {s : Scope (Strand Acquire.Point Acquire.Result)} (hp : place = 0)
      (h : st.Turn (Acquire.demand config block) c p sig s) :
      Turn config c p place (.acquire block st) sig (s.map (.acquire block))
  | release {id : String} {st : Strand Release.Point Release.Result} {sig : Option Signal}
      {s : Scope (Strand Release.Point Release.Result)} (hp : place = 0)
      (h : st.Turn (Release.demand id) c p sig s) :
      Turn config c p place (.release id st) sig (s.map (.release id))
  | terminate {id : String} {st : Strand Termination.Point Termination.Result} {sig : Option Signal}
      {s : Scope (Strand Termination.Point Termination.Result)} (hp : place = 0)
      (h : st.Turn (Termination.demand id) c p sig s) :
      Turn config c p place (.terminate id st) sig (s.map (.terminate id))
  | prewarm {count : Nat} {t : Prewarm.Run} {sig : Option Signal} {s : Scope Prewarm.Run}
      (h : t.Turn (Prewarm.conduct config count) c p place sig s) :
      Turn config c p place (.prewarm count t) sig (s.map (.prewarm count))
  | teardown {t : Teardown.Run} {sig : Option Signal} {s : Scope Teardown.Run}
      (h : t.Turn Teardown.conduct c p place sig s) :
      Turn config c p place (.teardown t) sig (s.map .teardown)
  | cleanup {t : Cleanup.Run} {sig : Option Signal} {s : Scope Cleanup.Run}
      (h : t.Turn Cleanup.conduct c p place sig s) :
      Turn config c p place (.cleanup t) sig (s.map .cleanup)
  | execute {plan : Plan} {t : Execution.Run} {sig : Option Signal} {s : Scope Execution.Run}
      (h : t.Turn (Execution.conduct config plan) c p place sig s) :
      Turn config c p place (.execute plan t) sig (s.map (.execute plan))

/-- A step of an operation is one of its turns. -/
theorem turn_of_step {a : Activity} {s : Scope Activity} (h : a.step config c p place = some s) :
    a.Turn config c p place ((a.ask? config place).map .sent) s := by
  cases a with
  | acquire block st =>
    obtain ⟨rfl, h⟩ := only_eq_some h
    obtain ⟨s₀, hs₀, rfl⟩ := Option.map_eq_some_iff.1 h
    exact .acquire rfl (Strand.turn_of_step hs₀)
  | release id st =>
    obtain ⟨rfl, h⟩ := only_eq_some h
    obtain ⟨s₀, hs₀, rfl⟩ := Option.map_eq_some_iff.1 h
    exact .release rfl (Strand.turn_of_step hs₀)
  | terminate id st =>
    obtain ⟨rfl, h⟩ := only_eq_some h
    obtain ⟨s₀, hs₀, rfl⟩ := Option.map_eq_some_iff.1 h
    exact .terminate rfl (Strand.turn_of_step hs₀)
  | prewarm count t =>
    obtain ⟨s₀, hs₀, rfl⟩ := Option.map_eq_some_iff.1 h
    exact .prewarm (Team.turn_of_step hs₀)
  | teardown t =>
    obtain ⟨s₀, hs₀, rfl⟩ := Option.map_eq_some_iff.1 h
    exact .teardown (Team.turn_of_step hs₀)
  | cleanup t =>
    obtain ⟨s₀, hs₀, rfl⟩ := Option.map_eq_some_iff.1 h
    exact .cleanup (Team.turn_of_step hs₀)
  | execute plan t =>
    obtain ⟨s₀, hs₀, rfl⟩ := Option.map_eq_some_iff.1 h
    exact .execute (Team.turn_of_step hs₀)

/-- A reply to an operation is one of its turns. -/
theorem turn_of_reply {a b : Activity} {r : Reply} (h : a.reply config r place = some b) :
    a.Turn config c p place ((a.ask? config place).map (.got · r)) ⟨p, [], b⟩ := by
  cases a with
  | acquire block st =>
    obtain ⟨rfl, h⟩ := only_eq_some h
    obtain ⟨st', hst, rfl⟩ := Option.map_eq_some_iff.1 h
    obtain ⟨q, hq, ht⟩ := Strand.turn_of_reply (c := c) (p := p) hst
    simp only [ask?, only, if_true, hq, Option.map_some]
    exact .acquire rfl ht
  | release id st =>
    obtain ⟨rfl, h⟩ := only_eq_some h
    obtain ⟨st', hst, rfl⟩ := Option.map_eq_some_iff.1 h
    obtain ⟨q, hq, ht⟩ := Strand.turn_of_reply (c := c) (p := p) hst
    simp only [ask?, only, if_true, hq, Option.map_some]
    exact .release rfl ht
  | terminate id st =>
    obtain ⟨rfl, h⟩ := only_eq_some h
    obtain ⟨st', hst, rfl⟩ := Option.map_eq_some_iff.1 h
    obtain ⟨q, hq, ht⟩ := Strand.turn_of_reply (c := c) (p := p) hst
    simp only [ask?, only, if_true, hq, Option.map_some]
    exact .terminate rfl ht
  | prewarm count t =>
    obtain ⟨t', ht', rfl⟩ := Option.map_eq_some_iff.1 h
    obtain ⟨q, hq, ht⟩ := Team.turn_of_reply (c := c) (p := p) ht'
    simp only [ask?, hq, Option.map_some]
    exact .prewarm ht
  | teardown t =>
    obtain ⟨t', ht', rfl⟩ := Option.map_eq_some_iff.1 h
    obtain ⟨q, hq, ht⟩ := Team.turn_of_reply (c := c) (p := p) ht'
    simp only [ask?, hq, Option.map_some]
    exact .teardown ht
  | cleanup t =>
    obtain ⟨t', ht', rfl⟩ := Option.map_eq_some_iff.1 h
    obtain ⟨q, hq, ht⟩ := Team.turn_of_reply (c := c) (p := p) ht'
    simp only [ask?, hq, Option.map_some]
    exact .cleanup ht
  | execute plan t =>
    obtain ⟨t', ht', rfl⟩ := Option.map_eq_some_iff.1 h
    obtain ⟨q, hq, ht⟩ := Team.turn_of_reply (c := c) (p := p) ht'
    simp only [ask?, hq, Option.map_some]
    exact .execute ht

theorem Turn.ordered {a : Activity} (ho : a.Ordered) {s : Scope Activity}
    (h : a.Turn config c p place sig s) : s.result.Ordered := by
  cases h with
  | acquire => trivial
  | release => trivial
  | terminate => trivial
  | prewarm h => exact Team.Turn.ordered ho h
  | teardown h => exact Team.Turn.ordered ho h
  | cleanup h => exact Team.Turn.ordered ho h
  | execute h => exact Team.Turn.ordered ho h

end Activity

end SandboxPool
