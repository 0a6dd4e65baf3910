import SandboxPool.Proofs.Pool.Starts

/-!
# The spawns of a prewarm side by side

A prewarm that nobody disturbs is a crew of spawns, each with a record of its own. The pool has the
records that were there before and behind them those of the crew, and only spawns of the crew have
claimed something (`Crew`). One turn of a spawn changes its own record and no other (`Crew.turn`).

`Prewarm.result_eq_ok_iff` and `Prewarm.result_eq_error_iff` say what a prewarm makes of the results of
its spawns.
-/

namespace SandboxPool

variable {config : Config} {c : Context} {p₀ p q : Pool} {sig : Option Signal}

/-- A spawn of a prewarm: its number, where it is, and the record that the pool has of its sandbox. -/
structure Starter where
  serial : Nat
  strand : Strand Spawn.Point Spawn.Result
  file : Option Record

/-- Spawns that share a pool with nobody else, and the pool that they came to. -/
structure Crew (p₀ p : Pool) (crew : List Starter) : Prop where
  filed : ∀ x ∈ crew, Spawn.Filed x.file x.strand
  records : ∃ new, p.records = p₀.records ++ new ∧ new.Perm (crew.filterMap (·.file))
  claims : ∀ id k, p.claim? id = some k → ∃ x ∈ crew, Spawn.ends? x.strand = some id

/-- A spawn that has claimed a sandbox has its record. -/
theorem Spawn.Filed.of_ends? {file : Option Record} {s : Strand Point Result} {id : String}
    (h : Filed file s) (he : ends? s = some id) : ∃ r, file = some r ∧ r.id = id := by
  have hpoint : ∀ {point : Point}, point.Filed file → point.ends? = some id →
      ∃ r, file = some r ∧ r.id = id := by
    intro point hf he
    cases point with
    | discard id' error t =>
      obtain ⟨-, hf⟩ := hf
      cases t with
      | claim => cases he
      | expire generation => cases he
      | _ =>
        cases he
        obtain ⟨port, now, rfl⟩ := hf
        exact ⟨_, rfl, rfl⟩
    | _ => cases he
  cases s with
  | ready point => exact hpoint h he
  | waiting point => exact hpoint h.2 he
  | done result => cases he
  | panicked message => cases he

namespace Crew

variable {crew crew' rest : List Starter} {x : Starter}

/-- There are no spawns yet, and nothing is claimed. -/
theorem nil (hclaims : ∀ id, p₀.claim? id = none) : Crew p₀ p₀ [] where
  filed := fun x hx => by cases hx
  records := ⟨[], (List.append_nil _).symm, .nil⟩
  claims := fun id k hk => by
    rw [hclaims] at hk
    cases hk

theorem perm (h : Crew p₀ p crew) (hp : crew.Perm crew') : Crew p₀ p crew' where
  filed := fun x hx => h.filed x (hp.mem_iff.2 hx)
  records := by
    obtain ⟨new, hr, hn⟩ := h.records
    exact ⟨new, hr, hn.trans (hp.filterMap _)⟩
  claims := fun id k hk => by
    obtain ⟨x, hx, he⟩ := h.claims id k hk
    exact ⟨x, hp.mem_iff.1 hx, he⟩

/-- Other changes to the pool do not matter. -/
theorem same (h : Crew p₀ p crew) (hq : p.Same q) : Crew p₀ q crew where
  filed := h.filed
  records := by
    obtain ⟨new, hr, hn⟩ := h.records
    exact ⟨new, hq.records.trans hr, hn⟩
  claims := fun id k hk => h.claims id k (by rwa [hq.claim?] at hk)

/-- Spawns that have not begun are there beside the others. -/
theorem hire (h : Crew p₀ p []) (hcrew : ∀ x ∈ crew, x.strand = .ready .allocate ∧ x.file = none) :
    Crew p₀ p crew where
  filed := fun x hx => by
    obtain ⟨hs, hf⟩ := hcrew x hx
    rw [hs, hf]
    rfl
  records := by
    obtain ⟨new, hr, hn⟩ := h.records
    have hnone : crew.filterMap (·.file) = [] := List.filterMap_eq_nil_iff.2 fun x hx => (hcrew x hx).2
    exact ⟨new, hr, hnone ▸ hn⟩
  claims := fun id k hk => by
    obtain ⟨x, hx, -⟩ := h.claims id k hk
    cases hx

/-- The record of a spawn is on file, and no other spawn has one of that sandbox. -/
theorem file_mem (h : Crew p₀ p (x :: rest)) (hd : p.Distinct) {r : Record} (hf : x.file = some r) :
    r ∈ p.records ∧ ∀ y ∈ rest, ∀ r', y.file = some r' → r'.id ≠ r.id := by
  obtain ⟨new, hr, hn⟩ := h.records
  rw [List.filterMap_cons_some hf] at hn
  refine ⟨?_, fun y hy r' hf' he => ?_⟩
  · rw [hr]
    exact List.mem_append_right _ (hn.mem_iff.2 (List.mem_cons_self ..))
  · have hall : (p.records.map (·.id)).Nodup := hd
    rw [hr, List.map_append] at hall
    have hnodup := (hn.map (·.id)).nodup_iff.1 (List.nodup_append.1 hall).2.1
    rw [List.map_cons, List.nodup_cons] at hnodup
    exact hnodup.1 (List.mem_map.2 ⟨r', List.mem_filterMap.2 ⟨y, hy, hf'⟩, he⟩)

/-- A spawn that is about to claim its sandbox finds it unclaimed. -/
theorem unclaimed (h : Crew p₀ p (x :: rest)) (hd : p.Distinct) {id : String} {error : PoolError}
    (hx : x.strand = .ready (.discard id error .claim)) : p.claim? id = none := by
  cases hk : p.claim? id with
  | none => rfl
  | some k =>
    obtain ⟨-, port, now, hfile⟩ : Spawn.Point.Filed x.file (.discard id error .claim) := by
      have hf := h.filed x (List.mem_cons_self ..)
      rwa [hx] at hf
    obtain ⟨y, hy, he⟩ := h.claims id k hk
    rcases List.mem_cons.1 hy with rfl | hy'
    · rw [hx] at he
      cases he
    · obtain ⟨r, hr, hid⟩ := (h.filed y hy).of_ends? he
      exact absurd hid ((h.file_mem hd hfile).2 y hy' r hr)

/-- **One turn of a spawn** changes its own record and no other. -/
theorem turn {job : Spawn.Job} {sc : Scope (Strand Spawn.Point Spawn.Result)}
    (h : Crew p₀ p (x :: rest)) (hd : p.Distinct) (hjob : job.block = none)
    (ht : x.strand.Turn (Spawn.demand config job) c p sig sc)
    (hports : x.strand = .ready .allocate → p.ports.allocate?.isSome = true)
    (hfresh : ∀ id port, x.strand = .ready (.register id port) → ∀ r ∈ p.records, r.id ≠ id) :
    ∃ file, Spawn.Goes config job p x.strand x.file sig sc.pool sc.result file ∧
      Crew p₀ sc.pool ({ x with strand := sc.result, file := file } :: rest) := by
  have hgoes : ∃ file, Spawn.Goes config job p x.strand x.file sig sc.pool sc.result file := by
    obtain ⟨point, out, s, hx, hturn, rfl⟩ := ht.at_point
    have hready : ∀ {point : Spawn.Point} {body : Context → Pool → Scope (Next Spawn.Point Spawn.Result)},
        Spawn.demand config job point = .scope body →
        (Spawn.demand config job point).Turn c p out sig s → x.strand = .standing point out →
        x.strand = .ready point := by
      intro point body hscope hturn hx
      rw [hscope] at hturn
      obtain ⟨rfl, -, -⟩ := Demand.turn_scope hturn
      exact hx
    have hfiled : point.Filed x.file := by
      have hf := h.filed x (List.mem_cons_self ..)
      rw [hx] at hf
      cases out with
      | false => exact hf
      | true => exact hf.2
    rw [hx]
    refine Spawn.goes hjob hturn hfiled (fun r hf => (h.file_mem hd hf).1) hd ?_ ?_ ?_
    · rintro rfl
      exact hports (hready rfl hturn hx)
    · rintro id port rfl
      exact hfresh id port (hready rfl hturn hx)
    · rintro id error rfl
      exact h.unclaimed hd (hready rfl hturn hx)
  obtain ⟨file, hgoes⟩ := hgoes
  refine ⟨file, hgoes, fun y hy => ?_, ?_, fun id k hk => ?_⟩
  · rcases List.mem_cons.1 hy with rfl | hy
    · exact hgoes.filed (h.filed x (List.mem_cons_self ..))
    · exact h.filed y (List.mem_cons_of_mem _ hy)
  · have hsplit : ∀ (y : Starter), (y :: rest).filterMap (·.file)
        = y.file.toList ++ rest.filterMap (·.file) := by
      intro y
      cases hy : y.file <;> simp [hy]
    obtain ⟨new, hr, hn⟩ := h.records
    rw [hsplit] at hn
    obtain ⟨new', hr', hn'⟩ := hgoes.records hd hr hn
    exact ⟨new', hr', by rwa [hsplit]⟩
  · rcases hgoes.claims hk with he | ⟨hk, hne⟩
    · exact ⟨_, List.mem_cons_self .., he⟩
    · obtain ⟨y, hy, he⟩ := h.claims id k hk
      rcases List.mem_cons.1 hy with rfl | hy
      · exact absurd he hne
      · exact ⟨y, List.mem_cons_of_mem _ hy, he⟩

end Crew

/-! ## What a prewarm comes to -/

namespace Prewarm

variable {ended : List (Ended Unit Spawn.Result)} {error : PoolError}

/-- The failure of a spawn that has ended. -/
def failure? (e : Ended Unit Spawn.Result) : Option PoolError :=
  match e.result with
  | .ok (.error error) => some error
  | _ => none

theorem firstError_eq_none_iff : firstError ended = none ↔ ∀ e ∈ ended, failure? e = none := by
  have hfind : firstError ended
      = (ended.mergeSort fun a b => a.serial ≤ b.serial).findSome? failure? := rfl
  rw [hfind, List.findSome?_eq_none_iff]
  simp only [List.mem_mergeSort]

/-- The first error is the one of the lowest number that failed. -/
theorem firstError_eq_some_iff (hd : (ended.map (·.serial)).Nodup) :
    firstError ended = some error ↔ ∃ e ∈ ended, failure? e = some error ∧
      ∀ e' ∈ ended, e'.serial < e.serial → failure? e' = none := by
  have hfirst : ∀ {error}, firstError ended = some error → ∃ e ∈ ended, failure? e = some error ∧
      ∀ e' ∈ ended, e'.serial < e.serial → failure? e' = none := by
    intro error h
    have hfind : (ended.mergeSort fun a b => a.serial ≤ b.serial).findSome? failure? = some error := h
    obtain ⟨l₁, e, l₂, hsplit, he, hnone⟩ := List.findSome?_eq_some_iff.1 hfind
    have hmem : ∀ e', e' ∈ ended ↔ e' ∈ l₁ ++ e :: l₂ := by
      intro e'
      rw [← hsplit, List.mem_mergeSort]
    have hsorted : (l₁ ++ e :: l₂).Pairwise fun a b => a.serial ≤ b.serial := by
      rw [← hsplit]
      have hpairs : (ended.mergeSort fun a b => a.serial ≤ b.serial).Pairwise
          fun a b => decide (a.serial ≤ b.serial) = true :=
        List.pairwise_mergeSort (fun a b c hab hbc => by simp at *; omega)
          (fun a b => by simp; omega) ended
      exact hpairs.imp fun h => by simpa using h
    refine ⟨e, (hmem e).2 (by simp), he, fun e' he' hlt => ?_⟩
    rcases List.mem_append.1 ((hmem e').1 he') with h' | h'
    · exact hnone e' h'
    · rcases List.mem_cons.1 h' with rfl | h'
      · exact absurd hlt (Nat.lt_irrefl _)
      · have hle := (List.pairwise_cons.1 (List.pairwise_append.1 hsorted).2.1).1 e' h'
        omega
  refine ⟨hfirst, fun ⟨e, he, hfail, hlower⟩ => ?_⟩
  cases h : firstError ended with
  | none =>
    rw [firstError_eq_none_iff.1 h e he] at hfail
    cases hfail
  | some error' =>
    obtain ⟨e', he', hfail', hlower'⟩ := hfirst h
    rcases Nat.lt_trichotomy e'.serial e.serial with hlt | heq | hlt
    · rw [hlower e' he' hlt] at hfail'
      cases hfail'
    · rw [List.inj_on_of_nodup_map hd he' he heq, hfail] at hfail'
      rw [Option.some.inj hfail']
    · rw [hlower' e he hlt] at hfail
      cases hfail

/-- A prewarm succeeds if no spawn has failed, and tells how many there were. -/
theorem result_eq_ok_iff {n : Nat} :
    result ended = .ok n ↔ n = ended.length ∧ ∀ e ∈ ended, failure? e = none := by
  unfold result
  rw [← firstError_eq_none_iff]
  cases firstError ended with
  | none => simp [eq_comm]
  | some error => simp

/-- A prewarm fails of what the spawn with the lowest number has failed of. -/
theorem result_eq_error_iff (hd : (ended.map (·.serial)).Nodup) :
    result ended = .error error ↔ ∃ e ∈ ended, failure? e = some error ∧
      ∀ e' ∈ ended, e'.serial < e.serial → failure? e' = none := by
  rw [← firstError_eq_some_iff hd]
  unfold result
  cases firstError ended <;> simp

end Prewarm

end SandboxPool
