import SandboxPool.Pool.Basic
import Mathlib.Data.List.Nodup

/-!
# Records and claims of a pool

What the changes to the records and to the claims of a pool do, given that its records have
different identities (`Pool.Distinct`), which every change keeps.

* `Pool.put_split`: a record that is replaced stands between others that stay.
* `Pool.livePorts` are the host ports of the live sandboxes; `livePorts_put` and `livePorts_end` say
  what becomes of them.
* `Pool.Alike` pools differ in nothing that concerns records, claims, ports and starts.
-/

namespace SandboxPool

namespace Pool

variable {p q : Pool} {r r' x : Record} {id : String}

/-- The records have different identities. -/
def Distinct (p : Pool) : Prop := (p.records.map (·.id)).Nodup

/-- The host ports of the live sandboxes. -/
def livePorts (p : Pool) : List UInt16 := p.liveRecords.map (·.port)

/-- The same records, claims, ports and reserved starts. -/
structure Alike (p q : Pool) : Prop where
  config : q.config = p.config
  records : q.records = p.records
  ports : q.ports = p.ports
  pending : q.pending = p.pending
  claims : q.claims = p.claims

@[refl] theorem Alike.refl (p : Pool) : p.Alike p := ⟨rfl, rfl, rfl, rfl, rfl⟩

theorem alike_count (p : Pool) (f : Stats → Stats) : p.Alike (p.count f) := ⟨rfl, rfl, rfl, rfl, rfl⟩

theorem Alike.claim? (h : p.Alike q) (id : String) : q.claim? id = p.claim? id := by
  unfold Pool.claim?
  rw [h.claims]

theorem Alike.distinct (h : p.Alike q) (hd : p.Distinct) : q.Distinct := by
  unfold Distinct at *
  rwa [h.records]

theorem Alike.livePorts (h : p.Alike q) : q.livePorts = p.livePorts := by
  unfold Pool.livePorts liveRecords
  rw [h.records]

theorem reserve?_eq_some_iff {max : Nat} :
    p.reserve? max = some q ↔ p.occupancy < max ∧ q = p.reserve 1 := by
  simp [reserve?, eq_comm]

theorem liveCount_eq (p : Pool) : p.liveCount = p.livePorts.length := (List.length_map _).symm

theorem mem_livePorts {port : UInt16} :
    port ∈ p.livePorts ↔ ∃ r ∈ p.records, r.live = true ∧ r.port = port := by
  unfold livePorts liveRecords
  simp only [List.mem_map, List.mem_filter, and_assoc]

end Pool

/-! ## Moving records -/

namespace Record

variable {r : Record} {target : State}

theorem move_of_admits (h : r.state.admits target = true) :
    r.move target = .ok { r with state := target } := by
  rw [move_eq_ok_iff]
  refine ⟨h, ?_⟩
  split
  · next ht =>
    obtain rfl : target = r.state := State.terminal_iff.1 ht target h
    rfl
  · rfl

theorem live_of_admits_idle (h : r.state.admits .idle = true) : r.live = true := by
  unfold Record.live State.terminal
  cases hs : r.state <;> rw [hs] at h <;> first | rfl | cases h

theorem move_of_not_admits (h : r.state.admits target = false) :
    r.move target = .error (.invalidTransition r.state target) := by
  simp only [move, State.check, h, Bool.false_eq_true, if_false]

end Record

namespace Pool

variable {p q : Pool} {r r' x : Record} {id : String}

/-! ## Finding records -/

theorem mem_of_find? (h : p.find? id = some r) : r ∈ p.records ∧ r.id = id :=
  ⟨List.mem_of_find?_eq_some h, by simpa using List.find?_some h⟩

theorem find?_eq_none : p.find? id = none ↔ ∀ r ∈ p.records, r.id ≠ id := by
  unfold find?
  simp only [List.find?_eq_none, beq_iff_eq, ne_eq]

theorem Distinct.eq_of_id (hd : p.Distinct) (hr : r ∈ p.records) (hx : x ∈ p.records)
    (h : x.id = r.id) : x = r := List.inj_on_of_nodup_map hd hx hr h

theorem Distinct.find?_of_mem (hd : p.Distinct) (hr : r ∈ p.records) : p.find? r.id = some r := by
  cases hf : p.find? r.id with
  | none => exact absurd rfl (find?_eq_none.1 hf r hr)
  | some x =>
    obtain ⟨hx, hid⟩ := mem_of_find? hf
    rw [hd.eq_of_id hr hx hid]

/-! ## Replacing a record -/

theorem map_id_put (p : Pool) (r : Record) :
    (p.put r).records.map (·.id) = p.records.map (·.id) := by
  simp only [put, List.map_map]
  refine List.map_congr_left fun x _ => ?_
  simp only [Function.comp_apply]
  split
  · next h => exact (beq_iff_eq.1 h).symm
  · rfl

theorem Distinct.put (hd : p.Distinct) (r : Record) : (p.put r).Distinct := by
  unfold Distinct
  rwa [map_id_put]

theorem put_put (p : Pool) (h : r.id = r'.id) : (p.put r).put r' = p.put r' := by
  unfold put
  simp only [List.map_map]
  congr 1
  refine List.map_congr_left fun x _ => ?_
  by_cases hx : x.id = r'.id
  · simp [h, hx]
  · simp [h, hx]

/-- The replaced record stands between others that stay. -/
theorem Distinct.put_split (hd : p.Distinct) (hr : r ∈ p.records) (hid : r'.id = r.id) :
    ∃ l s, p.records = l ++ r :: s ∧ (p.put r').records = l ++ r' :: s := by
  obtain ⟨l, s, hs⟩ := List.append_of_mem hr
  refine ⟨l, s, hs, ?_⟩
  have hstay : ∀ xs : List Record, (∀ x ∈ xs, x.id ≠ r.id) →
      (xs.map fun old => if old.id == r.id then r' else old) = xs := by
    intro xs hxs
    rw [List.map_congr_left (g := fun x => x) (fun x hx => by simp [hxs x hx]), List.map_id']
  have hn := hd
  unfold Distinct at hn
  rw [hs, List.map_append, List.map_cons, List.nodup_append] at hn
  obtain ⟨-, hright, hcross⟩ := hn
  have hl : ∀ x ∈ l, x.id ≠ r.id := fun x hx =>
    hcross x.id (List.mem_map_of_mem hx) r.id (List.mem_cons_self ..)
  have hsr : ∀ x ∈ s, x.id ≠ r.id := by
    intro x hx he
    exact (List.nodup_cons.1 hright).1 (List.mem_map.2 ⟨x, hx, he⟩)
  simp only [Pool.put, hs, List.map_append, List.map_cons, hid, hstay l hl, hstay s hsr,
    beq_self_eq_true, if_true]

theorem mem_put (hq : q.records = (p.put r').records) (hr : r ∈ p.records) (hid : r'.id = r.id) :
    x ∈ q.records ↔ x = r' ∨ x ∈ p.records ∧ x.id ≠ r.id := by
  simp only [hq, put, List.mem_map, hid]
  constructor
  · rintro ⟨old, hold, rfl⟩
    by_cases h : old.id = r.id
    · exact .inl (by simp [h])
    · exact .inr ⟨by simpa [h] using hold, by simp [h]⟩
  · rintro (rfl | ⟨hx, hne⟩)
    · exact ⟨r, hr, by simp⟩
    · exact ⟨x, hx, by simp [hne]⟩

theorem mem_put_self (hr : r ∈ p.records) (hid : r'.id = r.id) : r' ∈ (p.put r').records :=
  (mem_put rfl hr hid).2 (.inl rfl)

theorem mem_put_of_ne (hx : x ∈ p.records) (hne : x.id ≠ r.id) : x ∈ (p.put r).records :=
  List.mem_map.2 ⟨x, hx, by simp [hne]⟩

/-- A live sandbox that stays live on its port changes nothing about the ports. -/
theorem Distinct.livePorts_put (hd : p.Distinct) (hr : r ∈ p.records) (hid : r'.id = r.id)
    (hl : r'.live = r.live) (hp : r'.port = r.port) : (p.put r').livePorts = p.livePorts := by
  obtain ⟨l, s, hs, hs'⟩ := hd.put_split hr hid
  unfold livePorts liveRecords
  rw [hs, hs']
  simp only [List.filter_append, List.map_append, List.filter_cons, hl]
  split
  · simp only [List.map_cons, hp]
  · rfl

/-- A sandbox that ends leaves its port. -/
theorem Distinct.livePorts_end (hd : p.Distinct) (hr : r ∈ p.records) (hid : r'.id = r.id)
    (hl : r.live = true) (hl' : r'.live = false) :
    p.livePorts.Perm (r.port :: (p.put r').livePorts) := by
  obtain ⟨l, s, hs, hs'⟩ := hd.put_split hr hid
  unfold livePorts liveRecords
  rw [hs, hs']
  simp only [List.filter_append, List.map_append, List.filter_cons, hl, hl', if_true,
    Bool.false_eq_true, if_false, List.map_cons]
  exact List.perm_middle

theorem liveCount_put_le (hd : p.Distinct) (hr : r ∈ p.records) (hid : r'.id = r.id)
    (hl : r'.live = true → r.live = true) : (p.put r').liveCount ≤ p.liveCount := by
  obtain ⟨l, s, hs, hs'⟩ := hd.put_split hr hid
  unfold liveCount liveRecords
  rw [hs, hs']
  simp only [List.filter_append, List.length_append, List.filter_cons]
  cases h' : r'.live with
  | false =>
    simp only [Bool.false_eq_true, if_false]
    split
    · rw [List.length_cons]; omega
    · omega
  | true => simp only [hl h', if_true, List.length_cons]; omega

/-- Live sandboxes stay live on their ports. -/
def Keeps (p q : Pool) : Prop :=
  ∀ r ∈ p.records, r.live = true → ∃ x ∈ q.records, x.id = r.id ∧ x.live = true ∧ x.port = r.port

theorem keeps_of_records (h : q.records = p.records) : p.Keeps q := by
  intro r hr hl
  exact ⟨r, h ▸ hr, rfl, hl, rfl⟩

theorem keeps_of_put (hd : p.Distinct) (hq : q.records = (p.put r').records) (hr : r ∈ p.records)
    (hid : r'.id = r.id) (hl : r'.live = r.live) (hp : r'.port = r.port) : p.Keeps q := by
  intro x hx hlx
  by_cases h : x.id = r.id
  · obtain rfl := hd.eq_of_id hr hx h
    exact ⟨r', (mem_put hq hx hid).2 (.inl rfl), hid, hl.trans hlx, hp⟩
  · exact ⟨x, (mem_put hq hr hid).2 (.inr ⟨hx, h⟩), rfl, hlx, rfl⟩

/-! ## Adding a record -/

theorem insert_records (h : ∀ x ∈ p.records, x.id ≠ r.id) :
    (p.insert r).records = p.records ++ [r] := by
  have hkeep : p.records.filter (·.id != r.id) = p.records :=
    List.filter_eq_self.2 fun x hx => by simpa using h x hx
  simp only [insert, hkeep]

theorem Distinct.insert (hd : p.Distinct) (r : Record) : (p.insert r).Distinct := by
  unfold Distinct Pool.insert
  rw [List.map_append, List.nodup_append]
  refine ⟨hd.sublist (List.filter_sublist.map _), by simp, ?_⟩
  intro a ha b hb
  obtain ⟨x, hx, rfl⟩ := List.mem_map.1 ha
  have hne := (List.mem_filter.1 hx).2
  simp only [List.map_cons, List.map_nil, List.mem_singleton] at hb
  rw [hb]
  simpa using hne

theorem liveCount_insert_le (p : Pool) (r : Record) : (p.insert r).liveCount ≤ p.liveCount + 1 := by
  unfold liveCount liveRecords insert
  rw [List.filter_append, List.length_append]
  have hle : ((p.records.filter (·.id != r.id)).filter (·.live)).length
      ≤ (p.records.filter (·.live)).length := (List.filter_sublist.filter _).length_le
  have hone : ([r].filter (·.live)).length ≤ [r].length := List.length_filter_le _ _
  simp only [List.length_singleton] at hone
  omega

/-! ## Claims -/

@[simp] theorem claim?_put (p : Pool) (r : Record) (id : String) :
    (p.put r).claim? id = p.claim? id := rfl

theorem claim?_dropClaim (p : Pool) (id id' : String) :
    (p.dropClaim id).claim? id' = if id' = id then none else p.claim? id' := by
  unfold claim? dropClaim
  rw [List.find?_filter]
  split
  · next h =>
    subst h
    rw [Option.map_eq_none_iff, List.find?_eq_none]
    intro x _
    simp
  · next h =>
    congr 2
    funext x
    by_cases hx : x.1 = id'
    · simp [hx, h]
    · simp [hx]

theorem claim?_setClaim (p : Pool) (id id' : String) (c : Claim) :
    (p.setClaim id c).claim? id' = if id' = id then some c else p.claim? id' := by
  have hdrop := claim?_dropClaim p id id'
  unfold claim? dropClaim at hdrop
  unfold claim? setClaim
  rw [List.find?_cons]
  split
  · next h =>
    have hid : id = id' := by simpa using h
    simp [hid]
  · next h =>
    have hne : ¬ id' = id := fun he => by simp [he] at h
    rw [if_neg hne] at hdrop ⊢
    exact hdrop

end Pool

end SandboxPool
