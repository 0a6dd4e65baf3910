import SandboxPool.Ports
import Std.Data.TreeSet.Lemmas
import Mathlib.Data.List.Nodup
import Mathlib.Data.Nat.ModEq

/-!
# Ports in use

An allocator holds a list of ports when the list names each port in use once
(`PortAllocator.Holds`).

* Handing out a port adds one that is not in the list (`Holds.allocate`), and taking a port back
  erases it (`Holds.release`).
* A port is handed out whenever the list is shorter than the range (`Holds.allocate?_isSome`).
-/

namespace SandboxPool

namespace PortRange

theorem toNat_around {r : PortRange} (h : r.ordered = true) (d : Nat) :
    (r.around d).toNat = r.start.toNat + d % r.size := by
  have hle : r.start.toNat ≤ r.finish.toNat := by
    simpa [ordered, UInt16.le_iff_toNat_le] using h
  have hlt : d % r.size < r.size := Nat.mod_lt _ (by unfold size; omega)
  have hfin : r.finish.toNat < 65536 := r.finish.toNat_lt
  have hsize : r.size = r.finish.toNat - r.start.toNat + 1 := rfl
  unfold around
  rw [UInt16.toNat_add, UInt16.toNat_ofNat']
  omega

/-- The ports around a range, one for each distance below its size, are different. -/
theorem nodup_around {r : PortRange} (h : r.ordered = true) (d : Nat) :
    ((List.range r.size).map fun k => r.around (d + k)).Nodup := by
  refine List.nodup_range.map_on fun i hi j hj he => ?_
  have hmod : (d + i) % r.size = (d + j) % r.size := by
    have hn := congrArg UInt16.toNat he
    rw [toNat_around h, toNat_around h] at hn
    omega
  have hij : i ≡ j [MOD r.size] := Nat.ModEq.add_left_cancel' d hmod
  have hi' := List.mem_range.1 hi
  have hj' := List.mem_range.1 hj
  exact Nat.ModEq.eq_of_lt_of_lt hij hi' hj'

end PortRange

namespace PortAllocator

variable {a b : PortAllocator} {l : List UInt16} {port : UInt16}

theorem inUse_of_scan {count d : Nat} (h : a.scan count d = some port) : a.inUse port = false := by
  induction count generalizing d with
  | zero => cases h
  | succ count ih =>
    simp only [scan] at h
    split at h
    · exact ih h
    · next hfree =>
      obtain rfl := Option.some.inj h
      simpa using hfree

theorem scan_eq_none {count d : Nat} (h : a.scan count d = none) :
    ∀ k < count, a.inUse (a.range.around (d + k)) = true := by
  induction count generalizing d with
  | zero => intro k hk; omega
  | succ count ih =>
    simp only [scan] at h
    split at h
    · next hused =>
      intro k hk
      cases k with
      | zero => exact hused
      | succ k =>
        have := ih h k (by omega)
        rwa [Nat.add_right_comm] at this
    · cases h

/-- The list names each port in use once. -/
structure Holds (a : PortAllocator) (l : List UInt16) : Prop where
  nodup : l.Nodup
  inUse : ∀ q, a.inUse q = true ↔ q ∈ l

theorem holds_ofRange (r : PortRange) : (ofRange r).Holds [] :=
  ⟨List.nodup_nil, fun q => by simp [PortAllocator.inUse, ofRange]⟩

theorem Holds.perm (h : a.Holds l) {l' : List UInt16} (hp : l.Perm l') : a.Holds l' :=
  ⟨hp.nodup_iff.1 h.nodup, fun q => (h.inUse q).trans hp.mem_iff⟩

theorem Holds.size_used (h : a.Holds l) : a.used.size = l.length := by
  have hnodup : a.used.toList.Nodup := by
    refine (Std.TreeSet.distinct_toList (t := a.used)).imp fun hne he => hne ?_
    rw [he]
    exact Std.ReflCmp.compare_self
  have hmem : ∀ q, q ∈ a.used.toList ↔ q ∈ l := by
    intro q
    rw [Std.TreeSet.mem_toList, ← Std.TreeSet.contains_iff_mem]
    exact h.inUse q
  rw [← Std.TreeSet.length_toList]
  exact ((List.perm_ext_iff_of_nodup hnodup h.nodup).2 hmem).length_eq

/-- A port that is handed out was not in use, and now it is. -/
theorem Holds.allocate (h : a.Holds l) (ha : a.allocate? = some (port, b)) :
    b.Holds (port :: l) ∧ b.range = a.range := by
  obtain ⟨q, hq, he⟩ := Option.map_eq_some_iff.1 ha
  simp only [Prod.mk.injEq] at he
  obtain ⟨rfl, rfl⟩ := he
  have hfree : q ∉ l := by
    intro hm
    rw [← h.inUse, inUse_of_scan hq] at hm
    cases hm
  refine ⟨⟨List.nodup_cons.2 ⟨hfree, h.nodup⟩, fun x => ?_⟩, rfl⟩
  have hx : a.used.contains x = true ↔ x ∈ l := h.inUse x
  simp only [PortAllocator.inUse, Std.TreeSet.contains_insert, Bool.or_eq_true, hx, List.mem_cons,
    Std.LawfulEqCmp.compare_eq_iff_eq, beq_iff_eq, eq_comm (a := x)]

theorem inUse_release {q : UInt16} :
    (a.release port).inUse q = true ↔ q ≠ port ∧ a.inUse q = true := by
  have hne : (compare port q == .eq) = false ↔ q ≠ port := by
    rw [beq_eq_false_iff_ne, ne_eq, Std.LawfulEqCmp.compare_eq_iff_eq, eq_comm]
  simp only [PortAllocator.inUse, PortAllocator.release, Std.TreeSet.contains_erase, Bool.and_eq_true,
    bne, Bool.not_eq_true', hne]

/-- A port that is taken back is free. -/
theorem Holds.release (h : a.Holds (port :: l)) : (a.release port).Holds l := by
  obtain ⟨hnot, hnodup⟩ := List.nodup_cons.1 h.nodup
  refine ⟨hnodup, fun x => ?_⟩
  rw [inUse_release, h.inUse, List.mem_cons]
  constructor
  · rintro ⟨hne, rfl | hm⟩
    · exact absurd rfl hne
    · exact hm
  · intro hm
    exact ⟨fun he => hnot (he ▸ hm), .inr hm⟩

/-- As long as the range has more ports than are in use, one can be handed out. -/
theorem Holds.allocate?_isSome (h : a.Holds l) (hr : a.range.ordered = true)
    (hlt : l.length < a.range.size) : a.allocate?.isSome = true := by
  cases ha : a.allocate? with
  | some x => rfl
  | none =>
    have hall := scan_eq_none (Option.map_eq_none_iff.1 ha)
    generalize (a.cursor - a.range.start).toNat = d at hall
    have hsub : ((List.range a.range.size).map fun k => a.range.around (d + k)) ⊆ l := by
      intro q hq
      obtain ⟨k, hk, rfl⟩ := List.mem_map.1 hq
      exact (h.inUse _).1 (hall k (List.mem_range.1 hk))
    have hle := List.Nodup.length_le_of_subset (PortRange.nodup_around hr d) hsub
    rw [List.length_map, List.length_range] at hle
    omega

end PortAllocator

end SandboxPool
