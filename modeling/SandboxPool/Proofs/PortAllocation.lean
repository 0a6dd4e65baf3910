import SandboxPool.Proofs.Ports
import Mathlib.Logic.Function.Iterate

/-!
# What an allocator of ports answers

A reference for the allocator that knows of no arithmetic: ports are counted from one to the next around
the range (`PortRange.next`), and which of them are out is read off the calls and their answers
(`PortAllocator.outstanding`).

* `PortAllocator.Obeys` says what one call answers and leaves behind.
* `PortAllocator.Exact` says that no sum or difference that the allocator forms wraps around.
* `PortAllocator.meets_reference` is the main result: after any calls both hold, and the ports that are
  not available are those that are out.
-/

namespace SandboxPool

/-- A call of an allocator. -/
inductive PortCall where
  | allocate
  | release (port : UInt16)
  deriving Repr, DecidableEq

/-- A call of an allocator with its answer. -/
inductive PortEntry where
  /-- A port was asked for, and handed out if there is one. -/
  | allocated (port : Option UInt16)
  | released (port : UInt16)
  deriving Repr, DecidableEq

/-! ## Around the range -/

namespace PortRange

variable {r : PortRange} {q : UInt16}

theorem ordered_iff : r.ordered = true ↔ r.start.toNat ≤ r.finish.toNat := by
  simp [ordered, UInt16.le_iff_toNat_le]

theorem contains_iff :
    r.contains q = true ↔ r.start.toNat ≤ q.toNat ∧ q.toNat ≤ r.finish.toNat := by
  simp [contains, UInt16.le_iff_toNat_le]

theorem size_pos : 0 < r.size := Nat.succ_pos _

theorem contains_around (h : r.ordered = true) (d : Nat) : r.contains (r.around d) = true := by
  have hle := ordered_iff.1 h
  have hlt : d % r.size < r.size := Nat.mod_lt _ size_pos
  have hsize : r.size = r.finish.toNat - r.start.toNat + 1 := rfl
  rw [contains_iff, toNat_around h]
  omega

/-- The port behind one of the range is counted in natural numbers, and the start follows the end. -/
theorem toNat_next (h : r.contains q = true) :
    (r.next q).toNat = if q = r.finish then r.start.toNat else q.toNat + 1 := by
  have hq := contains_iff.1 h
  unfold next
  split
  · rfl
  · next hne =>
    have hlt : q.toNat ≠ r.finish.toNat := fun he => hne (UInt16.toNat_inj.1 he)
    have hfin : r.finish.toNat < 65536 := r.finish.toNat_lt
    rw [UInt16.toNat_add, UInt16.toNat_one]
    omega

theorem contains_next (h : r.contains q = true) : r.contains (r.next q) = true := by
  have hq := contains_iff.1 h
  rw [contains_iff, toNat_next h]
  split
  · omega
  · next hne =>
    have hlt : q.toNat ≠ r.finish.toNat := fun he => hne (UInt16.toNat_inj.1 he)
    omega

/-- One further around the range is the next port. -/
theorem next_around (h : r.ordered = true) (d : Nat) : r.next (r.around d) = r.around (d + 1) := by
  have hc := contains_around h d
  have hle := ordered_iff.1 h
  have hsize : r.size = r.finish.toNat - r.start.toNat + 1 := rfl
  have hlt : d % r.size < r.size := Nat.mod_lt _ size_pos
  have hlast : r.around d = r.finish ↔ d % r.size + 1 = r.size := by
    rw [← UInt16.toNat_inj, toNat_around h]
    omega
  have hstep : (d + 1) % r.size = if d % r.size + 1 = r.size then 0 else d % r.size + 1 := by
    rw [← Nat.mod_add_mod]
    split
    · next he => rw [he, Nat.mod_self]
    · exact Nat.mod_eq_of_lt (by omega)
  rw [← UInt16.toNat_inj, toNat_next hc, toNat_around h, toNat_around h, hstep]
  simp only [hlast]
  split <;> omega

/-- The place of a port of the range, counted from the start. -/
theorem around_offset (h : r.ordered = true) (hq : r.contains q = true) :
    r.around (q - r.start).toNat = q := by
  have hb := contains_iff.1 hq
  have hsize : r.size = r.finish.toNat - r.start.toNat + 1 := rfl
  have hsub : (q - r.start).toNat = q.toNat - r.start.toNat :=
    UInt16.toNat_sub_of_le _ _ (UInt16.le_iff_toNat_le.2 hb.1)
  rw [← UInt16.toNat_inj, toNat_around h, hsub, Nat.mod_eq_of_lt (by omega)]
  omega

theorem iterate_next (h : r.ordered = true) (hq : r.contains q = true) (k : Nat) :
    r.next^[k] q = r.around ((q - r.start).toNat + k) := by
  induction k with
  | zero => exact (around_offset h hq).symm
  | succ k ih => rw [Function.iterate_succ_apply', ih, next_around h, Nat.add_assoc]

/-- From any port of the range, each one comes within as many steps as there are ports. -/
theorem exists_iterate_next (h : r.ordered = true) {p : UInt16} (hp : r.contains p = true)
    (hq : r.contains q = true) : ∃ k < r.size, r.next^[k] q = p := by
  have hb := contains_iff.1 hp
  have hc := contains_iff.1 hq
  have hsize : r.size = r.finish.toNat - r.start.toNat + 1 := rfl
  have hsub : (q - r.start).toNat = q.toNat - r.start.toNat :=
    UInt16.toNat_sub_of_le _ _ (UInt16.le_iff_toNat_le.2 hc.1)
  let k := if q.toNat ≤ p.toNat then p.toNat - q.toNat else r.size - (q.toNat - p.toNat)
  have hk : k < r.size := by
    simp only [k]
    split <;> omega
  have hmod : ((q - r.start).toNat + k) % r.size = p.toNat - r.start.toNat := by
    rw [hsub]
    simp only [k]
    split
    · rw [Nat.mod_eq_of_lt (by omega)]
      omega
    · rw [Nat.mod_eq_sub_mod (by omega), Nat.mod_eq_of_lt (by omega)]
      omega
  refine ⟨k, hk, ?_⟩
  rw [iterate_next h hq, ← UInt16.toNat_inj, toNat_around h, hmod]
  omega

end PortRange

namespace PortAllocator

/-! ## Calls -/

/-- The answer to a call, and the allocator after it. -/
def serve (a : PortAllocator) : PortCall → PortEntry × PortAllocator
  | .allocate =>
    match a.allocate? with
    | some (port, b) => (.allocated (some port), b)
    | none => (.allocated none, a)
  | .release port => (.released port, a.release port)

/-- The answers to calls one after the other, and the allocator after them. -/
def serveAll (a : PortAllocator) : List PortCall → List PortEntry × PortAllocator
  | [] => ([], a)
  | call :: rest =>
    let (entry, b) := a.serve call
    let (log, c) := b.serveAll rest
    (entry :: log, c)

/-- The ports that have been handed out and not been taken back since. -/
def outstanding : List PortEntry → List UInt16
  | [] => []
  | .allocated (some port) :: rest =>
    if .released port ∈ rest then outstanding rest else port :: outstanding rest
  | _ :: rest => outstanding rest

/-- The port is the first free one from the cursor on. -/
def FirstFree (a : PortAllocator) (port : UInt16) : Prop :=
  ∃ k < a.range.size, a.range.next^[k] a.cursor = port ∧ a.inUse port = false ∧
    ∀ j < k, a.inUse (a.range.next^[j] a.cursor) = true

/-- **What a call answers and leaves behind.** -/
inductive Obeys (a : PortAllocator) : PortCall → PortEntry × PortAllocator → Prop
  /-- All ports are in use, and nothing changes. -/
  | refused (full : ∀ q, a.range.contains q = true → a.inUse q = true) :
      Obeys a .allocate (.allocated none, a)
  /-- The first free port is handed out, and the search goes on behind it. -/
  | handedOut {port : UInt16} {b : PortAllocator} (first : a.FirstFree port)
      (used : ∀ q, b.inUse q = true ↔ q = port ∨ a.inUse q = true)
      (cursor : b.cursor = a.range.next port) (range : b.range = a.range) :
      Obeys a .allocate (.allocated (some port), b)
  /-- The port is free, whether it was in use or not, and the search goes on where it was. -/
  | takenBack {port : UInt16} {b : PortAllocator}
      (used : ∀ q, b.inUse q = true ↔ q ≠ port ∧ a.inUse q = true)
      (cursor : b.cursor = a.cursor) (range : b.range = a.range) :
      Obeys a (.release port) (.released port, b)

/-! ## What holds between the calls -/

variable {a b : PortAllocator} {l : List UInt16} {port q : UInt16}

/-- The ports in use and the cursor are within the range. -/
structure Sound (a : PortAllocator) : Prop where
  ordered : a.range.ordered = true
  cursor : a.range.contains a.cursor = true
  used : ∀ q, a.inUse q = true → a.range.contains q = true

theorem sound_ofRange {r : PortRange} (h : r.ordered = true) : (ofRange r).Sound where
  ordered := h
  cursor := by
    rw [PortRange.contains_iff]
    exact ⟨Nat.le_refl _, PortRange.ordered_iff.1 h⟩
  used q hq := by simp [inUse, ofRange] at hq

/-- A search finds the first free port, and passes only ports in use before it. -/
theorem exists_of_scan {count d : Nat} (h : a.scan count d = some port) :
    ∃ k < count, a.range.around (d + k) = port ∧
      ∀ j < k, a.inUse (a.range.around (d + j)) = true := by
  induction count generalizing d with
  | zero => cases h
  | succ count ih =>
    simp only [scan] at h
    split at h
    · next hused =>
      obtain ⟨k, hk, hport, hbefore⟩ := ih h
      refine ⟨k + 1, by omega, by rw [← hport, Nat.add_right_comm, Nat.add_assoc], fun j hj => ?_⟩
      cases j with
      | zero => exact hused
      | succ j =>
        have := hbefore j (by omega)
        rwa [Nat.add_right_comm] at this
    · exact ⟨0, by omega, Option.some.inj h, fun j hj => by omega⟩

theorem Sound.firstFree (h : a.Sound) (ha : a.allocate? = some (port, b)) : a.FirstFree port := by
  obtain ⟨p, hscan, he⟩ := Option.map_eq_some_iff.1 ha
  obtain ⟨rfl, -⟩ := Prod.mk.inj he
  obtain ⟨k, hk, hport, hbefore⟩ := exists_of_scan hscan
  refine ⟨k, hk, ?_, inUse_of_scan hscan, fun j hj => ?_⟩
  · rw [PortRange.iterate_next h.ordered h.cursor, hport]
  · rw [PortRange.iterate_next h.ordered h.cursor]
    exact hbefore j hj

/-- A port is refused exactly if all are in use. -/
theorem Sound.allocate?_eq_none_iff (h : a.Sound) :
    a.allocate? = none ↔ ∀ q, a.range.contains q = true → a.inUse q = true := by
  constructor
  · intro ha q hq
    obtain ⟨k, hk, rfl⟩ := PortRange.exists_iterate_next h.ordered hq h.cursor
    rw [PortRange.iterate_next h.ordered h.cursor]
    exact scan_eq_none (Option.map_eq_none_iff.1 ha) k hk
  · intro hall
    cases ha : a.allocate? with
    | none => rfl
    | some x =>
      obtain ⟨k, -, hport, hfree, -⟩ := h.firstFree ha
      rw [PortRange.iterate_next h.ordered h.cursor] at hport
      have hused := hall _ (hport ▸ PortRange.contains_around h.ordered _)
      rw [hfree] at hused
      cases hused

theorem inUse_of_allocate (ha : a.allocate? = some (port, b)) :
    b.inUse q = true ↔ q = port ∨ a.inUse q = true := by
  obtain ⟨p, -, he⟩ := Option.map_eq_some_iff.1 ha
  obtain ⟨rfl, rfl⟩ := Prod.mk.inj he
  simp only [PortAllocator.inUse, Std.TreeSet.contains_insert, Bool.or_eq_true,
    Std.LawfulEqCmp.compare_eq_iff_eq, beq_iff_eq, eq_comm (a := q)]

theorem cursor_of_allocate (ha : a.allocate? = some (port, b)) :
    b.cursor = a.range.next port ∧ b.range = a.range := by
  obtain ⟨p, -, he⟩ := Option.map_eq_some_iff.1 ha
  obtain ⟨rfl, rfl⟩ := Prod.mk.inj he
  exact ⟨rfl, rfl⟩

/-- Every call is served as the reference says. -/
theorem Sound.obeys (h : a.Sound) (call : PortCall) : a.Obeys call (a.serve call) := by
  cases call with
  | allocate =>
    cases ha : a.allocate? with
    | none =>
      simp only [serve, ha]
      exact .refused (h.allocate?_eq_none_iff.1 ha)
    | some x =>
      obtain ⟨port, b⟩ := x
      simp only [serve, ha]
      obtain ⟨hcursor, hrange⟩ := cursor_of_allocate ha
      exact .handedOut (h.firstFree ha) (fun q => inUse_of_allocate ha) hcursor hrange
  | release port => exact .takenBack (fun q => inUse_release) rfl rfl

/-- The first free port is one of the range. -/
theorem Sound.contains_of_firstFree (h : a.Sound) (hf : a.FirstFree port) :
    a.range.contains port = true := by
  obtain ⟨k, -, rfl, -⟩ := hf
  rw [PortRange.iterate_next h.ordered h.cursor]
  exact PortRange.contains_around h.ordered _

/-- A call leaves the ports in use and the cursor within the range. -/
theorem Sound.serve (h : a.Sound) (call : PortCall) :
    (a.serve call).2.Sound ∧ (a.serve call).2.range = a.range := by
  have hobeys := h.obeys call
  generalize a.serve call = x at hobeys ⊢
  cases hobeys with
  | refused => exact ⟨h, rfl⟩
  | handedOut first used cursor range =>
    have hport := h.contains_of_firstFree first
    refine ⟨⟨range ▸ h.ordered, ?_, fun q hq => ?_⟩, range⟩
    · rw [cursor, range]
      exact PortRange.contains_next hport
    · rw [range]
      rcases (used q).1 hq with rfl | hq
      · exact hport
      · exact h.used q hq
  | takenBack used cursor range =>
    refine ⟨⟨range ▸ h.ordered, ?_, fun q hq => ?_⟩, range⟩
    · rw [cursor, range]
      exact h.cursor
    · rw [range]
      exact h.used q ((used q).1 hq).2

/-- Whatever is called, the ports in use and the cursor stay within the range. -/
theorem Sound.serveAll (h : a.Sound) (calls : List PortCall) :
    (a.serveAll calls).2.Sound ∧ (a.serveAll calls).2.range = a.range := by
  induction calls generalizing a with
  | nil => exact ⟨h, rfl⟩
  | cons call rest ih =>
    obtain ⟨hb, hrange⟩ := h.serve call
    obtain ⟨hc, hr⟩ := ih hb
    exact ⟨hc, hr.trans hrange⟩

/-- A port that is taken back is free, and the others are as they were. -/
theorem Holds.takeBack (h : a.Holds l) (port : UInt16) :
    (a.release port).Holds (l.filter (· ≠ port)) := by
  refine ⟨h.nodup.filter _, fun q => ?_⟩
  rw [inUse_release, h.inUse, List.mem_filter, decide_eq_true_eq]
  exact and_comm

/-- An allocator that holds ports at first holds, after some calls, those of them that were not taken back,
and those that are outstanding. -/
theorem Holds.serveAll (h : a.Holds l) (calls : List PortCall) :
    (a.serveAll calls).2.Holds
      (l.filter (fun q => .released q ∉ (a.serveAll calls).1) ++ outstanding (a.serveAll calls).1) := by
  induction calls generalizing a l with
  | nil => simpa [PortAllocator.serveAll, outstanding] using h
  | cons call rest ih =>
    cases call with
    | allocate =>
      cases ha : a.allocate? with
      | none => simpa [PortAllocator.serveAll, PortAllocator.serve, ha, outstanding] using ih h
      | some x =>
        obtain ⟨port, b⟩ := x
        have hb := ih (h.allocate ha).1
        simp only [PortAllocator.serveAll, PortAllocator.serve, ha, outstanding]
        refine hb.perm ?_
        by_cases hout : .released port ∈ (b.serveAll rest).1
        · simp [hout]
        · simp only [hout, List.filter_cons, not_false_eq_true, decide_true, if_true, if_false,
            List.mem_cons, reduceCtorEq, false_or]
          exact List.perm_middle.symm
    | release port =>
      have hb := ih (h.takeBack port)
      simp only [PortAllocator.serveAll, PortAllocator.serve, outstanding]
      refine hb.perm ?_
      rw [List.filter_filter]
      simp [Bool.and_comm]

/-! ## Arithmetic -/

/-- **No sum and no difference wraps around.** Each is the exact one, in 16 bits where the allocator forms
it in 16 bits. -/
structure Exact (a : PortAllocator) : Prop where
  /-- The size of the range is the difference of its ends and one. -/
  start_le : a.range.start.toNat ≤ a.range.finish.toNat
  /-- How far the cursor is from the start. -/
  start_le_cursor : a.range.start.toNat ≤ a.cursor.toNat
  offset : (a.cursor - a.range.start).toNat = a.cursor.toNat - a.range.start.toNat
  /-- A distance around the range, and the port there. -/
  distance : ∀ d, (UInt16.ofNat (d % a.range.size)).toNat = d % a.range.size
  candidate : ∀ d, a.range.start.toNat + d % a.range.size < 65536 ∧
    (a.range.around d).toNat = a.range.start.toNat + d % a.range.size
  /-- The port behind one that is not the end. -/
  behind : ∀ q, a.range.contains q = true → q ≠ a.range.finish →
    q.toNat + 1 < 65536 ∧ (a.range.next q).toNat = q.toNat + 1
  /-- The number of free ports is the difference of the size and the ports in use. -/
  used_le : a.used.size ≤ a.range.size

/-- No more ports are in use than the range has. -/
theorem Sound.used_le (h : a.Sound) (hl : a.Holds l) : l.length ≤ a.range.size := by
  have hsub : l ⊆ (List.range a.range.size).map fun k => a.range.next^[k] a.cursor := by
    intro q hq
    obtain ⟨k, hk, he⟩ :=
      PortRange.exists_iterate_next h.ordered (h.used q ((hl.inUse q).2 hq)) h.cursor
    exact List.mem_map.2 ⟨k, List.mem_range.2 hk, he⟩
  have hle := List.Nodup.length_le_of_subset hl.nodup hsub
  rwa [List.length_map, List.length_range] at hle

theorem Sound.exact (h : a.Sound) (hl : a.Holds l) : a.Exact := by
  have hle := PortRange.ordered_iff.1 h.ordered
  have hcursor := PortRange.contains_iff.1 h.cursor
  have hfin : a.range.finish.toNat < 65536 := a.range.finish.toNat_lt
  have hsize : a.range.size = a.range.finish.toNat - a.range.start.toNat + 1 := rfl
  have hmod : ∀ d, d % a.range.size < a.range.size := fun d => Nat.mod_lt _ PortRange.size_pos
  constructor
  case start_le => exact hle
  case start_le_cursor => exact hcursor.1
  case offset => exact UInt16.toNat_sub_of_le _ _ (UInt16.le_iff_toNat_le.2 hcursor.1)
  case distance =>
    intro d
    have := hmod d
    rw [UInt16.toNat_ofNat', Nat.mod_eq_of_lt (by omega)]
  case candidate =>
    intro d
    have := hmod d
    exact ⟨by omega, PortRange.toNat_around h.ordered d⟩
  case behind =>
    intro q hq hne
    have hb := PortRange.contains_iff.1 hq
    have hlt : q.toNat ≠ a.range.finish.toNat := fun he => hne (UInt16.toNat_inj.1 he)
    refine ⟨by omega, ?_⟩
    rw [PortRange.toNat_next hq, if_neg hne]
  case used_le =>
    rw [hl.size_used]
    exact h.used_le hl

/-! ## The reference -/

/-- **An allocator meets its reference.** Take an allocator of a range whose end is not below its start,
after any calls. The ports in use and the cursor are within the range, and no arithmetic on them wraps
around. A port is refused exactly if all are in use, every further call is served as `Obeys` says, and the
ports in use are those that were handed out and not taken back since, which are different, so that the
others are available. -/
theorem meets_reference {r : PortRange} (hr : r.ordered = true) (calls : List PortCall) :
    let log := ((ofRange r).serveAll calls).1
    let a := ((ofRange r).serveAll calls).2
    a.range = r ∧ r.contains a.cursor = true ∧ (∀ q, a.inUse q = true → r.contains q = true) ∧
    a.Exact ∧
    (a.allocate? = none ↔ ∀ q, r.contains q = true → a.inUse q = true) ∧
    (∀ call, a.Obeys call (a.serve call)) ∧
    (outstanding log).Nodup ∧ (∀ q, a.inUse q = true ↔ q ∈ outstanding log) ∧
    a.available = r.size - (outstanding log).length ∧ (outstanding log).length ≤ r.size := by
  intro log a
  obtain ⟨hs, hrange⟩ := (sound_ofRange hr).serveAll calls
  have hl : a.Holds (outstanding log) := by simpa using (holds_ofRange r).serveAll calls
  change a.range = r at hrange
  refine ⟨hrange, ?_, ?_, hs.exact hl, ?_, hs.obeys, hl.nodup, hl.inUse, ?_, ?_⟩
  · rw [← hrange]
    exact hs.cursor
  · rw [← hrange]
    exact hs.used
  · rw [← hrange]
    exact hs.allocate?_eq_none_iff
  · unfold available
    rw [hrange, hl.size_used]
  · rw [← hrange]
    exact hs.used_le hl

/-- The last three ports there are: all of them are handed out, a fourth is refused, and ports that are not
out or not of the range are taken back without effect. The port in the middle comes back and is found
again around the end of the range. -/
theorem meets_reference_last_ports :
    let r : PortRange := ⟨65533, 65535⟩
    let calls : List PortCall := [.allocate, .allocate, .allocate, .allocate, .release 80,
      .release 65534, .release 65534]
    let log := ((ofRange r).serveAll calls).1
    let a := ((ofRange r).serveAll calls).2
    r.ordered = true ∧ log = [.allocated (some 65533), .allocated (some 65534), .allocated (some 65535),
      .allocated none, .released 80, .released 65534, .released 65534] ∧
    outstanding log = [65533, 65535] ∧ a.available = 1 ∧ a.cursor = 65533 ∧ a.Exact ∧
    (a.serve .allocate).1 = .allocated (some 65534) ∧ a.Obeys .allocate (a.serve .allocate) := by
  intro r calls log a
  have hr : r.ordered = true := by decide
  have hlog : log = [.allocated (some 65533), .allocated (some 65534), .allocated (some 65535),
      .allocated none, .released 80, .released 65534, .released 65534] := by decide +kernel
  have hcursor : a.cursor = 65533 := by decide +kernel
  have hserve : (a.serve .allocate).1 = .allocated (some 65534) := by decide +kernel
  have hout : outstanding log = [65533, 65535] := by
    rw [hlog]
    decide
  obtain ⟨-, -, -, hexact, -, hobeys, -, -, havail, -⟩ := meets_reference hr calls
  refine ⟨hr, hlog, hout, ?_, hcursor, hexact, hserve, hobeys _⟩
  change a.available = r.size - (outstanding log).length at havail
  rw [havail, hout]
  decide

end PortAllocator

end SandboxPool
