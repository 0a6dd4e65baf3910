import SandboxPool.Proofs.PortAllocation
import Mathlib.Dynamics.PeriodicPts.Defs

/-!
# How late a port is handed out again

A port that is taken back waits until all others have had their turn. The reason is the cursor: it only
moves from one port to the next around the range, and over a port only while that port is in use.

* `PortRange.Sweeps` is a way from one port to another around the range, several times maybe, over ports
  with a property. A way from behind a port back to it leads over all others (`PortRange.Sweeps.of_return`).
* `PortAllocator.Sound.sweeps` is the invariant: what the cursor has passed between two moments of a run was
  in use at a moment between them.
* `PortAllocator.reused_late` puts the two together.
-/

namespace SandboxPool

namespace PortRange

variable {r : PortRange} {P Q : UInt16 → Prop} {c c' c'' p q : UInt16}

/-- Steps around the range lead from one port to another, and over none without the property. The port
where they end is not passed. -/
def Sweeps (r : PortRange) (P : UInt16 → Prop) (c c' : UInt16) : Prop :=
  ∃ n, r.next^[n] c = c' ∧ ∀ d < n, P (r.next^[d] c)

namespace Sweeps

theorem refl (c : UInt16) : r.Sweeps P c c := ⟨0, rfl, fun d hd => absurd hd d.not_lt_zero⟩

theorem single (hc : P c) : r.Sweeps P c (r.next c) := by
  refine ⟨1, rfl, fun d hd => ?_⟩
  obtain rfl := Nat.lt_one_iff.1 hd
  exact hc

theorem trans (h : r.Sweeps P c c') (h' : r.Sweeps P c' c'') : r.Sweeps P c c'' := by
  obtain ⟨n, rfl, hn⟩ := h
  obtain ⟨m, rfl, hm⟩ := h'
  refine ⟨m + n, Function.iterate_add_apply .., fun d hd => ?_⟩
  by_cases hdn : d < n
  · exact hn d hdn
  · obtain ⟨e, rfl⟩ := Nat.exists_eq_add_of_le (Nat.le_of_not_lt hdn)
    rw [Nat.add_comm n e, Function.iterate_add_apply]
    exact hm e (by omega)

theorem mono (h : r.Sweeps P c c') (hPQ : ∀ q, P q → Q q) : r.Sweeps Q c c' := by
  obtain ⟨n, hn, hpassed⟩ := h
  exact ⟨n, hn, fun d hd => hPQ _ (hpassed d hd)⟩

/-- A way from behind a port back to it leads over every other port of the range. -/
theorem of_return (h : r.Sweeps P (r.next p) p) (hr : r.ordered = true) (hp : r.contains p = true)
    (hq : r.contains q = true) (hne : q ≠ p) : P q := by
  obtain ⟨n, hback, hpassed⟩ := h
  -- one step more closes the circle, so that a port is met within the circle or not at all
  have hperiod : Function.IsPeriodicPt r.next (n + 1) (r.next p) := by
    rw [Function.IsPeriodicPt, Function.IsFixedPt, Function.iterate_succ_apply', hback]
  obtain ⟨k, -, hk⟩ := exists_iterate_next hr hq (contains_next hp)
  have hd : r.next^[k % (n + 1)] (r.next p) = q := (hperiod.iterate_mod_apply k).trans hk
  have hlt : k % (n + 1) < n + 1 := Nat.mod_lt _ n.succ_pos
  have hlast : k % (n + 1) ≠ n := by
    intro he
    rw [he, hback] at hd
    exact hne hd.symm
  rw [← hd]
  exact hpassed _ (by omega)

end Sweeps

end PortRange

namespace PortAllocator

variable {a : PortAllocator} {calls : List PortCall} {i j : Nat} {p q : UInt16}

/-! ## The moments of a run -/

/-- The allocator after the first `k` of the calls, or after all of them when there are not so many. -/
def after (a : PortAllocator) (calls : List PortCall) (k : Nat) : PortAllocator :=
  (a.serveAll (calls.take k)).2

theorem after_succ (a : PortAllocator) (calls : List PortCall) (k : Nat) :
    a.after calls (k + 1) =
      match calls[k]? with
      | none => a.after calls k
      | some call => ((a.after calls k).serve call).2 := by
  induction calls generalizing a k with
  | nil => simp [after]
  | cons call rest ih =>
    cases k with
    | zero => rfl
    | succ k => exact ih (a.serve call).2 k

/-- Each call is answered by the allocator after the calls before it. -/
theorem getElem?_serveAll (a : PortAllocator) (calls : List PortCall) (k : Nat) :
    (a.serveAll calls).1[k]? = calls[k]?.map fun call => ((a.after calls k).serve call).1 := by
  induction calls generalizing a k with
  | nil => rfl
  | cons call rest ih =>
    cases k with
    | zero => rfl
    | succ k => exact ih (a.serve call).2 k

/-- A port in the log was handed out by the allocator of that moment, which became that of the next. -/
theorem allocate?_of_log (h : (a.serveAll calls).1[i]? = some (.allocated (some p))) :
    (a.after calls i).allocate? = some (p, a.after calls (i + 1)) := by
  rw [getElem?_serveAll] at h
  obtain ⟨call, hcall, hserve⟩ := Option.map_eq_some_iff.1 h
  cases call with
  | release port => cases hserve
  | allocate =>
    rw [after_succ, hcall]
    simp only [serve] at hserve ⊢
    cases ha : (a.after calls i).allocate? with
    | none =>
      rw [ha] at hserve
      cases hserve
    | some x =>
      rw [ha] at hserve
      cases hserve
      rfl

theorem Sound.after (h : a.Sound) (calls : List PortCall) (k : Nat) :
    (a.after calls k).Sound ∧ (a.after calls k).range = a.range :=
  h.serveAll _

/-- The port is in use at some moment from right after the call at place `i` to right before the one at
place `j`. -/
def UsedBetween (a : PortAllocator) (calls : List PortCall) (i j : Nat) (q : UInt16) : Prop :=
  ∃ k, i < k ∧ k ≤ j ∧ (a.after calls k).inUse q = true

theorem UsedBetween.mono {i' j' : Nat} (h : a.UsedBetween calls i j q) (hi : i' ≤ i) (hj : j ≤ j') :
    a.UsedBetween calls i' j' q := by
  obtain ⟨k, hik, hkj, hk⟩ := h
  exact ⟨k, by omega, by omega, hk⟩

/-! ## The way of the cursor -/

/-- The search passes ports in use until it finds one that is not. -/
theorem FirstFree.sweeps (h : a.FirstFree p) :
    a.range.Sweeps (fun q => a.inUse q = true) a.cursor p := by
  obtain ⟨n, -, hn, -, hbefore⟩ := h
  exact ⟨n, hn, hbefore⟩

/-- A call moves the cursor over ports that are in use after it. -/
theorem Sound.sweeps_serve (h : a.Sound) (call : PortCall) :
    a.range.Sweeps (fun q => (a.serve call).2.inUse q = true) a.cursor (a.serve call).2.cursor := by
  have hobeys := h.obeys call
  generalize a.serve call = x at hobeys ⊢
  cases hobeys with
  | refused => exact .refl _
  | takenBack _ cursor _ =>
    rw [cursor]
    exact .refl _
  | handedOut first used cursor _ =>
    rw [cursor]
    exact (first.sweeps.mono fun q hq => (used q).2 (.inr hq)).trans (.single ((used _).2 (.inl rfl)))

/-- **What the cursor passes was in use.** Between two moments of a run the cursor goes around the range over
ports each of which was in use at some moment after the first and not after the second. -/
theorem Sound.sweeps (h : a.Sound) (calls : List PortCall) (hij : i ≤ j) :
    a.range.Sweeps (a.UsedBetween calls i j) (a.after calls i).cursor (a.after calls j).cursor := by
  induction j, hij using Nat.le_induction with
  | base => exact .refl _
  | succ j hij ih =>
    have hsofar := ih.mono fun q hq => hq.mono (Nat.le_refl i) j.le_succ
    have hstep := after_succ a calls j
    cases hcall : calls[j]? with
    | none =>
      simp only [hcall] at hstep
      rw [hstep]
      exact hsofar
    | some call =>
      simp only [hcall] at hstep
      obtain ⟨hs, hrange⟩ := h.after calls j
      have hserved := hs.sweeps_serve call
      rw [← hstep, hrange] at hserved
      exact hsofar.trans (hserved.mono fun q hq => ⟨j + 1, by omega, Nat.le_refl _, hq⟩)

/-! ## The next time -/

/-- When a port is handed out a second time, every other port of the range has been in use since. -/
theorem Sound.usedBetween_of_again (h : a.Sound) (hij : i < j)
    (first : (a.serveAll calls).1[i]? = some (.allocated (some p)))
    (again : (a.serveAll calls).1[j]? = some (.allocated (some p)))
    (hq : a.range.contains q = true) (hne : q ≠ p) : a.UsedBetween calls i j q := by
  obtain ⟨hsi, hri⟩ := h.after calls i
  obtain ⟨hsj, hrj⟩ := h.after calls j
  have hfirst := allocate?_of_log first
  have hp : a.range.contains p = true := hri ▸ hsi.contains_of_firstFree (hsi.firstFree hfirst)
  have hsofar : a.range.Sweeps (a.UsedBetween calls i j) (a.range.next p) (a.after calls j).cursor := by
    have hway := h.sweeps calls (Nat.succ_le_of_lt hij)
    rw [(cursor_of_allocate hfirst).1, hri] at hway
    exact hway.mono fun q hq => hq.mono i.le_succ (Nat.le_refl j)
  have hlast : a.range.Sweeps (a.UsedBetween calls i j) (a.after calls j).cursor p := by
    have hway := (hsj.firstFree (allocate?_of_log again)).sweeps
    rw [hrj] at hway
    exact hway.mono fun q hq => ⟨j, hij, Nat.le_refl _, hq⟩
  exact (hsofar.trans hlast).of_return h.ordered hp hq hne

/-- A range that has a port has its end not below its start. -/
theorem sound_of_contains {r : PortRange} (hq : r.contains q = true) : (ofRange r).Sound := by
  have hb := PortRange.contains_iff.1 hq
  exact sound_ofRange (PortRange.ordered_iff.2 (hb.1.trans hb.2))

/-- **A port is handed out again as late as possible.** Take any calls of an allocator of any range, and
one of them, at place `i`, that hands out a port. If a later call hands out that port again, at place `j`,
then each other port of the range was in use at some moment after the first and up to the second of the
two calls, whether or not the port was handed out in between as well. So as long as another port stays
free, this one is not handed out again. -/
theorem reused_late {r : PortRange} {calls : List PortCall} {i : Nat} {p : UInt16}
    (first : ((ofRange r).serveAll calls).1[i]? = some (.allocated (some p))) :
    (∀ j, i < j → ((ofRange r).serveAll calls).1[j]? = some (.allocated (some p)) →
      ∀ q, r.contains q = true → q ≠ p → (ofRange r).UsedBetween calls i j q) ∧
    (∀ n q, r.contains q = true → q ≠ p →
      (∀ k, i < k → k ≤ n → ((ofRange r).after calls k).inUse q = false) →
      ∀ j, i < j → j ≤ n → ((ofRange r).serveAll calls).1[j]? ≠ some (.allocated (some p))) := by
  constructor
  · intro j hij again q hq hne
    exact (sound_of_contains hq).usedBetween_of_again hij first again hq hne
  · intro n q hq hne free j hij hjn again
    obtain ⟨k, hik, hkj, hk⟩ := (sound_of_contains hq).usedBetween_of_again hij first again hq hne
    rw [free k hik (hkj.trans hjn)] at hk
    cases hk

/-- Three ports. The second is taken back at once, and the third is handed out before it, which has stayed
free. The search then passes the first port, which is still in use, and when that one is handed out again,
both others have been in use, although one of them is free by then. -/
theorem reused_late_three_ports :
    let r : PortRange := ⟨7000, 7002⟩
    let calls : List PortCall := [.allocate, .allocate, .release 7001, .allocate, .allocate,
      .release 7000, .release 7001, .allocate]
    let log := ((ofRange r).serveAll calls).1
    log = [.allocated (some 7000), .allocated (some 7001), .released 7001, .allocated (some 7002),
      .allocated (some 7001), .released 7000, .released 7001, .allocated (some 7000)] ∧
    ((ofRange r).after calls 7).inUse 7001 = false ∧
    (ofRange r).UsedBetween calls 0 7 7001 ∧ (ofRange r).UsedBetween calls 0 7 7002 ∧
    (∀ k, 1 < k → k ≤ 3 → ((ofRange r).after calls k).inUse 7002 = false) ∧
    log[3]? ≠ some (.allocated (some 7001)) := by
  intro r calls log
  have hlog : log = [.allocated (some 7000), .allocated (some 7001), .released 7001,
      .allocated (some 7002), .allocated (some 7001), .released 7000, .released 7001,
      .allocated (some 7000)] := by decide +kernel
  have hfirst : log[0]? = some (.allocated (some 7000)) := by rw [hlog]; rfl
  have hsecond : log[1]? = some (.allocated (some 7001)) := by rw [hlog]; rfl
  have hagain : log[7]? = some (.allocated (some 7000)) := by rw [hlog]; rfl
  have hfree : ∀ k, 1 < k → k ≤ 3 → ((ofRange r).after calls k).inUse 7002 = false := by
    intro k hk hk'
    obtain rfl | rfl : k = 2 ∨ k = 3 := by omega
    · decide +kernel
    · decide +kernel
  have hin : r.contains 7001 = true ∧ r.contains 7002 = true := by decide
  refine ⟨hlog, by decide +kernel, ?_, ?_, hfree, ?_⟩
  · exact (reused_late hfirst).1 7 (by decide) hagain 7001 hin.1 (by decide)
  · exact (reused_late hfirst).1 7 (by decide) hagain 7002 hin.2 (by decide)
  · exact (reused_late hsecond).2 3 7002 hin.2 (by decide) hfree 3 (by decide) (by decide)

end PortAllocator

end SandboxPool
