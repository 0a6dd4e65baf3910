import SandboxPool.Health
import Mathlib.Algebra.Order.Floor.Div

/-!
# The wait for a healthy sandbox ends and decides rightly

Only probes and pauses take time, so when a probe ends follows from those before it (`probeEnd`). The
wait makes one probe after the other, up to the first that does not ask for another one: one that
succeeds, or fails when time is up (`exists_last`). Each pause moves the clock forward, which bounds the
number of probes and the time that they take (`wait_decides`).
-/

namespace SandboxPool

/-! ## The clock -/

/-- When a probe begins: the probes before it have taken their time, with a pause behind each. -/
def probeStart (pause : Nat) (probe : Nat → Probe) : Nat → Nat
  | 0 => 0
  | k + 1 => probeStart pause probe k + (probe k).nanos + pause

/-- When a probe ends. -/
def probeEnd (pause : Nat) (probe : Nat → Probe) (k : Nat) : Nat :=
  probeStart pause probe k + (probe k).nanos

/-- The probe asks for another one: it fails before time is up. -/
def Pending (pause timeout : Nat) (probe : Nat → Probe) (k : Nat) : Prop :=
  (probe k).healthy = false ∧ probeEnd pause probe k < timeout

variable {pause limit : Nat} {probe : Nat → Probe}

theorem probeStart_succ (pause : Nat) (probe : Nat → Probe) (k : Nat) :
    probeStart pause probe (k + 1) = probeEnd pause probe k + pause := rfl

/-- There is a pause before each probe but the first. -/
theorem mul_le_probeStart (pause : Nat) (probe : Nat → Probe) (k : Nat) :
    k * pause ≤ probeStart pause probe k := by
  induction k with
  | zero => exact Nat.le_of_eq (Nat.zero_mul pause)
  | succ k ih =>
    rw [probeStart, Nat.succ_mul]
    omega

theorem mul_le_probeEnd (pause : Nat) (probe : Nat → Probe) (k : Nat) :
    k * pause ≤ probeEnd pause probe k :=
  (mul_le_probeStart pause probe k).trans (Nat.le_add_right _ _)

theorem Probe.limited_eq {p : Probe} (h : p.nanos ≤ probeLimit) : p.limited = p :=
  if_neg (Nat.not_lt.2 h)

/-! ## The last probe -/

/-- A probe that asks for another one is in time, and so are those before it. -/
theorem Pending.lt_limit (hp : 0 < pause) {k : Nat} (h : Pending pause limit probe k) : k < limit :=
  (Nat.le_mul_of_pos_right k hp).trans_lt ((mul_le_probeEnd pause probe k).trans_lt h.2)

/-- **The wait goes up to the first probe that does not ask for another one**, before its fuel is used
up: every probe that does takes the clock on. -/
theorem exists_last (hp : 0 < pause) (hd : ∀ k, (probe k).nanos ≤ probeLimit) {fuel n : Nat}
    (hfuel : limit < fuel + n) (hn : ∀ j < n, Pending pause limit probe j) :
    ∃ k, (∀ j < k, Pending pause limit probe j) ∧ ¬ Pending pause limit probe k ∧
      waitFrom pause limit probe fuel n (probeStart pause probe n)
        = ⟨(probe k).healthy, k + 1, probeEnd pause probe k⟩ := by
  induction fuel generalizing n with
  | zero =>
    obtain ⟨j, rfl⟩ : ∃ j, n = j + 1 := ⟨n - 1, by omega⟩
    have hlt := (hn j (Nat.lt_succ_self j)).lt_limit hp
    omega
  | succ fuel ih =>
    have hend : probeStart pause probe n + (probe n).nanos = probeEnd pause probe n := rfl
    simp only [waitFrom, Probe.limited_eq (hd n), hend]
    split
    · next hhealthy =>
      refine ⟨n, hn, fun h => ?_, by rw [hhealthy]⟩
      rw [h.1] at hhealthy
      cases hhealthy
    · next hfails =>
      have hfailed : (probe n).healthy = false := Bool.eq_false_of_not_eq_true hfails
      split
      · next hlate =>
        exact ⟨n, hn, fun h => Nat.not_lt.2 hlate h.2, by rw [hfailed]⟩
      · next hearly =>
        rw [← probeStart_succ]
        refine ih (by omega) fun j hj => ?_
        rcases Nat.lt_succ_iff_lt_or_eq.1 hj with hj | rfl
        · exact hn j hj
        · exact ⟨hfailed, Nat.lt_of_not_le hearly⟩

/-- A probe comes after no more pauses than begin before time is up. -/
theorem le_ceilDiv_of_pending (hp : 0 < pause) {k : Nat} (h : ∀ j < k, Pending pause limit probe j) :
    k ≤ limit ⌈/⌉ pause := by
  cases k with
  | zero => exact Nat.zero_le _
  | succ j =>
    have hlt : j * pause < limit :=
      (mul_le_probeEnd pause probe j).trans_lt (h j (Nat.lt_succ_self j)).2
    refine Nat.succ_le_of_lt (Nat.lt_of_not_le fun hle => ?_)
    have hcovers := (ceilDiv_le_iff_le_mul hp).1 hle
    rw [Nat.mul_comm] at hcovers
    omega

/-- A probe begins before the first pause behind the end of time is over. -/
theorem probeStart_lt_of_pending (hp : 0 < pause) {k : Nat}
    (h : ∀ j < k, Pending pause limit probe j) : probeStart pause probe k < limit + pause := by
  cases k with
  | zero => exact Nat.lt_add_left limit hp
  | succ j =>
    rw [probeStart_succ]
    exact Nat.add_lt_add_right (h j (Nat.lt_succ_self j)).2 pause

variable {interval timeout : Duration}

/-- The wait goes up to the first probe that does not ask for another one. -/
theorem waitHealthy_eq (timeout : Duration) (hi : 0 < interval.nanos) (hd : ∀ k, (probe k).nanos ≤ probeLimit) :
    ∃ k, (∀ j < k, Pending interval.nanos timeout.nanos probe j) ∧
      ¬ Pending interval.nanos timeout.nanos probe k ∧
      waitHealthy interval timeout probe
        = ⟨(probe k).healthy, k + 1, probeEnd interval.nanos probe k⟩ := by
  unfold waitHealthy
  rw [Nat.max_eq_left hi]
  exact exists_last hi hd (Nat.lt_succ_self _) fun j hj => absurd hj (Nat.not_lt_zero j)

theorem Verdict.result_eq_ok_iff {v : Verdict} {port : UInt16} :
    v.result port timeout = .ok () ↔ v.healthy = true := by
  unfold result
  split <;> simp [*]

/-- **The wait ends and decides rightly.** Pauses last some time, and no probe is waited for longer than
its limit. However many probes fail and however long they take: the wait makes one probe after the
other, as long as they fail before time is up, and at most one more of them than pauses begin in that
time. It is over before one more pause and one more probe can follow the end of time. It passes exactly
if some probe succeeds and all before it have failed before time was up. Otherwise it names its port and
its timeout, and time is up. -/
theorem wait_decides (port : UInt16) (timeout : Duration) (hi : 0 < interval.nanos)
    (hd : ∀ k, (probe k).nanos ≤ probeLimit) :
    (∃ k, (waitHealthy interval timeout probe).probes = k + 1 ∧
      (waitHealthy interval timeout probe).elapsed = probeEnd interval.nanos probe k ∧
      ∀ j < k, (probe j).healthy = false ∧ probeEnd interval.nanos probe j < timeout.nanos) ∧
    (waitHealthy interval timeout probe).probes ≤ timeout.nanos ⌈/⌉ interval.nanos + 1 ∧
    (waitHealthy interval timeout probe).elapsed < timeout.nanos + interval.nanos + probeLimit ∧
    ((waitHealthy interval timeout probe).result port timeout = .ok () ↔
      ∃ k, (probe k).healthy = true ∧
        ∀ j < k, (probe j).healthy = false ∧ probeEnd interval.nanos probe j < timeout.nanos) ∧
    ((waitHealthy interval timeout probe).result port timeout ≠ .ok () →
      (waitHealthy interval timeout probe).result port timeout
          = .error (.healthTimeout port timeout) ∧
        timeout.nanos ≤ (waitHealthy interval timeout probe).elapsed) := by
  obtain ⟨k, hpending, hlast, hwait⟩ := waitHealthy_eq timeout hi hd
  rw [hwait, Verdict.result_eq_ok_iff]
  refine ⟨⟨k, rfl, rfl, hpending⟩, Nat.succ_le_succ (le_ceilDiv_of_pending hi hpending), ?_, ?_, ?_⟩
  · exact Nat.add_lt_add_of_lt_of_le (probeStart_lt_of_pending hi hpending) (hd k)
  · refine ⟨fun hhealthy => ⟨k, hhealthy, hpending⟩, fun ⟨i, hhealthy, hbefore⟩ => ?_⟩
    -- Neither of the two probes comes before the other.
    rcases Nat.lt_trichotomy i k with hlt | rfl | hlt
    · rw [(hpending i hlt).1] at hhealthy
      cases hhealthy
    · exact hhealthy
    · exact absurd (hbefore k hlt) hlast
  · intro hfails
    have hfailed : (probe k).healthy = false :=
      Bool.eq_false_of_not_eq_true fun hhealthy => hfails (Verdict.result_eq_ok_iff.2 hhealthy)
    refine ⟨?_, Nat.le_of_not_lt fun hlt => hlast ⟨hfailed, hlt⟩⟩
    unfold Verdict.result
    rw [hfailed]
    rfl

/-- The first two probes fail in time. The third begins when time is up already, and takes as long as a
probe may take, but it succeeds. -/
theorem wait_decides_late :
    let interval : Duration := .ofMillis 250
    let timeout : Duration := .ofMillis 600
    let probe : Nat → Probe := fun k => if k < 2 then ⟨false, 100000000⟩ else ⟨true, probeLimit⟩
    0 < interval.nanos ∧ (∀ k, (probe k).nanos ≤ probeLimit) ∧
      timeout.nanos < probeStart interval.nanos probe 2 ∧
      (waitHealthy interval timeout probe).result 40000 timeout = .ok () ∧
      (waitHealthy interval timeout probe).elapsed
        < timeout.nanos + interval.nanos + probeLimit := by
  intro interval timeout probe
  have hi : 0 < interval.nanos := by decide
  have hd : ∀ k, (probe k).nanos ≤ probeLimit := by
    intro k
    show (if k < 2 then (⟨false, 100000000⟩ : Probe) else ⟨true, probeLimit⟩).nanos ≤ probeLimit
    split
    · show 100000000 ≤ probeLimit
      decide
    · exact Nat.le_refl probeLimit
  obtain ⟨-, -, hshort, hpasses, -⟩ :=
    wait_decides 40000 timeout hi hd
  have hbefore : ∀ j < 2, (probe j).healthy = false ∧
      probeEnd interval.nanos probe j < timeout.nanos := by decide
  exact ⟨hi, hd, by decide, hpasses.2 ⟨2, rfl, hbefore⟩, hshort⟩

end SandboxPool
