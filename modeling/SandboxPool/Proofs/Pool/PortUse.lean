import SandboxPool.Proofs.Pool.Claims
import SandboxPool.Proofs.Ports

/-!
# Ports and sandboxes

The ports in use are those of the live sandboxes and those that starts have in hand, each of them
once (`Housed`). A container is created with the port that its start has in hand.
-/

namespace SandboxPool

/-- Every port in use belongs to one live sandbox or to one start. -/
structure Housed (config : Config) (p : Pool) (l : List Hand) : Prop where
  holds : p.ports.Holds (p.livePorts ++ l.filterMap Hand.port?)
  range : p.ports.range = config.ports
  spec : ∀ {spec : ContainerSpec} {port : UInt16} {out : Bool}, Hand.naming spec port out ∈ l →
    spec.hostPort? = some port

namespace Housed

variable {config : Config} {ids : List String} {p q : Pool} {l l' x y rest : List Hand}
  {sig : Option Signal}

theorem perm (h : Housed config p l) (hp : l.Perm l') : Housed config p l' := by
  refine ⟨h.holds.perm ?_, h.range, fun hm => h.spec (hp.mem_iff.2 hm)⟩
  exact (hp.filterMap Hand.port?).append_left _

theorem alike (h : Housed config p l) (ha : p.Alike q) : Housed config q l := by
  refine ⟨?_, ?_, h.spec⟩
  · rw [ha.ports, ha.livePorts]
    exact h.holds
  · rw [ha.ports]
    exact h.range

/-- The specification of a thing in hand, if it is one of those that stay, has its port. -/
theorem spec_rest (h : Housed config p (x ++ rest))
    (hy : ∀ spec port out, Hand.naming spec port out ∈ y → spec.hostPort? = some port)
    {spec : ContainerSpec} {port : UInt16} {out : Bool} (hm : Hand.naming spec port out ∈ y ++ rest) :
    spec.hostPort? = some port := by
  rcases List.mem_append.1 hm with hm | hm
  · exact hy spec port out hm
  · exact h.spec (List.mem_append_right _ hm)

/-- The same ports are in use. -/
theorem keep (h : Housed config p (x ++ rest)) (hp : q.ports = p.ports)
    (hl : q.livePorts = p.livePorts) (hxy : y.filterMap Hand.port? = x.filterMap Hand.port?)
    (hy : ∀ spec port out, Hand.naming spec port out ∈ y → spec.hostPort? = some port) :
    Housed config q (y ++ rest) := by
  refine ⟨?_, ?_, h.spec_rest hy⟩
  · rw [hp, hl, List.filterMap_append, hxy, ← List.filterMap_append]
    exact h.holds
  · rw [hp]
    exact h.range

/-- A port is given back. -/
theorem release (h : Housed config p (x ++ rest)) {port : UInt16}
    (hq : q.ports = p.ports.release port)
    (hp : (p.livePorts ++ x.filterMap Hand.port?).Perm (port :: q.livePorts)) :
    Housed config q ([] ++ rest) := by
  refine ⟨?_, ?_, h.spec_rest fun _ _ _ hm => by cases hm⟩
  · rw [hq]
    refine PortAllocator.Holds.release (h.holds.perm ?_)
    rw [List.filterMap_append, ← List.append_assoc]
    exact hp.append_right _
  · rw [hq]
    exact h.range

/-- Every act keeps account of the ports. -/
theorem act (hn : Named ids p (x ++ rest)) (hc : Claimed p (x ++ rest))
    (h : Housed config p (x ++ rest)) (ha : Act p x sig q y) : Housed config q (y ++ rest) := by
  have hd := hn.distinct
  have hidle : ∀ {l : List Hand}, (∀ t ∈ l, t.idle = true) → l.filterMap Hand.port? = [] :=
    Hand.filterMap_idle fun _ => Hand.port?_idle
  have hno : ∀ {l : List Hand}, (∀ t ∈ l, t.idle = true) →
      ∀ spec port out, Hand.naming spec port out ∈ l → spec.hostPort? = some port :=
    fun hl _ _ _ hm => absurd (hl _ hm) (by simp [Hand.idle])
  have hput : ∀ {q : Pool} {r r' : Record}, q.records = (p.put r').records → r ∈ p.records →
      r'.id = r.id → r'.live = r.live → r'.port = r.port → q.livePorts = p.livePorts := by
    intro q r r' hq hr hid hl hp
    have hput := hd.livePorts_put hr hid hl hp
    unfold Pool.livePorts Pool.liveRecords at hput ⊢
    rw [hq, hput]
  cases ha with
  | @allocate spec port ports hports hs =>
    obtain ⟨hholds, hrange⟩ := h.holds.allocate hports
    refine ⟨hholds.perm ?_, hrange.trans h.range, h.spec_rest fun spec' port' out hm => ?_⟩
    · exact List.perm_middle.symm
    · simp only [List.mem_singleton, Hand.naming.injEq] at hm
      obtain ⟨rfl, rfl, -⟩ := hm
      exact hs
  | call spec port =>
    have hspec := h.spec (List.mem_append_left _ (List.mem_singleton_self _))
    refine h.keep rfl rfl rfl fun spec' port' out hm => ?_
    simp only [List.mem_singleton, Hand.naming.injEq] at hm
    obtain ⟨rfl, rfl, -⟩ := hm
    exact hspec
  | created => exact h.keep rfl rfl rfl fun _ _ _ hm => by simp at hm
  | refused => exact h.keep rfl rfl rfl fun _ _ _ hm => by simp at hm
  | giveBack port => exact h.release rfl List.perm_append_comm
  | register id port now =>
    have hlive : (p.unreserve.insert (.new id port now)).livePorts = p.livePorts ++ [port] := by
      unfold Pool.livePorts Pool.liveRecords
      rw [hn.register_records, List.filter_append, List.map_append]
      rfl
    refine ⟨?_, h.range, h.spec_rest fun _ _ _ hm => by simp at hm⟩
    have hholds := h.holds
    rw [hlive, List.append_assoc]
    exact hholds
  | @settle r port hr giver hg =>
    obtain ⟨r₀, hr₀, hid, hl, hp⟩ := hc.record (r.id, port) (Claimed.mem_ending
      (List.mem_append_left _ (List.mem_cons_self ..)))
    obtain rfl := hd.eq_of_id hr hr₀ hid
    simp only at hp
    subst hp
    refine h.release rfl ?_
    have hnil : giver.filterMap Hand.port? = [] := hidle (Giver.idle hg)
    show (p.livePorts ++ giver.filterMap Hand.port?).Perm _
    rw [hnil, List.append_nil]
    exact hd.livePorts_end hr rfl hl rfl
  | @vanish id port hf giver hg =>
    obtain ⟨r, hr, hid, -⟩ := hc.record (id, port) (Claimed.mem_ending
      (List.mem_append_left _ (List.mem_cons_self ..)))
    exact absurd hid (Pool.find?_eq_none.1 hf r hr)
  | publish hr hs =>
    exact h.keep rfl (hput rfl hr rfl (Record.live_of_admits_idle hs).symm rfl) rfl (hno (by simp))
  | deliver block hr hs =>
    exact h.keep rfl (hput rfl hr rfl (Record.live_of_admits_idle hs).symm rfl) rfl
      (hno (by simp [Hand.idle]))
  | take block hr _ hs =>
    exact h.keep rfl (hput rfl hr rfl (by simp [Record.live, State.terminal, hs]) rfl) rfl
      (hno (by simp [Hand.idle]))
  | wake hr => exact h.keep rfl (hput rfl hr rfl rfl rfl) rfl (hno (by simp [Hand.idle]))
  | rebind block hr _ hs =>
    exact h.keep rfl (hput rfl hr rfl (Record.live_of_admits_idle hs).symm rfl) rfl
      (hno (by simp [Hand.idle]))
  | stray hr => exact h.keep rfl (hput rfl hr rfl rfl rfl) rfl (hno (by simp))
  | claim hb hr =>
    exact h.keep rfl (hput rfl hr rfl rfl rfl) (hidle hb.idle).symm fun _ _ _ hm => by simp at hm
  | park hg hr _ hs =>
    exact h.keep rfl (hput rfl hr rfl (by simp [Record.live, State.terminal, hs]) rfl)
      (hidle (Giver.idle (.inr hg))).symm (hno (by simp))
  | @join r block hr =>
    refine h.keep rfl (hput rfl hr rfl ?_ rfl) rfl (hno (by simp [Hand.idle]))
    by_cases hs : r.state = .idle
    · simp [Record.live, State.terminal, hs]
    · simp [Record.live, hs]
  | drop hg hr =>
    exact h.keep rfl (hput rfl hr rfl rfl rfl) (hidle (Giver.idle (.inr hg))).symm (hno (by simp))
  | enter l hl =>
    exact h.keep rfl rfl (hidle fun t ht => (hl t ht).idle) (hno fun t ht => (hl t ht).idle)
  | reserve n =>
    refine h.keep rfl rfl ?_ fun spec port out hm => by cases List.eq_of_mem_replicate hm
    exact List.filterMap_eq_nil_iff.2 fun t ht => by rw [List.eq_of_mem_replicate ht]; rfl
  | decline hb => exact h.keep rfl rfl (hidle hb.idle).symm (hno (by simp))
  | resign hg => exact h.keep rfl rfl (hidle (Giver.idle (.inr hg))).symm (hno (by simp))
  | skip hg => exact h.keep rfl rfl (hidle (Giver.idle (.inr hg))).symm (hno (by simp))
  -- all others have no port in hand and leave the records as they are
  | _ => exact h.keep rfl rfl rfl (fun _ _ _ hm => by simp at hm)

end Housed

end SandboxPool
