import SandboxPool.Proofs.Machine.Hands
import SandboxPool.Proofs.Pool.Cap
import SandboxPool.Proofs.Pool.Containers

/-!
# The books of a machine

All that the acts of processes keep, for a machine that is reached from a new pool.

* `Machine.Reaches.capped` needs nothing of the daemon.
* `Machine.Reaches.books` has the rest, as long as the daemon gives out no identity twice.
-/

namespace SandboxPool

variable {config : Config} {ids : List String} {c : Ledger} {p p' q : Pool}
  {before after l l' x y rest : List Hand} {sig : Option Signal}

/-- Every move keeps the cap. -/
theorem Capped.moves (hv : config.Valid) (h : Capped config p before)
    (hm : Moves p before sig p' after) : Capped config p' after := by
  obtain ⟨x, y, rest, q, hb, ha, hact, hq⟩ := hm
  exact (((h.perm hb).act hv hact).alike hq).perm ha.symm

/-- Identities, claims, ports and containers are in order. -/
structure Books (config : Config) (ids : List String) (c : Ledger) (p : Pool) (l : List Hand) :
    Prop where
  named : Named ids p l
  claimed : Claimed p l
  housed : Housed config p l
  stocked : Stocked c p l

/-- The books of a new pool are empty. -/
theorem books_ofConfig (config : Config) (seed : BitVec 128) :
    Books config [] .empty (.ofConfig config seed) [] where
  named := ⟨List.nodup_nil, fun _ h => by cases h⟩
  claimed := ⟨List.nodup_nil, (fun _ h => by cases h), (fun _ h => by cases h),
    fun _ h => by cases h⟩
  housed := ⟨PortAllocator.holds_ofRange _, rfl, fun h => by cases h⟩
  stocked := ⟨List.Perm.refl _, List.nodup_nil, (fun _ h => by cases h), fun h => by cases h⟩

theorem Books.perm (h : Books config ids c p l) (hp : l.Perm l') : Books config ids c p l' :=
  ⟨h.named.perm hp, h.claimed.perm hp, h.housed.perm hp, h.stocked.perm hp⟩

theorem Books.act (h : Books config ids c p (x ++ rest)) (ha : Act p x sig q y)
    (hf : (ids ++ Signal.news sig).Nodup) :
    Books config (ids ++ Signal.news sig) (c.after sig) q (y ++ rest) :=
  ⟨h.named.act ha hf, h.claimed.act h.named ha, h.housed.act h.named h.claimed ha,
    h.stocked.act h.named h.claimed h.housed ha hf⟩

theorem Books.alike (h : Books config ids c p l) (ha : p.Alike q) : Books config ids c q l :=
  ⟨h.named.alike ha, h.claimed.alike ha, h.housed.alike ha, h.stocked.alike ha⟩

theorem Books.moves (h : Books config ids c p before) (hm : Moves p before sig p' after)
    (hf : (ids ++ Signal.news sig).Nodup) :
    Books config (ids ++ Signal.news sig) (c.after sig) p' after := by
  obtain ⟨x, y, rest, q, hb, ha, hact, hq⟩ := hm
  exact (((h.perm hb).act hact hf).alike hq).perm ha.symm

namespace Machine

/-- The things in hand of the posts of a machine. -/
def things (m : Machine) : List Hand := m.hands.map (·.2)

/-- A move is an act with the things that are in hand. -/
theorem next_things {m m' : Machine} (ho : m.Ordered) {move : Move} {notes : List Note}
    (h : m.next move = some (m', notes)) :
    Moves m.pool m.things (m.signal? move) m'.pool m'.things := by
  obtain ⟨x, y, rest, q, hb, ha, hact, hq, -⟩ := next_hands ho h
  refine ⟨x.map (·.2), y.map (·.2), rest.map (·.2), q, ?_, ?_, hact, hq⟩
  · rw [← List.map_append]
    exact hb.map _
  · rw [← List.map_append]
    exact ha.map _

variable {m : Machine} {h : History} {pool : Pool} {seed : BitVec 128} {now : Instant}

theorem create_eq_ok_iff :
    Pool.create config seed = .ok pool ↔ config.Valid ∧ pool = .ofConfig config seed := by
  unfold Pool.create
  rw [← Config.check_eq_ok_iff]
  cases hc : config.check with
  | error e => simp
  | ok _ => simp [eq_comm]

theorem Reaches.ordered_ofPool (hr : (ofPool pool now).Reaches h m) : m.Ordered :=
  hr.ordered (Machine.ordered_ofPool pool now)

/-- The cap holds wherever a machine gets from a new pool. -/
theorem Reaches.capped (hp : Pool.create config seed = .ok pool)
    (hr : (ofPool pool now).Reaches h m) : Capped config m.pool m.things := by
  obtain ⟨hv, rfl⟩ := create_eq_ok_iff.1 hp
  induction hr with
  | start => exact ⟨rfl, List.nodup_nil, rfl, Nat.zero_le _⟩
  | next hr hn ih => exact ih.moves hv (next_things hr.ordered_ofPool hn)

/-- The books are in order wherever a machine gets from a new pool, as long as the daemon gives out
no identity twice. -/
theorem Reaches.books (hp : Pool.create config seed = .ok pool)
    (hr : (ofPool pool now).Reaches h m) (hf : h.Fresh) :
    Books config h.created h.ledger m.pool m.things := by
  obtain ⟨-, rfl⟩ := create_eq_ok_iff.1 hp
  induction hr with
  | start => exact books_ofConfig config seed
  | @next h m m' move notes hr hn ih =>
    have hbooks := ih (History.fresh_of_append hf)
    unfold History.Fresh at hf
    rw [History.created_append] at hf ⊢
    rw [History.ledger_append]
    exact hbooks.moves (next_things hr.ordered_ofPool hn) hf

/-- Where every block has a sandbox of its own nobody has a part in a shared one. -/
theorem Reaches.not_sharing (hp : Pool.create config seed = .ok pool)
    (hmulti : config.parallelism = .multi) (hr : (ofPool pool now).Reaches h m) :
    .sharing ∉ m.things := by
  induction hr with
  | start => exact List.not_mem_nil
  | next hr hn ih =>
    refine (next_things hr.ordered_ofPool hn).not_sharing ?_ ih
    rw [(hr.capped hp).config_eq, hmulti]

end Machine

end SandboxPool
