import SandboxPool.Proofs.Pool.Reuse

/-!
# Every acquisition is counted once

An acquisition that gets a sandbox is to be counted once: as served by an idle sandbox, by waking one
or by starting one; and besides only those are counted that fail of a start. So it is where every
block has a sandbox of its own. Where all blocks share one, an acquisition that joins a sandbox which
is there already and still idle is counted nowhere, and one that joins the sandbox it has started,
when that is not idle any more, is counted twice.

* `History.account` accounts for the acquisitions that have come to their end.
* `Machine.acquisitions_counted_iff` is the main result.
-/

namespace SandboxPool

variable {config : Config} {seed : BitVec 128} {pool : Pool} {now : Instant} {h : History}
  {m m' : Machine} {move : Move} {notes : List Note} {k : Key} {block : String} {x : Post}
  {a : Acquire.Point}

/-! ## The account -/

/-- How many acquisitions have come to an end, and which posts have begun to start a sandbox where
they moved last. -/
structure Account where
  begun : Key → Bool := fun _ => false
  /-- Acquisitions that got a sandbox. -/
  served : Nat := 0
  /-- Acquisitions that failed behind the start of a sandbox that they had begun. -/
  broken : Nat := 0
  /-- Acquisitions that joined a sandbox which was idle and which they had not started. -/
  missed : Nat := 0
  /-- Acquisitions that joined the sandbox they had started, which was not idle. -/
  twice : Nat := 0

namespace Account

/-- The post with a key has moved. -/
def moved (t : Account) (k : Key) (begun : Bool) : Account :=
  { t with begun := fun k' => if k' = k then begun else t.begun k' }

/-- An acquisition has taken a turn at a point, and may have come to its end. -/
def settle (t : Account) (p : Pool) (a : Acquire.Point) (begun : Bool) :
    Option Acquire.Result → Account
  | none => t
  | some (.error _) => { t with broken := t.broken + begun.toNat }
  | some (.ok _) =>
    { t with
      served := t.served + 1
      missed := t.missed + (!begun && a.joins p true).toNat
      twice := t.twice + (begun && a.joins p false).toNat }

/-- What a move of a machine adds to the account. -/
def note (t : Account) (m : Machine) (move : Move) : Account :=
  let k := m.mover move
  match m.acquisition? k with
  | none => t
  | some (_, a) =>
    let begun := a.begun (t.begun k)
    (t.moved k begun).settle m.pool a begun ((m.next move).bind (·.1.upshot? k))

theorem note_of_none (t : Account) (h : m.acquisition? (m.mover move) = none) : t.note m move = t := by
  unfold note
  simp only [h]

theorem note_of_some (t : Account) (h : m.acquisition? (m.mover move) = some (block, a)) :
    t.note m move = (t.moved (m.mover move) (a.begun (t.begun (m.mover move)))).settle m.pool a
      (a.begun (t.begun (m.mover move))) ((m.next move).bind (·.1.upshot? (m.mover move))) := by
  unfold note
  simp only [h]

/-- The acquisitions on their way that have begun to start a sandbox. -/
def starting (t : Account) (posts : List (Key × Post)) : Nat :=
  posts.countP fun y => y.2.acquisition?.any fun a => a.2.begun (t.begun y.1)

/-- The account is right: the counters of the pool have the acquisitions that got a sandbox, those that
failed of a start and those that are starting one; and besides they miss some and have some twice. -/
def Right (t : Account) (m : Machine) : Prop :=
  m.pool.stats.acquired + t.missed = t.served + t.broken + t.twice + t.starting m.posts

/-- The posts that do not move have begun what they had begun. -/
theorem starting_rest (t : Account) (begun : Bool) {k : Key} {rest : List (Key × Post)}
    (h : ∀ y ∈ rest, y.1 ≠ k) : (t.moved k begun).starting rest = t.starting rest := by
  refine List.countP_congr fun y hy => ?_
  simp only [moved, if_neg (h y hy)]

theorem begun_settle (t : Account) (p : Pool) (a : Acquire.Point) (begun : Bool)
    (r : Option Acquire.Result) : (t.settle p a begun r).begun = t.begun := by
  cases r with
  | none => rfl
  | some r => cases r <;> rfl

end Account

/-- The account of the acquisitions in a history. -/
def History.account (h : History) : Account := h.foldl (fun t x => t.note x.1 x.2) {}

theorem History.account_append : (h ++ [(m, move)]).account = h.account.note m move := by
  unfold account
  rw [List.foldl_append]
  rfl

/-! ## Posts -/

theorem Acquire.Point.eq_of_leaf {name : String} {b : Acquire.Point}
    (h : b.leaf name = .acquire block a) : name = block ∧ b = a := by
  cases b with
  | retire id error t => cases h
  | cold s => cases s <;> cases h
  | shared s => cases s <;> cases h
  | _ =>
    cases h
    exact ⟨rfl, rfl⟩

theorem BlockRun.Point.acquiring?_of_leaf {name : String} {b : BlockRun.Point}
    (h : b.leaf name = .acquire block a) : b.acquiring?.map (name, ·) = some (block, a) := by
  cases b with
  | acquire since a' =>
    obtain ⟨rfl, rfl⟩ := Acquire.Point.eq_of_leaf h
    rfl
  | release ran id r => cases r <;> cases h
  | _ => cases h

namespace Post

/-- A post whose leaf is an acquisition makes that acquisition. -/
theorem acquisition?_of_leaf? (h : x.leaf? config = some (.acquire block a)) :
    x.acquisition? = some (block, a) := by
  cases x with
  | acquire name s =>
    obtain ⟨b, hb, hleaf⟩ := Option.map_eq_some_iff.1 h
    obtain ⟨rfl, rfl⟩ := Acquire.Point.eq_of_leaf hleaf
    exact Option.map_eq_some_iff.2 ⟨b, hb, rfl⟩
  | release id s =>
    obtain ⟨r, -, hleaf⟩ := Option.map_eq_some_iff.1 h
    cases r <;> cases hleaf
  | spawn s =>
    obtain ⟨t, -, hleaf⟩ := Option.map_eq_some_iff.1 h
    cases t <;> cases hleaf
  | execute plan s =>
    obtain ⟨point, hp, hleaf⟩ := Option.map_eq_some_iff.1 h
    refine Option.bind_eq_some_iff.2 ⟨point, hp, ?_⟩
    cases point with
    | solo progress name b => exact BlockRun.Point.acquiring?_of_leaf hleaf
    | _ => cases hleaf
  | duty s =>
    obtain ⟨d, hd, hleaf⟩ := Option.map_eq_some_iff.1 h
    refine Option.bind_eq_some_iff.2 ⟨d, hd, ?_⟩
    cases d with
    | run name b => exact BlockRun.Point.acquiring?_of_leaf hleaf
    | terminate id t => cases hleaf
  | _ =>
    obtain ⟨t, -, hleaf⟩ := Option.map_eq_some_iff.1 h
    cases hleaf

/-- A post is at a point of the acquisition that it makes. -/
theorem acquiring?_eq_map (x : Post) : x.acquiring? = x.acquisition?.map (·.2) := by
  have hmap : ∀ (name : String) (o : Option Acquire.Point),
      o = (o.map fun b => (name, b)).map (·.2) := by
    intro name o
    cases o <;> rfl
  cases x with
  | acquire name s => exact hmap name s.point?
  | execute plan s =>
    show s.point?.bind _ = (s.point?.bind _).map _
    cases s.point? with
    | none => rfl
    | some point =>
      cases point with
      | solo progress name b => exact hmap name b.acquiring?
      | _ => rfl
  | duty s =>
    show s.point?.bind _ = (s.point?.bind _).map _
    cases s.point? with
    | none => rfl
    | some d =>
      cases d with
      | run name b => exact hmap name b.acquiring?
      | terminate id t => rfl
  | _ => rfl

end Post

/-! ## Moves -/

namespace Machine

/-- Where a post that makes no acquisition moves, those behind the move that make one are at its
start. -/
theorem Shift.starts {before after : List (Key × Post)} {p' : Pool} {e : List Effect}
    (hs : m.Shift move before p' e after) (hb : ∀ y ∈ before, y.2.acquisition? = none) :
    ∀ y ∈ after, ∀ b, y.2.acquisition? = some b → b.2 = Acquire.start m.pool.config := by
  have hkeyed : ∀ {n : Nat} {posts : List (Nat × Post)},
      (∀ y ∈ posts, ∀ a, y.2.acquiring? = some a → a = Acquire.start m.pool.config) →
      ∀ y ∈ Activity.keyed n posts, ∀ b, y.2.acquisition? = some b →
        b.2 = Acquire.start m.pool.config := by
    intro n posts hposts y hy b hyb
    obtain ⟨y₀, hy₀, rfl⟩ := List.mem_map.1 hy
    refine hposts y₀ hy₀ b.2 ?_
    rw [Post.acquiring?_eq_map]
    exact Option.map_eq_some_iff.2 ⟨b, hyb, rfl⟩
  have hturned : ∀ {n place : Nat} {x : Post} {sig : Option Signal} {p' : Pool} {e : List Effect}
      {posts : List (Nat × Post)}, x.acquisition? = none →
      x.Turned m.pool.config m.context m.pool place sig p' e posts →
      ∀ y ∈ Activity.keyed n posts, ∀ b, y.2.acquisition? = some b →
        b.2 = Acquire.start m.pool.config := by
    intro n place x sig p' e posts hnone ht
    refine hkeyed fun y hy a ha => ?_
    obtain ⟨-, out, hstart | ⟨block, a₀, s, ha₀, -⟩⟩ := ht.follows hy ha
    · exact hstart
    · rw [Post.acquiring?_eq_map, hnone] at ha₀
      cases ha₀
  cases hs with
  | abort | advance | vary => exact fun y hy => by cases hy
  | order o => exact hkeyed fun y hy a ha => acquiring?_ofOrder hy ha
  | step ht => exact hturned (hb _ (List.mem_singleton_self _)) ht
  | reply ht => exact hturned (hb _ (List.mem_singleton_self _)) ht
  | fire ht => exact hturned rfl ht

/-- A move of a post that makes no acquisition counts none, and none begins to start a sandbox. -/
theorem right_aside (ho : m.Ordered) (hn : m.next move = some (m', notes)) {t : Account}
    (ht : t.Right m) (hnone : m.acquisition? (m.mover move) = none) : t.Right m' := by
  have hsame : m'.pool.stats.acquired = m.pool.stats.acquired := by
    rcases next_leaf ho hn with hstill | ⟨l, sig, r, htakes⟩
    · rw [hstill.pool]
    · obtain ⟨e, hturn, -⟩ := htakes.turn
      obtain ⟨⟨y, hy⟩, hl⟩ := htakes.leaf
      refine Leaf.keeps_acquired (Leaf.innermost_of_leaf? hy) ?_ hturn
      rcases hl with hl | ⟨-, id, g, rfl⟩
      · obtain ⟨z, hz, hzl⟩ := mem_of_leaf? hl
        cases l with
        | acquire block a =>
          rw [acquisition?_eq ho hz, Post.acquisition?_of_leaf? hzl] at hnone
          cases hnone
        | _ => rfl
      · rfl
  obtain ⟨-, before, e, after, rest, hb, ha, hs⟩ := next_posts ho hn
  have hbefore : ∀ y ∈ before, y.2.acquisition? = none := by
    intro y hy
    have hmem := hb.mem_iff.2 (List.mem_append_left rest hy)
    rw [← acquisition?_eq ho hmem, hs.key_of_gone y hy]
    exact hnone
  have hnew : t.starting before = 0 ∧ t.starting after = 0 := by
    refine ⟨List.countP_eq_zero.2 fun y hy => ?_, List.countP_eq_zero.2 fun y hy => ?_⟩
    · rw [hbefore y hy]
      exact Bool.false_ne_true
    · cases hya : y.2.acquisition? with
      | none => exact Bool.false_ne_true
      | some b => simp only [Option.any_some, hs.starts hbefore y hy b hya, Acquire.begun_start,
          Bool.false_eq_true, not_false_eq_true]
  have hstarting : t.starting m'.posts = t.starting m.posts := by
    unfold Account.starting at hnew ⊢
    rw [hb.countP_eq, ha.countP_eq, List.countP_append, List.countP_append, hnew.1, hnew.2]
  unfold Account.Right at ht ⊢
  rw [hsame, hstarting]
  exact ht

/-- **A turn of an acquisition keeps the account right.** -/
theorem right_turn (ho : m.Ordered) (hn : m.next move = some (m', notes)) {t : Account}
    (ht : t.Right m) (ha : m.acquisition? (m.mover move) = some (block, a)) :
    (t.note m move).Right m' := by
  have ho' := (next_posts ho hn).1
  obtain ⟨x, hx, hxa⟩ := mem_of_acquisition? ha
  obtain ⟨sig, e, after, rest, hturned, hb, hafter⟩ := posts_of_mover ho hn hx
  obtain ⟨out, sig₀, s, y, hturn, hpool, rfl, hya, hyu⟩ := hturned.acquires_to hxa
  have hy : (m.mover move, y) ∈ m'.posts :=
    hafter.mem_iff.2 (List.mem_append_left _ (List.mem_singleton_self _))
  have hrest : ∀ z ∈ rest, z.1 ≠ m.mover move := by
    intro z hz hkey
    have hnodup := (hb.map (·.1)).nodup_iff.1 (posts_nodup ho)
    exact (List.nodup_cons.1 hnodup).1 (List.mem_map.2 ⟨z, hz, hkey⟩)
  have hup : (m.next move).bind (·.1.upshot? (m.mover move)) = (Strand.land a s.result).result? := by
    rw [hn]
    exact (upshot?_eq ho' hy).trans hyu
  have hacc := Acquire.accounts (t.begun (m.mover move)) hturn
  have hsteady : ∀ message, Strand.land a s.result ≠ .panicked message := by
    intro message hland
    cases hres : s.result with
    | none =>
      rw [hres] at hland
      cases hland
    | some next =>
      rw [hres] at hland
      cases next <;> cases hland
      exact Acquire.steady _ _ hturn message hres
  rw [t.note_of_some ha, hup]
  generalize hbegun : a.begun (t.begun (m.mover move)) = begun at hacc ⊢
  have hbefore : t.starting m.posts = begun.toNat + t.starting rest := by
    unfold Account.starting
    rw [hb.countP_eq, List.countP_cons, hxa, Option.any_some, hbegun, Nat.add_comm]
    cases begun <;> rfl
  have hbehind : ∀ r, ((t.moved (m.mover move) begun).settle m.pool a begun r).starting m'.posts
      = ((Strand.land a s.result).point?.any fun a' => a'.begun begun).toNat + t.starting rest := by
    intro r
    rw [← Account.starting_rest t begun hrest]
    unfold Account.starting
    rw [hafter.countP_eq, Account.begun_settle]
    show List.countP _ (((m.mover move), y) :: rest) = _
    rw [List.countP_cons, hya, Nat.add_comm]
    simp only [Option.any_map, Account.moved, if_true]
    cases (Strand.land a s.result).point?.any fun a' => a'.begun begun <;> rfl
  unfold Account.Right at ht ⊢
  rw [hbehind, hpool]
  rw [hbefore] at ht
  cases hland : Strand.land a s.result with
  | ready a' | waiting a' =>
    rw [hland] at hacc
    simp only [Acquire.Accounts] at hacc
    simp only [Strand.result?, Account.settle, Account.moved, Strand.point?, Option.any_some]
    omega
  | done r =>
    rw [hland] at hacc
    cases r with
    | error error =>
      simp only [Acquire.Accounts] at hacc
      simp only [Strand.result?, Account.settle, Account.moved, Strand.point?, Option.any_none,
        Bool.toNat_false]
      omega
    | ok snap =>
      simp only [Acquire.Accounts] at hacc
      simp only [Strand.result?, Account.settle, Account.moved, Strand.point?, Option.any_none,
        Bool.toNat_false]
      omega
  | panicked message => exact absurd hland (hsteady message)

/-! ## The account of a run -/

/-- **The account is right at all times.** -/
theorem Reaches.right (hp : Pool.create config seed = .ok pool) (hr : (ofPool pool now).Reaches h m) :
    h.account.Right m := by
  induction hr with
  | start =>
    obtain ⟨-, rfl⟩ := create_eq_ok_iff.1 hp
    rfl
  | @next h m m' move notes hr hn ih =>
    rw [History.account_append]
    have ho := hr.ordered_ofPool
    cases ha : m.acquisition? (m.mover move) with
    | none =>
      rw [h.account.note_of_none ha]
      exact right_aside ho hn ih ha
    | some b => exact right_turn ho hn ih ha

/-- Where every block has a sandbox of its own, nobody joins one. -/
theorem Reaches.joins_none (hr : (ofPool pool now).Reaches h m)
    (hmulti : pool.config.parallelism = .multi) : h.account.missed = 0 ∧ h.account.twice = 0 := by
  induction hr with
  | start => exact ⟨rfl, rfl⟩
  | @next h m m' move notes hr hn ih =>
    rw [History.account_append]
    cases ha : m.acquisition? (m.mover move) with
    | none =>
      rw [h.account.note_of_none ha]
      exact ih
    | some b =>
      obtain ⟨block, a⟩ := b
      rw [h.account.note_of_some ha]
      obtain ⟨x, hx, hxa⟩ := mem_of_acquisition? ha
      have hfits := (hr.fits hx).acquiring (Post.acquiring?_of_acquisition? hxa)
      rw [hmulti] at hfits
      have hjoins : ∀ idle, a.joins m.pool idle = false := by
        intro idle
        cases a with
        | join id => cases hfits
        | _ => rfl
      cases (m.next move).bind (·.1.upshot? (m.mover move)) with
      | none => exact ih
      | some r =>
        cases r with
        | error error => exact ih
        | ok snap =>
          simp only [Account.settle, hjoins, Bool.and_false, Bool.toNat_false, Nat.add_zero]
          exact ih

/-- **Which acquisitions are counted once.** In every run of a new pool of either model, in every
interleaving and whatever the daemon answers: when no acquisition is on its way, the counters of
idle sandboxes, of wakes and of starts have together all acquisitions that got a sandbox and all that
failed of a start they had begun, exactly if as many were counted twice as were not counted; these are
the only deviations, and there are none where every block has a sandbox of its own. -/
theorem acquisitions_counted_iff {config : Config} {seed : BitVec 128} {pool : Pool} {now : Instant}
    {h : History} {m : Machine} (hp : Pool.create config seed = .ok pool)
    (hr : (ofPool pool now).Reaches h m) (hidle : ∀ y ∈ m.posts, y.2.acquisition? = none) :
    (m.pool.stats.acquired = h.account.served + h.account.broken ↔ h.account.missed = h.account.twice) ∧
      m.pool.stats.acquired + h.account.missed
        = h.account.served + h.account.broken + h.account.twice ∧
      (config.parallelism = .multi → h.account.missed = 0 ∧ h.account.twice = 0) := by
  have hright := hr.right hp
  have hnone : h.account.starting m.posts = 0 := by
    refine List.countP_eq_zero.2 fun y hy => ?_
    rw [hidle y hy]
    exact Bool.false_ne_true
  unfold Account.Right at hright
  rw [hnone] at hright
  refine ⟨⟨fun heq => ?_, fun heq => ?_⟩, by omega, fun hmulti => ?_⟩
  · omega
  · omega
  · obtain ⟨-, rfl⟩ := create_eq_ok_iff.1 hp
    exact hr.joins_none hmulti

/-- The shared sandbox has been started ahead of time, and the first block joins it. The acquisition
got its sandbox without a start, and no counter has it. -/
theorem acquisition_uncounted :
    let config : Config := { image := "img", parallelism := .single }
    ∃ pool h m, Pool.create config 0 = .ok pool ∧ (ofPool pool 0).Reaches h m ∧
      (∀ y ∈ m.posts, y.2.acquisition? = none) ∧ m.pool.stats.acquired = 0 ∧
      h.account.served = 1 ∧ h.account.broken = 0 ∧ h.account.missed = 1 ∧
      m.pool.stats.acquired ≠ h.account.served + h.account.broken := by
  intro config
  let moves : List Move := [.order (.prewarm 1), .step 0 0, .step 0 0, .step 0 1, .step 0 1,
    .reply 0 1 (.created (.ok "c1")), .step 0 1, .step 0 1, .reply 0 1 (.acted (.ok ())), .step 0 1,
    .step 0 0, .step 0 0,
    .order (.acquire "a"), .step 1 0, .step 1 0, .step 1 0]
  have hp : Pool.create config 0 = .ok (.ofConfig config 0) :=
    create_eq_ok_iff.2 ⟨by decide +kernel, rfl⟩
  have hrun : ((ofPool (.ofConfig config 0) 0).trace moves).any (fun x =>
      x.2.posts.all (fun y => y.2.acquisition?.isNone) ∧ x.2.pool.stats.acquired = 0 ∧
        x.1.account.served = 1 ∧ x.1.account.broken = 0 ∧ x.1.account.twice = 0) = true := by
    decide +kernel
  obtain ⟨x, ht, hx⟩ := (Option.any_eq_true _ _).1 hrun
  obtain ⟨hall, hzero, hserved, hbroken, htwice⟩ := of_decide_eq_true hx
  have hr := reaches_of_trace ht
  have hidle : ∀ y ∈ x.2.posts, y.2.acquisition? = none := fun y hy =>
    Option.isNone_iff_eq_none.1 (List.all_eq_true.1 hall y hy)
  obtain ⟨hiff, heq, -⟩ := acquisitions_counted_iff hp hr hidle
  have hmissed : x.1.account.missed = 1 := by omega
  refine ⟨_, x.1, x.2, hp, hr, hidle, hzero, hserved, hbroken, hmissed, fun hcount => ?_⟩
  rw [hiff.1 hcount, htwice] at hmissed
  cases hmissed

end Machine

end SandboxPool
