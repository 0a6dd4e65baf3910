import SandboxPool.Proofs.Execution.Users
import SandboxPool.Proofs.HandedOut
import SandboxPool.Proofs.Machine.Outstanding
import SandboxPool.Proofs.Machine.Probes
import SandboxPool.Proofs.Machine.Stages

/-!
# The calls for a sandbox

Where every block has a sandbox of its own, the calls that start, probe, pause and unpause a sandbox come
in the order of its course, until its end begins. Three processes make them, which only meet through the
record of the sandbox and its claim: a spawn, an acquisition that wakes it, and the release that pauses it.

* `Served` is the invariant: whoever tends the sandbox stands in the phase that its upkeep has come to,
  and a sandbox that nobody tends rests between two calls.
* `Served.next`: every move keeps it, unless the sandbox is doomed.
* `Machine.call_protocol` is the main result.
-/

namespace SandboxPool

variable {config : Config} {c : Context} {p : Pool} {out : Bool} {sig : Option Signal}
  {id block : String}

/-! ## Tenders of posts -/

/-- A post that has got its sandbox tends none. -/
theorem Post.tender?_of_obtained? {x : Post} {snap : Snapshot} (h : x.obtained? = some snap) :
    x.tender? config = none := by
  have hrun : ∀ {name : String} {b : BlockRun.Point}, b.obtained? = some snap →
      b.tender? name = none := by
    intro name b hb
    cases b <;> cases hb
    rfl
  cases x with
  | acquire name s =>
    cases s with
    | done r => rfl
    | _ => cases h
  | execute plan s =>
    obtain ⟨point, hp, h⟩ := Option.bind_eq_some_iff.1 h
    refine (congrArg (Option.bind · _) hp).trans ?_
    cases point with
    | solo progress name b => exact hrun h
    | _ => cases h
  | duty s =>
    obtain ⟨d, hd, h⟩ := Option.bind_eq_some_iff.1 h
    refine (congrArg (Option.bind · _) hd).trans ?_
    cases d with
    | run name b => exact hrun h
    | terminate id t => cases h
  | _ => cases h

/-! ## What an acquisition comes to -/

/-- A sandbox that somebody gets does not run yet, unless it is shared. -/
theorem Act.held_or {q : Pool} {x y : List Hand} (h : Act p x sig q y) (hy : .holding id block ∈ y) :
    .sharing ∈ x ∨ ∃ r ∈ p.records, r.id = id ∧ r.state ≠ .running := by
  have hidle : ∀ {r : Record}, r.state.admits .idle = true → r.state ≠ .running := by
    intro r ha hs
    rw [hs] at ha
    cases ha
  cases h with
  | enter l hl => exact (hl _ hy).elim
  | reserve n => cases List.eq_of_mem_replicate hy
  | deliver name hr ha =>
    cases List.mem_singleton.1 hy
    exact .inr ⟨_, hr, rfl, hidle ha⟩
  | take name hr hc hs =>
    cases List.mem_singleton.1 hy
    exact .inr ⟨_, hr, rfl, by rw [hs]; exact State.noConfusion⟩
  | rebind name hr hc ha =>
    cases List.mem_singleton.1 hy
    exact .inr ⟨_, hr, rfl, hidle ha⟩
  | join => exact .inl (List.mem_singleton_self _)
  | _ => simp at hy

/-- Where every block has a sandbox of its own, an acquisition has no part in a shared one. -/
theorem Acquire.sharing_notMem {a : Point} (ha : a.Fits .multi) : .sharing ∉ hand out a := by
  have hending : ∀ {before : List Hand} {id : String} {t : Termination.Point}, .sharing ∉ before →
      .sharing ∉ Termination.hand before id t := by
    intro before id t hb
    cases t <;> simp [Termination.hand, hb]
  cases a with
  | failed error => cases error <;> simp [hand]
  | retire id error t => exact hending (by simp)
  | cold s =>
    cases s with
    | discard id error t => exact hending (by simp)
    | _ => simp [hand, Spawn.hand]
  | gate | find | reserve | join | leave | shared => cases ha
  | _ => simp [hand]

/-- Where every block has a sandbox of its own, an acquisition comes to a sandbox that does not run
yet. -/
theorem Acquire.not_running_of_ok {a : Point} {s : Scope (Option (Next Point Result))}
    {snap : Snapshot} (hp : p.config = config) (ha : a.Fits .multi)
    (h : (demand config block a).Turn c p out sig s)
    (hs : s.result = some (.done (.ok snap))) :
    ∃ r ∈ p.records, r.id = snap.id ∧ r.state ≠ .running := by
  have hmoves := Acquire.sound config block hp h
  rw [hs] at hmoves
  obtain ⟨x, y, rest, q, hb, hafter, hact, -⟩ := hmoves
  rcases List.mem_append.1 (hafter.mem_iff.1 (List.mem_singleton_self _)) with hy | hrest
  · refine (hact.held_or hy).resolve_left fun hx => ?_
    exact sharing_notMem ha (hb.mem_iff.2 (List.mem_append_left _ hx))
  · have huses := Acquire.hand_uses out a _ (hb.mem_iff.2 (List.mem_append_right _ hrest))
    cases huses

/-! ## The invariant -/

/-- The upkeep of a sandbox has come to where its tender stands, or to where it rests. -/
structure Served (h : History) (m : Machine) (id : String) : Prop where
  tended : ∀ k t, m.tender? k = some t → t.tends? = some id → ∃ r ∈ m.pool.records, r.id = id ∧
    ∃ phase, t.Stands id r.port (m.awaits k) phase ∧ h.upkeep id = phase.log r.port
  rests : (∀ k t, m.tender? k = some t → t.tends? ≠ some id) → ∀ r ∈ m.pool.records, r.id = id →
    ∃ n, r.state.Rests n ∧ h.upkeep id = (Phase.ready n).log r.port
  fresh : (∀ r ∈ m.pool.records, r.id ≠ id) → h.upkeep id = []

namespace Machine

variable {seed : BitVec 128} {pool : Pool} {now : Instant} {h : History} {m m' : Machine}
  {move : Move} {notes : List Note} {owner : Nat → Nat} {k : Key} {t : Tender} {o' : Option Tender}
  {w : Bool}

section Multi

variable (hp : Pool.create config seed = .ok pool) (hmulti : config.parallelism = .multi)
  (hr : (ofPool pool now).Reaches h m) (hf : h.Fresh) (hd : h.Disciplined owner)
include hp hmulti hr hf hd

/-- Nobody else tends a sandbox that somebody has in custody. -/
theorem Reaches.tender_unique {k' : Key} {t' : Tender} {care : Care} (ht : m.tender? k = some t)
    (hc : t.charge? = some (care, id)) (ht' : m.tender? k' = some t') (htends : t'.tends? = some id)
    (halive : ¬ m.pool.Doomed id) : k = k' := by
  obtain ⟨x, hx, hxt⟩ := mem_of_tender? ht
  obtain ⟨x', hx', hxt'⟩ := mem_of_tender? ht'
  rw [hr.config_eq] at hxt hxt'
  obtain ⟨care', hc'⟩ := Tender.charge?_of_tends? htends
  exact hr.custody_unique hp hmulti hf hd hx hxt hc hx' hxt' hc' halive

/-- The state of a sandbox that somebody tends tells what is done with it. -/
theorem Reaches.fits_of_charge {r : Record} {care : Care} (ht : m.tender? k = some t)
    (hc : t.charge? = some (care, r.id)) (hrec : r ∈ m.pool.records) (halive : ¬ m.pool.Doomed r.id) :
    care.Fits m.pool r := by
  obtain ⟨x, hx, hxt⟩ := mem_of_tender? ht
  rw [hr.config_eq] at hxt
  obtain ⟨r₀, hr₀, hid, -, hfits⟩ := hr.custody hp hmulti hf hd hx hxt hc halive
  obtain rfl := (hr.books hp hf).named.distinct.eq_of_id hrec hr₀ hid
  exact hfits

omit hd in
/-- Nobody has a claim on a sandbox that runs, unless it is doomed. -/
theorem Reaches.free_of_running {r : Record} (hrec : r ∈ m.pool.records) (hs : r.state = .running)
    (halive : ¬ m.pool.Doomed r.id) : m.pool.claim? r.id = none := by
  cases hc : m.pool.claim? r.id with
  | none => rfl
  | some claim =>
    cases claim with
    | terminating => exact absurd ⟨r, hrec, rfl, .inr hc⟩ halive
    | waking =>
      have hdormant := (hr.woken hp hmulti hf).dormant (hr.books hp hf).named.distinct hrec hc
      rw [hs] at hdormant
      cases hdormant

omit hmulti hd in
/-- A sandbox keeps its port. -/
theorem Reaches.port_next {r : Record} (hn : m.next move = some (m', notes))
    (hrec : r ∈ m.pool.records) : ∃ r' ∈ m'.pool.records, r'.id = r.id ∧ r'.port = r.port := by
  obtain ⟨x, y, rest, q, hb, -, hact, hq⟩ := next_things hr.ordered_ofPool hn
  obtain ⟨r', hr', hid, hport, -⟩ := ((hr.books hp hf).named.perm hb).successor hact hrec
  exact ⟨r', hq.records ▸ hr', hid, hport⟩

omit hmulti hd in
/-- A sandbox that nobody works on goes on to rest, with its port, or it has just got its record. -/
theorem Reaches.rests_next (hn : m.next move = some (m', notes)) (htends : m.Tends move m' o' w)
    (hno : ∀ t, m.tender? (m.mover move) = some t → t.tends? ≠ some id)
    (hbehind : ∀ t, o' = some t → t.tends? ≠ some id) {r' : Record} (hr' : r' ∈ m'.pool.records)
    (hid : r'.id = id) (hlive : r'.live = true) : ∃ r ∈ m.pool.records, r.id = id ∧ r.port = r'.port ∧
      ∀ n, r.state.Rests n → r'.state.Rests n := by
  have ho := hr.ordered_ofPool
  have hwork : ∀ {l : Leaf}, m.leaf? (m.mover move) = some l →
      ¬ (l.serves? = some id ∨ l.rouses? = some id ∨ l = .release id .park) := by
    intro l hl h
    obtain ⟨t, ht, -, htends⟩ := tends_of_leaf? ho hl h
    exact hno t ht htends
  have hstate : ∃ r ∈ m.pool.records, r.id = id ∧ ∀ n, r.state.Rests n → r'.state.Rests n := by
    rcases next_effects ho hn with ⟨hpool, -⟩ | ⟨l, out, sig, res, hl, hturn, -, hleaf⟩
    · exact ⟨r', hpool ▸ hr', hid, fun _ h => h⟩
    · rcases hleaf with hleaf | ⟨id', g, rfl⟩
      · refine Leaf.rests_of_turn hl hturn (fun he => hwork hleaf (.inr he)) (fun he => ?_) hr' hid hlive
        obtain ⟨t, ht, rfl⟩ := tender?_of_leaf? ho hleaf (by cases l <;> first | rfl | cases he)
        have hgoes := htends.goes
        rw [ht] at hgoes
        cases hgoes with
        | turn ht' =>
          obtain ⟨t', ho', htends'⟩ := ht'.enters he
          exact hbehind t' ho' htends'
      · refine Leaf.rests_of_turn hl hturn ?_ (fun he => by cases he) hr' hid hlive
        rintro (he | he) <;> cases he
  obtain ⟨r, hrec, rfl, hrests⟩ := hstate
  obtain ⟨r₁, hr₁, hid₁, hport⟩ := hr.port_next hp hf hn hrec
  obtain rfl := ((hr.next hn).capped hp).distinct.eq_of_id hr' hr₁ (hid₁.trans hid.symm)
  exact ⟨r, hrec, rfl, hport.symm, hrests⟩

end Multi

end Machine

namespace Served

open Machine

variable {seed : BitVec 128} {pool : Pool} {now : Instant} {h : History} {m m' : Machine}
  {move : Move} {notes : List Note} {owner : Nat → Nat} {t : Tender} {o' : Option Tender} {w : Bool}

/-- Behind a move of whoever tends the sandbox, its upkeep has come to where that one stands. -/
theorem of_mover {phase : Phase} {r : Record} (ho : m.Ordered) (hn : m.next move = some (m', notes))
    (htends : m.Tends move m' o' w) (hbehind : o' = some t)
    (hothers : ∀ k t, m.tender? k = some t → t.tends? = some id → k = m.mover move)
    (hr : r ∈ m'.pool.records) (hid : r.id = id) (hstands : t.Stands id r.port w phase)
    (hlog : (h ++ [(m, move)]).upkeep id = phase.log r.port) : Served (h ++ [(m, move)]) m' id := by
  refine ⟨fun k t₁ ht₁ htends₁ => ?_, fun hnone => ?_, fun hnew => absurd hid (hnew r hr)⟩
  · rcases htends.tender?_next ho hn ht₁ with ⟨hold, -, hk⟩ | ⟨-, hsame, hw⟩ | hfresh
    · exact absurd (hothers k t₁ hold htends₁) hk
    · rw [hbehind] at hsame
      cases hsame
      exact ⟨r, hr, hid, phase, hw ▸ hstands, hlog⟩
    · rw [hfresh.tends?] at htends₁
      cases htends₁
  · exact absurd hstands.tends? (hnone _ t (htends.tender?_mover ho hn hbehind))

section Step

variable (hp : Pool.create config seed = .ok pool) (hmulti : config.parallelism = .multi)
  (hr : (ofPool pool now).Reaches h m) (hf : h.Fresh) (hd : h.Disciplined owner)
  (hn : m.next move = some (m', notes)) (hs : Served h m id) (htends : m.Tends move m' o' w)
  (halive : ¬ m.pool.Doomed id) (halive' : ¬ m'.pool.Doomed id)
include hp hmulti hr hf hd hn hs htends halive

/-- Whoever gets a sandbox into custody takes it over at rest. -/
theorem begins (hno : ∀ t, m.tender? (m.mover move) = some t → t.tends? ≠ some id) {t' : Tender}
    (hbehind : o' = some t') (ht' : t'.tends? = some id) : Served (h ++ [(m, move)]) m' id := by
  have ho := hr.ordered_ofPool
  have hupkeep : (h ++ [(m, move)]).upkeep id = h.upkeep id := upkeep_stays ho hno
  have hgoes := htends.goes
  generalize ht : m.tender? (m.mover move) = o at hgoes
  cases hgoes with
  | starts hfresh =>
    rw [(hfresh t' hbehind).tends?] at ht'
    cases ht'
  | @turn t _ hturn =>
    subst hbehind
    obtain ⟨x, hx, hxt⟩ := mem_of_tender? ht
    have hmodel : m.pool.config.parallelism = .multi := (hr.capped hp).config_eq ▸ hmulti
    have hbegins := hturn.begins (fun job s he => ?_) (fun block a he => ?_) (hno t ht) ht'
    · have hserved : (∀ k t, m.tender? k = some t → t.tends? ≠ some id) → ∀ {r' : Record} {n : Nat},
          r' ∈ m'.pool.records → r'.id = id → t'.Stands id r'.port w (.ready n) →
          h.upkeep id = (Phase.ready n).log r'.port → Served (h ++ [(m, move)]) m' id :=
        fun hnone _ _ hr' hid hstands hlog => of_mover ho hn htends rfl
          (fun k t₁ ht₁ htends₁ => absurd htends₁ (hnone k t₁ ht₁)) hr' hid hstands (hupkeep.trans hlog)
      rcases hbegins with ⟨henters, r', hr', hid, hstands⟩ | ⟨r, hrec, hid, hwhy, hstands⟩
      · -- a container without a record, for which no call was made
        obtain ⟨port, hmade⟩ := made_of_enters (leaf?_of_tender? ho ht) henters
        have hnew : ∀ r ∈ m.pool.records, r.id ≠ id := fun r hrec =>
          (hr.books hp hf).named.ne_of_made hmade hrec
        refine hserved (fun k t₁ ht₁ htends₁ => ?_) hr' hid hstands (hs.fresh hnew)
        obtain ⟨r, hrec, hid, -⟩ := hs.tended k t₁ ht₁ htends₁
        exact hnew r hrec hid
      · subst hid
        -- nobody tends a sandbox that is paused and free, or that its release has yet to look at
        have hnone : ∀ k t, m.tender? k = some t → t.tends? ≠ some r.id := by
          intro k t₁ ht₁ htends₁
          obtain ⟨care, hcare⟩ := Tender.charge?_of_tends? htends₁
          rcases hwhy with ⟨hdormant, hfree⟩ | rfl
          · have hfits := hr.fits_of_charge hp hmulti hf hd ht₁ hcare hrec halive
            cases care with
            | start =>
              rw [Care.Fits, hdormant] at hfits
              cases hfits
            | wake =>
              rw [Care.Fits, hfree] at hfits
              cases hfits.2
            | release =>
              rw [Care.Fits, hdormant] at hfits
              cases hfits
          · obtain rfl := hr.tender_unique hp hmulti hf hd ht rfl ht₁ htends₁ halive
            exact hno t₁ ht₁ htends₁
        obtain ⟨n, hrests, hlog⟩ := hs.rests hnone r hrec rfl
        obtain ⟨r', hr', hid', hport⟩ := hr.port_next hp hf hn hrec
        exact hserved hnone hr' hid' (hport ▸ hstands n hrests) (hport ▸ hlog)
    · subst he
      obtain ⟨-, -, -, rfl⟩ := Post.spawn_of_tender? hxt
      rw [Prewarm.job, hmodel]
    · subst he
      exact (hr.fits_multi hp hmulti hx).acquiring (Post.acquiring?_of_tender? hxt)

include halive'

/-- Whoever has the sandbox in custody takes its upkeep on. -/
theorem advances (ht : m.tender? (m.mover move) = some t) (hid : t.tends? = some id) :
    Served (h ++ [(m, move)]) m' id := by
  have ho := hr.ordered_ofPool
  have hdistinct := (hr.books hp hf).named.distinct
  obtain ⟨r, hrec, rfl, phase, hstands, hlog⟩ := hs.tended _ t ht hid
  obtain ⟨care, hcare⟩ := Tender.charge?_of_tends? hid
  have hfits := hr.fits_of_charge hp hmulti hf hd ht hcare hrec halive
  have hgoes := htends.goes
  rw [ht] at hgoes
  cases hgoes with
  | turn hturn =>
    have hadvances := hturn.advances hdistinct hrec hcare hfits
      (fun hrunning => hr.free_of_running hp hmulti hf hrec hrunning halive) hstands
    have hupkeep : (h ++ [(m, move)]).upkeep r.id
        = phase.log r.port ++ (t.leaf.upkeep? r.id (m.signal? move)).toList := by
      rw [History.upkeep_append, leaf?_of_tender? ho ht, hlog]
      rfl
    have hothers : ∀ k t', m.tender? k = some t' → t'.tends? = some r.id → k = m.mover move :=
      fun k t' ht' hid' => (hr.tender_unique hp hmulti hf hd ht hcare ht' hid' halive).symm
    obtain ⟨r', hr', hid', hport⟩ := hr.port_next hp hf hn hrec
    cases hadvances with
    | stands hstands' hlog' =>
      refine of_mover ho hn htends rfl hothers hr' hid' (hport ▸ hstands') ?_
      rw [hport, hupkeep, hlog']
    | dooms hdoomed => exact absurd hdoomed halive'
    | @rests r₁ n hr₁ hid₁ hrests hphase hentry =>
      obtain rfl := ((hr.next hn).capped hp).distinct.eq_of_id hr₁ hr' (hid'.trans hid₁.symm)
      refine ⟨fun k t' ht' htends' => ?_, fun _ r₂ hr₂ hid₂ => ⟨n, ?_⟩,
        fun hno => absurd hid' (hno _ hr')⟩
      · rcases htends.tender?_next ho hn ht' with ⟨hold, -, hk⟩ | ⟨-, hsome, -⟩ | hfresh
        · exact absurd (hothers k t' hold htends') hk
        · cases hsome
        · rw [hfresh.tends?] at htends'
          cases htends'
      · obtain rfl := ((hr.next hn).capped hp).distinct.eq_of_id hr' hr₂ (hid₂.trans hid'.symm)
        refine ⟨hrests, ?_⟩
        rw [hport, hupkeep, hphase, hentry]
        exact List.append_nil _

omit hmulti hd in
/-- A sandbox that nobody works on in a move is left as it is. -/
theorem stays (hno : ∀ t, m.tender? (m.mover move) = some t → t.tends? ≠ some id)
    (hbehind : ∀ t, o' = some t → t.tends? ≠ some id) : Served (h ++ [(m, move)]) m' id := by
  have ho := hr.ordered_ofPool
  have hupkeep : (h ++ [(m, move)]).upkeep id = h.upkeep id := upkeep_stays ho hno
  refine ⟨fun k t ht hid => ?_, fun hnone r' hr' hid => ?_, fun hnone => ?_⟩
  · rcases htends.tender?_next ho hn ht with ⟨hold, hawaits, -⟩ | ⟨-, ho', -⟩ | hfresh
    · obtain ⟨r, hrec, rfl, phase, hstands, hlog⟩ := hs.tended k t hold hid
      obtain ⟨r', hr', hid', hport⟩ := hr.port_next hp hf hn hrec
      exact ⟨r', hr', hid', phase, by rwa [hport, hawaits], by rwa [hport, hupkeep]⟩
    · exact absurd hid (hbehind t ho')
    · rw [hfresh.tends?] at hid
      cases hid
  · have hlive : r'.live = true := by
      cases hl : r'.live with
      | true => rfl
      | false => exact absurd ⟨r', hr', hid, .inl hl⟩ halive'
    obtain ⟨r, hrec, hid₀, hport, hrests⟩ := hr.rests_next hp hf hn htends hno hbehind hr' hid hlive
    obtain ⟨n, hn', hlog⟩ := hs.rests (fun k t ht hid => by
      refine hnone k t (tender?_stays ho hn ht fun hk => ?_) hid
      exact hno t (hk ▸ ht) hid) r hrec hid₀
    exact ⟨n, hrests n hn', by rw [hupkeep, hlog, hport]⟩
  · rw [hupkeep]
    refine hs.fresh fun r hrec hid => ?_
    obtain ⟨r', hr', hid', -⟩ := hr.port_next hp hf hn hrec
    exact hnone r' hr' (hid'.trans hid)

omit htends in
/-- **Every move takes the upkeep of a sandbox on as it is due**, unless the sandbox is doomed. -/
theorem next : Served (h ++ [(m, move)]) m' id := by
  obtain ⟨o', w, htends⟩ := tends_next hr.ordered_ofPool hn
  by_cases hmover : ∃ t, m.tender? (m.mover move) = some t ∧ t.tends? = some id
  · obtain ⟨t, ht, hid⟩ := hmover
    exact hs.advances hp hmulti hr hf hd hn htends halive halive' ht hid
  · have hno : ∀ t, m.tender? (m.mover move) = some t → t.tends? ≠ some id :=
      fun t ht hid => hmover ⟨t, ht, hid⟩
    by_cases hbehind : ∃ t, o' = some t ∧ t.tends? = some id
    · obtain ⟨t, ho', hid⟩ := hbehind
      exact hs.begins hp hmulti hr hf hd hn htends halive hno ho' hid
    · exact hs.stays hp hr hf hn htends halive halive' hno
        fun t ho' hid => hbehind ⟨t, ho', hid⟩

end Step

end Served

/-! ## Runs -/

namespace Machine

variable {seed : BitVec 128} {pool : Pool} {now : Instant} {h : History} {m m' : Machine}
  {move : Move} {notes : List Note} {owner : Nat → Nat} {k : Key} {a : Acquire.Point} {snap : Snapshot}

/-- Along every run the upkeep of a sandbox is as due, until the sandbox is doomed. -/
theorem Reaches.served (hp : Pool.create config seed = .ok pool)
    (hmulti : config.parallelism = .multi) (hr : (ofPool pool now).Reaches h m) (hf : h.Fresh)
    (hd : h.Disciplined owner) (halive : ¬ m.pool.Doomed id) : Served h m id := by
  induction hr with
  | start =>
    obtain ⟨-, rfl⟩ := create_eq_ok_iff.1 hp
    refine ⟨fun k t ht => ?_, (fun _ r hr => by cases hr), fun _ => rfl⟩
    obtain ⟨x, hx, -⟩ := mem_of_tender? ht
    rw [posts_ofPool] at hx
    cases hx
  | next hr hn ih =>
    have hfresh := History.fresh_of_append hf
    have hbefore := fun hdoomed => halive (hr.doomed_next hp hfresh hn hdoomed)
    exact (ih hfresh hd.of_append hbefore).next hp hmulti hr hfresh hd.of_append hn hbefore halive

/-- The last move of a history leads to the machine behind it. -/
theorem Reaches.last {m₀ : Machine} (hr : m₀.Reaches (h ++ [(m, move)]) m') :
    ∃ notes, m₀.Reaches h m ∧ m.next move = some (m', notes) := by
  obtain ⟨m₂, notes, hr, hn, hlast⟩ := hr.split
  generalize hnil : ([] : History) = h₂ at hlast
  cases hlast with
  | start => exact ⟨notes, hr, hn⟩
  | next => simp at hnil

/-- A sandbox whose end has not begun is not doomed. -/
theorem Reaches.not_doomed (hp : Pool.create config seed = .ok pool)
    (hr : (ofPool pool now).Reaches h m) (hf : h.Fresh)
    (hcalm : ∀ q ∈ h.pools m, q.claim? id ≠ some .terminating) : ¬ m.pool.Doomed id := by
  rintro ⟨r, hrec, rfl, hend | hclaim⟩
  · obtain ⟨q, hq, hclaim⟩ := hr.claimed_of_ended hp hf hrec hend
    exact hcalm q hq hclaim
  · exact hcalm m.pool (List.mem_append_right _ (List.mem_singleton_self _)) hclaim

/-- A sandbox that an acquisition has just come to runs, and nobody tends it. -/
theorem Reaches.untended_of_obtained (hp : Pool.create config seed = .ok pool)
    (hmulti : config.parallelism = .multi) (hr : (ofPool pool now).Reaches h m)
    (hn : m.next move = some (m', notes)) (hf : (h ++ [(m, move)]).Fresh)
    (hd : (h ++ [(m, move)]).Disciplined owner) (ha : m.acquisition? k = some (block, a))
    (hs : m'.obtained? k = some snap) (halive : ¬ m.pool.Doomed snap.id) :
    ∃ r ∈ m'.pool.records, r.snapshot = snap ∧ r.state = .running ∧
      ∀ k' t, m'.tender? k' = some t → t.tends? ≠ some r.id := by
  have ho := hr.ordered_ofPool
  have hfresh := History.fresh_of_append hf
  obtain ⟨r', hhanded, -⟩ := (handed_out_alive_iff hp hr hn ha).1 snap hs
  obtain rfl := hhanded.snapshot
  obtain ⟨hrunning, halive'⟩ := hhanded.alive.2 halive
  refine ⟨r', hhanded.mem, rfl, hrunning, fun k' t ht htends => ?_⟩
  obtain ⟨x, hx, hxa⟩ := mem_of_acquisition? ha
  obtain ⟨y, hy, hys⟩ := mem_of_obtained? hs
  have hk : m.mover move = k := by
    by_contra hk
    rw [post_unique (next_posts ho hn).1 hy (post_next ho hn hx hk),
      Post.obtained?_of_acquisition? hxa] at hys
    cases hys
  subst hk
  obtain ⟨o', w, hmoves⟩ := tends_next ho hn
  rcases hmoves.tender?_next ho hn ht with ⟨hold, -⟩ | ⟨rfl, -⟩ | hstarts
  · -- whoever tended it before was to release it, but it did not run then
    obtain ⟨sig, e, after, hturned, hafter⟩ := turned_of_mover ho hn hx
    obtain ⟨out, sig₀, s, hturn, -, hgot⟩ := hturned.acquires hxa
    have hpath := (hr.fits_multi hp hmulti hx).acquiring (Post.acquiring?_of_acquisition? hxa)
    obtain ⟨r, hrec, hid, hno⟩ :=
      Acquire.not_running_of_ok rfl hpath hturn (hgot _ (hafter y hy) _ hys)
    replace hid : r'.id = r.id := hid.symm
    obtain ⟨care, hcare⟩ := Tender.charge?_of_tends? htends
    have hfits' := (hr.next hn).fits_of_charge hp hmulti hf hd ht hcare hhanded.mem halive'
    have hfits : care.Fits m.pool r := by
      refine hr.fits_of_charge hp hmulti hfresh hd.of_append hold (hid ▸ hcare) hrec ?_
      exact hid ▸ halive
    obtain rfl : care = .release := Care.eq_of_fits hfits' hrunning
    exact hno hfits
  · rw [tender?_eq (next_posts ho hn).1 hy, Post.tender?_of_obtained? hys] at ht
    cases ht
  · rw [hstarts.tends?] at htends
    cases htends

/-- **The calls for a sandbox.** Where every block has a sandbox of its own, in every interleaving of
operations on a new pool and whatever the daemon answers as long as it gives out no identity twice, if
callers give back only what they have acquired, and no acquisition twice:

* As long as nobody has begun to terminate a sandbox, it was started and probed, and then paused, woken and
  probed in turn, or some of that from the beginning; every probe was made on its port, which its container
  was created with, and every call but the first went out right behind the success of the one before it.
  For a container that has no record yet no call was made.
* When an acquisition comes to a sandbox whose termination has not begun, the last that was seen of it is a
  probe that has succeeded.
* Every start, probe, pause and unpause that was seen belongs to the upkeep of a sandbox: of the one that
  the call names, if it names one. -/
theorem call_protocol {config : Config} {seed : BitVec 128} {pool : Pool} {now : Instant}
    {h : History} {m : Machine} {owner : Nat → Nat} (hp : Pool.create config seed = .ok pool)
    (hmulti : config.parallelism = .multi) (hr : (ofPool pool now).Reaches h m) (hf : h.Fresh)
    (hd : h.Disciplined owner) :
    (∀ id, (∀ q ∈ h.pools m, q.claim? id ≠ some .terminating) →
      (∀ r, m.pool.find? id = some r → Upkeep.Obeys r.port (h.upkeep id) ∧
        ∀ x ∈ h.ledger.standing, x.1 = id → x.2.hostPort? = some r.port) ∧
      (m.pool.find? id = none → h.upkeep id = [])) ∧
    (∀ h₁ m₁ move k block a snap, h = h₁ ++ [(m₁, move)] → m₁.acquisition? k = some (block, a) →
      m.obtained? k = some snap → (∀ q ∈ h.pools m, q.claim? snap.id ≠ some .terminating) →
      ∃ before, h.upkeep snap.id
        = before ++ [.asked (.health snap.port), .answered (.health snap.port) true]) ∧
    ∀ x ∈ h, ∀ s, x.1.signal? x.2 = some s → s.upkeep? ≠ none → ∃ l id,
      x.1.leaf? (x.1.mover x.2) = some l ∧ l.serves? = some id ∧ ∀ id', s.names? = some id' → id' = id := by
  have hbooks := hr.books hp hf
  refine ⟨fun id hcalm => ?_, ?_, ?_⟩
  · have hserved := hr.served hp hmulti hf hd (hr.not_doomed hp hf hcalm)
    refine ⟨fun r hfind => ?_, fun hno => hserved.fresh (Pool.find?_eq_none.1 hno)⟩
    obtain ⟨hrec, rfl⟩ := Pool.mem_of_find? hfind
    refine ⟨?_, fun x hx hid => ?_⟩
    · by_cases htended : ∃ k t, m.tender? k = some t ∧ t.tends? = some r.id
      · obtain ⟨k, t, ht, hid⟩ := htended
        obtain ⟨r₁, hr₁, hid₁, phase, -, hlog⟩ := hserved.tended k t ht hid
        obtain rfl := hbooks.named.distinct.eq_of_id hrec hr₁ hid₁
        rw [hlog]
        exact phase.obeys r₁.port
      · obtain ⟨n, -, hlog⟩ :=
          hserved.rests (fun k t ht hid => htended ⟨k, t, ht, hid⟩) r hrec rfl
        rw [hlog]
        exact (Phase.ready n).obeys r.port
    · obtain ⟨port, hport, hmade | ⟨r₁, hr₁, hid₁, -, rfl⟩⟩ := hbooks.stocked.standing x hx
      · exact absurd hid.symm (hbooks.named.ne_of_made hmade hrec)
      · obtain rfl := hbooks.named.distinct.eq_of_id hrec hr₁ (hid₁.trans hid)
        exact hport
  · rintro h₁ m₁ move k block a snap rfl ha hs hcalm
    obtain ⟨notes, hr₁, hn⟩ : ∃ notes, (ofPool pool now).Reaches h₁ m₁ ∧
        m₁.next move = some (m, notes) := hr.last
    have halive : ¬ m₁.pool.Doomed snap.id := by
      refine hr₁.not_doomed hp (History.fresh_of_append hf) fun q hq => hcalm q ?_
      rw [History.pools_append]
      exact List.mem_append_left _ hq
    obtain ⟨r, hrec, rfl, hrunning, hnone⟩ :=
      hr₁.untended_of_obtained hp hmulti hn hf hd ha hs halive
    have hserved := hr.served hp hmulti hf hd (hr.not_doomed hp hf hcalm)
    obtain ⟨n, hrests, hlog⟩ := hserved.rests hnone r hrec rfl
    rw [hrunning] at hrests
    rw [hlog]
    exact Phase.log_round hrests
  · intro x hx s hs hu
    obtain ⟨h₁, h₂, rfl⟩ := List.mem_iff_append.1 hx
    obtain ⟨m₂, notes, hr₁, hn, -⟩ := Reaches.split hr
    exact serves?_of_upkeep hr₁.ordered_ofPool hn hs hu

/-- A sandbox that its first holder gave back is woken for another block. The last that was seen of its
upkeep is the probe behind the wake. -/
theorem call_protocol_woken :
    let config : Config := { image := "img", maxSandboxes := 2 }
    ∃ pool h h₁ m₁ move m snap r, Pool.create config 0 = .ok pool ∧ config.parallelism = .multi ∧
      (ofPool pool 0).Reaches h m ∧ h.Fresh ∧ h.Disciplined (fun _ => 0) ∧
      h = h₁ ++ [(m₁, move)] ∧ m₁.acquisition? (2, 0) = some ("b", .rebind "c1") ∧
      m.obtained? (2, 0) = some snap ∧ (∀ q ∈ h.pools m, q.claim? snap.id ≠ some .terminating) ∧
      m.pool.find? snap.id = some r ∧ Upkeep.Obeys r.port (h.upkeep snap.id) ∧
      h.upkeep snap.id = [Upkeep.start, .health snap.port, .pause, .unpause,
        .health snap.port].flatMap Upkeep.success ∧
      ∃ before, h.upkeep snap.id
        = before ++ [.asked (.health snap.port), .answered (.health snap.port) true] := by
  intro config
  let moves : List Move := [.order (.acquire "a"), .step 0 0, .step 0 0, .step 0 0,
    .reply 0 0 (.created (.ok "c1")), .step 0 0, .step 0 0, .reply 0 0 (.acted (.ok ())), .step 0 0,
    .reply 0 0 (.acted (.ok ())), .step 0 0,
    .order (.release "c1"), .step 1 0, .step 1 0, .reply 1 0 (.acted (.ok ())), .step 1 0,
    .order (.acquire "b"), .step 2 0, .step 2 0, .reply 2 0 (.acted (.ok ())), .step 2 0,
    .reply 2 0 (.acted (.ok ())), .step 2 0]
  have hp : Pool.create config 0 = .ok (.ofConfig config 0) :=
    create_eq_ok_iff.2 ⟨by decide +kernel, rfl⟩
  have hrun : ((ofPool (.ofConfig config 0) 0).trace moves).any (fun x =>
      x.1.Fresh ∧ x.1.Disciplined (fun _ => 0) ∧
        x.1.getLast?.any (·.1.acquisition? (2, 0) = some ("b", .rebind "c1")) = true ∧
        (x.2.obtained? (2, 0)).any (fun s =>
          (∀ q ∈ x.1.pools x.2, q.claim? s.id ≠ some .terminating) ∧
          (x.2.pool.find? s.id).isSome = true ∧
          x.1.upkeep s.id = [Upkeep.start, .health s.port, .pause, .unpause,
            .health s.port].flatMap Upkeep.success) = true) = true := by decide +kernel
  obtain ⟨⟨h, m⟩, ht, hx⟩ := (Option.any_eq_true _ _).1 hrun
  obtain ⟨hf, hd, hlast, hobtained⟩ := of_decide_eq_true hx
  obtain ⟨⟨m₁, move⟩, hmove, ha⟩ := (Option.any_eq_true _ _).1 hlast
  obtain ⟨snap, hs, hsnap⟩ := (Option.any_eq_true _ _).1 hobtained
  obtain ⟨hcalm, hfound, hlog⟩ := of_decide_eq_true hsnap
  obtain ⟨r, hfind⟩ := Option.isSome_iff_exists.1 hfound
  have hh : h = h.dropLast ++ [(m₁, move)] := (List.dropLast_append_getLast? _ hmove).symm
  obtain ⟨hcourse, hround, -⟩ := call_protocol hp rfl (reaches_of_trace ht) hf hd
  exact ⟨_, h, h.dropLast, m₁, move, m, snap, r, hp, rfl, reaches_of_trace ht, hf, hd, hh,
    of_decide_eq_true ha, hs, hcalm, hfind, ((hcourse snap.id hcalm).1 r hfind).1, hlog,
    hround _ m₁ move _ _ _ snap hh (of_decide_eq_true ha) hs hcalm⟩

end Machine

end SandboxPool
