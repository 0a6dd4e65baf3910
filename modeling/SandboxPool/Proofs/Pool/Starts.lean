import SandboxPool.Proofs.Pool.Acts

/-!
# Spawns that nobody else disturbs

A spawn for no block puts a record on file when its container is there, and that record ends up idle,
or it is terminated when the sandbox does not start. `Spawn.Goes` lists all that one turn of such a
spawn does to its record, given that the pool has it as the spawn left it (`Spawn.goes`).

* `Spawn.Leaves` says what is on file behind a spawn, by what the spawn has come to.
* `Spawn.fault?` is the failure that a spawn has met, which is the one that the daemon told of
  (`Spawn.Goes.fault`).
* A spawn takes at most 14 turns, and each of them brings it nearer to its end (`Spawn.Goes.due`).
-/

namespace SandboxPool

variable {config : Config} {c : Context} {p q : Pool} {out : Bool} {sig : Option Signal}
  {r r' : Record} {id : String}

/-- The failure of a start that a signal tells of. Whether a container can be stopped and removed does
not matter. -/
def Signal.fault? : Signal → Option PoolError
  | .got (.daemon (.create _)) (.created (.error cause)) => some (.daemon .create cause)
  | .got (.daemon (.act .start _)) (.acted (.error cause)) => some (.daemon .start cause)
  | .got (.daemon (.health ..)) (.acted (.error cause)) => some (.daemon .health cause)
  | _ => none

/-- A container is asked for. -/
def Signal.creates : Signal → Bool
  | .sent (.daemon (.create _)) => true
  | _ => false

namespace Pool

/-- The same records and claims. -/
structure Same (p q : Pool) : Prop where
  records : q.records = p.records
  claims : q.claims = p.claims

theorem Same.claim? (h : p.Same q) (id : String) : q.claim? id = p.claim? id := by
  unfold Pool.claim?
  rw [h.claims]

/-- A record that is not among the old ones is replaced among the new ones. -/
theorem Distinct.put_behind (hd : p.Distinct) {old new others : List Record}
    (hr : p.records = old ++ new) (hn : new.Perm (r :: others)) (hid : r'.id = r.id) :
    ∃ new', (p.put r').records = old ++ new' ∧ new'.Perm (r' :: others) := by
  have hnodup : (old.map (·.id) ++ (r :: others).map (·.id)).Nodup := by
    have hall : (p.records.map (·.id)).Nodup := hd
    rw [hr, List.map_append] at hall
    exact ((hn.map (·.id)).append_left _).nodup_iff.1 hall
  obtain ⟨-, hbehind, hcross⟩ := List.nodup_append.1 hnodup
  have hstay : ∀ xs : List Record, (∀ x ∈ xs, x.id ≠ r.id) →
      (xs.map fun x => if x.id == r'.id then r' else x) = xs := by
    intro xs hxs
    rw [List.map_congr_left (g := fun x => x) (fun x hx => by simp [hid, hxs x hx]), List.map_id']
  have hold := hstay old fun x hx =>
    hcross x.id (List.mem_map_of_mem hx) r.id (List.mem_map_of_mem (List.mem_cons_self ..))
  have hothers := hstay others fun x hx he =>
    (List.nodup_cons.1 hbehind).1 (List.mem_map.2 ⟨x, hx, he⟩)
  refine ⟨new.map fun x => if x.id == r'.id then r' else x, ?_, ?_⟩
  · simp only [Pool.put, hr, List.map_append, hold]
  · refine (hn.map _).trans ?_
    rw [List.map_cons, hothers, if_pos (by simp [hid])]

end Pool

namespace Spawn

/-! ## What is on file -/

/-- What is on file for a spawn at a point: nothing before it registers the sandbox, then a new record,
which is busy while the sandbox is terminated. -/
def Point.Filed (file : Option Record) : Point → Prop
  | .allocate | .create .. | .giveBack .. | .register .. => file = none
  | .start id _ | .probe id _ | .publish id => ∃ port now, file = some (.new id port now)
  | .discard id error t =>
    (∃ operation cause, (operation = .start ∨ operation = .health) ∧
      error = .daemon operation cause) ∧
    match t with
    | .claim => ∃ port now, file = some (.new id port now)
    | .expire _ => False
    | _ => ∃ port now, file = some { Record.new id port now with busy := true }

/-- What is on file behind a spawn for no block: an idle sandbox that nobody uses, nothing if there was
no container, or else a terminated sandbox. -/
inductive Leaves : Result → Option Record → Prop where
  | idle {r : Record} (hs : r.state = .idle) (hblock : r.block = none) (hbinders : r.binders = 0)
      (hbusy : r.busy = false) : Leaves (.ok r.snapshot) (some r)
  | nothing (cause : DaemonError) : Leaves (.error (.daemon .create cause)) none
  | terminated {r : Record} {operation : Operation} (cause : DaemonError)
      (ho : operation = .start ∨ operation = .health) (hs : r.state = .terminated) :
      Leaves (.error (.daemon operation cause)) (some r)

/-- A spawn that has put its question at a point waits there for the reply. -/
def Point.asks : Point → Bool
  | .create .. | .start .. | .probe .. | .discard _ _ (.stop _) | .discard _ _ (.remove _) => true
  | _ => false

theorem Point.ask?_isSome (config : Config) (job : Job) (point : Point) :
    (demand config job point).ask?.isSome = point.asks := by
  cases point with
  | discard id error t => cases t <;> rfl
  | _ => rfl

/-- What is on file for a spawn, wherever it is. -/
def Filed (file : Option Record) : Strand Point Result → Prop
  | .ready point => point.Filed file
  | .waiting point => point.asks = true ∧ point.Filed file
  | .done result => Leaves result file
  | .panicked _ => False

/-- The failure that a spawn has met before a point. -/
def Point.fault? : Point → Option PoolError
  | .giveBack _ cause => some (.daemon .create cause)
  | .discard _ error _ => some error
  | _ => none

/-- The failure that a spawn has met. -/
def fault? : Strand Point Result → Option PoolError
  | .ready point | .waiting point => point.fault?
  | .done (.error error) => some error
  | _ => none

/-- The sandbox that a spawn has claimed to terminate it. -/
def Point.ends? : Point → Option String
  | .discard id _ (.stop _) | .discard id _ (.remove _) | .discard id _ (.settle _) => some id
  | _ => none

/-- The sandbox that a spawn has claimed to terminate it, wherever the spawn is. -/
def ends? : Strand Point Result → Option String
  | .ready point | .waiting point => point.ends?
  | _ => none

/-- A spawn has asked for its container. -/
def asked : Strand Point Result → Bool
  | .ready .allocate | .ready (.create ..) => false
  | _ => true

/-- How many turns a spawn that is ready at a point takes at most. -/
def Point.due : Point → Nat
  | .allocate => 14
  | .create .. => 13
  | .register .. => 11
  | .start .. => 10
  | .probe .. => 8
  | .discard _ _ .claim => 6
  | .discard _ _ (.stop _) => 5
  | .discard _ _ (.remove _) => 3
  | .discard .. | .publish _ | .giveBack .. => 1

/-- How many turns a spawn takes at most from now on. -/
def due : Strand Point Result → Nat
  | .ready point => point.due
  | .waiting point => point.due - 1
  | _ => 0

/-! ## One turn -/

/-- One turn of a spawn for no block, with what is on file for it before and behind. -/
inductive Goes (config : Config) (job : Job) (p : Pool) : Strand Point Result → Option Record →
    Option Signal → Pool → Strand Point Result → Option Record → Prop where
  | ask {point : Point} {file : Option Record} {a : Ask} (ha : (demand config job point).ask? = some a) :
      Goes config job p (.ready point) file (some (.sent a)) p (.waiting point) file
  | allocate {q : Pool} {spec : ContainerSpec} {port : UInt16} (hq : p.Same q) :
      Goes config job p (.ready .allocate) none none q (.ready (.create spec port)) none
  | created (spec : ContainerSpec) (port : UInt16) (id : String) :
      Goes config job p (.waiting (.create spec port)) none
        (some (.got (.daemon (.create spec)) (.created (.ok id)))) p (.ready (.register id port)) none
  | refused (spec : ContainerSpec) (port : UInt16) (cause : DaemonError) :
      Goes config job p (.waiting (.create spec port)) none
        (some (.got (.daemon (.create spec)) (.created (.error cause)))) p
        (.ready (.giveBack port cause)) none
  | giveBack {q : Pool} (port : UInt16) (cause : DaemonError) (hq : p.Same q) :
      Goes config job p (.ready (.giveBack port cause)) none none q
        (.done (.error (.daemon .create cause))) none
  | register {q : Pool} (id : String) (port : UInt16) (now : Instant)
      (hr : q.records = p.records ++ [.new id port now]) (hc : q.claims = p.claims) :
      Goes config job p (.ready (.register id port)) none none q (.ready (.start id port))
        (some (.new id port now))
  | started {id : String} {port : UInt16} {next : Point} (file : Option Record)
      (hn : next = .probe id port ∨ next = .publish id) :
      Goes config job p (.waiting (.start id port)) file
        (some (.got (.daemon (.act .start id)) (.acted (.ok ())))) p (.ready next) file
  | halted (id : String) (port : UInt16) (file : Option Record) (cause : DaemonError) :
      Goes config job p (.waiting (.start id port)) file
        (some (.got (.daemon (.act .start id)) (.acted (.error cause)))) p
        (.ready (.discard id (.daemon .start cause) .claim)) file
  | healthy (id : String) (port : UInt16) (file : Option Record) (interval timeout : Duration) :
      Goes config job p (.waiting (.probe id port)) file
        (some (.got (.daemon (.health port interval timeout)) (.acted (.ok ())))) p
        (.ready (.publish id)) file
  | ill (id : String) (port : UInt16) (file : Option Record) (interval timeout : Duration)
      (cause : DaemonError) :
      Goes config job p (.waiting (.probe id port)) file
        (some (.got (.daemon (.health port interval timeout)) (.acted (.error cause)))) p
        (.ready (.discard id (.daemon .health cause) .claim)) file
  | publish {q : Pool} {r : Record} (hr : q.records = (p.put { r with state := .idle }).records)
      (hc : q.claims = p.claims) (hnew : ∃ port now, r = .new r.id port now) :
      Goes config job p (.ready (.publish r.id)) (some r) none q
        (.done (.ok { r with state := .idle : Record }.snapshot)) (some { r with state := .idle })
  | claim {q : Pool} {r : Record} (error : PoolError)
      (hr : q.records = (p.put { r with busy := true }).records)
      (hc : ∀ id, q.claim? id = if id = r.id then some .terminating else p.claim? id)
      (hnew : ∃ port now, r = .new r.id port now) :
      Goes config job p (.ready (.discard r.id error .claim)) (some r) none q
        (.ready (.discard r.id error (.stop r.port))) (some { r with busy := true })
  | stopped (id : String) (error : PoolError) (port : UInt16) (file : Option Record)
      (answer : Except DaemonError Unit) :
      Goes config job p (.waiting (.discard id error (.stop port))) file
        (some (.got (.daemon (.act .stop id)) (.acted answer))) p
        (.ready (.discard id error (.remove port))) file
  | removed (id : String) (error : PoolError) (port : UInt16) (file : Option Record)
      (answer : Except DaemonError Unit) :
      Goes config job p (.waiting (.discard id error (.remove port))) file
        (some (.got (.daemon (.act (.remove true) id)) (.acted answer))) p
        (.ready (.discard id error (.settle port))) file
  | settle {q : Pool} {r r' : Record} (error : PoolError) (port : UInt16)
      (hr : q.records = (p.put r').records) (hid : r'.id = r.id) (hs : r'.state = .terminated)
      (hc : ∀ id, q.claim? id = if id = r.id then none else p.claim? id) :
      Goes config job p (.ready (.discard r.id error (.settle port))) (some r) none q
        (.done (.error error)) (some r')

section Turns

variable {job : Job} {point : Point} {s : Scope (Option (Next Point Result))} {file : Option Record}

/-- A spawn that discards its sandbox takes one turn of the termination. -/
theorem discard_goes {error : PoolError} {t : Termination.Point}
    (h : (demand config job (.discard id error t)).Turn c p out sig s)
    (hf : (Point.discard id error t).Filed file) (hon : ∀ r, file = some r → r ∈ p.records)
    (hd : p.Distinct) (hclaim : t = .claim → p.claim? id = none) :
    ∃ file', Goes config job p (Strand.standing (.discard id error t) out) file sig s.pool
      (Strand.land (.discard id error t) s.result) file' := by
  obtain ⟨-, hf⟩ := hf
  obtain ⟨s₀, h₀, rfl⟩ := Demand.turn_map h
  have hfind : ∀ {r}, file = some r → p.find? r.id = some r := fun hfile =>
    hd.find?_of_mem (hon _ hfile)
  cases t with
  | claim =>
    obtain ⟨port, now, rfl⟩ := hf
    obtain ⟨rfl, rfl, rfl⟩ := Demand.turn_scope h₀
    have hfound := hfind rfl
    have hclaimed : Termination.claim id p = ⟨(p.put { Record.new id port now with busy := true }).setClaim
        id .terminating, [], .goto (.stop port)⟩ := by
      simp only [Termination.claim, show p.find? id = _ from hfound, hclaim rfl, Record.calm]
      rfl
    refine ⟨some { Record.new id port now with busy := true }, ?_⟩
    simp only [Scope.map, hclaimed]
    exact .claim (r := .new id port now) error rfl (fun id' => Pool.claim?_setClaim _ _ _ _)
      ⟨port, now, rfl⟩
  | expire generation => cases hf
  | stop port =>
    refine ⟨file, ?_⟩
    rcases Demand.turn_act h₀ with ⟨rfl, rfl, rfl⟩ | ⟨answer, rfl, rfl, rfl⟩
    · exact .ask rfl
    · exact .stopped id error port file answer
  | remove port =>
    refine ⟨file, ?_⟩
    rcases Demand.turn_act h₀ with ⟨rfl, rfl, rfl⟩ | ⟨answer, rfl, rfl, rfl⟩
    · exact .ask rfl
    · exact .removed id error port file answer
  | settle port =>
    obtain ⟨port', now, rfl⟩ := hf
    obtain ⟨rfl, rfl, rfl⟩ := Demand.turn_scope h₀
    have hfound : ({ p with ports := p.ports.release port }.dropClaim id).find? id
        = some { Record.new id port' now with busy := true } := hfind rfl
    refine ⟨some { Record.new id port' now with state := .terminated }, ?_⟩
    have hsettled : Termination.settle id port p = ⟨(({ p with ports := p.ports.release port }.dropClaim
        id).put { Record.new id port' now with state := .terminated }).count
          fun s => { s with terminated := s.terminated + 1 },
        [.emit (.transition id .starting .terminated none)], .done (.ok ())⟩ := by
      simp only [Termination.settle, hfound]
      rfl
    simp only [Scope.map, hsettled]
    exact .settle (r := { Record.new id port' now with busy := true }) error port rfl rfl rfl
      fun id' => Pool.claim?_dropClaim { p with ports := p.ports.release port } id id'

/-- **All that one turn of a spawn for no block does**, if the pool has its record as the spawn left it,
a port to give away and no claim on the sandbox. -/
theorem goes (hjob : job.block = none) (h : (demand config job point).Turn c p out sig s)
    (hf : point.Filed file) (hon : ∀ r, file = some r → r ∈ p.records) (hd : p.Distinct)
    (hports : point = .allocate → p.ports.allocate?.isSome = true)
    (hfresh : ∀ id port, point = .register id port → ∀ r ∈ p.records, r.id ≠ id)
    (hclaim : ∀ id error, point = .discard id error .claim → p.claim? id = none) :
    ∃ file', Goes config job p (Strand.standing point out) file sig s.pool
      (Strand.land point s.result) file' := by
  cases point with
  | allocate =>
    obtain rfl := hf
    obtain ⟨rfl, rfl, rfl⟩ := Demand.turn_scope h
    obtain ⟨⟨port, ports⟩, hport⟩ := Option.isSome_iff_exists.1 (hports rfl)
    refine ⟨none, ?_⟩
    simp only [Scope.map, allocate, hport]
    exact .allocate ⟨rfl, rfl⟩
  | create spec port =>
    obtain rfl := hf
    refine ⟨none, ?_⟩
    rcases Demand.turn_create h with ⟨rfl, rfl, rfl⟩ | ⟨answer, rfl, rfl, rfl⟩
    · exact .ask rfl
    · cases answer with
      | error cause => exact .refused spec port cause
      | ok id => exact .created spec port id
  | giveBack port cause =>
    obtain rfl := hf
    obtain ⟨rfl, rfl, rfl⟩ := Demand.turn_scope h
    exact ⟨none, .giveBack port cause ⟨rfl, rfl⟩⟩
  | register id port =>
    obtain rfl := hf
    obtain ⟨rfl, rfl, rfl⟩ := Demand.turn_scope h
    exact ⟨_, .register id port c.now (Pool.insert_records (hfresh id port rfl)) rfl⟩
  | start id port =>
    refine ⟨file, ?_⟩
    rcases Demand.turn_act h with ⟨rfl, rfl, rfl⟩ | ⟨answer, rfl, rfl, rfl⟩
    · exact .ask rfl
    · cases answer with
      | error cause => exact .halted id port file cause
      | ok u =>
        cases hkind : job.kind with
        | service => exact .started file (.inl rfl)
        | shared => exact .started file (.inr rfl)
  | probe id port =>
    refine ⟨file, ?_⟩
    rcases Demand.turn_health h with ⟨rfl, rfl, rfl⟩ | ⟨answer, rfl, rfl, rfl⟩
    · exact .ask rfl
    · cases answer with
      | error cause => exact .ill id port file _ _ cause
      | ok u => exact .healthy id port file _ _
  | discard id error t => exact discard_goes h hf hon hd fun ht => hclaim id error (by rw [ht])
  | publish id =>
    obtain ⟨port, now, rfl⟩ := hf
    obtain ⟨rfl, rfl, rfl⟩ := Demand.turn_scope h
    have hfound : p.find? id = some (.new id port now) := hd.find?_of_mem (hon _ rfl)
    have hidle : (Record.new id port now).move .idle = .ok { Record.new id port now with state := .idle } :=
      Record.move_of_admits rfl
    refine ⟨some { Record.new id port now with state := .idle }, ?_⟩
    simp only [Scope.map, publish, hfound, hidle, hjob]
    exact .publish (r := .new id port now) rfl rfl ⟨port, now, rfl⟩

end Turns

namespace Goes

variable {job : Job} {st st' : Strand Point Result} {file file' : Option Record}
  (h : Goes config job p st file sig q st' file')
include h

/-- What is on file for a spawn fits where it is. -/
theorem filed (hf : Filed file st) : Filed file' st' := by
  cases h with
  | @ask point _ a ha =>
    refine ⟨?_, hf⟩
    rw [← point.ask?_isSome config job, ha]
    rfl
  | allocate => rfl
  | created => rfl
  | refused => rfl
  | giveBack port cause => exact .nothing cause
  | register id port now => exact ⟨port, now, rfl⟩
  | started _ hn =>
    rcases hn with rfl | rfl
    · exact hf.2
    · exact hf.2
  | halted id port _ cause => exact ⟨⟨.start, cause, .inl rfl, rfl⟩, hf.2⟩
  | healthy => exact hf.2
  | ill id port _ _ _ cause => exact ⟨⟨.health, cause, .inr rfl, rfl⟩, hf.2⟩
  | publish _ _ hnew =>
    obtain ⟨port, now, hr⟩ := hnew
    exact .idle rfl (by rw [hr]; rfl) (by rw [hr]; rfl) (by rw [hr]; rfl)
  | claim error _ _ hnew =>
    obtain ⟨port, now, hr⟩ := hnew
    exact ⟨hf.1, port, now, congrArg (fun r : Record => some { r with busy := true }) hr⟩
  | stopped => exact hf.2
  | removed => exact hf.2
  | settle error port _ _ hs =>
    obtain ⟨⟨operation, cause, ho, rfl⟩, -⟩ := hf
    exact .terminated cause ho hs

/-- A spawn has met a failure when the daemon has told of it. -/
theorem fault : fault? st' = (fault? st).or (sig.bind (·.fault?)) := by
  cases h with
  | @ask point _ a ha =>
    show point.fault? = point.fault?.or none
    rw [Option.or_none]
  | started _ hn =>
    rcases hn with rfl | rfl
    · rfl
    · rfl
  | _ => rfl

/-- A spawn asks for one container. -/
theorem asks : (asked st').toNat = (asked st).toNat + (sig.map (·.creates)).elim 0 (·.toNat) := by
  cases h with
  | @ask point _ a ha =>
    cases point with
    | discard id error t => cases t <;> cases ha <;> rfl
    | _ => cases ha <;> rfl
  | started _ hn =>
    rcases hn with rfl | rfl
    · rfl
    · rfl
  | _ => rfl

/-- Every turn brings a spawn nearer to its end. -/
theorem due : Spawn.due st' < Spawn.due st := by
  cases h with
  | @ask point _ a ha =>
    show point.due - 1 < point.due
    cases point with
    | discard id error t => cases t <;> cases ha <;> exact Nat.lt_succ_self _
    | _ => cases ha <;> exact Nat.lt_succ_self _
  | started _ hn =>
    rcases hn with rfl | rfl
    · exact Nat.lt_succ_self 8
    · exact Nat.lt_of_sub_eq_succ rfl
  | _ => exact Nat.lt_of_sub_eq_succ rfl

/-- The record of a spawn is the only one that it changes. -/
theorem records (hd : p.Distinct) {old new others : List Record} (hr : p.records = old ++ new)
    (hn : new.Perm (file.toList ++ others)) :
    ∃ new', q.records = old ++ new' ∧ new'.Perm (file'.toList ++ others) := by
  have hput : ∀ {r r' : Record}, file = some r → q.records = (p.put r').records → r'.id = r.id →
      ∃ new', q.records = old ++ new' ∧ new'.Perm (r' :: others) := by
    rintro r r' rfl hq hid
    rw [hq]
    exact hd.put_behind hr hn hid
  cases h with
  | allocate hq => exact ⟨new, hq.records.trans hr, hn⟩
  | giveBack port cause hq => exact ⟨new, hq.records.trans hr, hn⟩
  | register id port now hq =>
    refine ⟨new ++ [.new id port now], by rw [hq, hr, List.append_assoc], ?_⟩
    exact (List.perm_append_singleton _ _).trans (hn.cons _)
  | publish hq => exact hput rfl hq rfl
  | claim error hq => exact hput rfl hq rfl
  | settle error port hq hid => exact hput rfl hq hid
  | _ => exact ⟨new, hr, hn⟩

/-- A spawn claims its own sandbox, and gives up that claim. -/
theorem claims {k : Claim} (hk : q.claim? id = some k) : ends? st' = some id ∨
    p.claim? id = some k ∧ ends? st ≠ some id := by
  have hsame : ∀ {q : Pool}, q.claims = p.claims → q.claim? id = some k → p.claim? id = some k := by
    intro q hq hk
    unfold Pool.claim? at hk ⊢
    rwa [hq] at hk
  cases h with
  | @ask point =>
    by_cases he : point.ends? = some id
    · exact .inl he
    · exact .inr ⟨hk, he⟩
  | allocate hq => exact .inr ⟨hsame hq.claims hk, by simp [ends?, Point.ends?]⟩
  | giveBack port cause hq => exact .inr ⟨hsame hq.claims hk, by simp [ends?, Point.ends?]⟩
  | register id' port now _ hc => exact .inr ⟨hsame hc hk, by simp [ends?, Point.ends?]⟩
  | publish _ hc => exact .inr ⟨hsame hc hk, by simp [ends?, Point.ends?]⟩
  | @claim _ r error _ hc =>
    rw [hc] at hk
    split at hk
    · next he => exact .inl (by rw [he]; rfl)
    · exact .inr ⟨hk, by simp [ends?, Point.ends?]⟩
  | @settle _ r _ error port _ _ _ hc =>
    rw [hc] at hk
    split at hk
    · cases hk
    · next hne =>
      refine .inr ⟨hk, fun he => hne ?_⟩
      exact (Option.some.inj he).symm
  | stopped id' =>
    by_cases he : some id' = some id
    · exact .inl he
    · exact .inr ⟨hk, he⟩
  | removed id' =>
    by_cases he : some id' = some id
    · exact .inl he
    · exact .inr ⟨hk, he⟩
  | _ => exact .inr ⟨hk, by simp [ends?, Point.ends?]⟩

end Goes

end Spawn

end SandboxPool
