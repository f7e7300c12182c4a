import OnePloy.ComputeServers

/-!
# The life of a reservation

A reservation is reserved, then consumed, released or expired; a consumed one
can only be released, and the other two are final. `RowStep` says what one
transaction does to a row, and every transaction of the scheduler does that and
no more (`step_reservation`).

Two things are kept for ever in the table and not looked at again: the
idempotency key, under which `reserve` answers with the row whatever became of
it, and the workload reference, which the unique key on
`(team_id, workload_reference)` refuses to a second row of the team after the
first is released.
-/

namespace OnePloy

open Conc

/-! ## What one transaction does to a row -/

inductive RowStep (now : Nat) (r : WorkloadReservation) : WorkloadReservation → Prop
  | same : RowStep now r r
  | consumed (workloadReference : String) (hstatus : r.status = .reserved)
      (hactive : r.isActive now = true) : RowStep now r (r.consumed workloadReference now)
  | released (hstatus : r.status = .reserved ∨ r.status = .consumed) :
      RowStep now r (r.released now)
  | expired (hlapsed : r.lapsed now = true) : RowStep now r r.expired

/-- A team has one row under a key, rows are of teams, and only rows that are or
were consumed have a workload reference. -/
structure Recorded (s : ComputeState) : Prop where
  oneKey : ∀ i j r r', s.db.reservations.get? i = some r → s.db.reservations.get? j = some r' →
    r.teamId = r'.teamId → r.idempotencyKey = r'.idempotencyKey → i = j
  ofTeam : ∀ i r, s.db.reservations.get? i = some r → ∃ t, s.db.teams.get? r.teamId = some t
  reference : ∀ i r w, s.db.reservations.get? i = some r → r.workloadReference = some w →
    r.status = .consumed ∨ r.status = .released

section Rows

variable {now : Nat} {r r' : WorkloadReservation}

theorem RowStep.teamId (h : RowStep now r r') : r'.teamId = r.teamId := by
  cases h <;> rfl

theorem RowStep.idempotencyKey (h : RowStep now r r') : r'.idempotencyKey = r.idempotencyKey := by
  cases h <;> rfl

theorem RowStep.reference (h : RowStep now r r')
    (hr : ∀ w, r.workloadReference = some w → r.status = .consumed ∨ r.status = .released)
    (w : String) (hw : r'.workloadReference = some w) :
    r'.status = .consumed ∨ r'.status = .released := by
  cases h with
  | same => exact hr w hw
  | consumed => exact .inl rfl
  | released => exact .inr rfl
  | expired hlapsed =>
      have hreserved : r.status = .reserved := by
        rw [WorkloadReservation.lapsed, Bool.and_eq_true, beq_iff_eq] at hlapsed
        exact hlapsed.1
      rcases hr w hw with h | h
      · rw [hreserved] at h
        cases h
      · rw [hreserved] at h
        cases h

/-- Released and expired are final, and from consumed a row is only released. -/
theorem RowStep.lifecycle (h : RowStep now r r') :
    (r.status = .released ∨ r.status = .expired → r' = r) ∧
      (r.status = .consumed → r' = r ∨ r' = r.released now) := by
  cases h with
  | same => exact ⟨fun _ => rfl, fun _ => .inl rfl⟩
  | consumed w hstatus =>
      rw [hstatus]
      exact ⟨fun h => by cases h <;> contradiction, nofun⟩
  | released hstatus =>
      refine ⟨fun h => ?_, fun _ => .inr rfl⟩
      rcases hstatus with hs | hs
      · rw [hs] at h
        cases h <;> contradiction
      · rw [hs] at h
        cases h <;> contradiction
  | expired hlapsed =>
      rw [WorkloadReservation.lapsed, Bool.and_eq_true, beq_iff_eq] at hlapsed
      rw [hlapsed.1]
      exact ⟨fun h => by cases h <;> contradiction, nofun⟩

end Rows

/-! ## Consuming -/

section Consume

variable {db db' : ComputeDb} {now teamId id : Nat} {workloadReference : String}

theorem lockReservationForTeam_iff {r : WorkloadReservation} :
    db.lockReservationForTeam teamId id = .ok r ↔
      (∃ t, db.teams.get? teamId = some t) ∧ db.reservations.get? id = some r ∧
        r.teamId = teamId := by
  unfold ComputeDb.lockReservationForTeam
  cases db.teams.get? teamId with
  | none => simp
  | some t =>
      cases hr : db.reservations.get? id with
      | none => simp
      | some r' =>
          simp only [ite_error_eq_ok, ne_eq, not_not, Except.ok.injEq, Option.some.injEq]
          constructor
          · rintro ⟨hteam, rfl⟩
            exact ⟨⟨t, rfl⟩, rfl, hteam⟩
          · rintro ⟨-, rfl, hteam⟩
            exact ⟨hteam, rfl⟩

theorem checkConsume_false {r : WorkloadReservation} :
    r.checkConsume now workloadReference = .ok false ↔
      r.status = .consumed ∧ r.workloadReference = some workloadReference := by
  unfold WorkloadReservation.checkConsume
  cases hs : r.status with
  | consumed => simp
  | reserved =>
      dsimp only
      split <;> simp
  | released => simp
  | expired => simp

theorem referenceTaken_iff :
    db.referenceTaken teamId id workloadReference = true ↔
      ∃ i r, db.reservations.get? i = some r ∧ r.teamId = teamId ∧ i ≠ id ∧
        r.workloadReference = some workloadReference := by
  rw [ComputeDb.referenceTaken]
  constructor
  · intro h
    obtain ⟨q, hq⟩ := Option.isSome_iff_exists.mp h
    obtain ⟨hget, hp⟩ := Table.first?_some hq
    simp only [Bool.and_eq_true, beq_iff_eq, bne_iff_ne] at hp
    exact ⟨q.1, q.2, hget, hp.1.1, hp.1.2, hp.2⟩
  · rintro ⟨i, r, hget, hteam, hne, hw⟩
    obtain ⟨q, hq⟩ := Table.exists_first? (p := fun i r => r.teamId == teamId && i != id &&
      r.workloadReference == some workloadReference) hget (by simp [hteam, hne, hw])
    rw [hq]
    rfl

/-- All that `consume` can do without an exception. -/
theorem ComputeDb.consume_eq_ok :
    db.consume now teamId id workloadReference = .ok db' ↔
      ∃ r, db.lockReservationForTeam teamId id = .ok r ∧
        ((r.status = .consumed ∧ r.workloadReference = some workloadReference ∧ db' = db) ∨
          (r.status = .reserved ∧ r.isActive now = true ∧
            db.referenceTaken teamId id workloadReference = false ∧
            db' = db.updateReservation id (·.consumed workloadReference now))) := by
  simp only [ComputeDb.consume, bind_eq_ok]
  refine exists_congr fun r => and_congr_right fun _ => ?_
  constructor
  · rintro ⟨b, hb, h⟩
    cases b with
    | false =>
        obtain ⟨hstatus, hw⟩ := checkConsume_false.mp hb
        exact .inl ⟨hstatus, hw, (Except.ok.inj h).symm⟩
    | true =>
        obtain ⟨hstatus, hactive⟩ := checkConsume_true.mp hb
        simp only [ite_error_eq_ok, Bool.not_eq_true] at h
        exact .inr ⟨hstatus, hactive, h.1, (Except.ok.inj h.2).symm⟩
  · rintro (⟨hstatus, hw, rfl⟩ | ⟨hstatus, hactive, hfree, rfl⟩)
    · exact ⟨false, checkConsume_false.mpr ⟨hstatus, hw⟩, rfl⟩
    · refine ⟨true, checkConsume_true.mpr ⟨hstatus, hactive⟩, ?_⟩
      simp only [hfree, Bool.false_eq_true, if_false]

end Consume

/-! ## Placing -/

section Reserve

variable {db db' : ComputeDb} {cfg : SchedulerConfig} {now id : Nat} {req : PlacementRequest}

theorem placed_under {teamId : Nat} {key : String} {q : Nat × WorkloadReservation}
    (h : db.existing teamId key = some q) :
    db.reservations.get? q.1 = some q.2 ∧ q.2.teamId = teamId ∧ q.2.idempotencyKey = key := by
  obtain ⟨hget, hp⟩ := Table.first?_some h
  simpa [hget] using hp

theorem no_row_under {teamId i : Nat} {key : String} {r : WorkloadReservation}
    (h : db.existing teamId key = none) (hr : db.reservations.get? i = some r)
    (hteam : r.teamId = teamId) : r.idempotencyKey ≠ key := by
  simpa [hteam] using Table.first?_none h hr

theorem newWorkloadReservation_isActive (cfg : SchedulerConfig) (now : Nat)
    (req : PlacementRequest) (nodeId : Nat) :
    (newWorkloadReservation cfg now req nodeId).isActive now = true := by
  have hpos := reservationTtl_pos cfg
  simp [newWorkloadReservation, WorkloadReservation.isActive, hpos]

end Reserve

/-! ## One transaction -/

/-- What a transaction does to the reservations: a `RowStep` on each row, and
perhaps a new row under a key that the team did not have. -/
structure TableStep (cfg : SchedulerConfig) (now : Nat) (db db' : ComputeDb) : Prop where
  teams : db'.teams = db.teams
  kept : ∀ i r, db.reservations.get? i = some r →
    ∃ r', db'.reservations.get? i = some r' ∧ RowStep now r r'
  old : ∀ i r', db'.reservations.get? i = some r' →
    (∃ r, db.reservations.get? i = some r ∧ RowStep now r r') ∨
      ∃ req nodeId, i = db.reservations.nextId ∧
        db.existing req.teamId req.idempotencyKey = none ∧
        (∃ t, db.teams.get? req.teamId = some t) ∧
        r' = newWorkloadReservation cfg now req nodeId

section Step

variable {cfg : SchedulerConfig} {now : Nat} {db db' : ComputeDb} {s s' : ComputeState}

theorem TableStep.same (hteams : db'.teams = db.teams)
    (hres : db'.reservations = db.reservations) : TableStep cfg now db db' := by
  refine ⟨hteams, fun i r hr => ⟨r, ?_, .same⟩, fun i r hr => .inl ⟨r, ?_, .same⟩⟩
  · rw [hres]
    exact hr
  · rwa [hres] at hr

/-- Rewriting rows by row steps. -/
theorem TableStep.rewrite {f : Nat → WorkloadReservation → WorkloadReservation}
    (hteams : db'.teams = db.teams)
    (hget : ∀ i, db'.reservations.get? i = (db.reservations.get? i).map (f i))
    (hf : ∀ i r, db.reservations.get? i = some r → RowStep now r (f i r)) :
    TableStep cfg now db db' := by
  refine ⟨hteams, fun i r hr => ⟨f i r, ?_, hf i r hr⟩, fun i r' hr' => .inl ?_⟩
  · rw [hget, hr, Option.map_some]
  · rw [hget] at hr'
    obtain ⟨r, hr, rfl⟩ := Option.map_eq_some_iff.mp hr'
    exact ⟨r, hr, hf i r hr⟩

theorem TableStep.update {id : Nat} {f : WorkloadReservation → WorkloadReservation}
    (hf : ∀ r, db.reservations.get? id = some r → RowStep now r (f r)) :
    TableStep cfg now db (db.updateReservation id f) := by
  refine .rewrite (f := fun i r => if i = id then f r else r) rfl (fun i => ?_) fun i r hr => ?_
  · rw [ComputeDb.updateReservation, Table.get?_modify]
    split
    · rfl
    · exact Option.map_id'.symm
  · split
    · next hi => exact hf r (hi ▸ hr)
    · exact .same

theorem TableStep.reserve {req : PlacementRequest} {id : Nat}
    (h : db.reserve cfg now req = .ok (db', id)) : TableStep cfg now db db' := by
  rcases reserve_cases h with ⟨rfl, -⟩ | ⟨hnew, hteam, -, c, -, -, -, -, rfl⟩
  · exact .same rfl rfl
  · refine ⟨rfl, fun i r hr => ⟨r, Table.get?_insert_of_some _ hr, .same⟩, fun i r' hr' => ?_⟩
    rw [ComputeDb.place, Table.get?_insert] at hr'
    split at hr'
    · next hi => exact .inr ⟨req, c.nodeId, hi, hnew, hteam, (Option.some.inj hr').symm⟩
    · exact .inl ⟨r', hr', .same⟩

theorem TableStep.consume {teamId id : Nat} {workloadReference : String}
    (h : db.consume now teamId id workloadReference = .ok db') : TableStep cfg now db db' := by
  obtain ⟨r, hlock, ⟨-, -, rfl⟩ | ⟨hstatus, hactive, -, rfl⟩⟩ := ComputeDb.consume_eq_ok.mp h
  · exact .same rfl rfl
  · refine .update fun r' hr' => ?_
    obtain rfl := Option.some.inj (hr'.symm.trans (lockReservationForTeam_ok hlock).1)
    exact .consumed workloadReference hstatus hactive

theorem TableStep.release {teamId id : Nat} (h : db.release now teamId id = .ok db') :
    TableStep cfg now db db' := by
  simp only [ComputeDb.release, bind_eq_ok] at h
  obtain ⟨r, hlock, h⟩ := h
  split at h
  · next hcheck =>
      obtain rfl := Except.ok.inj h
      refine .update fun r' hr' => .released ?_
      obtain rfl := Option.some.inj (hr'.symm.trans (lockReservationForTeam_ok hlock).1)
      rw [WorkloadReservation.checkRelease, Bool.and_eq_true, bne_iff_ne, bne_iff_ne] at hcheck
      cases hs : r'.status with
      | reserved => exact .inl rfl
      | consumed => exact .inr rfl
      | released => exact absurd hs hcheck.1
      | expired => exact absurd hs hcheck.2
  · obtain rfl := Except.ok.inj h
    exact .same rfl rfl

theorem TableStep.expire (db : ComputeDb) : TableStep cfg now db (db.expire now) := by
  refine .rewrite rfl (fun i => Table.get?_updateWhere ..) fun i r _ => ?_
  split
  · next hlapsed => exact .expired hlapsed
  · exact .same

/-- A transaction that fails leaves everything as it was. -/
theorem TableStep.commit {result : Except String ComputeDb}
    (h : ∀ db', result = .ok db' → TableStep cfg now db db') :
    TableStep cfg now db (commit db result) := by
  cases result with
  | error e => exact .same rfl rfl
  | ok db' => exact h db' rfl

theorem step_reservation {a : ComputeAction} (hst : s.step cfg a = some s') :
    TableStep cfg s.clock s.db s'.db := by
  cases a with
  | reserve req =>
      obtain rfl := Option.some.inj hst
      refine .commit fun db' h => ?_
      cases hres : s.db.reserve cfg s.clock req with
      | error e => rw [hres] at h; cases h
      | ok p =>
          rw [hres] at h
          obtain rfl := Except.ok.inj h
          exact .reserve hres
  | consume teamId id workloadReference =>
      obtain rfl := Option.some.inj hst
      exact .commit fun db' h => .consume h
  | release teamId id =>
      obtain rfl := Option.some.inj hst
      exact .commit fun db' h => .release h
  | expire =>
      obtain rfl := Option.some.inj hst
      exact .expire s.db
  | register reg =>
      obtain rfl := Option.some.inj hst
      refine .same ?_ (register_extends s.db reg).1.reservations
      obtain ⟨pools, hpools⟩ := upsertPool_frame s.db reg
      simp only [ComputeDb.register, hpools]
      split <;> rfl
  | setDraining server poolSlug isDraining =>
      obtain rfl := Option.some.inj hst
      refine .commit fun db' h => .same ?_ (setDraining_extends h).1.reservations
      unfold ComputeDb.setDraining at h
      split at h
      · cases h
      · obtain rfl := Except.ok.inj h
        rfl
  | capture nodeId probe =>
      simp only [ComputeState.step] at hst
      split at hst
      · cases hst
      · obtain rfl := Option.some.inj hst
        refine .same ?_ (capture_cases s.db cfg s.clock nodeId probe).1.reservations
        unfold ComputeDb.capture
        split
        · rfl
        · split <;> rfl
  | pass seconds =>
      obtain rfl := Option.some.inj hst
      exact .same rfl rfl

/-! ## Runs -/

theorem Recorded.step {a : ComputeAction} (h : Recorded s) (hst : s.step cfg a = some s') :
    Recorded s' := by
  have hstep := step_reservation hst
  refine ⟨fun i j r r' hi hj hteam hkey => ?_, fun i r' hr' => ?_, fun i r' w hr' hw => ?_⟩
  · rcases hstep.old i r hi with ⟨p, hp, hpr⟩ | ⟨req, n, hin, hnew, -, rfl⟩
    · rcases hstep.old j r' hj with ⟨q, hq, hqr⟩ | ⟨req, n, hjn, hnew, -, rfl⟩
      · rw [hpr.teamId, hqr.teamId] at hteam
        rw [hpr.idempotencyKey, hqr.idempotencyKey] at hkey
        exact h.oneKey i j p q hp hq hteam hkey
      · rw [hpr.teamId] at hteam
        rw [hpr.idempotencyKey] at hkey
        exact absurd hkey (no_row_under hnew hp hteam)
    · rcases hstep.old j r' hj with ⟨q, hq, hqr⟩ | ⟨req', n', hjn, -, -, rfl⟩
      · rw [hqr.teamId] at hteam
        rw [hqr.idempotencyKey] at hkey
        exact absurd hkey.symm (no_row_under hnew hq hteam.symm)
      · exact hin.trans hjn.symm
  · rw [hstep.teams]
    rcases hstep.old i r' hr' with ⟨r, hr, hrr⟩ | ⟨req, n, -, -, hteam, rfl⟩
    · rw [hrr.teamId]
      exact h.ofTeam i r hr
    · exact hteam
  · rcases hstep.old i r' hr' with ⟨r, hr, hrr⟩ | ⟨req, n, -, -, -, rfl⟩
    · exact hrr.reference (h.reference i r · hr) w hw
    · cases hw

theorem recorded_of_run (hstart : s.db.reservations = .empty)
    (hrun : Reaches (ComputeState.step cfg) Any s s') : Recorded s' := by
  refine hrun.invariant (fun _ _ _ h _ hst => h.step hst) ⟨?_, ?_, ?_⟩
  all_goals
    rw [hstart]
    intros
    contradiction

/-- What a run leaves of a row that is at an end, or consumed. -/
theorem lifecycle_of_run (hrun : Reaches (ComputeState.step cfg) Any s s') {i : Nat}
    {r : WorkloadReservation} (hr : s.db.reservations.get? i = some r) :
    ∃ r', s'.db.reservations.get? i = some r' ∧
      (r.status = .released ∨ r.status = .expired → r' = r) ∧
      (r.status = .consumed → r' = r ∨ ∃ now, r' = r.released now) := by
  induction hrun with
  | refl => exact ⟨r, hr, fun _ => rfl, fun _ => .inl rfl⟩
  | tail _ hst ih =>
      obtain ⟨a, -, hst⟩ := hst
      obtain ⟨p, hp, hfinal, hconsumed⟩ := ih
      obtain ⟨r', hr', hrow⟩ := (step_reservation hst).kept i p hp
      refine ⟨r', hr', fun hend => ?_, fun hstatus => ?_⟩
      · obtain rfl := hfinal hend
        exact hrow.lifecycle.1 hend
      · rcases hconsumed hstatus with rfl | ⟨now, rfl⟩
        · exact (hrow.lifecycle.2 hstatus).imp_right fun h => ⟨_, h⟩
        · exact .inr ⟨now, hrow.lifecycle.1 (.inl rfl)⟩

/-! ## Replays -/

/-- After any run, what `reserve` answers is active exactly if it places, or the
team's reservation under the key is still active. -/
theorem reserve_active_iff {req : PlacementRequest} {id : Nat}
    (hstart : s.db.reservations = .empty) (hrun : Reaches (ComputeState.step cfg) Any s s')
    (hok : s'.db.reserve cfg s'.clock req = .ok (db', id)) :
    (∃ r, db'.reservations.get? id = some r ∧ r.isActive s'.clock = true) ↔
      ∀ i r, s'.db.reservations.get? i = some r → r.teamId = req.teamId →
        r.idempotencyKey = req.idempotencyKey → r.isActive s'.clock = true := by
  have hrecorded := recorded_of_run hstart hrun
  rcases reserve_cases hok with ⟨rfl, q, hex⟩ | ⟨hnew, -, rfl, c, -, -, -, -, rfl⟩
  · obtain ⟨hq, hteam, hkey⟩ := placed_under hex
    constructor
    · rintro ⟨r, hr, hactive⟩ i p hp hpteam hpkey
      obtain rfl := hrecorded.oneKey i id p r hp hr
        (hpteam.trans (Option.some.inj (hr.symm.trans hq) ▸ hteam).symm)
        (hpkey.trans (Option.some.inj (hr.symm.trans hq) ▸ hkey).symm)
      obtain rfl := Option.some.inj (hp.symm.trans hr)
      exact hactive
    · exact fun h => ⟨q, hq, h id q hq hteam hkey⟩
  · constructor
    · intro _ i r hr hteam hkey
      exact absurd hkey (no_row_under hnew hr hteam)
    · intro _
      exact ⟨_, Table.get?_insert_self .., newWorkloadReservation_isActive ..⟩

end Step

/-- Server 5 in one pool, and one reservation on it. -/
def placedOnce : List ComputeAction :=
  [.register ⟨5, "a", "A", none, ["application"]⟩, .capture 1 smallServer,
   .reserve ⟨1, "application", wholeServer, "first", none⟩]

/-- The row that a retry of the reservation answers with. -/
def ComputeState.retried (s : ComputeState) : Option WorkloadReservation :=
  match s.db.reserve defaultConfig s.clock ⟨1, "application", wholeServer, "first", none⟩ with
  | .ok (db', id) => db'.reservations.get? id
  | .error _ => none

theorem retried_some {s : ComputeState} {r : WorkloadReservation} (h : s.retried = some r) :
    ∃ db' id, s.db.reserve defaultConfig s.clock ⟨1, "application", wholeServer, "first", none⟩ =
      .ok (db', id) ∧ db'.reservations.get? id = some r := by
  unfold ComputeState.retried at h
  split at h
  · next db' id hok => exact ⟨db', id, hok, h⟩
  · cases h

theorem reserve_active_iff_placed_once :
    ∃ s, Reaches (ComputeState.step defaultConfig) Any emptyCompute s ∧
      ∀ i r, s.db.reservations.get? i = some r → r.teamId = 1 → r.idempotencyKey = "first" →
        r.isActive s.clock = true := by
  obtain ⟨s, hrun, hs⟩ := exists_reaches_of_execIf (ComputeState.step defaultConfig) Any
    emptyCompute placedOnce (fun s => s.retried.any (·.isActive s.clock)) (by decide +kernel)
  obtain ⟨r, hr, hactive⟩ := (Option.any_eq_true ..).mp hs
  obtain ⟨db', id, hok, hget⟩ := retried_some hr
  exact ⟨s, hrun, (reserve_active_iff rfl hrun hok).mp ⟨r, hget, hactive⟩⟩

/-- The actions lead to a state in which a retry answers with a reservation that
claims nothing. -/
def RetriesInactive (as : List ComputeAction) : Prop :=
  ∃ s, execIf (ComputeState.step defaultConfig) Any emptyCompute as = some s ∧
    Reaches (ComputeState.step defaultConfig) Any emptyCompute s ∧
    ∃ db' id r, s.db.reserve defaultConfig s.clock
      ⟨1, "application", wholeServer, "first", none⟩ = .ok (db', id) ∧
      db'.reservations.get? id = some r ∧ r.isActive s.clock = false

theorem retriesInactive_of_any {as : List ComputeAction}
    (h : (execIf (ComputeState.step defaultConfig) Any emptyCompute as).any
      (fun s => s.retried.any fun r => !r.isActive s.clock) = true) : RetriesInactive as := by
  obtain ⟨s, hs, hretried⟩ := (Option.any_eq_true ..).mp h
  obtain ⟨r, hr, hinactive⟩ := (Option.any_eq_true ..).mp hretried
  obtain ⟨db', id, hok, hget⟩ := retried_some hr
  exact ⟨s, hs, execIf_reaches hs, db', id, r, hok, hget, by simpa using hinactive⟩

/-- Retries after the reservation was released, after the job expired it, and
after its time ran out. -/
theorem retries_answer_inactive :
    RetriesInactive (placedOnce ++ [.release 1 1]) ∧
    RetriesInactive (placedOnce ++ [.pass 300, .expire]) ∧
    RetriesInactive (placedOnce ++ [.pass 300]) := by
  refine ⟨retriesInactive_of_any ?_, retriesInactive_of_any ?_, retriesInactive_of_any ?_⟩
  all_goals decide +kernel

/-! ## Workload references -/

/-- The reservation is the team's, and it is consumed with the reference, or it
is reserved and active and no other consumed one of the team has the reference. -/
def ComputeDb.Consumable (db : ComputeDb) (now teamId id : Nat) (workloadReference : String) :
    Prop :=
  ∃ r, db.reservations.get? id = some r ∧ r.teamId = teamId ∧
    (r.status = .consumed ∧ r.workloadReference = some workloadReference ∨
      r.status = .reserved ∧ r.isActive now = true ∧
        ∀ i r', db.reservations.get? i = some r' → i ≠ id → r'.teamId = teamId →
          ¬ (r'.status = .consumed ∧ r'.workloadReference = some workloadReference))

/-- The reservation is a reserved and active one of the team, the reference is
that of a released one, and of no consumed one. -/
def ComputeDb.Spent (db : ComputeDb) (now teamId id : Nat) (workloadReference : String) : Prop :=
  (∃ r, db.reservations.get? id = some r ∧ r.teamId = teamId ∧ r.status = .reserved ∧
      r.isActive now = true) ∧
    (∃ i r', db.reservations.get? i = some r' ∧ r'.teamId = teamId ∧ r'.status = .released ∧
      r'.workloadReference = some workloadReference) ∧
    ∀ i r', db.reservations.get? i = some r' → r'.teamId = teamId →
      ¬ (r'.status = .consumed ∧ r'.workloadReference = some workloadReference)

section Reference

variable {cfg : SchedulerConfig} {s s' : ComputeState}

theorem Recorded.referenceTaken_iff (h : Recorded s) {teamId id : Nat} {w : String} :
    s.db.referenceTaken teamId id w = true ↔
      ∃ i r, s.db.reservations.get? i = some r ∧ i ≠ id ∧ r.teamId = teamId ∧
        (r.status = .consumed ∨ r.status = .released) ∧ r.workloadReference = some w := by
  rw [OnePloy.referenceTaken_iff]
  constructor
  · rintro ⟨i, r, hr, hteam, hne, hw⟩
    exact ⟨i, r, hr, hne, hteam, h.reference i r w hr hw, hw⟩
  · rintro ⟨i, r, hr, hne, hteam, -, hw⟩
    exact ⟨i, r, hr, hteam, hne, hw⟩

/-- `consume` succeeds on what is consumable and has a reference that no other row
of the team, consumed or released, was given. -/
theorem Recorded.consume_ok_iff (h : Recorded s) {teamId id : Nat} {w : String} :
    (∃ db', s.db.consume s.clock teamId id w = .ok db') ↔
      ∃ r, s.db.reservations.get? id = some r ∧ r.teamId = teamId ∧
        (r.status = .consumed ∧ r.workloadReference = some w ∨
          r.status = .reserved ∧ r.isActive s.clock = true ∧
            s.db.referenceTaken teamId id w = false) := by
  constructor
  · rintro ⟨db', hok⟩
    obtain ⟨r, hlock, hcase⟩ := ComputeDb.consume_eq_ok.mp hok
    obtain ⟨-, hr, hteam⟩ := lockReservationForTeam_iff.mp hlock
    refine ⟨r, hr, hteam, ?_⟩
    rcases hcase with ⟨hstatus, hw, -⟩ | ⟨hstatus, hactive, hfree, -⟩
    · exact .inl ⟨hstatus, hw⟩
    · exact .inr ⟨hstatus, hactive, hfree⟩
  · rintro ⟨r, hr, hteam, hcase⟩
    have hlock : s.db.lockReservationForTeam teamId id = .ok r :=
      lockReservationForTeam_iff.mpr ⟨hteam ▸ h.ofTeam id r hr, hr, hteam⟩
    rcases hcase with ⟨hstatus, hw⟩ | ⟨hstatus, hactive, hfree⟩
    · exact ⟨_, ComputeDb.consume_eq_ok.mpr ⟨r, hlock, .inl ⟨hstatus, hw, rfl⟩⟩⟩
    · exact ⟨_, ComputeDb.consume_eq_ok.mpr ⟨r, hlock, .inr ⟨hstatus, hactive, hfree, rfl⟩⟩⟩

theorem Recorded.not_ok_of_spent (h : Recorded s) {teamId id : Nat} {w : String}
    (hspent : s.db.Spent s.clock teamId id w) :
    s.db.Consumable s.clock teamId id w ∧ ¬ ∃ db', s.db.consume s.clock teamId id w = .ok db' := by
  obtain ⟨⟨r, hr, hteam, hstatus, hactive⟩, ⟨i, p, hp, hpteam, hreleased, hw⟩, hnone⟩ := hspent
  constructor
  · exact ⟨r, hr, hteam, .inr ⟨hstatus, hactive, fun j q hq _ hqteam => hnone j q hq hqteam⟩⟩
  · rw [h.consume_ok_iff]
    rintro ⟨r', hr', -, ⟨hconsumed, -⟩ | ⟨-, -, hfree⟩⟩
    · obtain rfl := Option.some.inj (hr.symm.trans hr')
      rw [hstatus] at hconsumed
      cases hconsumed
    · have hne : i ≠ id := by
        rintro rfl
        obtain rfl := Option.some.inj (hr.symm.trans hp)
        rw [hstatus] at hreleased
        cases hreleased
      rw [h.referenceTaken_iff.mpr ⟨i, p, hp, hne, hpteam, .inr hreleased, hw⟩] at hfree
      cases hfree

theorem Recorded.ok_iff_of_not_spent (h : Recorded s) {teamId id : Nat} {w : String}
    (hspent : ¬ s.db.Spent s.clock teamId id w) :
    (∃ db', s.db.consume s.clock teamId id w = .ok db') ↔
      s.db.Consumable s.clock teamId id w := by
  rw [h.consume_ok_iff]
  refine exists_congr fun r => and_congr_right fun hr => and_congr_right fun hteam =>
    or_congr_right (and_congr_right fun hstatus => and_congr_right fun hactive => ?_)
  constructor
  · intro hfree i p hp hne hpteam hconsumed
    rw [h.referenceTaken_iff.mpr ⟨i, p, hp, hne, hpteam, .inl hconsumed.1, hconsumed.2⟩] at hfree
    cases hfree
  · intro hnone
    by_contra htaken
    rw [Bool.not_eq_false, h.referenceTaken_iff] at htaken
    obtain ⟨i, p, hp, hne, hpteam, hconsumed | hreleased, hw⟩ := htaken
    · exact hnone i p hp hne hpteam ⟨hconsumed, hw⟩
    · refine hspent ⟨⟨r, hr, hteam, hstatus, hactive⟩, ⟨i, p, hp, hpteam, hreleased, hw⟩, ?_⟩
      intro j q hq hqteam hconsumed
      by_cases hj : j = id
      · subst hj
        obtain rfl := Option.some.inj (hr.symm.trans hq)
        rw [hstatus] at hconsumed
        cases hconsumed.1
      · exact hnone j q hq hj hqteam hconsumed

/-- After any run `consume` succeeds on just what is consumable, unless the
reference is spent on a reservation since released. Rows at an end stay as they
are, a consumed one can only be released, and a call that fails changes nothing. -/
theorem consumable_iff_unless_spent (hstart : s.db.reservations = .empty)
    (hrun : Reaches (ComputeState.step cfg) Any s s') :
    (∀ teamId id w, ((∃ db', s'.db.consume s'.clock teamId id w = .ok db') ↔
        s'.db.Consumable s'.clock teamId id w) ↔ ¬ s'.db.Spent s'.clock teamId id w) ∧
    (∀ t, Reaches (ComputeState.step cfg) Any s' t → ∀ i r,
      s'.db.reservations.get? i = some r → ∃ r', t.db.reservations.get? i = some r' ∧
        (r.status = .released ∨ r.status = .expired → r' = r) ∧
        (r.status = .consumed → r' = r ∨ ∃ now, r' = r.released now)) ∧
    (∀ teamId id w e, s'.db.consume s'.clock teamId id w = .error e →
      s'.step cfg (.consume teamId id w) = some s') ∧
    (∀ teamId id e, s'.db.release s'.clock teamId id = .error e →
      s'.step cfg (.release teamId id) = some s') ∧
    ∀ req e, s'.db.reserve cfg s'.clock req = .error e →
      s'.step cfg (.reserve req) = some s' := by
  have hrecorded := recorded_of_run hstart hrun
  refine ⟨fun teamId id w => ⟨fun hiff hspent => ?_, hrecorded.ok_iff_of_not_spent⟩,
    fun t ht i r hr => lifecycle_of_run ht hr, fun _ _ _ _ h => ?_, fun _ _ _ h => ?_,
    fun _ _ h => ?_⟩
  · obtain ⟨hconsumable, hno⟩ := hrecorded.not_ok_of_spent hspent
    exact hno (hiff.mpr hconsumable)
  · rw [ComputeState.step, h]
    rfl
  · rw [ComputeState.step, h]
    rfl
  · rw [ComputeState.step, h]
    rfl

end Reference

theorem consumable_iff_unless_spent_placed_once :
    ∃ s, Reaches (ComputeState.step defaultConfig) Any emptyCompute s ∧
      ∃ db', s.db.consume s.clock 1 1 "shop" = .ok db' := by
  obtain ⟨s, hrun, hs⟩ := exists_reaches_of_execIf (ComputeState.step defaultConfig) Any
    emptyCompute placedOnce
    (fun s => s.db.reservations.rows.all (fun p => p.2.status == .reserved) &&
      (s.db.reservations.get? 1).any fun r => r.teamId == 1 && r.isActive s.clock)
    (by decide +kernel)
  simp only [Bool.and_eq_true, List.all_eq_true, Option.any_eq_true, beq_iff_eq] at hs
  obtain ⟨hreserved, r, hr, hteam, hactive⟩ := hs
  have hstatus : ∀ i p, s.db.reservations.get? i = some p → p.status = .reserved :=
    fun i p hp => hreserved (i, p) (Table.mem_rows.mpr hp)
  refine ⟨s, hrun, (((consumable_iff_unless_spent rfl hrun).1 1 1 "shop").mpr ?_).mpr ?_⟩
  · rintro ⟨-, ⟨i, p, hp, -, hreleased, -⟩, -⟩
    rw [hstatus i p hp] at hreleased
    cases hreleased
  · refine ⟨r, hr, hteam, .inr ⟨hstatus 1 r hr, hactive, fun i p hp _ _ hconsumed => ?_⟩⟩
    rw [hstatus i p hp] at hconsumed
    cases hconsumed.1

/-- The workload of a released reservation, placed again under a new one. -/
theorem released_workload_is_refused :
    ∃ s, Reaches (ComputeState.step defaultConfig) Any emptyCompute s ∧
      s.db.Consumable s.clock 1 2 "shop" ∧
      ¬ ∃ db', s.db.consume s.clock 1 2 "shop" = .ok db' := by
  obtain ⟨s, hrun, hs⟩ := exists_reaches_of_execIf (ComputeState.step defaultConfig) Any
    emptyCompute (placedOnce ++ [.consume 1 1 "shop", .release 1 1,
      .reserve ⟨1, "application", wholeServer, "second", none⟩])
    (fun s => s.db.reservations.rows.all (fun p => p.2.status != .consumed) &&
      (s.db.reservations.get? 2).any (fun r => r.teamId == 1 && r.status == .reserved &&
        r.isActive s.clock) && !(s.db.consume s.clock 1 2 "shop").toBool)
    (by decide +kernel)
  simp only [Bool.and_eq_true, List.all_eq_true, Option.any_eq_true, beq_iff_eq, bne_iff_ne,
    Bool.not_eq_true'] at hs
  obtain ⟨⟨hnone, r, hr, ⟨hteam, hstatus⟩, hactive⟩, herror⟩ := hs
  refine ⟨s, hrun, ⟨r, hr, hteam, .inr ⟨hstatus, hactive, fun i p hp _ _ hconsumed => ?_⟩⟩, ?_⟩
  · exact hnone (i, p) (Table.mem_rows.mpr hp) hconsumed.1
  · rintro ⟨db', hok⟩
    rw [hok] at herror
    cases herror

end OnePloy
