import OnePloy.ComputeRows

/-!
# The managed compute scheduler

`ManagedComputeScheduler` places a workload on a node by reserving capacity
against the node's latest snapshot: `reserve` counts what the node's active
reservations claim and inserts one more where it fits; `consume` confirms a
reservation for a workload, `release` and `expire` end it. Each is one
function on the tables here; `ComputeStatements` runs the same pieces
statement by statement.

After the methods come what each does to the claims on a node, the one number
that placement depends on.
-/

namespace OnePloy

open Conc

/-! ## Requests -/

/-- The arguments of `reserve` after normalisation. -/
structure PlacementRequest where
  teamId : Nat
  workloadClass : String
  requirements : Requirements
  idempotencyKey : String
  region : Option String

section Normalise

-- `trim` is `Str::trim`
variable (trim : String → String)

def normalizeRequiredIdentifier (value label : String) (maximumLength : Nat) :
    Except String String :=
  let normalized := trim value
  if normalized = "" then .error (label ++ " is required.")
  else if maximumLength < normalized.length then
    .error (label ++ " cannot exceed " ++ toString maximumLength ++ " characters.")
  else .ok normalized

def normalizeRegion : Option String → Except String (Option String)
  | none => .ok none
  | some region => do
      let region ← normalizeRequiredIdentifier trim region "Region" 255
      .ok (some region)

/-- What `reserve` does before its transaction. -/
def placementRequest (teamId : Nat) (workloadClass : String) (quantity : ComputeResource → Int)
    (idempotencyKey : String) (region : Option String) : Except String PlacementRequest := do
  let workloadClass ← normalizeRequiredIdentifier trim workloadClass "Workload class" 100
  let idempotencyKey ← normalizeRequiredIdentifier trim idempotencyKey "Idempotency key" 255
  let region ← normalizeRegion trim region
  let requirements ← validateRequirements quantity
  .ok ⟨teamId, workloadClass, requirements, idempotencyKey, region⟩

end Normalise

/-! ## Reading the tables -/

/-- The reservation a team already has under an idempotency key. -/
def ComputeDb.existing (db : ComputeDb) (teamId : Nat) (idempotencyKey : String) :
    Option (Nat × WorkloadReservation) :=
  db.reservations.first? fun _ r => r.teamId == teamId && r.idempotencyKey == idempotencyKey

def ComputeDb.decision (db : ComputeDb) (reservationId : Nat) : Option PlacementDecision :=
  (db.decisions.first? fun _ d => d.workloadReservationId == reservationId).map Prod.snd

/-- The retry names the same workload class, requirements and region. -/
def placementRetryMatches (r : WorkloadReservation) (decision : Option PlacementDecision)
    (req : PlacementRequest) : Bool :=
  r.workloadClass == req.workloadClass && decide (r.requested = req.requirements.vector) &&
    decision.any fun d => d.region == req.region

/-- The nodes `lockEligibleNodes` selects, by id. -/
def ComputeDb.acceptingNodes (db : ComputeDb) (region : Option String) :
    List (Nat × ComputeNode) :=
  db.nodes.select fun _ n => n.acceptsWorkloads &&
    (db.pools.get? n.computePoolId).any (·.matchesRegion region)

/-- The filter of `lockEligibleNodes`, on the loaded pool. -/
def ComputeDb.supports (db : ComputeDb) (workloadClass : String) (n : ComputeNode) : Bool :=
  (db.pools.get? n.computePoolId).any (·.supportsWorkloadClass workloadClass)

/-- The nodes with a complete and fresh snapshot, with that snapshot. -/
def ComputeDb.freshNodes (db : ComputeDb) (cfg : SchedulerConfig) (now : Nat)
    (nodes : List Nat) : List (Nat × (Nat × CapacitySnapshot)) :=
  nodes.filterMap fun id =>
    match db.latestCapacitySnapshot id with
    | none => none
    | some q =>
        if q.2.hasCompleteCapacity && q.2.isFresh now cfg.maximumSnapshotAge then some (id, q)
        else none

def candidates (fresh : List (Nat × (Nat × CapacitySnapshot))) (requirements : ResourceVector)
    (claimed : Nat → ResourceVector) : List Candidate :=
  fresh.filterMap fun (id, q) => scoreCandidate id q requirements (claimed id)

/-- Another reservation of the team has the workload reference: the unique
index refuses the update. -/
def ComputeDb.referenceTaken (db : ComputeDb) (teamId id : Nat) (workloadReference : String) :
    Bool :=
  (db.reservations.first? fun i r => r.teamId == teamId && i != id &&
    r.workloadReference == some workloadReference).isSome

/-! ## Writing a reservation -/

def WorkloadReservation.consumed (workloadReference : String) (now : Nat)
    (r : WorkloadReservation) : WorkloadReservation :=
  { r with
    status := .consumed
    workloadReference := some workloadReference
    expiresAt := none
    consumedAt := some now }

def WorkloadReservation.released (now : Nat) (r : WorkloadReservation) : WorkloadReservation :=
  { r with status := .released, expiresAt := none, releasedAt := some now }

def WorkloadReservation.expired (r : WorkloadReservation) : WorkloadReservation :=
  { r with status := .expired }

/-- The condition of `expire`. -/
def WorkloadReservation.lapsed (r : WorkloadReservation) (at' : Nat) : Bool :=
  r.status == .reserved && r.expiresAt.any fun e => decide (e ≤ at')

def ComputeDb.updateReservation (db : ComputeDb) (id : Nat)
    (f : WorkloadReservation → WorkloadReservation) : ComputeDb :=
  { db with reservations := db.reservations.modify id f }

def newWorkloadReservation (cfg : SchedulerConfig) (now : Nat) (req : PlacementRequest)
    (nodeId : Nat) : WorkloadReservation where
  computeNodeId := some nodeId
  teamId := req.teamId
  workloadClass := req.workloadClass
  status := .reserved
  idempotencyKey := req.idempotencyKey
  requested := req.requirements.vector
  workloadReference := none
  expiresAt := some (now + cfg.reservationTtl)
  consumedAt := none
  releasedAt := none

/-- The two inserts that end `reserve`. -/
def ComputeDb.place (db : ComputeDb) (cfg : SchedulerConfig) (now : Nat)
    (req : PlacementRequest) (c : Candidate) : ComputeDb :=
  { db with
    reservations := db.reservations.insert (newWorkloadReservation cfg now req c.nodeId)
    decisions := db.decisions.insert {
      workloadReservationId := db.reservations.nextId
      computeNodeId := c.nodeId
      region := req.region
      capacitySnapshotId := c.snapshotId
      capacityCapturedAt := c.snapshot.capturedAt
      scores := c.scores } }

/-! ## The methods -/

def noReservationForKey : String :=
  "No query results for model [App\\Models\\OneployWorkloadReservation]."

def noTenant : String := "No query results for model [App\\Models\\Team]."

/-- `reserve`, as one transaction; the answer is the reservation's key. -/
def ComputeDb.reserve (db : ComputeDb) (cfg : SchedulerConfig) (now : Nat)
    (req : PlacementRequest) : Except String (ComputeDb × Nat) :=
  match db.teams.get? req.teamId with
  | none => .error noTenant
  | some lockedTeam =>
      match db.existing req.teamId req.idempotencyKey with
      | some (id, r) =>
          if !placementRetryMatches r (db.decision id) req then
            .error "This idempotency key was used with different placement inputs."
          else .ok (db, id)
      | none =>
          if !lockedTeam.isTenantActive then
            .error "This tenant is not allowed to schedule workloads."
          else
            let eligible := (db.acceptingNodes req.region).filter fun q =>
              db.supports req.workloadClass q.2
            if eligible.isEmpty then
              .error "No active managed compute nodes support this workload class and region."
            else
              let fresh := db.freshNodes cfg now (eligible.map Prod.fst)
              if fresh.isEmpty then
                .error "No eligible compute node has a fresh capacity snapshot."
              else
                match selectCandidate
                    (candidates fresh req.requirements.vector (db.claimed now)) with
                | none => .error "Insufficient compute capacity for this workload."
                | some selected => .ok (db.place cfg now req selected, db.reservations.nextId)

/-- `lockReservationForTeam`. -/
def ComputeDb.lockReservationForTeam (db : ComputeDb) (teamId id : Nat) :
    Except String WorkloadReservation :=
  match db.teams.get? teamId with
  | none => .error noTenant
  | some _ =>
      match db.reservations.get? id with
      | none => .error noReservationForKey
      | some r =>
          if r.teamId ≠ teamId then .error "This reservation does not belong to this team."
          else .ok r

/-- What `consume` decides on the locked row; `false` is the idempotent answer. -/
def WorkloadReservation.checkConsume (r : WorkloadReservation) (now : Nat)
    (workloadReference : String) : Except String Bool :=
  match r.status with
  | .consumed =>
      if r.workloadReference ≠ some workloadReference then
        .error "This reservation was consumed by a different workload."
      else .ok false
  | .released => .error "A released reservation cannot be consumed."
  | .expired => .error "An expired reservation cannot be consumed."
  | .reserved =>
      if !r.isActive now then .error "An expired reservation cannot be consumed." else .ok true

/-- What `release` decides on the locked row. -/
def WorkloadReservation.checkRelease (r : WorkloadReservation) : Bool :=
  r.status != .released && r.status != .expired

/-- `consume`, as one transaction. -/
def ComputeDb.consume (db : ComputeDb) (now teamId id : Nat) (workloadReference : String) :
    Except String ComputeDb := do
  let locked ← db.lockReservationForTeam teamId id
  match ← locked.checkConsume now workloadReference with
  | false => .ok db
  | true =>
      if db.referenceTaken teamId id workloadReference then
        .error "Unique violation: oneploy_workload_reservations_team_workload_unique"
      else .ok (db.updateReservation id (·.consumed workloadReference now))

/-- `release`, as one transaction. -/
def ComputeDb.release (db : ComputeDb) (now teamId id : Nat) : Except String ComputeDb := do
  let locked ← db.lockReservationForTeam teamId id
  if locked.checkRelease then
    .ok (db.updateReservation id (·.released now))
  else .ok db

def ComputeDb.expire (db : ComputeDb) (at' : Nat) : ComputeDb :=
  { db with reservations := db.reservations.updateWhere (fun _ r => r.lapsed at') (·.expired) }

/-! ## What the methods do -/

theorem freshNodes_mem {db : ComputeDb} {cfg : SchedulerConfig} {now id : Nat}
    {nodes : List Nat} {q : Nat × CapacitySnapshot}
    (h : (id, q) ∈ db.freshNodes cfg now nodes) :
    id ∈ nodes ∧ db.latestCapacitySnapshot id = some q := by
  obtain ⟨j, hj, hq⟩ := List.mem_filterMap.mp h
  split at hq
  · cases hq
  · next p hp =>
      split at hq
      · obtain ⟨rfl, rfl⟩ := Prod.mk.inj (Option.some.inj hq)
        exact ⟨hj, hp⟩
      · cases hq

/-- The winning candidate is a fresh node that the requirements fit on. -/
theorem selected_of_fresh {fresh : List (Nat × (Nat × CapacitySnapshot))}
    {requirements : ResourceVector} {claimed : Nat → ResourceVector} {c : Candidate}
    (h : selectCandidate (candidates fresh requirements claimed) = some c) :
    (c.nodeId, (c.snapshotId, c.snapshot)) ∈ fresh ∧
      ∀ r, requirements r ≤ c.snapshot.availableResources r - claimed c.nodeId r := by
  obtain ⟨⟨id, q⟩, hmem, hscore⟩ := List.mem_filterMap.mp (selectCandidate_mem h)
  obtain ⟨hnode, hid, hsnap, hroom⟩ := scoreCandidate_some hscore
  rw [hnode, hid, hsnap]
  exact ⟨hmem, hroom⟩

/-- What a successful `reserve` did: it replayed a reservation and changed
nothing, or it placed the workload, under a key that the team did not have, on a
node with room in the node's latest snapshot. -/
theorem reserve_cases {db db' : ComputeDb} {cfg : SchedulerConfig} {now id : Nat}
    {req : PlacementRequest} (h : db.reserve cfg now req = .ok (db', id)) :
    (db' = db ∧ ∃ r, db.existing req.teamId req.idempotencyKey = some (id, r)) ∨
    (db.existing req.teamId req.idempotencyKey = none ∧
      (∃ t, db.teams.get? req.teamId = some t) ∧ id = db.reservations.nextId ∧
      ∃ c n, db.nodes.get? c.nodeId = some n ∧
        db.latestCapacitySnapshot c.nodeId = some (c.snapshotId, c.snapshot) ∧
        (∀ r, req.requirements.vector r
          ≤ c.snapshot.availableResources r - db.claimed now c.nodeId r) ∧
        db' = db.place cfg now req c) := by
  unfold ComputeDb.reserve at h
  cases hteam : db.teams.get? req.teamId with
  | none => rw [hteam] at h; cases h
  | some lockedTeam =>
      cases hex : db.existing req.teamId req.idempotencyKey with
      | some q =>
          obtain ⟨j, r⟩ := q
          simp only [hteam, hex, ite_error_eq_ok] at h
          obtain ⟨rfl, rfl⟩ := Prod.mk.inj (Except.ok.inj h.2)
          exact Or.inl ⟨rfl, r, rfl⟩
      | none =>
          simp only [hteam, hex, ite_error_eq_ok] at h
          obtain ⟨-, -, -, h⟩ := h
          split at h
          · cases h
          · next c hc =>
              obtain ⟨rfl, rfl⟩ := Prod.mk.inj (Except.ok.inj h)
              obtain ⟨hfresh, hroom⟩ := selected_of_fresh hc
              obtain ⟨hnode, hlatest⟩ := freshNodes_mem hfresh
              obtain ⟨⟨j, n⟩, hn, rfl⟩ := List.mem_map.mp hnode
              have hget := (Table.mem_select.mp (List.mem_filter.mp hn).1).1
              exact Or.inr ⟨rfl, ⟨lockedTeam, rfl⟩, rfl, c, n, hget, hlatest, hroom, rfl⟩

theorem lockReservationForTeam_ok {db : ComputeDb} {teamId id : Nat} {r : WorkloadReservation}
    (h : db.lockReservationForTeam teamId id = .ok r) :
    db.reservations.get? id = some r ∧ r.teamId = teamId := by
  unfold ComputeDb.lockReservationForTeam at h
  split at h
  · cases h
  · split at h
    · cases h
    · next r' hr' =>
        rw [ite_error_eq_ok] at h
        obtain rfl := Except.ok.inj h.2
        exact ⟨hr', not_not.mp h.1⟩

theorem checkConsume_true {r : WorkloadReservation} {now : Nat} {workloadReference : String} :
    r.checkConsume now workloadReference = .ok true ↔
      r.status = .reserved ∧ r.isActive now = true := by
  unfold WorkloadReservation.checkConsume
  cases hs : r.status with
  | consumed =>
      dsimp only
      split <;> simp
  | reserved => simp
  | released => simp
  | expired => simp

/-- What a successful `consume` did: nothing, or it confirmed an active
reservation. -/
theorem ComputeDb.consume_cases {db db' : ComputeDb} {now teamId id : Nat}
    {workloadReference : String} (h : db.consume now teamId id workloadReference = .ok db') :
    db' = db ∨ ∃ r, db.reservations.get? id = some r ∧ r.isActive now = true ∧
      db' = db.updateReservation id (·.consumed workloadReference now) := by
  simp only [ComputeDb.consume, bind_eq_ok] at h
  obtain ⟨r, hr, b, hb, h⟩ := h
  cases b with
  | false => exact Or.inl (Except.ok.inj h).symm
  | true =>
      simp only [ite_error_eq_ok] at h
      exact Or.inr ⟨r, (lockReservationForTeam_ok hr).1, (checkConsume_true.mp hb).2,
        (Except.ok.inj h.2).symm⟩

theorem ComputeDb.release_cases {db db' : ComputeDb} {now teamId id : Nat}
    (h : db.release now teamId id = .ok db') :
    db' = db ∨ db' = db.updateReservation id (·.released now) := by
  simp only [ComputeDb.release, bind_eq_ok] at h
  obtain ⟨r, -, h⟩ := h
  split at h
  · exact Or.inr (Except.ok.inj h).symm
  · exact Or.inl (Except.ok.inj h).symm

/-! ## What the writes do to the claims -/

theorem reservationTtl_pos (cfg : SchedulerConfig) : 0 < cfg.reservationTtl := by
  unfold SchedulerConfig.reservationTtl
  omega

/-- A placement claims what it asked for, on its own node. -/
theorem claimed_place (db : ComputeDb) (cfg : SchedulerConfig) (now : Nat)
    (req : PlacementRequest) (c : Candidate) (nodeId : Nat) :
    (db.place cfg now req c).claimed now nodeId
      = db.claimed now nodeId + if nodeId = c.nodeId then req.requirements.vector else 0 := by
  have hpos := reservationTtl_pos cfg
  refine (Table.sumWhere_insert ..).trans ?_
  have hcond : claims nodeId now db.reservations.nextId
      (newWorkloadReservation cfg now req c.nodeId) = decide (nodeId = c.nodeId) := by
    have hlive : now < now + cfg.reservationTtl := by omega
    have hact : (newWorkloadReservation cfg now req c.nodeId).isActive now = true := by
      simp [newWorkloadReservation, WorkloadReservation.isActive, hlive]
    rw [claims, hact, Bool.and_true, Bool.eq_iff_iff, beq_iff_eq, decide_eq_true_eq]
    exact ⟨fun h => (Option.some.inj h).symm, fun h => congrArg some h.symm⟩
  rw [hcond]
  by_cases h : nodeId = c.nodeId
  · simp [h, ComputeDb.claimed, newWorkloadReservation]
  · simp [h, ComputeDb.claimed]

/-- A placement claims nothing on other nodes, at any time. -/
theorem claimed_place_ne (db : ComputeDb) (cfg : SchedulerConfig) (now : Nat)
    (req : PlacementRequest) (c : Candidate) {nodeId : Nat} (at' : Nat) (h : nodeId ≠ c.nodeId) :
    (db.place cfg now req c).claimed at' nodeId = db.claimed at' nodeId := by
  refine (Table.sumWhere_insert ..).trans ?_
  rw [if_neg]
  · exact add_zero _
  · simp [claims, newWorkloadReservation, Ne.symm h]

/-- Confirming a reservation that was active at a time claims nothing more for
that time. -/
theorem claimed_consume {db : ComputeDb} {id at' now nodeId : Nat} {r : WorkloadReservation}
    {workloadReference : String} (hr : db.reservations.get? id = some r)
    (hact : r.computeNodeId = some nodeId → r.isActive at' = true) :
    (db.updateReservation id (·.consumed workloadReference now)).claimed at' nodeId
      ≤ db.claimed at' nodeId := by
  refine Table.sumWhere_modify_le fun r' hr' => ?_
  obtain rfl := Option.some.inj (hr'.symm.trans hr)
  have hon : (r'.consumed workloadReference now).isActive at' = true := by
    simp [WorkloadReservation.consumed, WorkloadReservation.isActive]
  have hnode : (r'.consumed workloadReference now).computeNodeId = r'.computeNodeId := rfl
  rw [claims, claims, hon, hnode]
  by_cases hn : r'.computeNodeId = some nodeId
  · simp [hn, hact hn, WorkloadReservation.consumed]
  · simp [hn]

theorem claimed_release (db : ComputeDb) (id at' now nodeId : Nat) :
    (db.updateReservation id (·.released now)).claimed at' nodeId ≤ db.claimed at' nodeId := by
  refine Table.sumWhere_modify_le fun r _ => ?_
  have hoff : claims nodeId at' id (r.released now) = false := by
    simp [claims, WorkloadReservation.released, WorkloadReservation.isActive]
  rw [hoff]
  exact zero_le

theorem claimed_expire (db : ComputeDb) (expiry at' nodeId : Nat) :
    (db.expire expiry).claimed at' nodeId ≤ db.claimed at' nodeId := by
  refine Table.sumWhere_updateWhere_le fun i r _ _ => ?_
  have hoff : claims nodeId at' i r.expired = false := by
    simp [claims, WorkloadReservation.expired, WorkloadReservation.isActive]
  rw [hoff]
  exact zero_le

end OnePloy
