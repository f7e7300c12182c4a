import Mathlib.Algebra.Order.Pi
import Mathlib.Data.Fintype.Pi
import Mathlib.Data.List.Sort
import OnePloy.Lib.Attempt
import OnePloy.Lib.Table

/-!
# Managed compute: rows and scores

The tables of the managed compute scheduler (pools, nodes, capacity snapshots,
workload reservations and placement decisions), the resource vectors it adds
and compares, and the pure part of a placement: which nodes are eligible, what
a node's reservations claim, how a candidate is scored and which one wins.

A resource vector is a function on the four resource names, as the arrays of
the source are, so sums and comparisons of vectors are those of functions.
Times are whole seconds.
-/

namespace OnePloy

open Conc

/-! ## Resource vectors -/

inductive ComputeResource
  | cpuMillis | memoryMb | diskGb | gpu
deriving DecidableEq, Repr

def ComputeResource.key : ComputeResource → String
  | .cpuMillis => "cpu_millis"
  | .memoryMb => "memory_mb"
  | .diskGb => "disk_gb"
  | .gpu => "gpu"

/-- The resources in the order of the source's arrays. -/
def computeResources : List ComputeResource := [.cpuMillis, .memoryMb, .diskGb, .gpu]

theorem mem_computeResources (r : ComputeResource) : r ∈ computeResources := by
  cases r <;> decide

instance : Fintype ComputeResource where
  elems := {.cpuMillis, .memoryMb, .diskGb, .gpu}
  complete r := by cases r <;> decide

abbrev ResourceVector := ComputeResource → Nat

instance (v w : ResourceVector) : Decidable (v ≤ w) :=
  inferInstanceAs (Decidable (∀ r, v r ≤ w r))

def maximumQuantity : Nat := 4294967295

/-- What `validateRequirements` returns: at least one of everything but GPUs. -/
structure Requirements where
  vector : ResourceVector
  positive : ∀ r, r ≠ .gpu → 1 ≤ vector r
  bounded : ∀ r, vector r ≤ maximumQuantity

def validateRequirements (quantity : ComputeResource → Int) : Except String Requirements :=
  match hpos : [ComputeResource.cpuMillis, .memoryMb, .diskGb].find? fun r => quantity r < 1 with
  | some r => .error (r.key ++ " must be at least one.")
  | none =>
      if quantity .gpu < 0 then .error "gpu cannot be negative."
      else match hmax : computeResources.find? fun r => (maximumQuantity : Int) < quantity r with
        | some r => .error (r.key ++ " exceeds the supported maximum.")
        | none => .ok {
            vector := fun r => (quantity r).toNat
            positive := by
              intro r hr
              have hall := List.find?_eq_none.mp hpos
              have hr1 : ¬ quantity r < 1 := by
                cases r with
                | gpu => exact absurd rfl hr
                | _ => simpa using hall _ (by simp)
              omega
            bounded := by
              intro r
              have hmaxr := List.find?_eq_none.mp hmax r (mem_computeResources r)
              simp only [decide_eq_true_eq] at hmaxr
              omega }

/-! ## Rows -/

/-- What the scheduler reads of a team. -/
structure Tenant where
  isTenantActive : Bool
deriving DecidableEq, Repr

structure ComputePool where
  slug : String
  name : String
  region : Option String
  workloadClasses : Option (List String)
  isManaged : Bool
  isActive : Bool
deriving DecidableEq, Repr

structure ComputeNode where
  computePoolId : Nat
  serverId : Nat
  isDraining : Bool
  lastSeenAt : Option Nat
  lastProbeFailedAt : Option Nat
  lastProbeError : Option String
  consecutiveProbeFailures : Nat
deriving DecidableEq, Repr

structure CapacitySnapshot where
  computeNodeId : Nat
  available : ComputeResource → Option Nat
  capturedAt : Nat
deriving DecidableEq

inductive WorkloadStatus
  | reserved | consumed | released | expired
deriving DecidableEq, Repr

structure WorkloadReservation where
  computeNodeId : Option Nat
  teamId : Nat
  workloadClass : String
  status : WorkloadStatus
  idempotencyKey : String
  requested : ResourceVector
  workloadReference : Option String
  expiresAt : Option Nat
  consumedAt : Option Nat
  releasedAt : Option Nat
deriving DecidableEq

structure PlacementScores where
  loadBasisPoints : Nat
  headroomBasisPoints : Nat
  reserved : ResourceVector
  availableBefore : ResourceVector
  headroomAfter : ResourceVector
deriving DecidableEq

structure PlacementDecision where
  workloadReservationId : Nat
  computeNodeId : Nat
  region : Option String
  capacitySnapshotId : Nat
  capacityCapturedAt : Nat
  scores : PlacementScores
deriving DecidableEq

structure ComputeDb where
  teams : Table Tenant
  pools : Table ComputePool
  nodes : Table ComputeNode
  snapshots : Table CapacitySnapshot
  reservations : Table WorkloadReservation
  decisions : Table PlacementDecision

structure SchedulerConfig where
  capacitySnapshotMaxAgeSeconds : Int
  reservationTtlSeconds : Int
  capacityAllocationPercent : Int
  systemReserved : ComputeResource → Int
  snapshotRetentionPerNode : Int

/-- `max(1, (int) config('oneploy.scheduler.capacity_snapshot_max_age_seconds', 120))`. -/
def SchedulerConfig.maximumSnapshotAge (cfg : SchedulerConfig) : Nat :=
  (max 1 cfg.capacitySnapshotMaxAgeSeconds).toNat

def SchedulerConfig.reservationTtl (cfg : SchedulerConfig) : Nat :=
  (max 1 cfg.reservationTtlSeconds).toNat

/-! ## What the models say about a row -/

/-- `isActive`, and the condition of `scopeActive`. -/
def WorkloadReservation.isActive (r : WorkloadReservation) (at' : Nat) : Bool :=
  r.status == .consumed || (r.status == .reserved && match r.expiresAt with
    | none => true
    | some e => decide (at' < e))

def CapacitySnapshot.isFresh (s : CapacitySnapshot) (at' maximumAgeSeconds : Nat) : Bool :=
  decide (at' ≤ s.capturedAt + maximumAgeSeconds)

def CapacitySnapshot.hasCompleteCapacity (s : CapacitySnapshot) : Bool :=
  computeResources.all fun r => (s.available r).isSome

/-- The columns as integers; a null column counts as zero. -/
def CapacitySnapshot.availableResources (s : CapacitySnapshot) : ResourceVector :=
  fun r => (s.available r).getD 0

/-- `scopeAcceptingWorkloads`. -/
def ComputeNode.acceptsWorkloads (n : ComputeNode) : Bool :=
  !n.isDraining && n.lastProbeError.isNone

/-- `scopeActiveManaged`, in the region if one is asked for. -/
def ComputePool.matchesRegion (p : ComputePool) (region : Option String) : Bool :=
  p.isManaged && p.isActive && (region.isNone || p.region == region)

def ComputePool.supportsWorkloadClass (p : ComputePool) (workloadClass : String) : Bool :=
  match p.workloadClasses with
  | none => true
  | some classes => classes.contains workloadClass

/-- One of two snapshots of a node: the later capture, and of two captured at
once the higher key. -/
def newerSnapshot (p q : Nat × CapacitySnapshot) : Bool :=
  decide (q.2.capturedAt < p.2.capturedAt) ||
    (p.2.capturedAt == q.2.capturedAt && decide (q.1 < p.1))

def newestOf : List (Nat × CapacitySnapshot) → Option (Nat × CapacitySnapshot)
  | [] => none
  | q :: rest =>
      match newestOf rest with
      | none => some q
      | some p => if newerSnapshot q p then some q else some p

/-- `latestCapacitySnapshot`. -/
def ComputeDb.latestCapacitySnapshot (db : ComputeDb) (nodeId : Nat) :
    Option (Nat × CapacitySnapshot) :=
  newestOf (db.snapshots.select fun _ s => s.computeNodeId == nodeId)

/-- The active reservations of a node. -/
def claims (nodeId now : Nat) (_ : Nat) (r : WorkloadReservation) : Bool :=
  r.computeNodeId == some nodeId && r.isActive now

/-- What the active reservations of a node add up to. -/
def ComputeDb.claimed (db : ComputeDb) (now nodeId : Nat) : ResourceVector :=
  db.reservations.sumWhere (claims nodeId now) (·.requested)

/-! ## Candidates -/

structure Candidate where
  nodeId : Nat
  snapshotId : Nat
  snapshot : CapacitySnapshot
  scores : PlacementScores

/-- `scoreCandidate`: `none` where a requirement does not fit. -/
def scoreCandidate (nodeId : Nat) (snapshot : Nat × CapacitySnapshot)
    (requirements claimed : ResourceVector) : Option Candidate :=
  let capacity := snapshot.2.availableResources
  -- truncated subtraction is `max(0, $capacity - $claimed)`
  let availableBefore : ResourceVector := fun r => capacity r - claimed r
  if computeResources.any fun r => decide (availableBefore r < requirements r) then none
  else
    let headroomAfter : ResourceVector := fun r => availableBefore r - requirements r
    let counted := computeResources.filter fun r => decide (0 < capacity r)
    some {
      nodeId := nodeId
      snapshotId := snapshot.1
      snapshot := snapshot.2
      scores := {
        loadBasisPoints :=
          ((counted.map fun r => claimed r * 10000 / capacity r).max?).getD 0
        headroomBasisPoints :=
          ((counted.map fun r => headroomAfter r * 10000 / capacity r).min?).getD 0
        reserved := claimed
        availableBefore := availableBefore
        headroomAfter := headroomAfter } }

/-- `compareCandidates`: lowest load, then highest headroom, then node order. -/
def compareCandidates (left right : Candidate) : Ordering :=
  (compare left.scores.loadBasisPoints right.scores.loadBasisPoints).then
    ((compare right.scores.headroomBasisPoints left.scores.headroomBasisPoints).then
      (compare left.nodeId right.nodeId))

/-- The candidate that sorts first. -/
def selectCandidate (candidates : List Candidate) : Option Candidate :=
  (candidates.insertionSort fun l r => compareCandidates l r ≠ .gt).head?

/-! ## Facts about scores -/

theorem isActive_mono {r : WorkloadReservation} {now later : Nat} (hle : now ≤ later)
    (h : r.isActive later = true) : r.isActive now = true := by
  simp only [WorkloadReservation.isActive, Bool.or_eq_true, Bool.and_eq_true] at h ⊢
  rcases h with h | ⟨hs, he⟩
  · exact Or.inl h
  · refine Or.inr ⟨hs, ?_⟩
    split
    · rfl
    · next e heq =>
        simp only [heq, decide_eq_true_eq] at he ⊢
        omega

/-- Claims only lapse as time passes. -/
theorem claimed_anti (db : ComputeDb) {now later : Nat} (hle : now ≤ later) (nodeId : Nat) :
    db.claimed later nodeId ≤ db.claimed now nodeId := by
  refine Table.sumWhere_mono fun i r _ h => ?_
  simp only [claims, Bool.and_eq_true] at h ⊢
  exact ⟨h.1, isActive_mono hle h.2⟩

theorem newestOf_mem : ∀ {l : List (Nat × CapacitySnapshot)} {q : Nat × CapacitySnapshot},
    newestOf l = some q → q ∈ l
  | [], _, h => by cases h
  | p :: rest, q, h => by
      simp only [newestOf] at h
      split at h
      · rw [Option.some.inj h]
        exact List.mem_cons_self ..
      · next p' hp' =>
          split at h
          · rw [Option.some.inj h]
            exact List.mem_cons_self ..
          · rw [← Option.some.inj h]
            exact List.mem_cons_of_mem _ (newestOf_mem hp')

theorem latestCapacitySnapshot_some {db : ComputeDb} {nodeId : Nat}
    {q : Nat × CapacitySnapshot} (h : db.latestCapacitySnapshot nodeId = some q) :
    db.snapshots.get? q.1 = some q.2 ∧ q.2.computeNodeId = nodeId := by
  obtain ⟨hget, hp⟩ := Table.mem_select.mp (newestOf_mem h)
  exact ⟨hget, by simpa using hp⟩

/-- A candidate leaves room for the requirements next to the claims. -/
theorem scoreCandidate_some {nodeId : Nat} {snapshot : Nat × CapacitySnapshot}
    {requirements claimed : ResourceVector} {c : Candidate}
    (h : scoreCandidate nodeId snapshot requirements claimed = some c) :
    c.nodeId = nodeId ∧ c.snapshotId = snapshot.1 ∧ c.snapshot = snapshot.2 ∧
      ∀ r, requirements r ≤ snapshot.2.availableResources r - claimed r := by
  simp only [scoreCandidate] at h
  split at h
  · cases h
  · next hroom =>
      obtain rfl := Option.some.inj h
      refine ⟨rfl, rfl, rfl, fun r => ?_⟩
      simp only [List.any_eq_true, decide_eq_true_eq, not_exists, not_and, not_lt] at hroom
      exact hroom r (mem_computeResources r)

theorem selectCandidate_mem {candidates : List Candidate} {c : Candidate}
    (h : selectCandidate candidates = some c) : c ∈ candidates :=
  (List.perm_insertionSort _ _).mem_iff.mp (List.mem_of_head? h)

end OnePloy
