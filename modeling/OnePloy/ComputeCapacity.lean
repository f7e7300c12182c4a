import OnePloy.ComputeRows

/-!
# Compute nodes and their capacity

`ManagedComputeNodeRegistrar` puts servers into pools, one node for each pool
and server; `ManagedComputeCapacityCollector` probes a node's server and
stores what may be allocated on it as a new snapshot of the node, or records
the failure. Each method is one function on the tables, with its arguments
already normalised.
-/

namespace OnePloy

open Conc

/-! ## The registrar -/

structure Registration where
  serverId : Nat
  poolSlug : String
  poolName : String
  region : Option String
  workloadClasses : List String

/-- The pool of a registration: updated if the slug is known, else created. -/
def ComputeDb.upsertPool (db : ComputeDb) (reg : Registration) : ComputeDb × Nat :=
  match db.pools.first? fun _ p => p.slug == reg.poolSlug with
  | some (id, _) =>
      ({ db with
        pools := db.pools.modify id fun p =>
          { p with
            name := reg.poolName
            region := reg.region
            workloadClasses := some reg.workloadClasses
            isManaged := true
            isActive := true } }, id)
  | none =>
      ({ db with
        pools := db.pools.insert {
          slug := reg.poolSlug
          name := reg.poolName
          region := reg.region
          workloadClasses := some reg.workloadClasses
          isManaged := true
          isActive := true } }, db.pools.nextId)

def newNode (poolId serverId : Nat) : ComputeNode where
  computePoolId := poolId
  serverId := serverId
  isDraining := false
  lastSeenAt := none
  lastProbeFailedAt := none
  lastProbeError := none
  consecutiveProbeFailures := 0

/-- `register`, as one transaction; the answer is the node's key. -/
def ComputeDb.register (db : ComputeDb) (reg : Registration) : ComputeDb × Nat :=
  let (db, poolId) := db.upsertPool reg
  match db.nodes.first? fun _ n => n.computePoolId == poolId && n.serverId == reg.serverId with
  | some (id, _) => (db, id)
  | none =>
      ({ db with nodes := db.nodes.insert (newNode poolId reg.serverId) }, db.nodes.nextId)

def ComputeNode.drained (isDraining : Bool) (n : ComputeNode) : ComputeNode :=
  { n with isDraining := isDraining }

def ComputeDb.nodeInPool (db : ComputeDb) (serverId : Nat) (poolSlug : String) :
    Option (Nat × ComputeNode) :=
  db.nodes.first? fun _ n => n.serverId == serverId &&
    (db.pools.get? n.computePoolId).any (·.slug == poolSlug)

/-- `setDraining`. -/
def ComputeDb.setDraining (db : ComputeDb) (serverId : Nat) (poolSlug : String)
    (isDraining : Bool) : Except String ComputeDb :=
  match db.nodeInPool serverId poolSlug with
  | none => .error "This server is not registered in the requested compute pool."
  | some (id, _) =>
      .ok { db with nodes := db.nodes.modify id (·.drained isDraining) }

/-! ## The collector -/

/-- What the probe returns: the integer metrics it has, and whether `raw` is an
array or missing. -/
structure ProbeReport where
  total : ComputeResource → Option Int
  rawIsArray : Bool

structure ProbeFailure where
  exception : String
  message : String

def metricError (report : ProbeReport) (r : ComputeResource) : Option String :=
  match report.total r with
  | none => some ("Capacity metric [" ++ r.key ++ "_total] must be an integer.")
  | some q =>
      if q < (if r = .gpu then 0 else 1) || (maximumQuantity : Int) < q then
        some ("Capacity metric [" ++ r.key ++ "_total] is outside the supported range.")
      else none

def validatedCapacity (report : ProbeReport) : Except String ResourceVector :=
  match computeResources.findSome? (metricError report) with
  | some e => .error e
  | none =>
      if !report.rawIsArray then .error "Raw capacity telemetry must be an array."
      else .ok fun r => ((report.total r).getD 0).toNat

def allocationPercent (cfg : SchedulerConfig) : Except String Nat :=
  let percent := cfg.capacityAllocationPercent
  if percent < 1 ∨ 100 < percent then
    .error "Managed capacity allocation percent must be between 1 and 100."
  else .ok percent.toNat

def systemReserve (cfg : SchedulerConfig) : Except String ResourceVector :=
  match [ComputeResource.cpuMillis, .memoryMb, .diskGb].find? fun r =>
      cfg.systemReserved r < 0 || (maximumQuantity : Int) < cfg.systemReserved r with
  | some r => .error ("Managed system reserve [" ++ r.key ++ "] is outside the supported range.")
  | none => .ok fun r => (cfg.systemReserved r).toNat

/-- What may be allocated of a server: its percentage less the system reserve,
and every GPU. -/
def allocatableCapacity (cfg : SchedulerConfig) (capacity : ResourceVector) :
    Except String ResourceVector := do
  let percent ← allocationPercent cfg
  let reserve ← systemReserve cfg
  .ok fun r => match r with
    | .gpu => capacity .gpu
    | r => capacity r * percent / 100 - reserve r

/-- The capacity that a probe's answer leads to. -/
def probedCapacity (cfg : SchedulerConfig) (report : ProbeReport) :
    Except String ResourceVector := do
  let capacity ← validatedCapacity report
  allocatableCapacity cfg capacity

def ComputeNode.probeFailed (now : Nat) (exception : String) (n : ComputeNode) : ComputeNode :=
  { n with
    lastProbeFailedAt := some now
    lastProbeError := some exception
    consecutiveProbeFailures := min 65535 (n.consecutiveProbeFailures + 1) }

def ComputeNode.probed (now : Nat) (n : ComputeNode) : ComputeNode :=
  { n with lastSeenAt := some now, lastProbeError := none, consecutiveProbeFailures := 0 }

def ComputeDb.recordFailure (db : ComputeDb) (now nodeId : Nat) (exception : String) :
    ComputeDb :=
  { db with nodes := db.nodes.modify nodeId (·.probeFailed now exception) }

/-- The snapshots of a node that `pruneSnapshots` keeps: the latest ones. -/
def ComputeDb.retainedIds (db : ComputeDb) (cfg : SchedulerConfig) (nodeId : Nat) : List Nat :=
  let sorted := (db.snapshots.select fun _ s => s.computeNodeId == nodeId).insertionSort
    fun p q => newerSnapshot p q
  (sorted.take (max 1 cfg.snapshotRetentionPerNode).toNat).map Prod.fst

def ComputeDb.pruneSnapshots (db : ComputeDb) (cfg : SchedulerConfig) (nodeId : Nat) :
    ComputeDb :=
  { db with
    snapshots := db.snapshots.deleteWhere fun i s =>
      s.computeNodeId == nodeId && !(db.retainedIds cfg nodeId).contains i }

def newSnapshot (now nodeId : Nat) (allocatable : ResourceVector) : CapacitySnapshot where
  computeNodeId := nodeId
  available r := some (allocatable r)
  capturedAt := now

/-- The transaction of `capture`. -/
def ComputeDb.recordCapacity (db : ComputeDb) (cfg : SchedulerConfig) (now nodeId : Nat)
    (allocatable : ResourceVector) : ComputeDb :=
  let db := { db with snapshots := db.snapshots.insert (newSnapshot now nodeId allocatable) }
  let db := { db with nodes := db.nodes.modify nodeId (·.probed now) }
  db.pruneSnapshots cfg nodeId

/-- `capture`: the new tables, and the snapshot's key or the exception. -/
def ComputeDb.capture (db : ComputeDb) (cfg : SchedulerConfig) (now nodeId : Nat)
    (probe : Except ProbeFailure ProbeReport) : ComputeDb × Except String Nat :=
  match probe with
  | .error failure =>
      (db.recordFailure now nodeId failure.exception, .error failure.message)
  | .ok report =>
      match probedCapacity cfg report with
      | .error message =>
          (db.recordFailure now nodeId "InvalidArgumentException", .error message)
      | .ok allocatable =>
          (db.recordCapacity cfg now nodeId allocatable, .ok db.snapshots.nextId)

/-! ## What they write -/

/-- A captured snapshot is complete, and available is what was allocatable. -/
theorem newSnapshot_complete (now nodeId : Nat) (allocatable : ResourceVector) :
    (newSnapshot now nodeId allocatable).hasCompleteCapacity = true ∧
      (newSnapshot now nodeId allocatable).availableResources = allocatable :=
  ⟨rfl, rfl⟩

/-- Tables whose reservations are those of `db`, and whose nodes are those of
`db`, on the same servers, with nodes of `serverId` perhaps added. -/
structure ComputeDb.Extends (db db' : ComputeDb) (serverId : Option Nat) : Prop where
  reservations : db'.reservations = db.reservations
  kept : ∀ i n, db.nodes.get? i = some n →
    ∃ n', db'.nodes.get? i = some n' ∧ n'.serverId = n.serverId
  old : ∀ i n', db'.nodes.get? i = some n' →
    (∃ n, db.nodes.get? i = some n ∧ n.serverId = n'.serverId) ∨
      (i = db.nodes.nextId ∧ serverId = some n'.serverId)

theorem extends_modify {db db' : ComputeDb} {id : Nat} {f : ComputeNode → ComputeNode}
    (hres : db'.reservations = db.reservations) (hnodes : db'.nodes = db.nodes.modify id f)
    (hf : ∀ n, (f n).serverId = n.serverId) : db.Extends db' none := by
  refine ⟨hres, fun i n hn => ?_, fun i n' hn' => ?_⟩
  · rw [hnodes, Table.get?_modify, hn]
    split
    · exact ⟨f n, rfl, hf n⟩
    · exact ⟨n, rfl, rfl⟩
  · rw [hnodes, Table.get?_modify] at hn'
    split at hn'
    · obtain ⟨n, hn, rfl⟩ := Option.map_eq_some_iff.mp hn'
      exact Or.inl ⟨n, hn, (hf n).symm⟩
    · exact Or.inl ⟨n', hn', rfl⟩

theorem upsertPool_frame (db : ComputeDb) (reg : Registration) :
    ∃ pools, (db.upsertPool reg).1 = { db with pools := pools } := by
  unfold ComputeDb.upsertPool
  split
  · exact ⟨_, rfl⟩
  · exact ⟨_, rfl⟩

/-- `register` adds at most one node, of the server it registers. -/
theorem register_extends (db : ComputeDb) (reg : Registration) :
    db.Extends (db.register reg).1 (some reg.serverId) ∧
      (db.register reg).1.snapshots = db.snapshots := by
  obtain ⟨pools, hpools⟩ := upsertPool_frame db reg
  simp only [ComputeDb.register, hpools]
  split
  · exact ⟨⟨rfl, fun i n hn => ⟨n, hn, rfl⟩, fun i n hn => Or.inl ⟨n, hn, rfl⟩⟩, rfl⟩
  · refine ⟨⟨rfl, fun i n hn => ⟨n, Table.get?_insert_of_some _ hn, rfl⟩, fun i n hn => ?_⟩, rfl⟩
    simp only [Table.get?_insert] at hn
    split at hn
    · next hi =>
        obtain rfl := Option.some.inj hn
        exact Or.inr ⟨hi, rfl⟩
    · exact Or.inl ⟨n, hn, rfl⟩

theorem setDraining_extends {db db' : ComputeDb} {serverId : Nat} {poolSlug : String}
    {isDraining : Bool} (h : db.setDraining serverId poolSlug isDraining = .ok db') :
    db.Extends db' none ∧ db'.snapshots = db.snapshots := by
  unfold ComputeDb.setDraining at h
  split at h
  · cases h
  · next id _ _ =>
      obtain rfl := Except.ok.inj h
      exact ⟨extends_modify (f := (·.drained isDraining)) rfl rfl fun _ => rfl, rfl⟩

/-- What `capture` wrote: a failure on the node, or a snapshot of what may be
allocated, and no other new snapshot. -/
theorem capture_cases (db : ComputeDb) (cfg : SchedulerConfig) (now nodeId : Nat)
    (probe : Except ProbeFailure ProbeReport) :
    db.Extends (db.capture cfg now nodeId probe).1 none ∧
    ((db.capture cfg now nodeId probe).1.snapshots = db.snapshots ∨
      ∃ report allocatable, probe = .ok report ∧ probedCapacity cfg report = .ok allocatable ∧
        ∀ i s, (db.capture cfg now nodeId probe).1.snapshots.get? i = some s →
          db.snapshots.get? i = some s ∨ s = newSnapshot now nodeId allocatable) := by
  cases probe with
  | error failure =>
      exact ⟨extends_modify (f := (·.probeFailed now failure.exception)) rfl rfl fun _ => rfl,
        Or.inl rfl⟩
  | ok report =>
      cases hc : probedCapacity cfg report with
      | error message =>
          simp only [ComputeDb.capture, hc]
          exact ⟨extends_modify (f := (·.probeFailed now "InvalidArgumentException")) rfl rfl
            fun _ => rfl, Or.inl rfl⟩
      | ok allocatable =>
          simp only [ComputeDb.capture, hc]
          refine ⟨extends_modify (f := (·.probed now)) rfl rfl fun _ => rfl,
            Or.inr ⟨report, allocatable, rfl, hc, fun i s hs => ?_⟩⟩
          have hins := (Table.get?_deleteWhere.mp hs).1
          rw [Table.get?_insert] at hins
          split at hins
          · exact Or.inr (Option.some.inj hins).symm
          · exact Or.inl hins

end OnePloy
