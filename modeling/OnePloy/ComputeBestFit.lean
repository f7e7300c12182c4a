import Mathlib.Data.Prod.Lex
import Mathlib.Order.OrderDual
import OnePloy.ComputeServers

/-!
# The node a placement chooses

`reserve` scores the nodes with room and takes the one that sorts first under
`compareCandidates`. That comparison is a linear order on what a node is ranked
by: its load, its headroom the other way round, its id. So the node chosen is
the least of the admissible ones in whatever order the rows come
(`reserve_takes_least`).

Room is what a node has left, and a node that is claimed beyond its capacity has
nothing left of that resource, not less than nothing: a workload that asks for
none of it still fits (`overclaimed_node_is_chosen`).
-/

namespace OnePloy

open Conc

/-! ## The order of the candidates -/

/-- Load, then headroom the other way round, then the node. -/
abbrev PlacementRank := Nat ×ₗ Natᵒᵈ ×ₗ Nat

def placementRank (load headroom nodeId : Nat) : PlacementRank :=
  toLex (load, toLex (OrderDual.toDual headroom, nodeId))

def Candidate.rank (c : Candidate) : PlacementRank :=
  placementRank c.scores.loadBasisPoints c.scores.headroomBasisPoints c.nodeId

theorem placementRank_inj {load headroom nodeId load' headroom' nodeId' : Nat}
    (h : placementRank load headroom nodeId = placementRank load' headroom' nodeId') :
    load = load' ∧ headroom = headroom' ∧ nodeId = nodeId' := by
  obtain ⟨hload, hrest⟩ := Prod.mk.inj (toLex.injective h)
  obtain ⟨hheadroom, hnode⟩ := Prod.mk.inj (toLex.injective hrest)
  exact ⟨hload, OrderDual.toDual.injective hheadroom, hnode⟩

theorem compareCandidates_ne_gt (l r : Candidate) :
    compareCandidates l r ≠ .gt ↔ l.rank ≤ r.rank := by
  have hgt : compareCandidates l r = .gt ↔ r.rank < l.rank := by
    rw [Candidate.rank, Candidate.rank, placementRank, placementRank, Prod.Lex.toLex_lt_toLex,
      Prod.Lex.toLex_lt_toLex, OrderDual.toDual_lt_toDual, OrderDual.toDual.injective.eq_iff]
    simp only [compareCandidates, Ordering.then_eq_gt, Nat.compare_eq_gt, Nat.compare_eq_eq]
    rw [eq_comm (a := r.scores.loadBasisPoints), eq_comm (a := r.scores.headroomBasisPoints)]
  rw [ne_eq, hgt, not_lt]

instance : Std.Total fun l r : Candidate => compareCandidates l r ≠ .gt where
  total l r := by
    rw [compareCandidates_ne_gt, compareCandidates_ne_gt]
    exact le_total _ _

instance : IsTrans Candidate fun l r => compareCandidates l r ≠ .gt where
  trans a b c hab hbc := by
    rw [compareCandidates_ne_gt] at hab hbc ⊢
    exact le_trans hab hbc

theorem selectCandidate_le {candidates : List Candidate} {c : Candidate}
    (h : selectCandidate candidates = some c) : ∀ d ∈ candidates, c.rank ≤ d.rank := by
  intro d hd
  have hsorted := List.pairwise_insertionSort (fun l r => compareCandidates l r ≠ .gt) candidates
  have hmem := (List.mem_insertionSort fun l r => compareCandidates l r ≠ .gt).mpr hd
  obtain ⟨rest, hrest⟩ := List.head?_eq_some_iff.mp h
  rw [hrest] at hsorted hmem
  rcases List.mem_cons.mp hmem with rfl | hin
  · exact le_rfl
  · exact (compareCandidates_ne_gt ..).mp ((List.pairwise_cons.mp hsorted).1 d hin)

/-- Where a node occurs once, the selection is the candidate of least rank. -/
theorem selectCandidate_eq_some {candidates : List Candidate} {c : Candidate}
    (hone : ∀ d ∈ candidates, ∀ e ∈ candidates, d.nodeId = e.nodeId → d = e) :
    selectCandidate candidates = some c ↔
      c ∈ candidates ∧ ∀ d ∈ candidates, c.rank ≤ d.rank := by
  constructor
  · exact fun h => ⟨selectCandidate_mem h, selectCandidate_le h⟩
  · rintro ⟨hc, hleast⟩
    cases hsel : selectCandidate candidates with
    | none =>
        rw [selectCandidate, List.head?_eq_none_iff] at hsel
        have hmem := (List.mem_insertionSort fun l r => compareCandidates l r ≠ .gt).mpr hc
        rw [hsel] at hmem
        cases hmem
    | some d =>
        have hd := selectCandidate_mem hsel
        have heq := le_antisymm (hleast d hd) (selectCandidate_le hsel c hc)
        rw [hone d hd c hc (placementRank_inj heq).2.2.symm]

/-! ## The nodes with room -/

/-- The resources that `scoreCandidate` takes a ratio of. -/
def countedResources (capacity : ResourceVector) : List ComputeResource :=
  computeResources.filter fun r => decide (0 < capacity r)

def loadRatios (capacity claimed : ResourceVector) : List Nat :=
  (countedResources capacity).map fun r => claimed r * 10000 / capacity r

def headroomRatios (capacity claimed requirements : ResourceVector) : List Nat :=
  (countedResources capacity).map fun r =>
    (capacity r - claimed r - requirements r) * 10000 / capacity r

/-- The node is accepting, in an active managed pool of the region that supports
the class, its latest snapshot is complete and fresh, and what its claims leave
of each resource is at least the requirement. -/
structure ComputeDb.Admits (db : ComputeDb) (cfg : SchedulerConfig) (now : Nat)
    (req : PlacementRequest) (nodeId : Nat) (q : Nat × CapacitySnapshot) : Prop where
  accepting : ∃ node pool, db.nodes.get? nodeId = some node ∧ node.isDraining = false ∧
    node.lastProbeError = none ∧ db.pools.get? node.computePoolId = some pool ∧
    pool.isManaged = true ∧ pool.isActive = true ∧
    (∀ region, req.region = some region → pool.region = some region) ∧
    pool.supportsWorkloadClass req.workloadClass = true
  latest : db.latestCapacitySnapshot nodeId = some q
  complete : ∀ r, (q.2.available r).isSome = true
  fresh : now ≤ q.2.capturedAt + cfg.maximumSnapshotAge
  room : ∀ r, req.requirements.vector r ≤ q.2.availableResources r - db.claimed now nodeId r

def ComputeDb.rank (db : ComputeDb) (now : Nat) (req : PlacementRequest) (nodeId : Nat)
    (q : Nat × CapacitySnapshot) : PlacementRank :=
  placementRank
    ((loadRatios q.2.availableResources (db.claimed now nodeId)).max?.getD 0)
    ((headroomRatios q.2.availableResources (db.claimed now nodeId)
      req.requirements.vector).min?.getD 0)
    nodeId

/-- An admissible node has some of every resource asked for, so there are ratios,
and none has a zero below the line. -/
theorem ComputeDb.Admits.counted {db : ComputeDb} {cfg : SchedulerConfig} {now nodeId : Nat}
    {req : PlacementRequest} {q : Nat × CapacitySnapshot} (h : db.Admits cfg now req nodeId q) :
    countedResources q.2.availableResources ≠ [] ∧
      ∀ r ∈ countedResources q.2.availableResources, 0 < q.2.availableResources r := by
  have hcpu := req.requirements.positive .cpuMillis nofun
  have hroom := h.room .cpuMillis
  have hmem : ComputeResource.cpuMillis ∈ countedResources q.2.availableResources :=
    List.mem_filter.mpr ⟨mem_computeResources _, by rw [decide_eq_true_eq]; omega⟩
  refine ⟨List.ne_nil_of_mem hmem, fun r hr => ?_⟩
  simpa using (List.mem_filter.mp hr).2

/-! ## The candidates of a request -/

/-- The rows of `$activeReservations`. -/
def ComputeDb.activeReservations (db : ComputeDb) (now : Nat) (nodes : List Nat) :
    List (Nat × WorkloadReservation) :=
  db.reservations.select fun _ r => r.computeNodeId.any nodes.contains && r.isActive now

def claimedResourcesByNode (reservations : List (Nat × WorkloadReservation)) (nodeId : Nat) :
    ResourceVector :=
  ((reservations.filter fun q => q.2.computeNodeId == some nodeId).map fun q =>
    q.2.requested).sum

/-- The nodes of a request with a fresh snapshot, from the rows of the node query. -/
def ComputeDb.freshFor (db : ComputeDb) (cfg : SchedulerConfig) (now : Nat)
    (req : PlacementRequest) (nodeRows : List (Nat × ComputeNode)) :
    List (Nat × (Nat × CapacitySnapshot)) :=
  db.freshNodes cfg now
    ((nodeRows.filter fun q => db.supports req.workloadClass q.2).map Prod.fst)

/-- The selection of `reserve` from the rows of its two queries. -/
def ComputeDb.selection (db : ComputeDb) (cfg : SchedulerConfig) (now : Nat)
    (req : PlacementRequest) (nodeRows : List (Nat × ComputeNode))
    (reservationRows : List (Nat × WorkloadReservation)) : Option Candidate :=
  selectCandidate (candidates (db.freshFor cfg now req nodeRows) req.requirements.vector
    (claimedResourcesByNode reservationRows))

section Selection

variable {db : ComputeDb} {cfg : SchedulerConfig} {now : Nat} {req : PlacementRequest}
  {nodeRows : List (Nat × ComputeNode)} {reservationRows : List (Nat × WorkloadReservation)}

theorem mem_freshNodes {id : Nat} {nodes : List Nat} {q : Nat × CapacitySnapshot} :
    (id, q) ∈ db.freshNodes cfg now nodes ↔ id ∈ nodes ∧
      db.latestCapacitySnapshot id = some q ∧ q.2.hasCompleteCapacity = true ∧
      q.2.isFresh now cfg.maximumSnapshotAge = true := by
  constructor
  · intro h
    obtain ⟨j, hj, hq⟩ := List.mem_filterMap.mp h
    split at hq
    · cases hq
    · next p hp =>
        split at hq
        · next hok =>
            obtain ⟨rfl, rfl⟩ := Prod.mk.inj (Option.some.inj hq)
            exact ⟨hj, hp, Bool.and_eq_true_iff.mp hok⟩
        · cases hq
  · rintro ⟨hid, hlatest, hcomplete, hfresh⟩
    refine List.mem_filterMap.mpr ⟨id, hid, ?_⟩
    simp [hlatest, hcomplete, hfresh]

theorem acceptsWorkloads_iff {n : ComputeNode} :
    n.acceptsWorkloads = true ↔ n.isDraining = false ∧ n.lastProbeError = none := by
  rw [ComputeNode.acceptsWorkloads, Bool.and_eq_true, Bool.not_eq_true', Option.isNone_iff_eq_none]

theorem matchesRegion_iff {p : ComputePool} {region : Option String} :
    p.matchesRegion region = true ↔ p.isManaged = true ∧ p.isActive = true ∧
      ∀ name, region = some name → p.region = some name := by
  cases region with
  | none => simp [ComputePool.matchesRegion]
  | some name => simp [ComputePool.matchesRegion, and_assoc]

/-- A node is fresh for a request when everything but its room is in order. -/
theorem mem_freshFor (hrows : nodeRows.Perm (db.acceptingNodes req.region)) {id : Nat}
    {q : Nat × CapacitySnapshot} :
    (id, q) ∈ db.freshFor cfg now req nodeRows ↔
      (∃ node pool, db.nodes.get? id = some node ∧ node.isDraining = false ∧
        node.lastProbeError = none ∧ db.pools.get? node.computePoolId = some pool ∧
        pool.isManaged = true ∧ pool.isActive = true ∧
        (∀ region, req.region = some region → pool.region = some region) ∧
        pool.supportsWorkloadClass req.workloadClass = true) ∧
      db.latestCapacitySnapshot id = some q ∧ (∀ r, (q.2.available r).isSome = true) ∧
      now ≤ q.2.capturedAt + cfg.maximumSnapshotAge := by
  have hcomplete : q.2.hasCompleteCapacity = true ↔ ∀ r, (q.2.available r).isSome = true := by
    rw [CapacitySnapshot.hasCompleteCapacity, List.all_eq_true]
    exact ⟨fun h r => h r (mem_computeResources r), fun h r _ => h r⟩
  rw [ComputeDb.freshFor, mem_freshNodes, hcomplete, CapacitySnapshot.isFresh, decide_eq_true_eq]
  refine and_congr_left fun _ => ?_
  constructor
  · intro h
    obtain ⟨⟨j, node⟩, hmem, rfl⟩ := List.mem_map.mp h
    obtain ⟨hrow, hsupports⟩ := List.mem_filter.mp hmem
    obtain ⟨hnode, haccepts⟩ := Table.mem_select.mp (hrows.mem_iff.mp hrow)
    rw [Bool.and_eq_true, acceptsWorkloads_iff, Option.any_eq_true] at haccepts
    obtain ⟨⟨hdraining, herror⟩, pool, hpool, hregion⟩ := haccepts
    simp only [ComputeDb.supports, hpool, Option.any_some] at hsupports
    obtain ⟨hmanaged, hactive, hregion⟩ := matchesRegion_iff.mp hregion
    exact ⟨node, pool, hnode, hdraining, herror, hpool, hmanaged, hactive, hregion, hsupports⟩
  · rintro ⟨node, pool, hnode, hdraining, herror, hpool, hmanaged, hactive, hregion, hsupports⟩
    refine List.mem_map.mpr ⟨(id, node), List.mem_filter.mpr ⟨hrows.mem_iff.mpr ?_, ?_⟩, rfl⟩
    · refine Table.mem_select.mpr ⟨hnode, ?_⟩
      rw [Bool.and_eq_true, acceptsWorkloads_iff, hpool, Option.any_some]
      exact ⟨⟨hdraining, herror⟩, matchesRegion_iff.mpr ⟨hmanaged, hactive, hregion⟩⟩
    · simpa only [ComputeDb.supports, hpool, Option.any_some] using hsupports

/-- The rows of a fresh node's claims, in whatever order, add up to the claims. -/
theorem claimedResourcesByNode_eq {nodes : List Nat} {nodeId : Nat}
    (hrows : reservationRows.Perm (db.activeReservations now nodes)) (hnode : nodeId ∈ nodes) :
    claimedResourcesByNode reservationRows nodeId = db.claimed now nodeId := by
  refine ((hrows.filter _).map _).sum_eq.trans ?_
  rw [ComputeDb.claimed, Table.sumWhere, ComputeDb.activeReservations, Table.select, Table.select,
    List.filter_filter]
  congr 2
  refine List.filter_congr fun q _ => ?_
  rw [Bool.eq_iff_iff]
  simp only [claims, Bool.and_eq_true, beq_iff_eq]
  constructor
  · rintro ⟨hon, -, hact⟩
    exact ⟨hon, hact⟩
  · rintro ⟨hon, hact⟩
    refine ⟨hon, ?_, hact⟩
    rw [hon, Option.any_some]
    exact List.contains_iff_mem.mpr hnode

theorem scoreCandidate_rank {nodeId : Nat} {q : Nat × CapacitySnapshot} {c : Candidate}
    (h : scoreCandidate nodeId q req.requirements.vector (db.claimed now nodeId) = some c) :
    c.nodeId = nodeId ∧ c.rank = db.rank now req nodeId q := by
  simp only [scoreCandidate] at h
  split at h
  · cases h
  · obtain rfl := Option.some.inj h
    exact ⟨rfl, rfl⟩

theorem scoreCandidate_of_room {nodeId : Nat} {q : Nat × CapacitySnapshot}
    {requirements claimed : ResourceVector}
    (h : ∀ r, requirements r ≤ q.2.availableResources r - claimed r) :
    ∃ c, scoreCandidate nodeId q requirements claimed = some c := by
  refine ⟨_, if_neg ?_⟩
  rw [Bool.not_eq_true, List.any_eq_false]
  intro r _
  simpa using h r

/-- The candidates are the admissible nodes, each once, with their ranks. -/
theorem mem_candidates (hrows : nodeRows.Perm (db.acceptingNodes req.region))
    (hclaims : reservationRows.Perm
      (db.activeReservations now ((db.freshFor cfg now req nodeRows).map Prod.fst)))
    {c : Candidate} :
    c ∈ candidates (db.freshFor cfg now req nodeRows) req.requirements.vector
        (claimedResourcesByNode reservationRows) ↔
      ∃ q, db.Admits cfg now req c.nodeId q ∧ scoreCandidate c.nodeId q req.requirements.vector
        (db.claimed now c.nodeId) = some c := by
  rw [candidates, List.mem_filterMap]
  constructor
  · rintro ⟨⟨id, q⟩, hmem, hscore⟩
    have hid : id ∈ (db.freshFor cfg now req nodeRows).map Prod.fst := List.mem_map_of_mem hmem
    dsimp only at hscore
    rw [claimedResourcesByNode_eq hclaims hid] at hscore
    obtain ⟨hnode, -, -, hroom⟩ := scoreCandidate_some hscore
    obtain ⟨haccepting, hlatest, hcomplete, hfresh⟩ := (mem_freshFor hrows).mp hmem
    rw [hnode]
    exact ⟨q, ⟨haccepting, hlatest, hcomplete, hfresh, hroom⟩, hscore⟩
  · rintro ⟨q, hadmits, hscore⟩
    have hmem : (c.nodeId, q) ∈ db.freshFor cfg now req nodeRows := (mem_freshFor hrows).mpr
      ⟨hadmits.accepting, hadmits.latest, hadmits.complete, hadmits.fresh⟩
    have hid : c.nodeId ∈ (db.freshFor cfg now req nodeRows).map Prod.fst :=
      List.mem_map_of_mem hmem
    refine ⟨(c.nodeId, q), hmem, ?_⟩
    dsimp only
    rwa [claimedResourcesByNode_eq hclaims hid]

theorem selection_eq_some (hrows : nodeRows.Perm (db.acceptingNodes req.region))
    (hclaims : reservationRows.Perm
      (db.activeReservations now ((db.freshFor cfg now req nodeRows).map Prod.fst)))
    {c : Candidate} :
    db.selection cfg now req nodeRows reservationRows = some c ↔
      ∃ q, db.Admits cfg now req c.nodeId q ∧
        scoreCandidate c.nodeId q req.requirements.vector (db.claimed now c.nodeId) = some c ∧
        ∀ m p, db.Admits cfg now req m p → db.rank now req c.nodeId q ≤ db.rank now req m p := by
  rw [ComputeDb.selection, selectCandidate_eq_some, mem_candidates hrows hclaims]
  · constructor
    · rintro ⟨⟨q, hadmits, hscore⟩, hleast⟩
      refine ⟨q, hadmits, hscore, fun m p hm => ?_⟩
      obtain ⟨d, hd⟩ : ∃ d, scoreCandidate m p _ (db.claimed now m) = some d :=
        scoreCandidate_of_room hm.room
      obtain ⟨rfl, hrank⟩ := scoreCandidate_rank hd
      have hle := hleast d ((mem_candidates hrows hclaims).mpr ⟨p, hm, hd⟩)
      rwa [(scoreCandidate_rank hscore).2, hrank] at hle
    · rintro ⟨q, hadmits, hscore, hleast⟩
      refine ⟨⟨q, hadmits, hscore⟩, fun d hd => ?_⟩
      obtain ⟨p, hm, hd⟩ := (mem_candidates hrows hclaims).mp hd
      rw [(scoreCandidate_rank hscore).2, (scoreCandidate_rank hd).2]
      exact hleast d.nodeId p hm
  · intro d hd e he hnode
    obtain ⟨q, hq, hd⟩ := (mem_candidates hrows hclaims).mp hd
    obtain ⟨p, hp, he⟩ := (mem_candidates hrows hclaims).mp he
    rw [← hnode] at hp he
    obtain rfl := Option.some.inj (hq.latest.symm.trans hp.latest)
    exact Option.some.inj (hd.symm.trans he)

theorem selection_none (hrows : nodeRows.Perm (db.acceptingNodes req.region))
    (hclaims : reservationRows.Perm
      (db.activeReservations now ((db.freshFor cfg now req nodeRows).map Prod.fst)))
    (h : db.selection cfg now req nodeRows reservationRows = none) (n : Nat)
    (q : Nat × CapacitySnapshot) : ¬ db.Admits cfg now req n q := by
  intro hadmits
  obtain ⟨c, hc⟩ : ∃ c, scoreCandidate n q _ (db.claimed now n) = some c :=
    scoreCandidate_of_room hadmits.room
  obtain ⟨rfl, -⟩ := scoreCandidate_rank hc
  have hmem := (mem_candidates hrows hclaims).mpr ⟨q, hadmits, hc⟩
  rw [ComputeDb.selection, selectCandidate, List.head?_eq_none_iff] at h
  rw [← List.mem_insertionSort fun l r => compareCandidates l r ≠ .gt, h] at hmem
  cases hmem

/-- The node of the reservation that a call answers. -/
def placedNode : Except String (ComputeDb × Nat) → Option Nat
  | .ok (db', id) => (db'.reservations.get? id).bind (·.computeNodeId)
  | .error _ => none

theorem selection_rows (db : ComputeDb) (cfg : SchedulerConfig) (now : Nat)
    (req : PlacementRequest) (nodeRows : List (Nat × ComputeNode)) :
    db.selection cfg now req nodeRows
        (db.activeReservations now ((db.freshFor cfg now req nodeRows).map Prod.fst)) =
      selectCandidate (candidates (db.freshFor cfg now req nodeRows) req.requirements.vector
        (db.claimed now)) := by
  refine congrArg selectCandidate (List.filterMap_congr fun p hp => ?_)
  dsimp only
  rw [claimedResourcesByNode_eq (List.Perm.refl _) (List.mem_map_of_mem hp)]

variable (cfg now) in
/-- A new key of an active tenant: the answer is the selection, in whatever order
the rows came. -/
theorem reserve_fresh {team : Tenant} (hteam : db.teams.get? req.teamId = some team)
    (hactive : team.isTenantActive = true)
    (hnew : db.existing req.teamId req.idempotencyKey = none)
    (hrows : nodeRows.Perm (db.acceptingNodes req.region))
    (hclaims : reservationRows.Perm
      (db.activeReservations now ((db.freshFor cfg now req nodeRows).map Prod.fst))) :
    (∃ e, db.reserve cfg now req = .error e ∧
        db.selection cfg now req nodeRows reservationRows = none) ∨
      ∃ c, db.reserve cfg now req = .ok (db.place cfg now req c, db.reservations.nextId) ∧
        db.selection cfg now req nodeRows reservationRows = some c := by
  have hsame : db.selection cfg now req nodeRows reservationRows =
      selectCandidate (candidates (db.freshFor cfg now req (db.acceptingNodes req.region))
        req.requirements.vector (db.claimed now)) := by
    rw [← selection_rows]
    ext c
    rw [selection_eq_some hrows hclaims,
      selection_eq_some (List.Perm.refl _) (List.Perm.refl _)]
  rw [hsame]
  unfold ComputeDb.reserve ComputeDb.freshFor
  simp only [hteam, hnew, hactive, Bool.not_true, Bool.false_eq_true, if_false]
  split
  · next hnone =>
      refine .inl ⟨_, rfl, ?_⟩
      rw [List.isEmpty_iff.mp hnone]
      rfl
  · split
    · next hnone =>
        refine .inl ⟨_, rfl, ?_⟩
        rw [List.isEmpty_iff.mp hnone]
        rfl
    · split
      · next hnone => exact .inl ⟨_, rfl, hnone⟩
      · next c hc => exact .inr ⟨c, rfl, hc⟩

theorem placedNode_place (db : ComputeDb) (cfg : SchedulerConfig) (now : Nat)
    (req : PlacementRequest) (c : Candidate) :
    placedNode (.ok (db.place cfg now req c, db.reservations.nextId)) = some c.nodeId := by
  rw [placedNode, ComputeDb.place, Table.get?_insert_self]
  rfl

end Selection

/-! ## Best fit -/

section BestFit

variable {db : ComputeDb} {cfg : SchedulerConfig} {now : Nat} {req : PlacementRequest}
  {team : Tenant}

theorem placedNode_eq_some (hteam : db.teams.get? req.teamId = some team)
    (hactive : team.isTenantActive = true)
    (hnew : db.existing req.teamId req.idempotencyKey = none) (n : Nat) :
    placedNode (db.reserve cfg now req) = some n ↔ ∃ q, db.Admits cfg now req n q ∧
      ∀ m p, db.Admits cfg now req m p → m ≠ n → db.rank now req n q < db.rank now req m p := by
  have hleast : (∃ q, db.Admits cfg now req n q ∧ ∀ m p, db.Admits cfg now req m p → m ≠ n →
      db.rank now req n q < db.rank now req m p) ↔ ∃ c, c.nodeId = n ∧
        db.selection cfg now req (db.acceptingNodes req.region) (db.activeReservations now
          ((db.freshFor cfg now req (db.acceptingNodes req.region)).map Prod.fst)) = some c := by
    constructor
    · rintro ⟨q, hadmits, hleast⟩
      obtain ⟨c, hc⟩ : ∃ c, scoreCandidate n q _ (db.claimed now n) = some c :=
        scoreCandidate_of_room hadmits.room
      obtain ⟨rfl, -⟩ := scoreCandidate_rank hc
      refine ⟨c, rfl, (selection_eq_some (List.Perm.refl _) (List.Perm.refl _)).mpr
        ⟨q, hadmits, hc, fun m p hm => ?_⟩⟩
      by_cases hmn : m = c.nodeId
      · subst hmn
        rw [Option.some.inj (hadmits.latest.symm.trans hm.latest)]
      · exact (hleast m p hm hmn).le
    · rintro ⟨c, rfl, hc⟩
      obtain ⟨q, hadmits, -, hle⟩ :=
        (selection_eq_some (List.Perm.refl _) (List.Perm.refl _)).mp hc
      refine ⟨q, hadmits, fun m p hm hmn => lt_of_le_of_ne (hle m p hm) fun heq => ?_⟩
      exact hmn (placementRank_inj heq).2.2.symm
  rw [hleast]
  rcases reserve_fresh cfg now hteam hactive hnew (List.Perm.refl _) (List.Perm.refl _) with
    ⟨e, he, hnone⟩ | ⟨c, hok, hc⟩
  · rw [he, hnone]
    exact ⟨nofun, nofun⟩
  · rw [hok, hc, placedNode_place]
    constructor
    · intro h
      exact ⟨c, Option.some.inj h, rfl⟩
    · rintro ⟨d, rfl, hd⟩
      rw [Option.some.inj hd]

/-- A placement under a new key of an active team succeeds exactly if a node
admits it. It takes the one of least rank, in whatever order the rows come, and
there is a ratio for each of the nodes it compares. -/
theorem reserve_takes_least (hteam : db.teams.get? req.teamId = some team)
    (hactive : team.isTenantActive = true)
    (hnew : db.existing req.teamId req.idempotencyKey = none) :
    ((∃ db' id, db.reserve cfg now req = .ok (db', id)) ↔
      ∃ n q, db.Admits cfg now req n q) ∧
    (∀ n, placedNode (db.reserve cfg now req) = some n ↔ ∃ q, db.Admits cfg now req n q ∧
      ∀ m p, db.Admits cfg now req m p → m ≠ n →
        db.rank now req n q < db.rank now req m p) ∧
    (∀ nodeRows reservationRows, nodeRows.Perm (db.acceptingNodes req.region) →
      reservationRows.Perm
        (db.activeReservations now ((db.freshFor cfg now req nodeRows).map Prod.fst)) →
      (db.selection cfg now req nodeRows reservationRows).map (·.nodeId) =
        placedNode (db.reserve cfg now req)) ∧
    ∀ n q, db.Admits cfg now req n q →
      countedResources q.2.availableResources ≠ [] ∧
        ∀ r ∈ countedResources q.2.availableResources, 0 < q.2.availableResources r := by
  refine ⟨?_, placedNode_eq_some hteam hactive hnew, ?_, fun n q h => h.counted⟩
  · rcases reserve_fresh cfg now hteam hactive hnew (List.Perm.refl _) (List.Perm.refl _)
      with ⟨e, he, hnone⟩ | ⟨c, hok, hc⟩
    · rw [he]
      constructor
      · rintro ⟨_, _, h⟩
        cases h
      · rintro ⟨n, q, hadmits⟩
        exact absurd hadmits (selection_none (List.Perm.refl _) (List.Perm.refl _) hnone n q)
    · obtain ⟨q, hadmits, -⟩ :=
        (selection_eq_some (List.Perm.refl _) (List.Perm.refl _)).mp hc
      exact ⟨fun _ => ⟨c.nodeId, q, hadmits⟩, fun _ => ⟨_, _, hok⟩⟩
  · intro nodeRows reservationRows hrows hclaims
    rcases reserve_fresh cfg now hteam hactive hnew hrows hclaims with ⟨e, he, hnone⟩ | ⟨c, hok, hc⟩
    · rw [he, hnone]
      rfl
    · rw [hok, hc, placedNode_place]
      rfl

end BestFit

/-! ## A node that is claimed beyond its capacity -/

/-- A server with a number of GPUs. -/
def gpuServer (gpus : Nat) : Except ProbeFailure ProbeReport :=
  .ok { total := fun r => some (match r with
          | .cpuMillis => 10000
          | .memoryMb => 20480
          | .diskGb => 500
          | .gpu => gpus)
        rawIsArray := true }

def smallRequirements (gpus : Nat) (h : gpus ≤ maximumQuantity) : Requirements where
  vector r := if r = .gpu then gpus else 1
  positive r hr := by simp [hr]
  bounded r := by
    split
    · exact h
    · decide

def gpuWorkload : PlacementRequest :=
  ⟨1, "application", smallRequirements 8 (by decide), "with", none⟩

def plainWorkload : PlacementRequest :=
  ⟨1, "application", smallRequirements 0 (by decide), "without", none⟩

/-- Eight GPUs are claimed, and the next snapshot finds four. -/
def lostGpus : List ComputeAction :=
  [.register ⟨5, "a", "A", none, ["application"]⟩, .capture 1 (gpuServer 8),
   .reserve gpuWorkload, .capture 1 (gpuServer 4)]

theorem reserve_takes_least_lost_gpus :
    ∃ db : ComputeDb, ∃ now team, db.teams.get? 1 = some team ∧ team.isTenantActive = true ∧
      db.existing 1 "without" = none ∧ placedNode (db.reserve defaultConfig now plainWorkload) =
        some 1 ∧ ∃ q, db.Admits defaultConfig now plainWorkload 1 q := by
  obtain ⟨s, -, hs⟩ := exists_reaches_of_execIf (ComputeState.step defaultConfig) Any
    emptyCompute lostGpus
    (fun s => s.db.teams.get? 1 == some ⟨true⟩ && (s.db.existing 1 "without").isNone &&
      placedNode (s.db.reserve defaultConfig s.clock plainWorkload) == some 1)
    (by decide +kernel)
  simp only [Bool.and_eq_true, beq_iff_eq, Option.isNone_iff_eq_none] at hs
  obtain ⟨⟨hteam, hnew⟩, hplaced⟩ := hs
  obtain ⟨q, hadmits, -⟩ := ((reserve_takes_least hteam rfl hnew).2.1 1).mp hplaced
  exact ⟨s.db, s.clock, ⟨true⟩, hteam, rfl, hnew, hplaced, q, hadmits⟩

/-- A workload without GPUs goes to a node of whose GPUs, eight claimed out of
four, there are less than none: minus four is not at least zero. -/
theorem overclaimed_node_is_chosen :
    ∃ s, Reaches (ComputeState.step defaultConfig) Any emptyCompute s ∧
      s.db.teams.get? 1 = some ⟨true⟩ ∧ s.db.existing 1 "without" = none ∧
      (∃ db' id, s.db.reserve defaultConfig s.clock plainWorkload = .ok (db', id)) ∧
      ¬ ∃ n q, s.db.latestCapacitySnapshot n = some q ∧
        ∀ r, (plainWorkload.requirements.vector r : Int) ≤
          (q.2.availableResources r : Int) - s.db.claimed s.clock n r := by
  obtain ⟨s, hrun, hs⟩ := exists_reaches_of_execIf (ComputeState.step defaultConfig) Any
    emptyCompute lostGpus
    (fun s => s.db.teams.get? 1 == some ⟨true⟩ && (s.db.existing 1 "without").isNone &&
      (s.db.reserve defaultConfig s.clock plainWorkload).toBool &&
      s.db.snapshots.rows.all (fun p => p.2.computeNodeId == 1) &&
      (s.db.latestCapacitySnapshot 1).all fun q =>
        decide (q.2.availableResources .gpu < s.db.claimed s.clock 1 .gpu))
    (by decide +kernel)
  simp only [Bool.and_eq_true, beq_iff_eq, Option.isNone_iff_eq_none, List.all_eq_true] at hs
  obtain ⟨⟨⟨⟨hteam, hnew⟩, hok⟩, hnode⟩, hover⟩ := hs
  refine ⟨s, hrun, hteam, hnew, ?_, ?_⟩
  · cases h : s.db.reserve defaultConfig s.clock plainWorkload with
    | error e =>
        rw [h] at hok
        cases hok
    | ok p => exact ⟨p.1, p.2, rfl⟩
  · rintro ⟨n, q, hlatest, hroom⟩
    obtain ⟨hrow, hof⟩ := latestCapacitySnapshot_some hlatest
    obtain rfl : n = 1 := hof.symm.trans (hnode q (Table.mem_rows.mpr hrow))
    rw [hlatest, Option.all_some, decide_eq_true_eq] at hover
    have hgpu := hroom .gpu
    simp only [plainWorkload, smallRequirements, if_pos] at hgpu
    omega

end OnePloy
