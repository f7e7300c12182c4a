import Mathlib.Algebra.Order.Monoid.Unbundled.Pow
import OnePloy.Lib.Reach
import OnePloy.ComputeCapacity
import OnePloy.ComputeScheduler

/-!
# Servers in several pools

A server is a node once for each pool it is registered in, every node gets its
own snapshot of the whole server, and `reserve` weighs a node's claims against
that node's snapshot alone. So what bounds the claims on a server is not its
capacity but its capacity for each of its nodes
(`claimedOnServer_le`): two pools sell one server twice
(`server_sold_twice`).

Here the transactions of registrar, collector and scheduler run one at a time.
`captured` remembers the allocatable capacities captured for each server, the
latest first; the results are about servers whose capacity never shrinks.
-/

namespace OnePloy

open Conc

/-! ## Runs -/

structure ComputeState where
  db : ComputeDb
  clock : Nat
  captured : List (Nat × ResourceVector)

inductive ComputeAction
  | reserve (req : PlacementRequest)
  | consume (teamId reservationId : Nat) (workloadReference : String)
  | release (teamId reservationId : Nat)
  | expire
  | register (reg : Registration)
  | setDraining (serverId : Nat) (poolSlug : String) (isDraining : Bool)
  | capture (nodeId : Nat) (probe : Except ProbeFailure ProbeReport)
  | pass (seconds : Nat)

/-- The capture that a probe of a node amounts to, if it succeeds. -/
def ComputeState.captureOf (s : ComputeState) (cfg : SchedulerConfig) (nodeId : Nat)
    (probe : Except ProbeFailure ProbeReport) : Option (Nat × ResourceVector) :=
  match s.db.nodes.get? nodeId, probe with
  | some n, .ok report =>
      match probedCapacity cfg report with
      | .ok allocatable => some (n.serverId, allocatable)
      | .error _ => none
  | _, _ => none

/-- The last captured capacity of a server. -/
def ComputeState.capacity (s : ComputeState) (serverId : Nat) : ResourceVector :=
  (s.captured.lookup serverId).getD 0

/-- The nodes that point at a server. -/
def ComputeState.nodesOf (s : ComputeState) (serverId : Nat) : List (Nat × ComputeNode) :=
  s.db.nodes.select fun _ n => n.serverId == serverId

/-- What the active reservations of a server's nodes add up to. -/
def ComputeState.claimedOnServer (s : ComputeState) (serverId : Nat) : ResourceVector :=
  ((s.nodesOf serverId).map fun q => s.db.claimed s.clock q.1).sum

/-- One transaction; one that fails leaves the tables as they were. -/
def ComputeState.step (cfg : SchedulerConfig) (s : ComputeState) :
    ComputeAction → Option ComputeState
  | .reserve req =>
      some { s with db := commit s.db ((s.db.reserve cfg s.clock req).map Prod.fst) }
  | .consume teamId id workloadReference =>
      some { s with db := commit s.db (s.db.consume s.clock teamId id workloadReference) }
  | .release teamId id =>
      some { s with db := commit s.db (s.db.release s.clock teamId id) }
  | .expire => some { s with db := s.db.expire s.clock }
  | .register reg => some { s with db := (s.db.register reg).1 }
  | .setDraining serverId poolSlug isDraining =>
      some { s with db := commit s.db (s.db.setDraining serverId poolSlug isDraining) }
  | .capture nodeId probe =>
      -- the node passed to `capture` is a row
      if (s.db.nodes.get? nodeId).isNone then none
      else some { s with
        db := (s.db.capture cfg s.clock nodeId probe).1
        captured := (s.captureOf cfg nodeId probe).toList ++ s.captured }
  | .pass seconds => some { s with clock := s.clock + seconds }

/-- No capture of the server is smaller, in any resource, than the one before. -/
def neverShrinks (cfg : SchedulerConfig) (serverId : Nat) (s : ComputeState) :
    ComputeAction → Bool
  | .capture nodeId probe =>
      match s.captureOf cfg nodeId probe with
      | some (server, allocatable) =>
          server != serverId || decide (s.capacity serverId ≤ allocatable)
      | none => true
  | _ => true

/-! ## The invariant -/

/-- Reservations and snapshots belong to nodes, and no node of the server has a
snapshot above the server's capacity, or claims above it. -/
structure Sold (serverId : Nat) (s : ComputeState) : Prop where
  nodeOfReservation : ∀ i r n, s.db.reservations.get? i = some r → r.computeNodeId = some n →
    ∃ node, s.db.nodes.get? n = some node
  nodeOfSnapshot : ∀ i q, s.db.snapshots.get? i = some q →
    ∃ node, s.db.nodes.get? q.computeNodeId = some node
  snapshot : ∀ i q node, s.db.snapshots.get? i = some q →
    s.db.nodes.get? q.computeNodeId = some node → node.serverId = serverId →
    q.availableResources ≤ s.capacity serverId
  claimed : ∀ n node, s.db.nodes.get? n = some node → node.serverId = serverId →
    s.db.claimed s.clock n ≤ s.capacity serverId

variable {cfg : SchedulerConfig} {serverId : Nat} {s s' : ComputeState}

/-- A change of the reservations that adds no claims. -/
theorem Sold.of_claimed_le {db' : ComputeDb} (h : Sold serverId s)
    (hnodes : db'.nodes = s.db.nodes) (hsnap : db'.snapshots = s.db.snapshots)
    (hres : ∀ i r n, db'.reservations.get? i = some r → r.computeNodeId = some n →
      ∃ j r', s.db.reservations.get? j = some r' ∧ r'.computeNodeId = some n)
    (hle : ∀ n, db'.claimed s.clock n ≤ s.db.claimed s.clock n) :
    Sold serverId { s with db := db' } where
  nodeOfReservation i r n hr hn := by
    obtain ⟨j, r', hr', hn'⟩ := hres i r n hr hn
    rw [show ({ s with db := db' } : ComputeState).db.nodes = s.db.nodes from hnodes]
    exact h.nodeOfReservation j r' n hr' hn'
  nodeOfSnapshot i q hq := by
    simp only [hsnap, hnodes] at hq ⊢
    exact h.nodeOfSnapshot i q hq
  snapshot i q node hq hn hs := by
    simp only [hsnap, hnodes] at hq hn
    exact h.snapshot i q node hq hn hs
  claimed n node hn hs := by
    simp only [hnodes] at hn
    exact le_trans (hle n) (h.claimed n node hn hs)

/-- Rewriting one reservation without moving it to another node. -/
theorem updateReservation_nodes {db : ComputeDb} {id : Nat}
    {f : WorkloadReservation → WorkloadReservation}
    (hf : ∀ r, (f r).computeNodeId = r.computeNodeId) :
    ∀ i r n, (db.updateReservation id f).reservations.get? i = some r →
      r.computeNodeId = some n →
      ∃ j r', db.reservations.get? j = some r' ∧ r'.computeNodeId = some n := by
  intro i r n hr hn
  rw [show (db.updateReservation id f).reservations.get? i = _ from Table.get?_modify ..] at hr
  split at hr
  · obtain ⟨r', hr', rfl⟩ := Option.map_eq_some_iff.mp hr
    exact ⟨i, r', hr', (hf r').symm.trans hn⟩
  · exact ⟨i, r, hr, hn⟩

theorem Sold.reserve {req : PlacementRequest} {db' : ComputeDb} {id : Nat}
    (h : Sold serverId s) (hres : s.db.reserve cfg s.clock req = .ok (db', id)) :
    Sold serverId { s with db := db' } := by
  rcases reserve_cases hres with ⟨rfl, -⟩ | ⟨-, -, -, c, node, hnode, hlatest, hroom, rfl⟩
  · exact h
  · refine ⟨fun i r n hr hn => ?_, h.nodeOfSnapshot, h.snapshot, fun n node' hn hs => ?_⟩
    · rw [show ({ s with db := s.db.place cfg s.clock req c } : ComputeState).db.reservations.get? i
        = _ from Table.get?_insert ..] at hr
      split at hr
      · obtain rfl := Option.some.inj hr
        obtain rfl := Option.some.inj hn
        exact ⟨node, hnode⟩
      · exact h.nodeOfReservation i r n hr hn
    · show (s.db.place cfg s.clock req c).claimed s.clock n ≤ s.capacity serverId
      rw [claimed_place]
      by_cases hc : n = c.nodeId
      · subst hc
        obtain ⟨hsnap, hof⟩ := latestCapacitySnapshot_some hlatest
        have hcap : c.snapshot.availableResources ≤ s.capacity serverId :=
          h.snapshot _ c.snapshot node' hsnap (hof ▸ hn) hs
        rw [if_pos rfl]
        intro r
        have hclaim : s.db.claimed s.clock c.nodeId r ≤ s.capacity serverId r :=
          h.claimed c.nodeId node' hn hs r
        have hr := hroom r
        have hcapr : c.snapshot.availableResources r ≤ s.capacity serverId r := hcap r
        simp only [Pi.add_apply]
        -- either the requirement is zero, or what it fits into was left over
        omega
      · rw [if_neg hc, add_zero]
        exact h.claimed n node' hn hs

theorem Sold.consume {teamId id : Nat} {workloadReference : String} {db' : ComputeDb}
    (h : Sold serverId s) (hok : s.db.consume s.clock teamId id workloadReference = .ok db') :
    Sold serverId { s with db := db' } := by
  rcases ComputeDb.consume_cases hok with rfl | ⟨r, hr, hact, rfl⟩
  · exact h
  · exact h.of_claimed_le rfl rfl (updateReservation_nodes fun _ => rfl)
      fun n => claimed_consume hr fun _ => hact

theorem Sold.release {teamId id : Nat} {db' : ComputeDb} (h : Sold serverId s)
    (hok : s.db.release s.clock teamId id = .ok db') : Sold serverId { s with db := db' } := by
  rcases ComputeDb.release_cases hok with rfl | rfl
  · exact h
  · exact h.of_claimed_le rfl rfl (updateReservation_nodes fun _ => rfl)
      fun n => claimed_release _ _ _ _ n

theorem Sold.expire (h : Sold serverId s) :
    Sold serverId { s with db := s.db.expire s.clock } := by
  refine h.of_claimed_le rfl rfl (fun i r n hr hn => ?_) fun n => claimed_expire _ _ _ n
  rw [show (s.db.expire s.clock).reservations.get? i = _ from Table.get?_updateWhere ..] at hr
  obtain ⟨r', hr', rfl⟩ := Option.map_eq_some_iff.mp hr
  refine ⟨i, r', hr', ?_⟩
  split at hn
  · exact hn
  · exact hn

/-- Registrar and collector: new nodes start without claims, and a new snapshot
is no smaller than the last. -/
theorem Sold.extend {db' : ComputeDb} {server : Option Nat}
    {captured : List (Nat × ResourceVector)} (h : Sold serverId s)
    (hext : s.db.Extends db' server)
    (hcap : s.capacity serverId ≤
      ({ s with db := db', captured := captured } : ComputeState).capacity serverId)
    (hsnap : ∀ i q, db'.snapshots.get? i = some q → s.db.snapshots.get? i = some q ∨
      ∃ node, s.db.nodes.get? q.computeNodeId = some node ∧ (node.serverId = serverId →
        q.availableResources ≤
          ({ s with db := db', captured := captured } : ComputeState).capacity serverId)) :
    Sold serverId { s with db := db', captured := captured } := by
  have hclaimed : ∀ n, db'.claimed s.clock n = s.db.claimed s.clock n := fun n => by
    rw [ComputeDb.claimed, hext.reservations]
    rfl
  refine ⟨fun i r n hr hn => ?_, fun i q hq => ?_, fun i q node hq hn hs => ?_,
    fun n node hn hs => ?_⟩
  · simp only [hext.reservations] at hr
    obtain ⟨node, hnode⟩ := h.nodeOfReservation i r n hr hn
    obtain ⟨node', hnode', -⟩ := hext.kept n node hnode
    exact ⟨node', hnode'⟩
  · have hold : ∃ node, s.db.nodes.get? q.computeNodeId = some node := by
      rcases hsnap i q hq with hq | ⟨node, hn, -⟩
      · exact h.nodeOfSnapshot i q hq
      · exact ⟨node, hn⟩
    obtain ⟨node, hn⟩ := hold
    obtain ⟨node', hn', -⟩ := hext.kept _ node hn
    exact ⟨node', hn'⟩
  · rcases hsnap i q hq with hq | ⟨old, hold, hle⟩
    · obtain ⟨old, hold⟩ := h.nodeOfSnapshot i q hq
      obtain ⟨node', hn', hserver⟩ := hext.kept _ old hold
      obtain rfl := Option.some.inj (hn'.symm.trans hn)
      exact le_trans (h.snapshot i q old hq hold (hserver ▸ hs)) hcap
    · obtain ⟨node', hn', hserver⟩ := hext.kept _ old hold
      obtain rfl := Option.some.inj (hn'.symm.trans hn)
      exact hle (hserver ▸ hs)
  · show db'.claimed s.clock n ≤ _
    rw [hclaimed]
    rcases hext.old n node hn with ⟨old, hold, hserver⟩ | ⟨rfl, -⟩
    · exact le_trans (h.claimed n old hold (hserver.trans hs)) hcap
    · have hnone : s.db.claimed s.clock s.db.nodes.nextId = 0 := by
        refine Table.sumWhere_eq_zero fun i r hr => ?_
        by_contra hc
        rw [Bool.not_eq_false, claims, Bool.and_eq_true, beq_iff_eq] at hc
        obtain ⟨node', hnode'⟩ := h.nodeOfReservation i r _ hr hc.1
        rw [Table.get?_nextId] at hnode'
        cases hnode'
      rw [hnone]
      exact zero_le

theorem Sold.capture {nodeId : Nat} {probe : Except ProbeFailure ProbeReport}
    {node : ComputeNode} (h : Sold serverId s) (hnode : s.db.nodes.get? nodeId = some node)
    (hok : neverShrinks cfg serverId s (.capture nodeId probe) = true) :
    Sold serverId { s with
      db := (s.db.capture cfg s.clock nodeId probe).1
      captured := (s.captureOf cfg nodeId probe).toList ++ s.captured } := by
  obtain ⟨hext, hsnap⟩ := capture_cases s.db cfg s.clock nodeId probe
  -- the capacity before and after, for this server
  have hcap : s.capacity serverId ≤ ((s.captureOf cfg nodeId probe).toList ++
      s.captured |>.lookup serverId).getD 0 := by
    cases hc : s.captureOf cfg nodeId probe with
    | none => exact le_rfl
    | some q =>
        obtain ⟨server, allocatable⟩ := q
        simp only [neverShrinks, hc, Bool.or_eq_true, bne_iff_ne, ne_eq, decide_eq_true_eq] at hok
        by_cases hs : server = serverId
        · subst hs
          simpa using hok.resolve_left (not_not.mpr rfl)
        · have hne : (serverId == server) = false := by simpa using Ne.symm hs
          simp only [Option.toList_some, List.singleton_append, List.lookup_cons, hne]
          exact le_rfl
  refine h.extend hext hcap fun i q hq => ?_
  rcases hsnap with hsame | ⟨report, allocatable, rfl, hprobed, hnew⟩
  · exact Or.inl (hsame ▸ hq)
  · rcases hnew i q hq with hold | rfl
    · exact Or.inl hold
    · refine Or.inr ⟨node, hnode, fun hs => ?_⟩
      simp [ComputeState.capacity, ComputeState.captureOf, hnode, hprobed, ← hs,
        (newSnapshot_complete ..).2]

theorem Sold.step {a : ComputeAction} (h : Sold serverId s)
    (hok : neverShrinks cfg serverId s a = true) (hst : s.step cfg a = some s') :
    Sold serverId s' := by
  cases a with
  | reserve req =>
      obtain rfl := Option.some.inj hst
      cases hres : s.db.reserve cfg s.clock req with
      | error e => exact h
      | ok q => exact h.reserve hres
  | consume teamId id workloadReference =>
      obtain rfl := Option.some.inj hst
      cases hres : s.db.consume s.clock teamId id workloadReference with
      | error e => exact h
      | ok db' => exact h.consume hres
  | release teamId id =>
      obtain rfl := Option.some.inj hst
      cases hres : s.db.release s.clock teamId id with
      | error e => exact h
      | ok db' => exact h.release hres
  | expire =>
      obtain rfl := Option.some.inj hst
      exact h.expire
  | register reg =>
      obtain rfl := Option.some.inj hst
      obtain ⟨hext, hsnap⟩ := register_extends s.db reg
      exact h.extend hext le_rfl fun i q hq => Or.inl (hsnap ▸ hq)
  | setDraining server poolSlug isDraining =>
      obtain rfl := Option.some.inj hst
      cases hres : s.db.setDraining server poolSlug isDraining with
      | error e => exact h
      | ok db' =>
          obtain ⟨hext, hsnap⟩ := setDraining_extends hres
          exact h.extend hext le_rfl fun i q hq => Or.inl (hsnap ▸ hq)
  | capture nodeId probe =>
      simp only [ComputeState.step] at hst
      split at hst
      · cases hst
      · next hsome =>
          obtain rfl := Option.some.inj hst
          obtain ⟨node, hnode⟩ :=
            Option.ne_none_iff_exists'.mp (mt Option.isNone_iff_eq_none.mpr hsome)
          exact h.capture hnode hok
  | pass seconds =>
      obtain rfl := Option.some.inj hst
      exact ⟨h.nodeOfReservation, h.nodeOfSnapshot, h.snapshot, fun n node hn hs =>
        le_trans (claimed_anti s.db (Nat.le_add_right ..) n) (h.claimed n node hn hs)⟩

/-- From a platform without snapshots and reservations, whatever its pools and
nodes: the claims on a server whose captured capacity never shrinks stay within
its capacity for each node that points at it, and so within its capacity if it
is registered in one pool only. -/
theorem claimedOnServer_le (hres : s.db.reservations = .empty) (hsnap : s.db.snapshots = .empty)
    (hrun : Reaches (ComputeState.step cfg) (fun s a => neverShrinks cfg serverId s a = true)
      s s') :
    s'.claimedOnServer serverId ≤ (s'.nodesOf serverId).length • s'.capacity serverId ∧
      ((s'.nodesOf serverId).length ≤ 1 →
        s'.claimedOnServer serverId ≤ s'.capacity serverId) := by
  have hinit : Sold serverId s := by
    refine ⟨fun i r n hr _ => ?_, fun i q hq => ?_, fun i q node hq _ _ => ?_,
      fun n node _ _ => ?_⟩
    · rw [hres, Table.get?_empty] at hr
      cases hr
    · rw [hsnap, Table.get?_empty] at hq
      cases hq
    · rw [hsnap, Table.get?_empty] at hq
      cases hq
    · rw [ComputeDb.claimed, hres]
      exact zero_le
  have hsold : Sold serverId s' :=
    hrun.invariant (fun _ _ _ h hok hst => h.step hok hst) hinit
  have hle : s'.claimedOnServer serverId
      ≤ (s'.nodesOf serverId).length • s'.capacity serverId := by
    refine le_trans (List.sum_le_card_nsmul _ (s'.capacity serverId) ?_) (by simp)
    intro v hv
    obtain ⟨⟨n, node⟩, hmem, rfl⟩ := List.mem_map.mp hv
    obtain ⟨hn, hs⟩ := Table.mem_select.mp hmem
    exact hsold.claimed n node hn (by simpa using hs)
  refine ⟨hle, fun hone => le_trans hle ?_⟩
  calc (s'.nodesOf serverId).length • s'.capacity serverId
      ≤ 1 • s'.capacity serverId := nsmul_le_nsmul_left zero_le hone
    _ = s'.capacity serverId := one_nsmul _

/-! ## One server, two pools -/

/-- The defaults of `config/oneploy.php`. -/
def defaultConfig : SchedulerConfig where
  capacitySnapshotMaxAgeSeconds := 120
  reservationTtlSeconds := 300
  capacityAllocationPercent := 80
  systemReserved
    | .cpuMillis => 500
    | .memoryMb => 1024
    | .diskGb => 20
    | .gpu => 0
  snapshotRetentionPerNode := 120

/-- An active tenant and no compute. -/
def emptyCompute : ComputeState where
  db := {
    teams := Table.empty.insert ⟨true⟩
    pools := .empty
    nodes := .empty
    snapshots := .empty
    reservations := .empty
    decisions := .empty }
  clock := 0
  captured := []

/-- A server of which 500 millicores, 1024 MB and 20 GB may be allocated. -/
def smallServer : Except ProbeFailure ProbeReport :=
  .ok { total := fun r => some (match r with
          | .cpuMillis => 1250
          | .memoryMb => 2560
          | .diskGb => 50
          | .gpu => 0)
        rawIsArray := true }

def wholeServer : Requirements where
  vector
    | .cpuMillis => 500
    | .memoryMb => 1024
    | .diskGb => 20
    | .gpu => 0
  positive r hr := by cases r <;> first | decide | exact absurd rfl hr
  bounded r := by cases r <;> decide

/-- Server 5 registered and captured in two pools, and then reserved twice. -/
def twoPools : List ComputeAction :=
  [.register ⟨5, "a", "A", none, ["application"]⟩,
   .register ⟨5, "b", "B", none, ["application"]⟩,
   .capture 1 smallServer, .capture 2 smallServer,
   .reserve ⟨1, "application", wholeServer, "first", none⟩,
   .reserve ⟨1, "application", wholeServer, "second", none⟩]

theorem claimedOnServer_le_two_pools :
    ∃ s', Reaches (ComputeState.step defaultConfig)
        (fun s a => neverShrinks defaultConfig 5 s a = true) emptyCompute s' ∧
      s'.claimedOnServer 5 .cpuMillis = 1000 ∧
      s'.claimedOnServer 5 ≤ (s'.nodesOf 5).length • s'.capacity 5 ∧
      ((s'.nodesOf 5).length ≤ 1 → s'.claimedOnServer 5 ≤ s'.capacity 5) := by
  obtain ⟨s', hrun, hclaimed⟩ := exists_reaches_of_execIf (ComputeState.step defaultConfig)
    (fun s a => neverShrinks defaultConfig 5 s a = true) emptyCompute twoPools
    (fun s => s.claimedOnServer 5 .cpuMillis == 1000) (by decide +kernel)
  exact ⟨s', hrun, by simpa using hclaimed, claimedOnServer_le rfl rfl hrun⟩

/-- The claims on a server can exceed its capacity although that never shrank. -/
theorem server_sold_twice :
    ¬ ∀ (cfg : SchedulerConfig) (serverId : Nat) (s s' : ComputeState),
      s.db.reservations = .empty → s.db.snapshots = .empty → s.captured = [] →
      Reaches (ComputeState.step cfg) (fun s a => neverShrinks cfg serverId s a = true) s s' →
      s'.claimedOnServer serverId ≤ s'.capacity serverId := by
  intro h
  obtain ⟨s', hrun, hclaimed⟩ := exists_reaches_of_execIf (ComputeState.step defaultConfig)
    (fun s a => neverShrinks defaultConfig 5 s a = true) emptyCompute twoPools
    (fun s => s.claimedOnServer 5 .cpuMillis == 1000 && s.capacity 5 .cpuMillis == 500)
    (by decide +kernel)
  simp only [Bool.and_eq_true, beq_iff_eq] at hclaimed
  have hle : s'.claimedOnServer 5 .cpuMillis ≤ s'.capacity 5 .cpuMillis :=
    h defaultConfig 5 emptyCompute s' rfl rfl rfl hrun .cpuMillis
  omega

end OnePloy
