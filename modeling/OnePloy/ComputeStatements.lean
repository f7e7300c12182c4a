import OnePloy.Lib.Interleave
import OnePloy.ComputeCapacity
import OnePloy.ComputeScheduler

/-!
# The scheduler, statement by statement

`reserve`, `consume` and `release` as sequences of statements with the row
locks they take. `reserve` locks the team, the accepting nodes one by one in
id order, their latest snapshots, and then the active reservations of the
fresh nodes one by one; it reads the clock once, before the nodes. `consume`
and `release` lock the team and the reservation. A locked row is read again as
it then is; which rows a statement goes for is settled when it starts.

Left alone, the statements compute what `ComputeScheduler` computes in one go
(`reserve_alone`, `ending_alone`).

`expire` is one statement, and registrar, collector and team administration
are the environment. `placements` remembers every committed placement, the
latest first, with the clock its `reserve` read and the capacity it used.
-/

namespace OnePloy

open Conc

/-! ## States -/

/-- A committed placement. -/
structure Placement where
  nodeId : Nat
  now : Nat
  capacity : ResourceVector

structure ComputeStore where
  db : ComputeDb
  clock : Nat
  placements : List Placement

/-- A row that a transaction can lock. -/
inductive ComputeRow
  | team (id : Nat)
  | node (id : Nat)
  | snapshot (id : Nat)
  | reservation (id : Nat)
deriving DecidableEq

inductive Ending
  | consume (workloadReference : String)
  | release

/-- How far a call has come. In `scanning`, `todo` are the reservations still
to be locked and `got` those locked so far, as they were read. -/
inductive Scheduling
  | reserving (req : PlacementRequest)
  | teamLocked (req : PlacementRequest) (tenant : Tenant)
  | admitted (req : PlacementRequest) (now : Nat)
  | lockingNodes (req : PlacementRequest) (now : Nat) (todo : List Nat)
      (nodes : List (Nat × ComputeNode))
  | poolsLoaded (req : PlacementRequest) (now : Nat) (nodes eligible : List Nat)
  | snapshotsLocked (req : PlacementRequest) (now : Nat) (locked : List ComputeRow)
      (fresh : List (Nat × (Nat × CapacitySnapshot)))
  | scanning (req : PlacementRequest) (now : Nat) (locked : List ComputeRow)
      (fresh : List (Nat × (Nat × CapacitySnapshot))) (todo : List Nat)
      (got : List (Nat × WorkloadReservation))
  | ending (e : Ending) (teamId id : Nat)
  | endingTeamLocked (e : Ending) (teamId id : Nat)
  | endingLocked (e : Ending) (teamId id : Nat)
  | done

/-- A process takes its next statement, or dies. -/
inductive Turn
  | next | crash

/-! ## The statements -/

/-- The order of the scan: by node, then by id. -/
def scanBefore (p q : Nat × WorkloadReservation) : Prop :=
  p.2.computeNodeId.getD 0 < q.2.computeNodeId.getD 0 ∨
    (p.2.computeNodeId.getD 0 = q.2.computeNodeId.getD 0 ∧ p.1 ≤ q.1)

instance : DecidableRel scanBefore := fun _ _ => inferInstanceAs (Decidable (_ ∨ _))

/-- The condition of the scan. -/
def onFresh (fresh : List (Nat × (Nat × CapacitySnapshot))) (now i : Nat)
    (r : WorkloadReservation) : Bool :=
  fresh.any fun q => claims q.1 now i r

def ComputeDb.scanIds (db : ComputeDb) (fresh : List (Nat × (Nat × CapacitySnapshot)))
    (now : Nat) : List Nat :=
  ((db.reservations.select (onFresh fresh now)).insertionSort scanBefore).map Prod.fst

/-- `claimedResourcesByNode`. -/
def claimedResources (got : List (Nat × WorkloadReservation)) (nodeId : Nat) : ResourceVector :=
  ((got.filter fun q => q.2.computeNodeId == some nodeId).map fun q => q.2.requested).sum

/-- The snapshot rows that the eager load locks. -/
def ComputeDb.snapshotRows (db : ComputeDb) (nodes : List Nat) : List ComputeRow :=
  nodes.filterMap fun n => (db.latestCapacitySnapshot n).map fun q => .snapshot q.1

/-- The decision on the locked reservation. -/
def ComputeStore.lockEnding (s : ComputeStore) (e : Ending) (teamId id : Nat) : Scheduling :=
  match s.db.lockReservationForTeam teamId id with
  | .error _ => .done
  | .ok r =>
      match e with
      | .consume workloadReference =>
          match r.checkConsume s.clock workloadReference with
          | .ok true => .endingLocked e teamId id
          | .ok false => .done
          | .error _ => .done
      | .release => if r.checkRelease then .endingLocked e teamId id else .done

/-- The update on the locked reservation. -/
def ComputeStore.endReservation (s : ComputeStore) (teamId id : Nat) : Ending → ComputeStore
  | .consume workloadReference =>
      if s.db.referenceTaken teamId id workloadReference then s
      else { s with db := s.db.updateReservation id (·.consumed workloadReference s.clock) }
  | .release => { s with db := s.db.updateReservation id (·.released s.clock) }

/-- The choice on what was locked, and the inserts. -/
def ComputeStore.placeSelected (s : ComputeStore) (cfg : SchedulerConfig)
    (req : PlacementRequest) (now : Nat) (selected : Option Candidate) : ComputeStore :=
  match selected with
  | none => s
  | some c => { s with
      db := s.db.place cfg now req c
      placements := ⟨c.nodeId, now, c.snapshot.availableResources⟩ :: s.placements }

/-- One statement. An exception or a crash rolls the open transaction back;
each transaction writes in its last statement only. -/
def Scheduling.stmt (cfg : SchedulerConfig) (s : ComputeStore) :
    Scheduling → Turn → Option (ComputeStore × Scheduling)
  | .done, _ => none
  | _, .crash => some (s, .done)
  | .reserving req, .next =>
      some (s, match s.db.teams.get? req.teamId with
        | none => .done
        | some tenant => .teamLocked req tenant)
  | .teamLocked req tenant, .next =>
      -- a retry answers or throws, and ends either way
      some (s, match s.db.existing req.teamId req.idempotencyKey with
        | some _ => .done
        | none => if tenant.isTenantActive then .admitted req s.clock else .done)
  | .admitted req now, .next =>
      some (s, .lockingNodes req now ((s.db.acceptingNodes req.region).map Prod.fst) [])
  | .lockingNodes req now (n :: todo) nodes, .next =>
      some (s, .lockingNodes req now todo (match s.db.nodes.get? n with
        | none => nodes
        | some node => if node.acceptsWorkloads then nodes ++ [(n, node)] else nodes))
  | .lockingNodes req now [] nodes, .next =>
      some (s, .poolsLoaded req now (nodes.map Prod.fst)
        ((nodes.filter fun q => s.db.supports req.workloadClass q.2).map Prod.fst))
  | .poolsLoaded req now nodes eligible, .next =>
      let fresh := s.db.freshNodes cfg now eligible
      some (s, if fresh.isEmpty then .done
        else .snapshotsLocked req now
          (.team req.teamId :: nodes.map .node ++ s.db.snapshotRows nodes) fresh)
  | .snapshotsLocked req now locked fresh, .next =>
      some (s, .scanning req now locked fresh (s.db.scanIds fresh now) [])
  | .scanning req now locked fresh (id :: todo) got, .next =>
      some (s, .scanning req now locked fresh todo (match s.db.reservations.get? id with
        | none => got
        | some r => if onFresh fresh now id r then got ++ [(id, r)] else got))
  | .scanning req now _ fresh [] got, .next =>
      some (s.placeSelected cfg req now
        (selectCandidate (candidates fresh req.requirements.vector (claimedResources got))), .done)
  | .ending e teamId id, .next =>
      some (s, match s.db.teams.get? teamId with
        | none => .done
        | some _ => .endingTeamLocked e teamId id)
  | .endingTeamLocked e teamId id, .next => some (s, s.lockEnding e teamId id)
  | .endingLocked e teamId id, .next => some (s.endReservation teamId id e, .done)

/-- The rows a statement locks. -/
def Scheduling.needs (s : ComputeStore) : Scheduling → Turn → List ComputeRow
  | .reserving req, .next => [.team req.teamId]
  | .teamLocked req _, .next =>
      match s.db.existing req.teamId req.idempotencyKey with
      | some (id, _) => [.reservation id]
      | none => []
  | .lockingNodes _ _ (n :: _) _, .next => [.node n]
  | .poolsLoaded _ _ nodes _, .next => s.db.snapshotRows nodes
  | .scanning _ _ _ _ (id :: _) _, .next => [.reservation id]
  | .ending _ teamId _, .next => [.team teamId]
  | .endingTeamLocked _ _ id, .next => [.reservation id]
  | _, _ => []

/-- The rows an open transaction holds. -/
def Scheduling.held : Scheduling → List ComputeRow
  | .teamLocked req _ => [.team req.teamId]
  | .admitted req _ => [.team req.teamId]
  | .lockingNodes req _ _ nodes => .team req.teamId :: nodes.map fun q => .node q.1
  | .poolsLoaded req _ nodes _ => .team req.teamId :: nodes.map .node
  | .snapshotsLocked _ _ locked _ => locked
  | .scanning _ _ locked _ _ got => locked ++ got.map fun q => .reservation q.1
  | .endingTeamLocked _ teamId _ => [.team teamId]
  | .endingLocked _ teamId id => [.team teamId, .reservation id]
  | _ => []

def Scheduling.start : Scheduling → Bool
  | .reserving _ => true
  | .ending _ _ _ => true
  | _ => false

/-! ## The environment -/

/-- What happens beside the transactions above. `at'` is the clock that a
statement read, which may be earlier than when it commits. -/
inductive ComputeEnv
  | pass (seconds : Nat)
  | expire (at' : Nat)
  | capture (nodeId : Nat) (probe : Except ProbeFailure ProbeReport) (at' : Nat)
  | register (reg : Registration)
  | setDraining (serverId : Nat) (poolSlug : String) (isDraining : Bool)
  | setTenantActive (teamId : Nat) (isTenantActive : Bool)

def ComputeStore.env (cfg : SchedulerConfig) (s : ComputeStore) :
    ComputeEnv → Option ComputeStore
  | .pass seconds => some { s with clock := s.clock + seconds }
  | .expire at' => if at' ≤ s.clock then some { s with db := s.db.expire at' } else none
  | .capture nodeId probe at' =>
      if at' ≤ s.clock then some { s with db := (s.db.capture cfg at' nodeId probe).1 } else none
  | .register reg => some { s with db := (s.db.register reg).1 }
  | .setDraining serverId poolSlug isDraining =>
      some { s with db := commit s.db (s.db.setDraining serverId poolSlug isDraining) }
  | .setTenantActive teamId isTenantActive =>
      some { s with
        db := { s.db with teams := s.db.teams.modify teamId fun _ => ⟨isTenantActive⟩ } }

/-- The rows the environment writes: `expire` the lapsed reservations, a
capture its node and the snapshots it prunes. -/
def ComputeStore.envNeeds (cfg : SchedulerConfig) (s : ComputeStore) :
    ComputeEnv → List ComputeRow
  | .pass _ => []
  | .expire at' =>
      (s.db.reservations.select fun _ r => r.lapsed at').map fun q => .reservation q.1
  | .capture nodeId probe at' =>
      let snapshots := (s.db.capture cfg at' nodeId probe).1.snapshots
      .node nodeId ::
        (s.db.snapshots.select fun i _ => (snapshots.get? i).isNone).map fun q => .snapshot q.1
  | .register _ => []
  | .setDraining serverId poolSlug _ =>
      ((s.db.nodeInPool serverId poolSlug).map fun q => .node q.1).toList
  | .setTenantActive teamId _ => [.team teamId]

theorem held_lockEnding (s : ComputeStore) (e : Ending) (teamId id : Nat) :
    ∀ r ∈ (s.lockEnding e teamId id).held, r = .team teamId ∨ r = .reservation id := by
  unfold ComputeStore.lockEnding
  cases s.db.lockReservationForTeam teamId id with
  | error e => simp [Scheduling.held]
  | ok r =>
      cases e with
      | consume workloadReference =>
          simp only
          split <;> simp [Scheduling.held]
      | release =>
          simp only
          split <;> simp [Scheduling.held]

theorem stmt_of_crash {cfg : SchedulerConfig} {s s' : ComputeStore} {l l' : Scheduling}
    (h : l.stmt cfg s .crash = some (s', l')) : s' = s ∧ l' = .done := by
  cases l with
  | done => cases h
  | _ =>
      obtain ⟨rfl, rfl⟩ := Prod.mk.inj (Option.some.inj h)
      exact ⟨rfl, rfl⟩

/-- The calls and their environment as interleaved programs. -/
def scheduling (cfg : SchedulerConfig) :
    Machine ComputeStore Scheduling Turn ComputeEnv ComputeRow where
  start := Scheduling.start
  stmt s l a := l.stmt cfg s a
  needs s l a := l.needs s a
  held := Scheduling.held
  env s e := s.env cfg e
  envNeeds s e := s.envNeeds cfg e
  held_start {l} h := by cases l <;> first | rfl | cases h
  held_stmt {s l a s' l'} h r hr := by
    cases a with
    | crash =>
        obtain ⟨-, rfl⟩ := stmt_of_crash h
        cases hr
    | next =>
        cases l with
        | done => cases h
        | reserving req =>
            obtain ⟨-, rfl⟩ := Prod.mk.inj (Option.some.inj h)
            split at hr
            · cases hr
            · exact Or.inr hr
        | teamLocked req tenant =>
            obtain ⟨-, rfl⟩ := Prod.mk.inj (Option.some.inj h)
            split at hr
            · cases hr
            · split at hr
              · exact Or.inl hr
              · cases hr
        | admitted req now =>
            obtain ⟨-, rfl⟩ := Prod.mk.inj (Option.some.inj h)
            exact Or.inl hr
        | lockingNodes req now todo nodes =>
            cases todo with
            | nil =>
                obtain ⟨-, rfl⟩ := Prod.mk.inj (Option.some.inj h)
                simpa [Scheduling.held] using Or.inl hr
            | cons n todo =>
                obtain ⟨-, rfl⟩ := Prod.mk.inj (Option.some.inj h)
                simp only [Scheduling.held, List.mem_cons] at hr ⊢
                rcases hr with rfl | hr
                · exact Or.inl (Or.inl rfl)
                · split at hr
                  · exact Or.inl (Or.inr hr)
                  · split at hr
                    · rw [List.map_append, List.mem_append] at hr
                      rcases hr with hr | hr
                      · exact Or.inl (Or.inr hr)
                      · exact Or.inr hr
                    · exact Or.inl (Or.inr hr)
        | poolsLoaded req now nodes eligible =>
            obtain ⟨-, rfl⟩ := Prod.mk.inj (Option.some.inj h)
            split at hr
            · cases hr
            · simpa [Scheduling.held, Scheduling.needs, or_assoc] using hr
        | snapshotsLocked req now locked fresh =>
            obtain ⟨-, rfl⟩ := Prod.mk.inj (Option.some.inj h)
            simpa [Scheduling.held] using Or.inl hr
        | scanning req now locked fresh todo got =>
            cases todo with
            | nil =>
                obtain ⟨-, rfl⟩ := Prod.mk.inj (Option.some.inj h)
                cases hr
            | cons id todo =>
                obtain ⟨-, rfl⟩ := Prod.mk.inj (Option.some.inj h)
                simp only [Scheduling.held] at hr ⊢
                split at hr
                · exact Or.inl hr
                · split at hr
                  · rw [List.map_append, ← List.append_assoc, List.mem_append] at hr
                    exact hr
                  · exact Or.inl hr
        | ending e teamId id =>
            obtain ⟨-, rfl⟩ := Prod.mk.inj (Option.some.inj h)
            split at hr
            · cases hr
            · exact Or.inr hr
        | endingTeamLocked e teamId id =>
            obtain ⟨-, rfl⟩ := Prod.mk.inj (Option.some.inj h)
            rcases held_lockEnding s e teamId id r hr with rfl | rfl
            · exact Or.inl (List.mem_singleton.mpr rfl)
            · exact Or.inr (List.mem_singleton.mpr rfl)
        | endingLocked e teamId id =>
            obtain ⟨-, rfl⟩ := Prod.mk.inj (Option.some.inj h)
            cases hr

/-- What a statement writes: nothing, or the placement, or the end of the
reservation. -/
theorem Scheduling.writes_of {cfg : SchedulerConfig} {s s' : ComputeStore} {l l' : Scheduling}
    {a : Turn} (h : l.stmt cfg s a = some (s', l')) :
    s' = s ∨
    (∃ req now locked fresh got c, l = .scanning req now locked fresh [] got ∧ a = .next ∧
      selectCandidate (candidates fresh req.requirements.vector (claimedResources got))
        = some c ∧ s' = s.placeSelected cfg req now (some c)) ∨
    (∃ e teamId id, l = .endingLocked e teamId id ∧ a = .next ∧
      s' = s.endReservation teamId id e) := by
  cases a with
  | crash => exact Or.inl (stmt_of_crash h).1
  | next =>
      cases l with
      | done => cases h
      | lockingNodes req now todo nodes =>
          cases todo <;> exact Or.inl (Prod.mk.inj (Option.some.inj h)).1.symm
      | scanning req now locked fresh todo got =>
          cases todo with
          | cons id todo => exact Or.inl (Prod.mk.inj (Option.some.inj h)).1.symm
          | nil =>
              obtain ⟨rfl, -⟩ := Prod.mk.inj (Option.some.inj h)
              cases hc : selectCandidate
                  (candidates fresh req.requirements.vector (claimedResources got)) with
              | none => exact Or.inl rfl
              | some c =>
                  exact Or.inr (Or.inl ⟨req, now, locked, fresh, got, c, rfl, rfl, hc, rfl⟩)
      | endingLocked e teamId id =>
          obtain ⟨rfl, -⟩ := Prod.mk.inj (Option.some.inj h)
          exact Or.inr (Or.inr ⟨e, teamId, id, rfl, rfl, rfl⟩)
      | reserving _ | teamLocked _ _ | admitted _ _ | poolsLoaded _ _ _ _
      | snapshotsLocked _ _ _ _ | ending _ _ _ | endingTeamLocked _ _ _ =>
          exact Or.inl (Prod.mk.inj (Option.some.inj h)).1.symm

/-! ## A call alone -/

section Alone

variable (cfg : SchedulerConfig) {s : ComputeStore} (req : PlacementRequest) (now : Nat)

/-- Nothing has changed since the nodes were listed: all of them are locked. -/
theorem lockNodes_alone : ∀ (todo nodes : List (Nat × ComputeNode)),
    (∀ q ∈ todo, s.db.nodes.get? q.1 = some q.2 ∧ q.2.acceptsWorkloads = true) →
    (scheduling cfg).Alone .next (s, .lockingNodes req now (todo.map Prod.fst) nodes)
      (s, .lockingNodes req now [] (nodes ++ todo))
  | [], nodes, _ => by
      rw [List.append_nil]
      exact .refl
  | (n, node) :: todo, nodes, h => by
      obtain ⟨hget, haccepts⟩ := h _ (List.mem_cons_self ..)
      refine .head
        (b := (s, .lockingNodes req now (todo.map Prod.fst) (nodes ++ [(n, node)]))) ?_ ?_
      · simp [scheduling, Scheduling.stmt, hget, haccepts]
      · have htail := lockNodes_alone todo (nodes ++ [(n, node)])
          fun q hq => h q (List.mem_cons_of_mem _ hq)
        rwa [List.append_assoc] at htail

theorem scan_alone (locked : List ComputeRow) {fresh : List (Nat × (Nat × CapacitySnapshot))} :
    ∀ (todo got : List (Nat × WorkloadReservation)),
      (∀ q ∈ todo, s.db.reservations.get? q.1 = some q.2 ∧ onFresh fresh now q.1 q.2 = true) →
      (scheduling cfg).Alone .next (s, .scanning req now locked fresh (todo.map Prod.fst) got)
        (s, .scanning req now locked fresh [] (got ++ todo))
  | [], got, _ => by
      rw [List.append_nil]
      exact .refl
  | (id, r) :: todo, got, h => by
      obtain ⟨hget, hon⟩ := h _ (List.mem_cons_self ..)
      refine .head (b := (s, .scanning req now locked fresh (todo.map Prod.fst)
        (got ++ [(id, r)]))) ?_ ?_
      · simp [scheduling, Scheduling.stmt, hget, hon]
      · have htail := scan_alone locked todo (got ++ [(id, r)])
          fun q hq => h q (List.mem_cons_of_mem _ hq)
        rwa [List.append_assoc] at htail

/-- The scan of the fresh nodes adds up to what they have claimed. -/
theorem claimedResources_scan {db : ComputeDb} {fresh : List (Nat × (Nat × CapacitySnapshot))}
    {n : Nat} {q : Nat × CapacitySnapshot} (hn : (n, q) ∈ fresh) :
    claimedResources ((db.reservations.select (onFresh fresh now)).insertionSort scanBefore) n
      = db.claimed now n := by
  have hperm := ((List.perm_insertionSort scanBefore
    (db.reservations.select (onFresh fresh now))).filter
      fun q => q.2.computeNodeId == some n).map fun q => q.2.requested
  refine hperm.sum_eq.trans ?_
  have hfilter : (db.reservations.select (onFresh fresh now)).filter
      (fun q => q.2.computeNodeId == some n) = db.reservations.select (claims n now) := by
    rw [Table.select, Table.select, List.filter_filter]
    refine List.filter_congr fun p _ => ?_
    by_cases hnode : p.2.computeNodeId = some n
    · have hon : onFresh fresh now p.1 p.2 = p.2.isActive now := by
        cases hact : p.2.isActive now with
        | true => exact List.any_eq_true.mpr ⟨(n, q), hn, by simp [claims, hnode, hact]⟩
        | false => exact List.any_eq_false.mpr fun _ _ => by simp [claims, hact]
      simp [claims, hnode, hon]
    · rw [claims, beq_eq_false_iff_ne.mpr hnode, Bool.false_and, Bool.false_and]
  rw [hfilter]
  rfl

theorem candidates_scan (db : ComputeDb) (fresh : List (Nat × (Nat × CapacitySnapshot)))
    (requirements : ResourceVector) :
    candidates fresh requirements (claimedResources
      ((db.reservations.select (onFresh fresh now)).insertionSort scanBefore))
      = candidates fresh requirements (db.claimed now) :=
  List.filterMap_congr fun (id, q) hp => by
    simp only [claimedResources_scan now hp]

/-- From the snapshots on: the scan and the placement. -/
theorem placement_alone (s : ComputeStore) (locked : List ComputeRow)
    (fresh : List (Nat × (Nat × CapacitySnapshot))) :
    (scheduling cfg).Alone .next (s, .snapshotsLocked req now locked fresh)
      (s.placeSelected cfg req now
        (selectCandidate (candidates fresh req.requirements.vector (s.db.claimed now))),
        .done) := by
  have hscan : ∀ q ∈ (s.db.reservations.select (onFresh fresh now)).insertionSort scanBefore,
      s.db.reservations.get? q.1 = some q.2 ∧ onFresh fresh now q.1 q.2 = true :=
    fun q hq => Table.mem_select.mp ((List.perm_insertionSort scanBefore _).mem_iff.mp hq)
  refine .head rfl ((scan_alone cfg req now locked _ [] hscan).tail ?_)
  rw [← candidates_scan now s.db fresh, List.nil_append]
  rfl

/-- From the admission on. -/
theorem admitted_alone (s : ComputeStore) :
    (scheduling cfg).Alone .next (s, .admitted req now)
      (s.placeSelected cfg req now (selectCandidate (candidates
        (s.db.freshNodes cfg now (((s.db.acceptingNodes req.region).filter fun q =>
          s.db.supports req.workloadClass q.2).map Prod.fst))
        req.requirements.vector (s.db.claimed now))), .done) := by
  have haccepting : ∀ q ∈ s.db.acceptingNodes req.region,
      s.db.nodes.get? q.1 = some q.2 ∧ q.2.acceptsWorkloads = true := by
    intro q hq
    obtain ⟨hget, hq⟩ := Table.mem_select.mp hq
    exact ⟨hget, (Bool.and_eq_true_iff.mp hq).1⟩
  have hnodes := lockNodes_alone cfg req now _ [] haccepting
  rw [List.nil_append] at hnodes
  refine .head rfl (hnodes.trans (.head rfl ?_))
  generalize hfresh : s.db.freshNodes cfg now (((s.db.acceptingNodes req.region).filter fun q =>
    s.db.supports req.workloadClass q.2).map Prod.fst) = fresh
  cases fresh with
  | nil => exact .single (by simp [scheduling, Scheduling.stmt, hfresh]; rfl)
  | cons q fresh =>
      have hplace := placement_alone cfg req now s
        (.team req.teamId :: ((s.db.acceptingNodes req.region).map Prod.fst).map .node
          ++ s.db.snapshotRows ((s.db.acceptingNodes req.region).map Prod.fst)) (q :: fresh)
      refine .head ?_ hplace
      simp only [scheduling, Scheduling.stmt, hfresh]
      rfl

/-- Without others, the statements of a `reserve` compute `ComputeDb.reserve`. -/
theorem reserve_alone (s : ComputeStore) (req : PlacementRequest) :
    ∃ s', (scheduling cfg).Alone .next (s, .reserving req) (s', .done) ∧
      s'.db = commit s.db ((s.db.reserve cfg s.clock req).map Prod.fst) := by
  cases hteam : s.db.teams.get? req.teamId with
  | none =>
      refine ⟨s, .single ?_, ?_⟩
      · simp [scheduling, Scheduling.stmt, hteam]
      · simp [ComputeDb.reserve, hteam, commit, Except.map]
  | some tenant =>
      have hlock : (scheduling cfg).stmt s (.reserving req) .next
          = some (s, .teamLocked req tenant) := by
        simp [scheduling, Scheduling.stmt, hteam]
      have hadmit : (scheduling cfg).stmt s (.teamLocked req tenant) .next
          = some (s, match s.db.existing req.teamId req.idempotencyKey with
            | some _ => .done
            | none => if tenant.isTenantActive then .admitted req s.clock else .done) := rfl
      simp only [ComputeDb.reserve, hteam]
      cases hex : s.db.existing req.teamId req.idempotencyKey with
      | some q =>
          rw [hex] at hadmit
          refine ⟨s, .head hlock (.single hadmit), ?_⟩
          simp only
          split <;> rfl
      | none =>
          rw [hex] at hadmit
          cases hactive : tenant.isTenantActive with
          | false =>
              simp only [hactive, Bool.false_eq_true, if_false] at hadmit
              exact ⟨s, .head hlock (.single hadmit), rfl⟩
          | true =>
              simp only [hactive, if_true] at hadmit
              refine ⟨_, .head hlock (.head hadmit (admitted_alone cfg req s.clock s)), ?_⟩
              simp only [Bool.not_true, Bool.false_eq_true, if_false]
              -- where the source throws early there is nothing to choose from
              split
              · next he =>
                  rw [List.isEmpty_iff.mp he]
                  rfl
              · split
                · next hf =>
                    rw [List.isEmpty_iff.mp hf]
                    rfl
                · cases selectCandidate _ with
                  | none => rfl
                  | some c => rfl

/-- Without others, the statements of a `consume` or `release` compute the
method of that name. -/
theorem ending_alone (s : ComputeStore) (e : Ending) (teamId id : Nat) :
    ∃ s', (scheduling cfg).Alone .next (s, .ending e teamId id) (s', .done) ∧
      s'.db = commit s.db (match e with
        | .consume workloadReference => s.db.consume s.clock teamId id workloadReference
        | .release => s.db.release s.clock teamId id) := by
  cases hteam : s.db.teams.get? teamId with
  | none =>
      refine ⟨s, .single ?_, ?_⟩
      · simp [scheduling, Scheduling.stmt, hteam]
      · cases e <;> simp [ComputeDb.consume, ComputeDb.release, ComputeDb.lockReservationForTeam,
          hteam, commit, bind, Except.bind]
  | some tenant =>
      have hlock : (scheduling cfg).stmt s (.ending e teamId id) .next
          = some (s, .endingTeamLocked e teamId id) := by
        simp [scheduling, Scheduling.stmt, hteam]
      have hdecide : (scheduling cfg).stmt s (.endingTeamLocked e teamId id) .next
          = some (s, s.lockEnding e teamId id) := rfl
      cases hr : s.db.lockReservationForTeam teamId id with
      | error message =>
          rw [ComputeStore.lockEnding, hr] at hdecide
          refine ⟨s, .head hlock (.single hdecide), ?_⟩
          cases e <;> simp [ComputeDb.consume, ComputeDb.release, hr, commit, bind, Except.bind]
      | ok r =>
          rw [ComputeStore.lockEnding, hr] at hdecide
          cases e with
          | consume workloadReference =>
              simp only [ComputeDb.consume, hr, bind, Except.bind]
              cases hc : r.checkConsume s.clock workloadReference with
              | error message =>
                  simp only [hc] at hdecide
                  exact ⟨s, .head hlock (.single hdecide), rfl⟩
              | ok fresh =>
                  cases fresh with
                  | false =>
                      simp only [hc] at hdecide
                      exact ⟨s, .head hlock (.single hdecide), rfl⟩
                  | true =>
                      simp only [hc] at hdecide
                      refine ⟨_, .head hlock (.head hdecide (.single rfl)), ?_⟩
                      simp only [ComputeStore.endReservation]
                      split <;> rfl
          | release =>
              simp only [ComputeDb.release, hr, bind, Except.bind]
              cases hc : r.checkRelease with
              | false =>
                  simp only [hc, Bool.false_eq_true, if_false] at hdecide
                  exact ⟨s, .head hlock (.single hdecide), rfl⟩
              | true =>
                  simp only [hc, if_true] at hdecide
                  exact ⟨_, .head hlock (.head hdecide (.single rfl)), rfl⟩

end Alone

end OnePloy
