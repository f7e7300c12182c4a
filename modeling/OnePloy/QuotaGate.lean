import Mathlib.Data.Rat.Cast.Order
import OnePloy.Lib.Attempt
import OnePloy.Lib.Table

/-!
# The quota gate

`QuotaGate` admits a team's resources against the numeric limits of its plan.
A creation is admitted by a reservation: usage plus active reservations plus
the new one must fit the limit, and the reservation is consumed once the
resource exists. This file has the rows the gate reads and writes, the limit
(`EntitlementResolver::limit`), the meter (`TeamResourceUsage::for`) and the
gate's methods, each as one function on the tables. `QuotaCreations` runs the
same pieces statement by statement.

Times are whole seconds, the precision of the timestamp columns.
-/

namespace OnePloy

open Conc

/-! ## Keys and rows -/

/-- `TeamResourceUsage::MEASURABLE_QUOTA_KEYS`. -/
inductive QuotaKey
  | projects | applications | databases | services | members
deriving DecidableEq, Repr

def QuotaKey.name : QuotaKey → String
  | .projects => "projects.max"
  | .applications => "applications.max"
  | .databases => "databases.max"
  | .services => "services.max"
  | .members => "members.max"

/-- The observed models of `ResourceQuotaObserver`. -/
inductive ResourceModel
  | project | application | service
  | standalonePostgresql | standaloneRedis | standaloneMongodb | standaloneMysql
  | standaloneMariadb | standaloneKeydb | standaloneDragonfly | standaloneClickhouse
deriving DecidableEq, Repr

/-- `ResourceQuotaObserver::MODEL_QUOTA_KEYS`. -/
def ResourceModel.quotaKey : ResourceModel → QuotaKey
  | .project => .projects
  | .application => .applications
  | .service => .services
  | .standalonePostgresql | .standaloneRedis | .standaloneMongodb | .standaloneMysql
  | .standaloneMariadb | .standaloneKeydb | .standaloneDragonfly
  | .standaloneClickhouse => .databases

/-- `TeamResourceUsage::DATABASE_MODELS`. -/
def databaseModels : List ResourceModel :=
  [.standalonePostgresql, .standaloneRedis, .standaloneMongodb, .standaloneMysql,
   .standaloneMariadb, .standaloneKeydb, .standaloneDragonfly, .standaloneClickhouse]

/-- The models whose rows the meter of a key counts, one query each. -/
def usageModels : QuotaKey → List ResourceModel
  | .projects => [.project]
  | .applications => [.application]
  | .databases => databaseModels
  | .services => [.service]
  | .members => []

/-- The strings callers use as idempotency keys: `implode(':', [class, uuid])`
for a resource, `team-member:{id}` for a member, or one of their own. -/
inductive IdempotencyKey
  | resource (model : ResourceModel) (uuid : String)
  | teamMember (userId : Nat)
  | given (key : String)
deriving DecidableEq, Repr

inductive ReservationStatus
  | reserved | consumed | released
deriving DecidableEq, Repr

structure QuotaReservation where
  teamId : Nat
  resourceType : QuotaKey
  idempotencyKey : IdempotencyKey
  quantity : Nat
  status : ReservationStatus
  resourceId : Option Nat
  expiresAt : Option Nat
deriving DecidableEq, Repr

/-- `isActive`, and the condition of `scopeActive`. -/
def QuotaReservation.isActive (r : QuotaReservation) (at' : Nat) : Bool :=
  r.status == .reserved && match r.expiresAt with
    | none => true
    | some e => decide (at' < e)

/-- What the plan says about a quota key (`EntitlementResolver::value`): no
limit, a number, something else, or nothing although a plan is active. -/
inductive EntitlementValue
  | null
  | number (q : ℚ)
  | other
  | undefined

structure Team where
  isTenantActive : Bool
  value : QuotaKey → EntitlementValue

/-- A counted resource under the team that owns its project. -/
structure Resource where
  model : ResourceModel
  uuid : String
  teamId : Nat
deriving DecidableEq, Repr

/-- A row of the `team_user` pivot table. -/
structure Membership where
  userId : Nat
  teamId : Nat
  role : String
deriving DecidableEq, Repr

structure QuotaDb where
  teams : Table Team
  resources : Table Resource
  members : List Membership
  reservations : Table QuotaReservation

/-- The tables and the clock that `now()` reads. -/
structure QuotaState where
  db : QuotaDb
  clock : Nat

/-- An active team, number 1, that owns nothing and may have `limit` of
everything. -/
def emptyTeam (limit : ℚ) : QuotaState where
  db := {
    teams := Table.empty.insert ⟨true, fun _ => .number limit⟩
    resources := .empty
    members := []
    reservations := .empty }
  clock := 0

/-! ## The limit and the meter -/

def isPlatformTeam (teamId : Nat) : Bool := teamId == 0

/-- `EntitlementResolver::limit`; `none` is no limit. -/
def limit (teamId : Nat) (team : Team) (key : QuotaKey) : Except String (Option ℚ) :=
  if isPlatformTeam teamId then .ok none
  else match team.value key with
    | .null => .ok none
    | .undefined => .error ("The active app hosting subscription does not define entitlement ["
        ++ key.name ++ "].")
    | .other => .error ("Entitlement [" ++ key.name ++ "] must be a numeric limit or null.")
    | .number q =>
        if q < 0 then .error ("Entitlement [" ++ key.name ++ "] cannot be negative.")
        else .ok (some q)

/-- The rows of one model that a team owns (`countProjectResource`). -/
def QuotaDb.modelRows (db : QuotaDb) (teamId : Nat) (m : ResourceModel) : List (Nat × Resource) :=
  db.resources.select fun _ r => r.teamId == teamId && r.model == m

def QuotaDb.memberCount (db : QuotaDb) (teamId : Nat) : Nat :=
  db.members.countP fun m => m.teamId == teamId

/-- `TeamResourceUsage::for`. -/
def QuotaDb.usage (db : QuotaDb) (teamId : Nat) (key : QuotaKey) : Nat :=
  match key with
  | .members => db.memberCount teamId
  | key => ((usageModels key).map fun m => (db.modelRows teamId m).length).sum

/-- The reservations that `assertCanCreate` counts besides the usage. -/
def counts (teamId : Nat) (key : QuotaKey) (now : Nat) (_ : Nat) (r : QuotaReservation) : Bool :=
  r.teamId == teamId && r.resourceType == key && r.isActive now

def QuotaDb.reserved (db : QuotaDb) (teamId : Nat) (key : QuotaKey) (now : Nat) : Nat :=
  db.reservations.sumWhere (counts teamId key now) (·.quantity)

/-! ## The gate -/

def assertRequestIsMeasurable (quantity : Nat) : Except String Unit :=
  if quantity < 1 then .error "Reservation quantity must be at least one." else .ok ()

/-- The comparison of `assertCanCreate`, on what its two queries returned. -/
def exceeds (used reserved quantity : Nat) (l : ℚ) : Bool :=
  decide (l < ((used + reserved + quantity : Nat) : ℚ))

def quotaExceeded (key : QuotaKey) : String :=
  "Plan entitlement " ++ key.name ++ " is exhausted."

def tenantNotAllowed : String := "This tenant is not allowed to create resources."

def assertCanCreate (db : QuotaDb) (now teamId : Nat) (team : Team) (key : QuotaKey)
    (quantity : Nat) : Except String Unit := do
  assertRequestIsMeasurable quantity
  if isPlatformTeam teamId then .ok ()
  else if !team.isTenantActive then .error tenantNotAllowed
  else
    match ← limit teamId team key with
    | none => .ok ()
    | some l =>
        if exceeds (db.usage teamId key) (db.reserved teamId key now) quantity l then
          .error (quotaExceeded key)
        else .ok ()

def assertIdempotentRetryMatches (r : QuotaReservation) (key : QuotaKey) (quantity : Nat) :
    Except String QuotaReservation :=
  if r.resourceType ≠ key then
    .error "This idempotency key was used for a different resource type."
  else if r.quantity ≠ quantity then
    .error "This idempotency key was used with a different quantity."
  else .ok r

/-- The reservation a team already has under an idempotency key. -/
def QuotaDb.existing (db : QuotaDb) (teamId : Nat) (idem : IdempotencyKey) :
    Option (Nat × QuotaReservation) :=
  db.reservations.first? fun _ r => r.teamId == teamId && r.idempotencyKey == idem

/-- The reservation `reserveIfLimited` inserts; it lives 15 minutes. -/
def newReservation (teamId : Nat) (key : QuotaKey) (idem : IdempotencyKey) (quantity now : Nat) :
    QuotaReservation where
  teamId := teamId
  resourceType := key
  idempotencyKey := idem
  quantity := quantity
  status := .reserved
  resourceId := none
  expiresAt := some (now + 15 * 60)

def noTeam : String := "No query results for model [App\\Models\\Team]."

def noReservation : String := "No query results for model [App\\Models\\OneployQuotaReservation]."

/-- `QuotaGate::reserveIfLimited`, as one transaction. It answers with the
reservation and its key, or with `none` where no limit applies. -/
def reserveIfLimited (db : QuotaDb) (now teamId : Nat) (key : QuotaKey) (idem : IdempotencyKey)
    (quantity : Nat) : Except String (QuotaDb × Option (Nat × QuotaReservation)) := do
  assertRequestIsMeasurable quantity
  match db.teams.get? teamId with
  | none => .error noTeam
  | some lockedTeam =>
      match db.existing teamId idem with
      | some (id, existing) =>
          let r ← assertIdempotentRetryMatches existing key quantity
          .ok (db, some (id, r))
      | none =>
          assertCanCreate db now teamId lockedTeam key quantity
          match ← limit teamId lockedTeam key with
          | none => .ok (db, none)
          | some _ =>
              let r := newReservation teamId key idem quantity now
              .ok ({ db with reservations := db.reservations.insert r },
                some (db.reservations.nextId, r))

/-- What `consume` decides on the locked row: `none` is the idempotent answer
for a reservation this resource has consumed before. -/
def checkConsumable (r : QuotaReservation) (now resourceId : Nat) : Except String (Option Unit) :=
  match r.status with
  | .consumed =>
      if r.resourceId ≠ some resourceId then
        .error "This reservation was consumed by a different resource."
      else .ok none
  | .released => .error "A released reservation cannot be consumed."
  | .reserved =>
      if r.isActive now then .ok (some ()) else .error "An expired reservation cannot be consumed."

def consumed (resourceId : Nat) (r : QuotaReservation) : QuotaReservation :=
  { r with status := .consumed, resourceId := some resourceId, expiresAt := none }

/-- `QuotaGate::consume`, as one transaction. `teamId` is that of the caller's
copy of the reservation. -/
def consume (db : QuotaDb) (now teamId id resourceId : Nat) : Except String QuotaDb :=
  match db.reservations.get? id with
  | none => .error noReservation
  | some locked =>
      if locked.teamId ≠ teamId then .error noReservation
      else do
        match ← checkConsumable locked now resourceId with
        | none => .ok db
        | some () =>
            .ok { db with reservations := db.reservations.modify id (consumed resourceId) }

/-! ## What the meter counts -/

/-- The meter of a resource key counts exactly the models the observer admits
under that key. -/
theorem mem_usageModels {m : ResourceModel} {key : QuotaKey} (hkey : key ≠ .members) :
    m ∈ usageModels key ↔ m.quotaKey = key := by
  cases key <;> cases m <;> simp_all [usageModels, databaseModels, ResourceModel.quotaKey]

theorem usageModels_nodup (key : QuotaKey) : (usageModels key).Nodup := by
  cases key <;> decide

theorem ResourceModel.quotaKey_ne_members (m : ResourceModel) : m.quotaKey ≠ .members := by
  cases m <;> decide

/-- The rows that the meter of a resource key counts for a team. -/
def belongs (teamId : Nat) (key : QuotaKey) (_ : Nat) (r : Resource) : Bool :=
  r.teamId == teamId && r.model.quotaKey == key

/-- The queries of the meter, one for each model, add up to one count. -/
theorem usage_eq_countWhere {db : QuotaDb} {teamId : Nat} {key : QuotaKey}
    (hkey : key ≠ .members) :
    db.usage teamId key = db.resources.countWhere (belongs teamId key) := by
  have hsum : db.usage teamId key = ((usageModels key).map fun m =>
      db.resources.countWhere fun _ r => r.teamId == teamId && r.model == m).sum := by
    cases key with
    | members => exact absurd rfl hkey
    | _ => rfl
  rw [hsum]
  refine (Table.sum_countWhere db.resources (fun _ r => r.teamId == teamId) Resource.model
    (usageModels_nodup key)).trans (Table.countWhere_congr fun i r _ => ?_)
  have hmem : (usageModels key).contains r.model = (r.model.quotaKey == key) := by
    rw [Bool.eq_iff_iff, List.contains_iff_mem, mem_usageModels hkey, beq_iff_eq]
  simp only [belongs, hmem]

/-! ## What the gate's transactions do -/

theorem limit_nonneg {teamId : Nat} {team : Team} {key : QuotaKey} {l : ℚ}
    (h : limit teamId team key = .ok (some l)) :
    isPlatformTeam teamId = false ∧ 0 ≤ l := by
  unfold limit at h
  split at h
  · cases h
  · next hp =>
      refine ⟨by simpa using hp, ?_⟩
      split at h
      · cases h
      · cases h
      · cases h
      · split at h
        · cases h
        · next hq =>
            obtain rfl := Option.some.inj (Except.ok.inj h)
            exact not_lt.mp hq

theorem assertIdempotentRetryMatches_ok {r r' : QuotaReservation} {key : QuotaKey}
    {quantity : Nat} (h : assertIdempotentRetryMatches r key quantity = .ok r') :
    r' = r ∧ r.resourceType = key ∧ r.quantity = quantity := by
  simp only [assertIdempotentRetryMatches, ite_error_eq_ok, ne_eq, Decidable.not_not,
    Except.ok.injEq] at h
  exact ⟨h.2.2.symm, h.1, h.2.1⟩

theorem existing_some {db : QuotaDb} {teamId id : Nat} {idem : IdempotencyKey}
    {r : QuotaReservation} (h : db.existing teamId idem = some (id, r)) :
    db.reservations.get? id = some r ∧ r.teamId = teamId ∧ r.idempotencyKey = idem := by
  obtain ⟨hget, hp⟩ := Table.first?_some h
  simp only [Bool.and_eq_true, beq_iff_eq] at hp
  exact ⟨hget, hp.1, hp.2⟩

/-- A successful check leaves room for the quantity. -/
theorem assertCanCreate_ok {db : QuotaDb} {now teamId quantity : Nat} {team : Team}
    {key : QuotaKey} {l : ℚ} (hl : limit teamId team key = .ok (some l))
    (h : assertCanCreate db now teamId team key quantity = .ok ()) :
    ((db.usage teamId key + db.reserved teamId key now + quantity : Nat) : ℚ) ≤ l := by
  obtain ⟨hp, -⟩ := limit_nonneg hl
  simp only [assertCanCreate, bind_eq_ok, hp, Bool.false_eq_true, if_false, hl,
    ite_error_eq_ok] at h
  obtain ⟨_, -, -, _, hlim, hexc⟩ := h
  obtain rfl := Except.ok.inj hlim
  simp only [ite_error_eq_ok] at hexc
  simpa [exceeds, not_lt] using hexc.1

/-- What a successful `reserveIfLimited` under a finite limit did: it replayed
the reservation the team already has under the key and changed nothing, or it
found none, had room, and inserted one. -/
theorem reserveIfLimited_cases {db db' : QuotaDb} {now teamId quantity : Nat} {key : QuotaKey}
    {idem : IdempotencyKey} {team : Team} {l : ℚ} {res : Option (Nat × QuotaReservation)}
    (ht : db.teams.get? teamId = some team) (hl : limit teamId team key = .ok (some l))
    (h : reserveIfLimited db now teamId key idem quantity = .ok (db', res)) :
    (∃ id r, db.existing teamId idem = some (id, r) ∧ r.resourceType = key ∧
      r.quantity = quantity ∧ db' = db ∧ res = some (id, r)) ∨
    (db.existing teamId idem = none ∧
      ((db.usage teamId key + db.reserved teamId key now + quantity : Nat) : ℚ) ≤ l ∧
      db' = { db with
        reservations := db.reservations.insert (newReservation teamId key idem quantity now) } ∧
      res = some (db.reservations.nextId, newReservation teamId key idem quantity now)) := by
  simp only [reserveIfLimited, bind_eq_ok, ht] at h
  obtain ⟨_, -, h⟩ := h
  cases hex : db.existing teamId idem with
  | some q =>
      obtain ⟨id, r⟩ := q
      simp only [hex, bind_eq_ok] at h
      obtain ⟨r', hr', h⟩ := h
      obtain ⟨rfl, hkey, hq⟩ := assertIdempotentRetryMatches_ok hr'
      obtain ⟨rfl, rfl⟩ := Prod.mk.inj (Except.ok.inj h)
      exact Or.inl ⟨id, r', rfl, hkey, hq, rfl, rfl⟩
  | none =>
      simp only [hex, bind_eq_ok, hl] at h
      obtain ⟨_, hcan, _, hlim, h⟩ := h
      obtain rfl := Except.ok.inj hlim
      obtain ⟨rfl, rfl⟩ := Prod.mk.inj (Except.ok.inj h)
      exact Or.inr ⟨rfl, assertCanCreate_ok hl hcan, rfl, rfl⟩

/-- `reserveIfLimited` writes reservations only. -/
theorem reserveIfLimited_frame {db db' : QuotaDb} {now teamId quantity : Nat} {key : QuotaKey}
    {idem : IdempotencyKey} {res : Option (Nat × QuotaReservation)}
    (h : reserveIfLimited db now teamId key idem quantity = .ok (db', res)) :
    ∃ rs, db' = { db with reservations := rs } := by
  simp only [reserveIfLimited, bind_eq_ok] at h
  obtain ⟨_, -, h⟩ := h
  cases ht : db.teams.get? teamId with
  | none => rw [ht] at h; cases h
  | some team =>
      cases hex : db.existing teamId idem with
      | some q =>
          simp only [ht, hex, bind_eq_ok] at h
          obtain ⟨_, -, h⟩ := h
          obtain ⟨rfl, -⟩ := Prod.mk.inj (Except.ok.inj h)
          exact ⟨db.reservations, rfl⟩
      | none =>
          simp only [ht, hex, bind_eq_ok] at h
          obtain ⟨_, -, lim, -, h⟩ := h
          cases lim with
          | none =>
              obtain ⟨rfl, -⟩ := Prod.mk.inj (Except.ok.inj h)
              exact ⟨db.reservations, rfl⟩
          | some l =>
              obtain ⟨rfl, -⟩ := Prod.mk.inj (Except.ok.inj h)
              exact ⟨_, rfl⟩

/-- When the locked row can be consumed: it is active, or this resource has
consumed it before. -/
theorem checkConsumable_ok {r : QuotaReservation} {now resourceId : Nat} {o : Option Unit}
    (h : checkConsumable r now resourceId = .ok o) :
    (o = none ∧ r.status = .consumed ∧ r.resourceId = some resourceId) ∨
      (o = some () ∧ r.isActive now = true) := by
  unfold checkConsumable at h
  cases hs : r.status with
  | consumed =>
      simp only [hs, ite_error_eq_ok, ne_eq, Decidable.not_not] at h
      exact Or.inl ⟨(Except.ok.inj h.2).symm, rfl, h.1⟩
  | released => rw [hs] at h; cases h
  | reserved =>
      simp only [hs] at h
      split at h
      · next hact => exact Or.inr ⟨(Except.ok.inj h).symm, hact⟩
      · cases h

/-- What a successful `consume` did: nothing, or it turned an active
reservation into a consumed one. -/
theorem consume_cases {db db' : QuotaDb} {now teamId id resourceId : Nat}
    (h : consume db now teamId id resourceId = .ok db') :
    ∃ r, db.reservations.get? id = some r ∧ r.teamId = teamId ∧
      ((db' = db ∧ r.status = .consumed ∧ r.resourceId = some resourceId) ∨
        (r.isActive now = true ∧
          db' = { db with reservations := db.reservations.modify id (consumed resourceId) })) := by
  unfold consume at h
  cases hr : db.reservations.get? id with
  | none => rw [hr] at h; cases h
  | some r =>
      simp only [hr, ite_error_eq_ok, bind_eq_ok, ne_eq, Decidable.not_not] at h
      obtain ⟨hteam, o, ho, h⟩ := h
      refine ⟨r, rfl, hteam, ?_⟩
      rcases checkConsumable_ok ho with ⟨rfl, hs, hid⟩ | ⟨rfl, hact⟩
      · exact Or.inl ⟨(Except.ok.inj h).symm, hs, hid⟩
      · exact Or.inr ⟨hact, (Except.ok.inj h).symm⟩

end OnePloy
