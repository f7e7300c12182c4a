import OnePloy.QuotaStatements

/-!
# Creations that fail

`ResourceQuotaObserver` is registered with `observe`, which takes up those of
its methods that are named after an event of Eloquent, or after one that the
model lists in `$observables`. `creating` and `created` are such methods;
`creationFailed` is not, no model lists it, and nothing fires it when an insert
fails. The importer calls it by name (`importStandaloneDatabase`), every other
creation leaves the reservation of a failed insert behind
(`failed_insert_gives_back_iff`).
-/

namespace OnePloy

open Conc

/-! ## Events -/

/-- The names that Eloquent observes on every model. -/
def eloquentEvents : List String :=
  ["retrieved", "creating", "created", "updating", "updated", "saving", "saved", "restoring",
   "restored", "replicating", "trashed", "deleting", "deleted", "forceDeleting", "forceDeleted"]

/-- `$observables`: none of the observed models declares any. -/
def ResourceModel.observables (_ : ResourceModel) : List String := []

/-- The handlers of `ResourceQuotaObserver`. -/
def observerMethods : List String := ["creating", "created", "creationFailed"]

/-- `observe` has registered a listener for the event. -/
def ResourceModel.observed (m : ResourceModel) (event : String) : Bool :=
  (eloquentEvents ++ m.observables).contains event && observerMethods.contains event

/-- What `save` fires on a new model before its insert. -/
def eventsBeforeInsert : List String := ["saving", "creating"]

/-- What it fires afterwards, where the insert went through. -/
def eventsAfterInsert : List String := ["created", "saved"]

/-! ## The observer -/

/-- `QuotaGate::release`, as one transaction. -/
def release (db : QuotaDb) (teamId id : Nat) : Except String QuotaDb :=
  match db.reservations.get? id with
  | none => .error noReservation
  | some locked =>
      if locked.teamId ≠ teamId then .error noReservation
      else match locked.status with
        | .released => .ok db
        | .consumed => .error "A consumed reservation cannot be released."
        | .reserved => .ok { db with reservations := db.reservations.modify id released }

/-- The tables, and the reservation that the observer has put on the model. -/
abbrev Observed := QuotaDb × Option (Nat × QuotaReservation)

def Observed.creating (now : Nat) (res : Resource) (p : Observed) : Except String Observed := do
  let (db, reservation) ←
    reserveIfLimited p.1 now res.teamId res.quotaKey res.idempotencyKey 1
  .ok (db, reservation.or p.2)

def Observed.created (now resourceId : Nat) (p : Observed) : Except String Observed :=
  match p.2 with
  | none => .ok p
  | some (id, r) => do
      let db ← consume p.1 now r.teamId id resourceId
      .ok (db, none)

def Observed.creationFailed (p : Observed) : Except String Observed :=
  match p.2 with
  | none => .ok p
  | some (id, r) => do
      let db ← release p.1 r.teamId id
      .ok (db, none)

/-- An event that is fired reaches the method of its name if there is a listener. -/
def fire (now : Nat) (res : Resource) (resourceId : Nat) (p : Observed) (event : String) :
    Except String Observed :=
  if !res.model.observed event then .ok p
  else if event = "creating" then Observed.creating now res p
  else if event = "created" then Observed.created now resourceId p
  else Observed.creationFailed p

def insertFailed : String := "SQLSTATE: the insert failed"

/-- `save` on a new model: its insert goes through or fails. No transaction is
open around it, so that what the observer committed stays. -/
def save (db : QuotaDb) (now : Nat) (res : Resource) (insertFails : Bool) :
    QuotaDb × Except String Nat :=
  let resourceId := db.resources.nextId
  match eventsBeforeInsert.foldlM (fire now res resourceId) (db, none) with
  | .error e => (db, .error e)
  | .ok (db, reservation) =>
      if insertFails then (db, .error insertFailed)
      else
        let db := { db with resources := db.resources.insert res }
        match eventsAfterInsert.foldlM (fire now res resourceId) (db, reservation) with
        | .error e => (db, .error e)
        | .ok (db, _) => (db, .ok resourceId)

/-- The importer's creation of a database, which fires no events and calls the
observer itself. -/
def importStandaloneDatabase (db : QuotaDb) (now : Nat) (res : Resource) (insertFails : Bool) :
    QuotaDb × Except String Nat :=
  let resourceId := db.resources.nextId
  match Observed.creating now res (db, none) with
  | .error e => (db, .error e)
  | .ok (db, reservation) =>
      if insertFails then
        match Observed.creationFailed (db, reservation) with
        | .error e => (db, .error e)
        | .ok (db, _) => (db, .error insertFailed)
      else
        let db := { db with resources := db.resources.insert res }
        match Observed.created now resourceId (db, reservation) with
        | .error e => (db, .error e)
        | .ok (db, _) => (db, .ok resourceId)

/-! ## What is left for the team -/

/-- The limit minus usage and active reservations. -/
def QuotaDb.available (db : QuotaDb) (l : ℚ) (teamId : Nat) (key : QuotaKey) (now : Nat) : ℚ :=
  l - ((db.usage teamId key + db.reserved teamId key now : Nat) : ℚ)

section Failure

variable {db db' : QuotaDb} {now later : Nat} {res : Resource} {team : Team} {l : ℚ}
  {reservation : Option (Nat × QuotaReservation)}

theorem observed_creating (m : ResourceModel) : m.observed "creating" = true := by
  simp [ResourceModel.observed, eloquentEvents, observerMethods]

theorem not_observed_creationFailed (m : ResourceModel) : m.observed "creationFailed" = false := by
  simp [ResourceModel.observed, eloquentEvents, ResourceModel.observables]

theorem not_observed_saving (m : ResourceModel) : m.observed "saving" = false := by
  simp [ResourceModel.observed, observerMethods]

theorem fire_before_insert (resourceId : Nat) (p : Observed) :
    eventsBeforeInsert.foldlM (fire now res resourceId) p = Observed.creating now res p := by
  have hsaving : fire now res resourceId p "saving" = .ok p := by
    rw [fire, not_observed_saving]
    rfl
  have hcreating : fire now res resourceId p "creating" = Observed.creating now res p := by
    rw [fire, observed_creating]
    rfl
  simp only [eventsBeforeInsert, List.foldlM_cons, List.foldlM_nil, hsaving]
  show (fire now res resourceId p "creating" >>= pure) = _
  rw [hcreating, bind_pure]

/-- A failed insert leaves what `creating` has committed. -/
theorem save_failed (h : reserveIfLimited db now res.teamId res.quotaKey res.idempotencyKey 1 =
    .ok (db', reservation)) : (save db now res true).1 = db' := by
  rw [save, fire_before_insert, Observed.creating, h]
  rfl

theorem reserved_insert (db : QuotaDb) (res : Resource) (now later : Nat) :
    ({ db with reservations := db.reservations.insert (newReservation res.teamId res.quotaKey
      res.idempotencyKey 1 now) } : QuotaDb).reserved res.teamId res.quotaKey later =
      db.reserved res.teamId res.quotaKey later + if later < now + 15 * 60 then 1 else 0 := by
  refine (Table.sumWhere_insert ..).trans ?_
  simp [QuotaDb.reserved, counts, newReservation, QuotaReservation.isActive]

theorem reserved_released (db : QuotaDb) (res : Resource) (now later : Nat) :
    ({ db with reservations := (db.reservations.insert (newReservation res.teamId res.quotaKey
      res.idempotencyKey 1 now)).modify db.reservations.nextId released } : QuotaDb).reserved
        res.teamId res.quotaKey later = db.reserved res.teamId res.quotaKey later := by
  have hmodify := Table.sumWhere_modify (p := counts res.teamId res.quotaKey later)
    (f := fun r : QuotaReservation => r.quantity) released
    (Table.get?_insert_self db.reservations (newReservation res.teamId res.quotaKey
      res.idempotencyKey 1 now))
  have hoff : counts res.teamId res.quotaKey later db.reservations.nextId
      (released (newReservation res.teamId res.quotaKey res.idempotencyKey 1 now)) = false := by
    simp [counts, released, QuotaReservation.isActive]
  rw [hoff, Table.sumWhere_insert] at hmodify
  simp only [QuotaDb.reserved]
  simpa using hmodify

theorem available_insert (db : QuotaDb) (res : Resource) (l : ℚ) (now later : Nat) :
    ({ db with reservations := db.reservations.insert (newReservation res.teamId res.quotaKey
      res.idempotencyKey 1 now) } : QuotaDb).available l res.teamId res.quotaKey later =
      db.available l res.teamId res.quotaKey later ↔ now + 15 * 60 ≤ later := by
  rw [QuotaDb.available, QuotaDb.available, reserved_insert, sub_right_inj, Nat.cast_inj]
  show db.usage res.teamId res.quotaKey + _ = _ ↔ _
  split <;> omega

/-- After a creation that passed `creating` and failed at its insert, the team
has as much left as before if the key was reserved before, or the new
reservation has run out. -/
theorem failed_insert_gives_back_iff (ht : db.teams.get? res.teamId = some team)
    (hl : limit res.teamId team res.quotaKey = .ok (some l))
    (hpassed : Observed.creating now res (db, none) = .ok (db', reservation)) :
    (save db now res true).1.available l res.teamId res.quotaKey later =
        db.available l res.teamId res.quotaKey later ↔
      (∃ q, db.existing res.teamId res.idempotencyKey = some q) ∨ now + 15 * 60 ≤ later := by
  simp only [Observed.creating, bind_eq_ok] at hpassed
  obtain ⟨⟨db₁, res₁⟩, hreserve, -⟩ := hpassed
  rw [save_failed hreserve]
  rcases reserveIfLimited_cases ht hl hreserve with ⟨id, r, hex, -, -, rfl, -⟩ | ⟨hnew, -, rfl, -⟩
  · exact ⟨fun _ => .inl ⟨_, hex⟩, fun _ => rfl⟩
  · rw [available_insert, hnew]
    exact ⟨.inr, fun h => h.resolve_left nofun⟩

/-- Where the observer is called by name, the new reservation is released. -/
theorem import_gives_back (ht : db.teams.get? res.teamId = some team)
    (hl : limit res.teamId team res.quotaKey = .ok (some l))
    (hpassed : Observed.creating now res (db, none) = .ok (db', reservation))
    (hnew : db.existing res.teamId res.idempotencyKey = none) :
    (importStandaloneDatabase db now res true).1.available l res.teamId res.quotaKey later =
      db.available l res.teamId res.quotaKey later := by
  simp only [Observed.creating, bind_eq_ok] at hpassed
  obtain ⟨⟨db₁, res₁⟩, hreserve, -⟩ := hpassed
  rcases reserveIfLimited_cases ht hl hreserve with ⟨id, r, hex, -⟩ | ⟨-, -, rfl, rfl⟩
  · rw [hnew] at hex
    cases hex
  · let r := newReservation res.teamId res.quotaKey res.idempotencyKey 1 now
    let db₁ := { db with reservations := db.reservations.insert r }
    let db₂ := { db₁ with
      reservations := db₁.reservations.modify db.reservations.nextId released }
    have hcreating : Observed.creating now res (db, none)
        = .ok (db₁, some (db.reservations.nextId, r)) := by
      rw [Observed.creating, hreserve]
      rfl
    have hfailed : Observed.creationFailed (db₁, some (db.reservations.nextId, r))
        = .ok (db₂, none) := by
      simp only [Observed.creationFailed, release, db₁, Table.get?_insert_self]
      rw [if_neg (not_not.mpr rfl)]
      rfl
    have himport : (importStandaloneDatabase db now res true).1 = db₂ := by
      rw [importStandaloneDatabase, hcreating]
      dsimp only
      rw [if_pos rfl, hfailed]
    rw [himport, QuotaDb.available, QuotaDb.available, sub_right_inj, Nat.cast_inj]
    exact congrArg (db.usage res.teamId res.quotaKey + ·) (reserved_released db res now later)

end Failure

/-! ## A project that fails -/

theorem failed_insert_gives_back_iff_project :
    (save (emptyTeam 2).db 0 ⟨.project, "a", 1⟩ true).1.available 2 1 .projects 900 =
      (emptyTeam 2).db.available 2 1 .projects 900 :=
  have ht : (emptyTeam 2).db.teams.get? 1 = some ⟨true, fun _ => .number 2⟩ := rfl
  (failed_insert_gives_back_iff ht rfl rfl).mpr (.inr le_rfl)

/-- The one project of a plan is lost to an insert that failed. -/
theorem failed_insert_keeps_quota :
    limit 1 ⟨true, fun _ => .number 1⟩ .projects = .ok (some 1) ∧
    (Observed.creating 0 ⟨.project, "a", 1⟩ ((emptyTeam 1).db, none)).toBool = true ∧
    (save (emptyTeam 1).db 0 ⟨.project, "a", 1⟩ true).2.toBool = false ∧
    (emptyTeam 1).db.available 1 1 .projects 0 = 1 ∧
    (save (emptyTeam 1).db 0 ⟨.project, "a", 1⟩ true).1.available 1 1 .projects 0 = 0 := by
  refine ⟨rfl, ?_, ?_, ?_, ?_⟩
  all_goals decide +kernel

end OnePloy
