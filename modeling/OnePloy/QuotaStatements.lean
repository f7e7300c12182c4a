import OnePloy.Lib.Interleave
import OnePloy.QuotaGate

/-!
# A creation, statement by statement

`ResourceQuotaObserver` wraps the insert of a resource: `creating` calls
`QuotaGate::reserveIfLimited`, `created` calls `QuotaGate::consume`, and
`creationFailed` releases the reservation. Here the three run statement by
statement (`Creation.stmt`): `reserveIfLimited` holds the team row from its
first statement to its last, `consume` and `release` hold the reservation row,
and every other statement only sees what is committed.

Left alone, the statements compute what `QuotaGate` computes in one go
(`reserveIfLimited_alone`, `consume_alone`); `Creation.writes_of` sums up what
one statement can write.
-/

namespace OnePloy

open Conc

/-! ## The statements -/

/-- A row that a transaction can lock. -/
inductive QuotaRow
  | team (id : Nat)
  | reservation (id : Nat)
deriving DecidableEq

/-- What a statement meets: nothing special, an insert that fails, or the end
of the process. -/
inductive Event
  | next | insertFails | crash

/-- How far the creation of a resource has come. `seen` are the keys of the
rows counted so far, `models` the models still to be counted. -/
inductive Creation
  | creating (res : Resource)
  | teamLocked (res : Resource) (team : Team)
  | counting (res : Resource) (l : ℚ) (models : List ResourceModel) (seen : List Nat)
  | reserving (res : Resource)
  | reserved (res : Resource) (reservation : Option Nat)
  | created (teamId reservation resourceId : Nat)
  | consuming (reservation resourceId : Nat)
  | creationFailed (teamId reservation : Nat)
  | releasing (reservation : Nat)
  | done

def Resource.quotaKey (res : Resource) : QuotaKey := res.model.quotaKey

/-- `implode(':', [$resource::class, $resource->getAttribute('uuid')])`. -/
def Resource.idempotencyKey (res : Resource) : IdempotencyKey := .resource res.model res.uuid

/-- The unique index on `uuid` refuses the row. -/
def QuotaDb.uuidTaken (db : QuotaDb) (res : Resource) : Bool :=
  (db.resources.first? fun _ r => r.idempotencyKey == res.idempotencyKey).isSome

def QuotaState.insertReservation (s : QuotaState) (r : QuotaReservation) : QuotaState :=
  { s with db := { s.db with reservations := s.db.reservations.insert r } }

def QuotaState.insertResource (s : QuotaState) (res : Resource) : QuotaState :=
  { s with db := { s.db with resources := s.db.resources.insert res } }

def QuotaState.updateReservation (s : QuotaState) (id : Nat)
    (f : QuotaReservation → QuotaReservation) : QuotaState :=
  { s with db := { s.db with reservations := s.db.reservations.modify id f } }

def released (r : QuotaReservation) : QuotaReservation :=
  { r with status := .released, expiresAt := none }

/-- After the team row: the reservation that the key already has, or the start
of `assertCanCreate`. -/
def QuotaState.afterTeam (s : QuotaState) (res : Resource) (team : Team) : Creation :=
  match s.db.existing res.teamId res.idempotencyKey with
  | some (id, r) =>
      match assertIdempotentRetryMatches r res.quotaKey 1 with
      | .ok _ => .reserved res (some id)
      | .error _ => .done
  | none =>
      if isPlatformTeam res.teamId then .reserved res none
      else if !team.isTenantActive then .done
      else match limit res.teamId team res.quotaKey with
        | .error _ => .done
        | .ok none => .reserved res none
        | .ok (some l) => .counting res l (usageModels res.quotaKey) []

/-- The locked row of `consume`. -/
def QuotaState.lockToConsume (s : QuotaState) (teamId id resourceId : Nat) : Creation :=
  match s.db.reservations.get? id with
  | none => .done
  | some r =>
      if r.teamId ≠ teamId then .done
      else match checkConsumable r s.clock resourceId with
        | .ok (some ()) => .consuming id resourceId
        | .ok none => .done
        | .error _ => .done

/-- The locked row of `release`. -/
def QuotaState.lockToRelease (s : QuotaState) (teamId id : Nat) : Creation :=
  match s.db.reservations.get? id with
  | none => .done
  | some r =>
      if r.teamId ≠ teamId then .done
      else match r.status with
        | .reserved => .releasing id
        | .consumed => .done
        | .released => .done

/-- One statement of a creation. An exception or a crash rolls the open
transaction back; each transaction here writes in its last statement only. -/
def Creation.stmt (s : QuotaState) : Creation → Event → Option (QuotaState × Creation)
  | .done, _ => none
  | _, .crash => some (s, .done)
  | .reserved _ none, .insertFails => some (s, .done)
  | .reserved res (some id), .insertFails => some (s, .creationFailed res.teamId id)
  | _, .insertFails => none
  | .creating res, .next =>
      some (s, match s.db.teams.get? res.teamId with
        | none => .done
        | some team => .teamLocked res team)
  | .teamLocked res team, .next => some (s, s.afterTeam res team)
  | .counting res l (m :: models) seen, .next =>
      some (s, .counting res l models (seen ++ (s.db.modelRows res.teamId m).map Prod.fst))
  | .counting res l [] seen, .next =>
      some (s, if exceeds seen.length (s.db.reserved res.teamId res.quotaKey s.clock) 1 l
        then .done else .reserving res)
  | .reserving res, .next =>
      some (s.insertReservation
          (newReservation res.teamId res.quotaKey res.idempotencyKey 1 s.clock),
        .reserved res (some s.db.reservations.nextId))
  | .reserved res reservation, .next =>
      if s.db.uuidTaken res then none
      else some (s.insertResource res, match reservation with
        | none => .done
        | some id => .created res.teamId id s.db.resources.nextId)
  | .created teamId id resourceId, .next => some (s, s.lockToConsume teamId id resourceId)
  | .consuming id resourceId, .next => some (s.updateReservation id (consumed resourceId), .done)
  | .creationFailed teamId id, .next => some (s, s.lockToRelease teamId id)
  | .releasing id, .next => some (s.updateReservation id released, .done)

/-- The rows a statement locks. -/
def Creation.needs (s : QuotaState) : Creation → Event → List QuotaRow
  | .creating res, .next => [.team res.teamId]
  | .teamLocked res _, .next =>
      match s.db.existing res.teamId res.idempotencyKey with
      | some (id, _) => [.reservation id]
      | none => []
  | .created _ id _, .next => [.reservation id]
  | .creationFailed _ id, .next => [.reservation id]
  | _, _ => []

/-- The rows an open transaction holds. -/
def Creation.held : Creation → List QuotaRow
  | .teamLocked res _ => [.team res.teamId]
  | .counting res _ _ _ => [.team res.teamId]
  | .reserving res => [.team res.teamId]
  | .consuming id _ => [.reservation id]
  | .releasing id => [.reservation id]
  | _ => []

def Creation.start : Creation → Bool
  | .creating _ => true
  | _ => false

/-- What happens beside the creations: a resource is deleted, or time passes. -/
inductive QuotaEnv
  | delete (resourceId : Nat)
  | pass (seconds : Nat)

def QuotaState.env (s : QuotaState) : QuotaEnv → Option QuotaState
  | .delete resourceId => some { s with
      db := { s.db with resources := s.db.resources.deleteWhere fun i _ => i == resourceId } }
  | .pass seconds => some { s with clock := s.clock + seconds }

theorem held_afterTeam (s : QuotaState) (res : Resource) (team : Team) :
    ∀ r ∈ (s.afterTeam res team).held, r = .team res.teamId := by
  unfold QuotaState.afterTeam
  split
  · split <;> simp [Creation.held]
  · split
    · simp [Creation.held]
    · split
      · simp [Creation.held]
      · split <;> simp [Creation.held]

theorem held_lockToConsume (s : QuotaState) (teamId id resourceId : Nat) :
    ∀ r ∈ (s.lockToConsume teamId id resourceId).held, r = .reservation id := by
  unfold QuotaState.lockToConsume
  split
  · simp [Creation.held]
  · split
    · simp [Creation.held]
    · split <;> simp [Creation.held]

theorem held_lockToRelease (s : QuotaState) (teamId id : Nat) :
    ∀ r ∈ (s.lockToRelease teamId id).held, r = .reservation id := by
  unfold QuotaState.lockToRelease
  split
  · simp [Creation.held]
  · split
    · simp [Creation.held]
    · split <;> simp [Creation.held]

theorem stmt_crash {s s' : QuotaState} {l l' : Creation}
    (h : l.stmt s .crash = some (s', l')) : s' = s ∧ l' = .done := by
  cases l with
  | done => cases h
  | _ =>
      obtain ⟨rfl, rfl⟩ := Prod.mk.inj (Option.some.inj h)
      exact ⟨rfl, rfl⟩

theorem stmt_insertFails {s s' : QuotaState} {l l' : Creation}
    (h : l.stmt s .insertFails = some (s', l')) :
    s' = s ∧ (l' = .done ∨ ∃ teamId id, l' = .creationFailed teamId id) := by
  cases l with
  | reserved res reservation =>
      cases reservation with
      | none =>
          obtain ⟨rfl, rfl⟩ := Prod.mk.inj (Option.some.inj h)
          exact ⟨rfl, Or.inl rfl⟩
      | some id =>
          obtain ⟨rfl, rfl⟩ := Prod.mk.inj (Option.some.inj h)
          exact ⟨rfl, Or.inr ⟨_, _, rfl⟩⟩
  | _ => cases h

/-- The creations and their environment as interleaved programs. -/
def creations : Machine QuotaState Creation Event QuotaEnv QuotaRow where
  start := Creation.start
  stmt s l a := l.stmt s a
  needs s l a := l.needs s a
  held := Creation.held
  env := QuotaState.env
  envNeeds _ _ := []
  held_start {l} h := by cases l <;> first | rfl | cases h
  held_stmt {s l a s' l'} h r hr := by
    cases a with
    | crash =>
        obtain ⟨-, rfl⟩ := stmt_crash h
        cases hr
    | insertFails =>
        obtain ⟨-, rfl | ⟨_, _, rfl⟩⟩ := stmt_insertFails h <;> cases hr
    | next =>
        cases l with
        | done => cases h
        | creating res =>
            obtain ⟨-, rfl⟩ := Prod.mk.inj (Option.some.inj h)
            refine Or.inr ?_
            split at hr
            · cases hr
            · exact hr
        | teamLocked res team =>
            obtain ⟨-, rfl⟩ := Prod.mk.inj (Option.some.inj h)
            exact Or.inl (List.mem_singleton.mpr (held_afterTeam s res team r hr))
        | counting res l models seen =>
            cases models with
            | cons m models =>
                obtain ⟨-, rfl⟩ := Prod.mk.inj (Option.some.inj h)
                exact Or.inl hr
            | nil =>
                obtain ⟨-, rfl⟩ := Prod.mk.inj (Option.some.inj h)
                split at hr
                · cases hr
                · exact Or.inl hr
        | reserving res =>
            obtain ⟨-, rfl⟩ := Prod.mk.inj (Option.some.inj h)
            cases hr
        | reserved res reservation =>
            simp only [Creation.stmt] at h
            split at h
            · cases h
            · obtain ⟨-, rfl⟩ := Prod.mk.inj (Option.some.inj h)
              cases reservation <;> cases hr
        | created teamId id resourceId =>
            obtain ⟨-, rfl⟩ := Prod.mk.inj (Option.some.inj h)
            exact Or.inr (List.mem_singleton.mpr (held_lockToConsume s teamId id resourceId r hr))
        | creationFailed teamId id =>
            obtain ⟨-, rfl⟩ := Prod.mk.inj (Option.some.inj h)
            exact Or.inr (List.mem_singleton.mpr (held_lockToRelease s teamId id r hr))
        | consuming id resourceId | releasing id =>
            obtain ⟨-, rfl⟩ := Prod.mk.inj (Option.some.inj h)
            cases hr

/-- What a statement writes: nothing, or the reservation, the resource, or the
end of the reservation. -/
theorem Creation.writes_of {s s' : QuotaState} {l l' : Creation} {a : Event}
    (h : l.stmt s a = some (s', l')) :
    s' = s ∨
    (∃ res, l = .reserving res ∧ s' = s.insertReservation
      (newReservation res.teamId res.quotaKey res.idempotencyKey 1 s.clock)) ∨
    (∃ res reservation, l = .reserved res reservation ∧ a = .next ∧
      s.db.uuidTaken res = false ∧ s' = s.insertResource res) ∨
    (∃ id f, ((∃ resourceId, l = .consuming id resourceId ∧ f = consumed resourceId) ∨
        (l = .releasing id ∧ f = released)) ∧ a = .next ∧ s' = s.updateReservation id f) := by
  cases a with
  | crash => exact Or.inl (stmt_crash h).1
  | insertFails => exact Or.inl (stmt_insertFails h).1
  | next =>
      cases l with
      | done => cases h
      | counting res l models seen =>
          cases models <;> exact Or.inl (Prod.mk.inj (Option.some.inj h)).1.symm
      | reserving res =>
          obtain ⟨rfl, -⟩ := Prod.mk.inj (Option.some.inj h)
          exact Or.inr (Or.inl ⟨res, rfl, rfl⟩)
      | reserved res reservation =>
          simp only [Creation.stmt] at h
          split at h
          · cases h
          · next hu =>
              obtain ⟨rfl, -⟩ := Prod.mk.inj (Option.some.inj h)
              exact Or.inr (Or.inr (Or.inl ⟨res, reservation, rfl, rfl, by simpa using hu, rfl⟩))
      | consuming id resourceId =>
          obtain ⟨rfl, -⟩ := Prod.mk.inj (Option.some.inj h)
          exact Or.inr (Or.inr (Or.inr ⟨id, _, Or.inl ⟨resourceId, rfl, rfl⟩, rfl, rfl⟩))
      | releasing id =>
          obtain ⟨rfl, -⟩ := Prod.mk.inj (Option.some.inj h)
          exact Or.inr (Or.inr (Or.inr ⟨id, _, Or.inr ⟨rfl, rfl⟩, rfl, rfl⟩))
      | creating _ | teamLocked _ _ | created _ _ _ | creationFailed _ _ =>
          exact Or.inl (Prod.mk.inj (Option.some.inj h)).1.symm

/-! ## A creation alone -/

theorem count_alone (s : QuotaState) (res : Resource) (l : ℚ) :
    ∀ (models : List ResourceModel) (seen : List Nat),
      creations.Alone .next (s, .counting res l models seen)
        (s, .counting res l []
          (seen ++ models.flatMap fun m => (s.db.modelRows res.teamId m).map Prod.fst))
  | [], seen => by
      rw [List.flatMap_nil, List.append_nil]
      exact .refl
  | m :: models, seen => by
      refine .head rfl ?_
      rw [List.flatMap_cons, ← List.append_assoc]
      exact count_alone s res l models _

theorem length_counted (db : QuotaDb) (res : Resource) :
    ((usageModels res.quotaKey).flatMap fun m =>
      (db.modelRows res.teamId m).map Prod.fst).length = db.usage res.teamId res.quotaKey := by
  have husage : db.usage res.teamId res.quotaKey
      = ((usageModels res.quotaKey).map fun m => (db.modelRows res.teamId m).length).sum := by
    unfold QuotaDb.usage
    split
    · next h => exact absurd h res.model.quotaKey_ne_members
    · rfl
  rw [husage, List.length_flatMap]
  simp

/-- The count, the sum and the insert, without others. -/
theorem admit_alone (s : QuotaState) (res : Resource) (l : ℚ) :
    creations.Alone .next (s, .counting res l (usageModels res.quotaKey) [])
      (if exceeds (s.db.usage res.teamId res.quotaKey)
          (s.db.reserved res.teamId res.quotaKey s.clock) 1 l
        then (s, .done)
        else (s.insertReservation
            (newReservation res.teamId res.quotaKey res.idempotencyKey 1 s.clock),
          .reserved res (some s.db.reservations.nextId))) := by
  refine (count_alone s res l (usageModels res.quotaKey) []).trans ?_
  have hsum : Creation.stmt s (.counting res l [] ([] ++ (usageModels res.quotaKey).flatMap
      fun m => (s.db.modelRows res.teamId m).map Prod.fst)) .next
      = some (s, if exceeds (s.db.usage res.teamId res.quotaKey)
          (s.db.reserved res.teamId res.quotaKey s.clock) 1 l then .done else .reserving res) := by
    rw [List.nil_append, Creation.stmt, length_counted]
  split
  · next hex => exact .single (by rw [if_pos hex] at hsum; exact hsum)
  · next hex =>
      rw [if_neg hex] at hsum
      exact .head hsum (.single rfl)

/-- Without others, the statements of `creating` compute `reserveIfLimited`. -/
theorem reserveIfLimited_alone (s : QuotaState) (res : Resource) :
    creations.Alone .next (s, .creating res)
      (match reserveIfLimited s.db s.clock res.teamId res.quotaKey res.idempotencyKey 1 with
        | .ok (db, r) => ({ s with db := db }, .reserved res (r.map Prod.fst))
        | .error _ => (s, .done)) := by
  cases hteam : s.db.teams.get? res.teamId with
  | none =>
      refine .single ?_
      simp [creations, Creation.stmt, reserveIfLimited, assertRequestIsMeasurable, hteam, bind,
        Except.bind]
  | some team =>
      have hlock : creations.stmt s (.creating res) .next = some (s, .teamLocked res team) := by
        simp [creations, Creation.stmt, hteam]
      refine .head hlock (.head (b := (s, s.afterTeam res team)) rfl ?_)
      simp only [reserveIfLimited, assertRequestIsMeasurable, hteam, bind, Except.bind,
        Nat.lt_irrefl, if_false, QuotaState.afterTeam]
      cases hex : s.db.existing res.teamId res.idempotencyKey with
      | some q =>
          simp only
          cases assertIdempotentRetryMatches q.2 res.quotaKey 1 with
          | error e => exact .refl
          | ok r => exact .refl
      | none =>
          simp only [assertCanCreate, assertRequestIsMeasurable, bind, Except.bind,
            Nat.lt_irrefl, if_false]
          cases hp : isPlatformTeam res.teamId with
          | true =>
              simp only [limit, hp, if_true]
              exact .refl
          | false =>
              cases hactive : team.isTenantActive with
              | false =>
                  simp only [Bool.false_eq_true, Bool.not_false, if_false, if_true]
                  exact .refl
              | true =>
                  simp only [Bool.false_eq_true, Bool.not_true, if_false]
                  cases limit res.teamId team res.quotaKey with
                  | error e => exact .refl
                  | ok o =>
                      cases o with
                      | none => exact .refl
                      | some l =>
                          have hadmit := admit_alone s res l
                          simp only
                          split at hadmit
                          · next h => rw [if_pos h]; exact hadmit
                          · next h => rw [if_neg h]; exact hadmit

/-- Without others, the statements of `created` compute `consume`. -/
theorem consume_alone (s : QuotaState) (teamId id resourceId : Nat) :
    creations.Alone .next (s, .created teamId id resourceId)
      (match consume s.db s.clock teamId id resourceId with
        | .ok db => ({ s with db := db }, .done)
        | .error _ => (s, .done)) := by
  refine .head (b := (s, s.lockToConsume teamId id resourceId)) rfl ?_
  unfold QuotaState.lockToConsume consume
  cases s.db.reservations.get? id with
  | none => exact .refl
  | some r =>
      simp only [bind, Except.bind]
      by_cases hteam : r.teamId = teamId
      · simp only [hteam, ne_eq, not_true_eq_false, if_false]
        cases checkConsumable r s.clock resourceId with
        | error e => exact .refl
        | ok o =>
            cases o with
            | none => exact .refl
            | some u => exact .single rfl
      · simp only [hteam, ne_eq, not_false_eq_true, if_true]
        exact .refl

end OnePloy
