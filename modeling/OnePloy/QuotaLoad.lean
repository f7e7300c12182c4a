import OnePloy.QuotaStatements

/-!
# The load on a quota

A unit of quota is a counted resource or a reservation that has none yet.
`load` counts them: the active reservations, and the resources that no active
reservation covers. It lies between the usage (`usage_le_load`) and the sum the
gate compares with the limit (`load_le_usage_add_reserved`), and of all writes
only the insert of a reservation adds to it.
-/

namespace OnePloy

open Conc

/-! ## The load -/

section Load

variable (teamId : Nat) (key : QuotaKey)

/-- A counted reservation exists under the idempotency key `k`. -/
def QuotaState.covers (s : QuotaState) (k : IdempotencyKey) : Bool :=
  (s.db.reservations.first? fun i r => counts teamId key s.clock i r &&
    r.idempotencyKey == k && decide (0 < r.quantity)).isSome

/-- The resources that no counted reservation covers. -/
def QuotaState.uncovered (s : QuotaState) : Nat :=
  s.db.resources.countWhere fun i r =>
    belongs teamId key i r && !s.covers teamId key r.idempotencyKey

/-- The units of quota in use. -/
def QuotaState.load (s : QuotaState) : Nat :=
  s.db.reserved teamId key s.clock + s.uncovered teamId key

end Load

/-- The unique indexes on `uuid`: no two rows of one model share theirs. -/
def QuotaDb.UniqueUuids (db : QuotaDb) : Prop :=
  ∀ i j r r', db.resources.get? i = some r → db.resources.get? j = some r' →
    r.idempotencyKey = r'.idempotencyKey → i = j

variable {teamId : Nat} {key : QuotaKey} {s : QuotaState}

theorem covers_iff {k : IdempotencyKey} :
    s.covers teamId key k = true ↔ ∃ i r, s.db.reservations.get? i = some r ∧
      counts teamId key s.clock i r = true ∧ r.idempotencyKey = k ∧ 0 < r.quantity := by
  constructor
  · intro h
    obtain ⟨⟨i, r⟩, hq⟩ := Option.isSome_iff_exists.mp h
    obtain ⟨hget, hp⟩ := Table.first?_some hq
    simp only [Bool.and_eq_true, beq_iff_eq, decide_eq_true_eq] at hp
    exact ⟨i, r, hget, hp.1.1, hp.1.2, hp.2⟩
  · rintro ⟨i, r, hget, hc, hk, hq⟩
    refine Option.isSome_iff_exists.mpr (Table.exists_first? hget ?_)
    simp [hc, hk, hq]

/-- Every counted resource is a unit of the load. -/
theorem usage_le_load (hkey : key ≠ .members) (hu : s.db.UniqueUuids) :
    s.db.usage teamId key ≤ s.load teamId key := by
  have hcovered : s.db.resources.countWhere (fun i r =>
      belongs teamId key i r && s.covers teamId key r.idempotencyKey)
        ≤ s.db.reserved teamId key s.clock := by
    rw [Table.countWhere_eq, Table.sumWhere, QuotaDb.reserved, Table.sumWhere]
    refine Table.sum_le_sum_of_keys (fun q => q.2.idempotencyKey)
      (fun q => q.2.idempotencyKey) (Table.select_map_nodup _ hu) ?_
    rintro ⟨i, r⟩ hi
    have hp := (Table.mem_select.mp hi).2
    rw [Bool.and_eq_true] at hp
    obtain ⟨j, r', hget, hc, hk, hq⟩ := covers_iff.mp hp.2
    exact ⟨(j, r'), Table.mem_select.mpr ⟨hget, hc⟩, hk, hq⟩
  have hsplit : s.db.resources.countWhere (belongs teamId key)
      = s.uncovered teamId key + s.db.resources.countWhere (fun i r =>
        belongs teamId key i r && s.covers teamId key r.idempotencyKey) := by
    simp only [QuotaState.uncovered, Table.countWhere_eq, Table.sumWhere_eq,
      ← List.sum_map_add]
    refine congrArg List.sum (List.map_congr_left fun q _ => ?_)
    cases belongs teamId key q.1 q.2 <;>
      cases s.covers teamId key q.2.idempotencyKey <;> rfl
  rw [usage_eq_countWhere hkey, hsplit, QuotaState.load]
  omega

theorem load_le_usage_add_reserved (hkey : key ≠ .members) :
    s.load teamId key ≤ s.db.usage teamId key + s.db.reserved teamId key s.clock := by
  have hmono : s.uncovered teamId key ≤ s.db.resources.countWhere (belongs teamId key) := by
    refine Table.countWhere_mono fun i r _ hp => ?_
    rw [Bool.and_eq_true] at hp
    exact hp.1
  rw [usage_eq_countWhere hkey, QuotaState.load]
  omega

/-! ## What each write does to the load -/

/-- What is still covered is not uncovered. -/
theorem uncovered_le {s' : QuotaState} (hres : s'.db.resources = s.db.resources)
    (h : ∀ i r, s.db.resources.get? i = some r → belongs teamId key i r = true →
      s.covers teamId key r.idempotencyKey = true →
      s'.covers teamId key r.idempotencyKey = true) :
    s'.uncovered teamId key ≤ s.uncovered teamId key := by
  rw [QuotaState.uncovered, hres]
  refine Table.countWhere_mono fun i r hget hp => ?_
  simp only [Bool.and_eq_true, Bool.not_eq_true'] at hp ⊢
  refine ⟨hp.1, Bool.eq_false_iff.mpr fun hc => ?_⟩
  exact Bool.false_ne_true (hp.2.symm.trans (h i r hget hp.1 hc))

theorem covers_insertReservation {k : IdempotencyKey} (r : QuotaReservation)
    (h : s.covers teamId key k = true) :
    (s.insertReservation r).covers teamId key k = true := by
  obtain ⟨i, r', hget, hc, hk, hq⟩ := covers_iff.mp h
  exact covers_iff.mpr ⟨i, r', Table.get?_insert_of_some r hget, hc, hk, hq⟩

theorem load_insertReservation (r : QuotaReservation) :
    (s.insertReservation r).load teamId key ≤ s.load teamId key +
      if counts teamId key s.clock s.db.reservations.nextId r then r.quantity else 0 := by
  have hres : (s.insertReservation r).db.reserved teamId key s.clock
      = s.db.reserved teamId key s.clock +
        if counts teamId key s.clock s.db.reservations.nextId r then r.quantity else 0 :=
    Table.sumWhere_insert ..
  have hunc : (s.insertReservation r).uncovered teamId key ≤ s.uncovered teamId key :=
    uncovered_le rfl fun _ _ _ _ hc => covers_insertReservation r hc
  calc (s.insertReservation r).load teamId key
      = (s.insertReservation r).db.reserved teamId key s.clock
          + (s.insertReservation r).uncovered teamId key := rfl
    _ ≤ _ := by rw [hres, QuotaState.load]; omega

/-- A resource whose reservation still counts is no new unit. -/
theorem load_insertResource {res : Resource}
    (h : belongs teamId key s.db.resources.nextId res = true →
      s.covers teamId key res.idempotencyKey = true) :
    (s.insertResource res).load teamId key = s.load teamId key := by
  have hunc : (s.insertResource res).uncovered teamId key = s.uncovered teamId key := by
    refine (Table.countWhere_insert ..).trans ?_
    rw [if_neg]
    · rfl
    · rw [Bool.and_eq_true, Bool.not_eq_true']
      rintro ⟨hb, hc⟩
      exact Bool.false_ne_true (hc.symm.trans (h hb))
  rw [QuotaState.load, hunc]
  rfl

theorem uniqueUuids_insertResource {res : Resource} (hu : s.db.UniqueUuids)
    (hfree : s.db.uuidTaken res = false) : (s.insertResource res).db.UniqueUuids := by
  have hnew : ∀ i r, s.db.resources.get? i = some r →
      r.idempotencyKey ≠ res.idempotencyKey := by
    intro i r hr
    have hnone := Option.not_isSome_iff_eq_none.mp (Bool.eq_false_iff.mp hfree)
    simpa using Table.first?_none hnone hr
  have hget : ∀ i r, (s.insertResource res).db.resources.get? i = some r →
      (i = s.db.resources.nextId ∧ r = res) ∨ s.db.resources.get? i = some r := by
    intro i r hr
    rw [show (s.insertResource res).db.resources.get? i = _ from Table.get?_insert ..] at hr
    split at hr
    · next hi => exact Or.inl ⟨hi, (Option.some.inj hr).symm⟩
    · exact Or.inr hr
  intro i j r r' hi hj hk
  rcases hget i r hi with ⟨rfl, rfl⟩ | hi'
  · rcases hget j r' hj with ⟨rfl, rfl⟩ | hj'
    · rfl
    · exact absurd hk.symm (hnew j r' hj')
  · rcases hget j r' hj with ⟨rfl, rfl⟩ | hj'
    · exact absurd hk (hnew i r hi')
    · exact hu i j r r' hi' hj' hk

/-- `f` ends a reservation and leaves what it is for. -/
structure Ends (f : QuotaReservation → QuotaReservation) : Prop where
  status : ∀ r, (f r).status ≠ .reserved
  teamId : ∀ r, (f r).teamId = r.teamId
  resourceType : ∀ r, (f r).resourceType = r.resourceType
  idempotencyKey : ∀ r, (f r).idempotencyKey = r.idempotencyKey
  quantity : ∀ r, (f r).quantity = r.quantity

theorem ends_consumed (resourceId : Nat) : Ends (consumed resourceId) :=
  ⟨fun _ => by simp [consumed], fun _ => rfl, fun _ => rfl, fun _ => rfl, fun _ => rfl⟩

theorem ends_released : Ends released :=
  ⟨fun _ => by simp [released], fun _ => rfl, fun _ => rfl, fun _ => rfl, fun _ => rfl⟩

theorem Ends.not_counts {f : QuotaReservation → QuotaReservation} (hf : Ends f) (now i : Nat)
    (r : QuotaReservation) : counts teamId key now i (f r) = false := by
  simp [counts, QuotaReservation.isActive, hf.status r]

/-- Ending a reservation uncovers its own key only. -/
theorem covers_updateReservation {k : IdempotencyKey} {id : Nat}
    {f : QuotaReservation → QuotaReservation} (h : s.covers teamId key k = true)
    (hother : ∀ r, s.db.reservations.get? id = some r →
      counts teamId key s.clock id r = true → r.idempotencyKey ≠ k) :
    (s.updateReservation id f).covers teamId key k = true := by
  obtain ⟨i, r, hget, hc, hk, hq⟩ := covers_iff.mp h
  have hne : i ≠ id := fun heq => hother r (heq ▸ hget) hc hk
  exact covers_iff.mpr ⟨i, r, (Table.get?_modify_ne f hne).trans hget, hc, hk, hq⟩

/-- The one resource that the end of the reservation `r` can uncover. -/
theorem uncovered_updateReservation {id : Nat} {r : QuotaReservation}
    (f : QuotaReservation → QuotaReservation) (hu : s.db.UniqueUuids)
    (hget : s.db.reservations.get? id = some r) :
    (s.updateReservation id f).uncovered teamId key ≤ s.uncovered teamId key + 1 := by
  obtain ⟨k, hk⟩ : ∃ k, ∀ i res, s.db.resources.get? i = some res →
      res.idempotencyKey = r.idempotencyKey → i = k := by
    by_cases hex : ∃ k res, s.db.resources.get? k = some res ∧
        res.idempotencyKey = r.idempotencyKey
    · obtain ⟨k, res', hk, hkey⟩ := hex
      exact ⟨k, fun i res hi hik => hu i k res res' hi hk (hik.trans hkey.symm)⟩
    · exact ⟨0, fun i res hi hik => absurd ⟨i, res, hi, hik⟩ hex⟩
  refine Table.countWhere_le_succ k fun i res hi hp => ?_
  simp only [Bool.and_eq_true, Bool.not_eq_true'] at hp ⊢
  by_cases hkey : res.idempotencyKey = r.idempotencyKey
  · exact Or.inr (hk i res hi hkey)
  · refine Or.inl ⟨hp.1, Bool.eq_false_iff.mpr fun hcov => ?_⟩
    have hstill := covers_updateReservation (f := f) hcov fun r' hr' _ heq => by
      rw [Option.some.inj (hr'.symm.trans hget)] at heq
      exact hkey heq.symm
    exact Bool.false_ne_true (hp.2.symm.trans hstill)

/-- Ending a reservation frees its units, one of which may go to the resource
it covered. -/
theorem load_updateReservation {id : Nat} {f : QuotaReservation → QuotaReservation}
    (hf : Ends f) (hu : s.db.UniqueUuids) :
    (s.updateReservation id f).load teamId key ≤ s.load teamId key := by
  by_cases hr : ∃ r, s.db.reservations.get? id = some r ∧
      counts teamId key s.clock id r = true ∧ 0 < r.quantity
  · obtain ⟨r, hget, hc, hq⟩ := hr
    have hres : (s.updateReservation id f).db.reserved teamId key s.clock + r.quantity
        = s.db.reserved teamId key s.clock := by
      have hmod := Table.sumWhere_modify (p := counts teamId key s.clock)
        (f := QuotaReservation.quantity) f hget
      rwa [if_pos hc, if_neg (by simp [hf.not_counts]), Nat.add_zero] at hmod
    have hunc : (s.updateReservation id f).uncovered teamId key
        ≤ s.uncovered teamId key + 1 := uncovered_updateReservation f hu hget
    calc (s.updateReservation id f).load teamId key
        = (s.updateReservation id f).db.reserved teamId key s.clock
            + (s.updateReservation id f).uncovered teamId key := rfl
      _ ≤ s.load teamId key := by rw [QuotaState.load]; omega
  · have hres : (s.updateReservation id f).db.reserved teamId key s.clock
        ≤ s.db.reserved teamId key s.clock := by
      refine Table.sumWhere_modify_le fun r _ => ?_
      rw [if_neg (by simp [hf.not_counts])]
      exact Nat.zero_le _
    have hunc : (s.updateReservation id f).uncovered teamId key ≤ s.uncovered teamId key := by
      refine uncovered_le rfl fun i res _ _ hcov => ?_
      obtain ⟨j, r, hget, hc, hk, hq⟩ := covers_iff.mp hcov
      have hne : j ≠ id := fun heq => hr ⟨r, heq ▸ hget, heq ▸ hc, hq⟩
      exact covers_iff.mpr ⟨j, r, (Table.get?_modify_ne f hne).trans hget, hc, hk, hq⟩
    exact Nat.add_le_add hres hunc

theorem load_delete {resourceId : Nat} {s' : QuotaState}
    (h : s.env (.delete resourceId) = some s') : s'.load teamId key ≤ s.load teamId key := by
  have hunc : s'.uncovered teamId key ≤ s.uncovered teamId key := by
    obtain rfl := Option.some.inj h
    exact Table.countWhere_deleteWhere_le s.db.resources (fun i r =>
      belongs teamId key i r && !s.covers teamId key r.idempotencyKey) _
  have hres : s'.db.reserved teamId key s'.clock = s.db.reserved teamId key s.clock := by
    obtain rfl := Option.some.inj h
    rfl
  rw [QuotaState.load, QuotaState.load, hres]
  omega

theorem isActive_of_le {r : QuotaReservation} {now later : Nat} (hle : now ≤ later)
    (h : r.isActive later = true) : r.isActive now = true := by
  simp only [QuotaReservation.isActive, Bool.and_eq_true] at h ⊢
  refine ⟨h.1, ?_⟩
  split
  · rfl
  · next e he =>
      have hlt := h.2
      simp only [he, decide_eq_true_eq] at hlt ⊢
      omega

/-- Time frees units, and uncovers no resource whose reservation it leaves
active. -/
theorem load_pass {seconds : Nat} {s' : QuotaState} (h : s.env (.pass seconds) = some s')
    (hcov : ∀ i r, s.db.resources.get? i = some r → belongs teamId key i r = true →
      s.covers teamId key r.idempotencyKey = true →
      s'.covers teamId key r.idempotencyKey = true) :
    s'.load teamId key ≤ s.load teamId key := by
  obtain rfl := Option.some.inj h
  refine Nat.add_le_add (Table.sumWhere_mono fun i r _ hp => ?_) (uncovered_le rfl hcov)
  simp only [counts, Bool.and_eq_true] at hp ⊢
  exact ⟨hp.1, isActive_of_le (Nat.le_add_right ..) hp.2⟩

end OnePloy
