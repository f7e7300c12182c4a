import OnePloy.QuotaLoad

/-!
# Concurrent creations under a quota

The gate compares the limit with `used + reserved`, two reads taken one after
the other without holding what they read. A unit that moves from the second to
the first in between is in neither, so the sum can fall short of the load.
`undisturbed` says when that does not happen: then what a creation has counted
when it takes the sum bounds the load (`sound_admit`), and the limit holds in
every interleaving (`usage_le_limit`).
-/

namespace OnePloy

open Conc

variable {teamId : Nat} {key : QuotaKey} {s : QuotaState}

/-! ## Undisturbed runs -/

section Run

variable (teamId : Nat) (key : QuotaKey)

/-- A count that has passed the resource under `k` without seeing it. -/
def Creation.misses (s : QuotaState) (k : IdempotencyKey) : Creation → Bool
  | .counting res _ models seen =>
      res.teamId == teamId && res.quotaKey == key &&
        (s.db.resources.first? fun i r => belongs teamId key i r && r.idempotencyKey == k &&
          !models.contains r.model && !seen.contains i).isSome
  | _ => false

/-- No count misses a resource that the reservation stands for. -/
def noneMisses (w : World QuotaState Creation) (reservation : Nat) : Bool :=
  match w.db.db.reservations.get? reservation with
  | none => true
  | some r => !(r.teamId == teamId && r.resourceType == key) ||
      w.procs.all fun l => !l.misses teamId key w.db r.idempotencyKey

/-- A resource is inserted only on an active reservation; a reservation is
ended only when no count misses its resource; and the clock ends none whose
resource exists. -/
def undisturbed (w : World QuotaState Creation) : Action Creation Event QuotaEnv → Bool
  | .run i .next =>
      match w.procs[i]? with
      | some (.reserved res (some reservation)) =>
          !(res.teamId == teamId && res.quotaKey == key) ||
            (w.db.db.reservations.get? reservation).any (·.isActive w.db.clock)
      | some (.consuming reservation _) => noneMisses teamId key w reservation
      | some (.releasing reservation) => noneMisses teamId key w reservation
      | _ => true
  | .env (.pass seconds) => w.db.db.reservations.rows.all fun (i, r) =>
      !(counts teamId key w.db.clock i r) || r.isActive (w.db.clock + seconds) ||
        (w.db.db.resources.first? fun _ res => res.idempotencyKey == r.idempotencyKey).isNone
  | _ => true

/-- What holds between two statements of a creation. -/
def Creation.Sound (l : ℚ) : Creation → QuotaState → Prop
  | .teamLocked res team, s => s.db.teams.get? res.teamId = some team
  | .counting res l' models seen, s => res.teamId = teamId → res.quotaKey = key → l' = l ∧
      ∀ i r, s.db.resources.get? i = some r → belongs teamId key i r = true →
        r.model ∉ models → i ∉ seen → s.covers teamId key r.idempotencyKey = true
  | .reserving res, s => res.teamId = teamId → res.quotaKey = key →
      ((s.load teamId key + 1 : Nat) : ℚ) ≤ l
  | .reserved res none, _ => ¬ (res.teamId = teamId ∧ res.quotaKey = key)
  | .reserved res (some id), s => ∃ r, s.db.reservations.get? id = some r ∧
      r.teamId = res.teamId ∧ r.resourceType = res.quotaKey ∧
      r.idempotencyKey = res.idempotencyKey ∧ r.quantity = 1
  | _, _ => True

/-- The team of the limit, and a load within it. -/
structure Within (team : Team) (l : ℚ) (s : QuotaState) : Prop where
  unique : s.db.UniqueUuids
  team : s.db.teams.get? teamId = some team
  load : ((s.load teamId key : Nat) : ℚ) ≤ l

/-- The assertions behind `usage_le_limit`. -/
def quotaAssertions (team : Team) (l : ℚ) : Machine.Assertions QuotaState Creation where
  store := Within teamId key team l
  at_ := Creation.Sound teamId key l

end Run

variable {team : Team} {l : ℚ}

theorem sound_done (s : QuotaState) : Creation.done.Sound teamId key l s := trivial

theorem sound_afterTeam {res : Resource} {team' : Team} (hkey : key ≠ .members)
    (hl : limit teamId team key = .ok (some l)) (hw : Within teamId key team l s)
    (hteam : s.db.teams.get? res.teamId = some team') :
    (s.afterTeam res team').Sound teamId key l s := by
  -- for the team and key of the limit, the locked row is the team of the limit
  have hlim : res.teamId = teamId → res.quotaKey = key →
      isPlatformTeam res.teamId = false ∧ limit res.teamId team' res.quotaKey = .ok (some l) := by
    intro ht hq
    obtain rfl : team' = team := by
      rw [ht, hw.team] at hteam
      exact (Option.some.inj hteam).symm
    rw [ht, hq]
    exact ⟨(limit_nonneg hl).1, hl⟩
  unfold QuotaState.afterTeam
  split
  · next id r hex =>
      obtain ⟨hget, ht, hk⟩ := existing_some hex
      split
      · next r' hr' =>
          obtain ⟨-, htype, hq⟩ := assertIdempotentRetryMatches_ok hr'
          exact ⟨r, hget, ht, htype, hk, hq⟩
      · exact sound_done s
  · split
    · next hp =>
        rintro ⟨ht, hq⟩
        exact Bool.false_ne_true ((hlim ht hq).1.symm.trans hp)
    · split
      · exact sound_done s
      · split
        · exact sound_done s
        · next hnone =>
            rintro ⟨ht, hq⟩
            cases (hlim ht hq).2.symm.trans hnone
        · next l' hl' =>
            intro ht hq
            refine ⟨by cases (hlim ht hq).2.symm.trans hl'; rfl, ?_⟩
            intro i r _ hb hnot
            simp only [belongs, Bool.and_eq_true, beq_iff_eq] at hb
            exact absurd ((mem_usageModels (hq ▸ hkey)).mpr (hb.2.trans hq.symm)) hnot

/-- Counting one more model. -/
theorem sound_count {res : Resource} {l' : ℚ} {m : ResourceModel} {models : List ResourceModel}
    {seen : List Nat} (h : (Creation.counting res l' (m :: models) seen).Sound teamId key l s) :
    (Creation.counting res l' models
      (seen ++ (s.db.modelRows res.teamId m).map Prod.fst)).Sound teamId key l s := by
  intro ht hq
  obtain ⟨hl, hseen⟩ := h ht hq
  refine ⟨hl, fun i r hget hb hnot hns => ?_⟩
  rw [List.mem_append, not_or] at hns
  by_cases hm : r.model = m
  · refine absurd (List.mem_map_of_mem (f := Prod.fst) (Table.mem_select.mpr ⟨hget, ?_⟩)) hns.2
    simp only [belongs, Bool.and_eq_true, beq_iff_eq] at hb ⊢
    exact ⟨hb.1.trans ht.symm, hm⟩
  · exact hseen i r hget hb (by simpa [hm] using hnot) hns.1

/-- The sum of the reservations, taken now, and the resources counted before
add up to at least the load. -/
theorem sound_admit {res : Resource} {l' : ℚ} {seen : List Nat}
    (h : (Creation.counting res l' [] seen).Sound teamId key l s) :
    (if exceeds seen.length (s.db.reserved res.teamId res.quotaKey s.clock) 1 l'
      then Creation.done else .reserving res).Sound teamId key l s := by
  split
  · exact sound_done s
  · next hroom =>
      intro ht hq
      obtain ⟨rfl, hseen⟩ := h ht hq
      have hunc : s.uncovered teamId key ≤ seen.length := by
        refine Table.countWhere_le_length fun i r hget hp => ?_
        simp only [Bool.and_eq_true, Bool.not_eq_true'] at hp
        by_contra hns
        have hc := hseen i r hget hp.1 (List.not_mem_nil) hns
        exact Bool.false_ne_true (hp.2.symm.trans hc)
      rw [ht, hq] at hroom
      have hle : ((seen.length + s.db.reserved teamId key s.clock + 1 : Nat) : ℚ) ≤ l' := by
        simpa [exceeds] using hroom
      refine le_trans (Nat.cast_le.mpr ?_) hle
      rw [QuotaState.load]
      omega

/-! ## Every interleaving -/

/-- A creation holds the team of its quota while it counts and reserves. -/
theorem sound_insertReservation {m : Creation} {r : QuotaReservation}
    (h : m.Sound teamId key l s) (hlock : QuotaRow.team r.teamId ∉ m.held) :
    m.Sound teamId key l (s.insertReservation r) := by
  cases m with
  | counting res l' models seen =>
      intro ht hq
      obtain ⟨hl, hseen⟩ := h ht hq
      exact ⟨hl, fun i r' hget hb hnot hns =>
        covers_insertReservation r (hseen i r' hget hb hnot hns)⟩
  | reserving res =>
      intro ht hq
      have hload : (s.insertReservation r).load teamId key ≤ s.load teamId key +
          if counts teamId key s.clock s.db.reservations.nextId r then r.quantity else 0 :=
        load_insertReservation r
      rw [if_neg] at hload
      · exact le_trans (Nat.cast_le.mpr (by omega)) (h ht hq)
      · intro hc
        simp only [counts, Bool.and_eq_true, beq_iff_eq] at hc
        exact hlock (List.mem_singleton.mpr (by rw [hc.1.1, ht]))
  | reserved res reservation =>
      cases reservation with
      | none => exact h
      | some id =>
          obtain ⟨r', hget, hid⟩ := h
          exact ⟨r', Table.get?_insert_of_some r hget, hid⟩
  | _ => exact h

theorem sound_insertResource {m : Creation} {res : Resource} (h : m.Sound teamId key l s)
    (hcov : belongs teamId key s.db.resources.nextId res = true →
      s.covers teamId key res.idempotencyKey = true) :
    m.Sound teamId key l (s.insertResource res) := by
  cases m with
  | counting res' l' models seen =>
      intro ht hq
      obtain ⟨hl, hseen⟩ := h ht hq
      refine ⟨hl, fun i r hget hb hnot hns => ?_⟩
      rw [show (s.insertResource res).db.resources.get? i = _ from Table.get?_insert ..] at hget
      split at hget
      · obtain rfl := Option.some.inj hget
        exact hcov hb
      · exact hseen i r hget hb hnot hns
  | reserving res' =>
      intro ht hq
      rw [load_insertResource hcov]
      exact h ht hq
  | reserved res' reservation => cases reservation <;> exact h
  | _ => exact h

/-- A count survives the end of a reservation whose resource it does not
miss. -/
theorem sound_updateReservation {m : Creation} {id : Nat}
    {f : QuotaReservation → QuotaReservation} (hf : Ends f) (hu : s.db.UniqueUuids)
    (h : m.Sound teamId key l s)
    (hmiss : ∀ r, s.db.reservations.get? id = some r → r.teamId = teamId →
      r.resourceType = key → m.misses teamId key s r.idempotencyKey = false) :
    m.Sound teamId key l (s.updateReservation id f) := by
  cases m with
  | counting res l' models seen =>
      intro ht hq
      obtain ⟨hl, hseen⟩ := h ht hq
      refine ⟨hl, fun i r hget hb hnot hns => ?_⟩
      refine covers_updateReservation (hseen i r hget hb hnot hns) fun r' hr' hc heq => ?_
      simp only [counts, Bool.and_eq_true, beq_iff_eq] at hc
      have hno := hmiss r' hr' hc.1.1 hc.1.2
      simp only [Creation.misses, ht, hq, beq_self_eq_true, Bool.true_and] at hno
      have hnone := Option.not_isSome_iff_eq_none.mp (Bool.eq_false_iff.mp hno)
      have hfalse := Table.first?_none hnone hget
      simp [hb, heq, hnot, hns] at hfalse
  | reserving res =>
      intro ht hq
      have hload : (s.updateReservation id f).load teamId key ≤ s.load teamId key :=
        load_updateReservation hf hu
      exact le_trans (Nat.cast_le.mpr (by omega)) (h ht hq)
  | reserved res reservation =>
      cases reservation with
      | none => exact h
      | some j =>
          obtain ⟨r, hget, ht, hk, hi, hq⟩ := h
          by_cases hj : j = id
          · subst hj
            exact ⟨f r, Table.get?_modify_self f hget, (hf.teamId r).trans ht,
              (hf.resourceType r).trans hk, (hf.idempotencyKey r).trans hi,
              (hf.quantity r).trans hq⟩
          · exact ⟨r, (Table.get?_modify_ne f hj).trans hget, ht, hk, hi, hq⟩
  | _ => exact h

/-- A resource is inserted under an active reservation of its own. -/
theorem covers_of_reserved {w : World QuotaState Creation} {i : Nat} {res : Resource}
    {reservation : Option Nat} {j : Nat}
    (h : (Creation.reserved res reservation).Sound teamId key l w.db)
    (hi : w.procs[i]? = some (.reserved res reservation))
    (hok : undisturbed teamId key w (.run i .next) = true)
    (hb : belongs teamId key j res = true) :
    w.db.covers teamId key res.idempotencyKey = true := by
  simp only [belongs, Bool.and_eq_true, beq_iff_eq] at hb
  cases reservation with
  | none => exact absurd hb h
  | some id =>
      obtain ⟨r, hget, ht, hk, hidem, hq⟩ := h
      have hact : r.isActive w.db.clock = true := by
        simpa [undisturbed, hi, Resource.quotaKey, hb.1, hb.2, hget] using hok
      refine covers_iff.mpr ⟨id, r, hget, ?_, hidem, by omega⟩
      simp [counts, ht, hk, hact, Resource.quotaKey, hb.1, hb.2]

theorem misses_of_noneMisses {w : World QuotaState Creation} {id : Nat}
    (h : noneMisses teamId key w id = true) {m : Creation} (hm : m ∈ w.procs) :
    ∀ r, w.db.db.reservations.get? id = some r → r.teamId = teamId → r.resourceType = key →
      m.misses teamId key w.db r.idempotencyKey = false := by
  intro r hr ht hk
  have hall := h
  simp only [noneMisses, hr, ht, hk, beq_self_eq_true, Bool.and_self, Bool.not_true,
    Bool.false_or, List.all_eq_true, Bool.not_eq_true'] at hall
  exact hall m hm

/-- What `undisturbed` says of the write that ends a reservation. -/
theorem undisturbed_ends {w : World QuotaState Creation} {i id : Nat} {l' : Creation}
    {f : QuotaReservation → QuotaReservation}
    (hl : (∃ resourceId, l' = .consuming id resourceId ∧ f = consumed resourceId) ∨
      (l' = .releasing id ∧ f = released)) (hi : w.procs[i]? = some l')
    (hok : undisturbed teamId key w (.run i .next) = true) :
    Ends f ∧ noneMisses teamId key w id = true := by
  rcases hl with ⟨resourceId, rfl, rfl⟩ | ⟨rfl, rfl⟩
  · exact ⟨ends_consumed resourceId, by simpa [undisturbed, hi] using hok⟩
  · exact ⟨ends_released, by simpa [undisturbed, hi] using hok⟩

/-- The clock leaves covered what exists. -/
theorem covers_pass {w : World QuotaState Creation} {seconds : Nat} {s' : QuotaState}
    (hok : undisturbed teamId key w (.env (.pass seconds)) = true)
    (h : w.db.env (.pass seconds) = some s') :
    ∀ i r, w.db.db.resources.get? i = some r → belongs teamId key i r = true →
      w.db.covers teamId key r.idempotencyKey = true →
      s'.covers teamId key r.idempotencyKey = true := by
  intro i r hget _ hcov
  obtain rfl := Option.some.inj h
  obtain ⟨j, r', hget', hc, hk, hq⟩ := covers_iff.mp hcov
  have hall := List.all_eq_true.mp hok (j, r') (Table.mem_rows.mpr hget')
  obtain ⟨q, hsome⟩ : ∃ q, w.db.db.resources.first?
      (fun _ res => res.idempotencyKey == r'.idempotencyKey) = some q :=
    Table.exists_first? hget (by simp [hk])
  simp only [hc, Bool.not_true, Bool.false_or, hsome, Option.isNone_some, Bool.or_false] at hall
  refine covers_iff.mpr ⟨j, r', hget', ?_, hk, hq⟩
  simp only [counts, Bool.and_eq_true] at hc ⊢
  exact ⟨hc.1, hall⟩

variable {w : World QuotaState Creation}

/-- A statement keeps the load within the limit. -/
theorem within_stmt {i : Nat} {a : Event} {l₁ l₂ : Creation} {s' : QuotaState}
    (hw : creations.Good (quotaAssertions teamId key team l) w)
    (hok : undisturbed teamId key w (.run i a) = true) (hi : w.procs[i]? = some l₁)
    (h : l₁.stmt w.db a = some (s', l₂)) : Within teamId key team l s' := by
  have hstore : Within teamId key team l w.db := hw.store
  have hat : l₁.Sound teamId key l w.db := hw.at_ hi
  rcases Creation.writes_of h with rfl | ⟨res, rfl, rfl⟩ |
    ⟨res, reservation, rfl, rfl, hfree, rfl⟩ | ⟨id, f, hl, rfl, rfl⟩
  · exact hstore
  · refine ⟨hstore.unique, hstore.team, ?_⟩
    have hload : (w.db.insertReservation (newReservation res.teamId res.quotaKey
        res.idempotencyKey 1 w.db.clock)).load teamId key ≤ w.db.load teamId key + _ :=
      load_insertReservation _
    by_cases hc : res.teamId = teamId ∧ res.quotaKey = key
    · refine le_trans (Nat.cast_le.mpr (le_trans hload ?_)) (hat hc.1 hc.2)
      split <;> simp [newReservation]
    · rw [if_neg] at hload
      · exact le_trans (Nat.cast_le.mpr hload) hstore.load
      · intro hcount
        simp only [counts, newReservation, Bool.and_eq_true, beq_iff_eq] at hcount
        exact hc hcount.1
  · refine ⟨uniqueUuids_insertResource hstore.unique hfree, hstore.team, ?_⟩
    rw [load_insertResource fun hb => covers_of_reserved hat hi hok hb]
    exact hstore.load
  · obtain ⟨hends, -⟩ := undisturbed_ends hl hi hok
    have hload : (w.db.updateReservation id f).load teamId key ≤ w.db.load teamId key :=
      load_updateReservation hends hstore.unique
    exact ⟨hstore.unique, hstore.team, le_trans (Nat.cast_le.mpr hload) hstore.load⟩

/-- A statement establishes what holds before the next one. -/
theorem sound_stmt {i : Nat} {a : Event} {l₁ l₂ : Creation} {s' : QuotaState}
    (hkey : key ≠ .members) (hl : limit teamId team key = .ok (some l))
    (hw : creations.Good (quotaAssertions teamId key team l) w)
    (hi : w.procs[i]? = some l₁) (h : l₁.stmt w.db a = some (s', l₂)) :
    l₂.Sound teamId key l s' := by
  have hat : l₁.Sound teamId key l w.db := hw.at_ hi
  cases a with
  | crash =>
      obtain ⟨-, rfl⟩ := stmt_crash h
      exact sound_done s'
  | insertFails =>
      obtain ⟨-, rfl | ⟨_, _, rfl⟩⟩ := stmt_insertFails h
      · exact sound_done s'
      · trivial
  | next =>
      cases l₁ with
      | done => cases h
      | creating res =>
          obtain ⟨rfl, rfl⟩ := Prod.mk.inj (Option.some.inj h)
          split
          · exact sound_done _
          · next team' hteam => exact hteam
      | teamLocked res team' =>
          obtain ⟨rfl, rfl⟩ := Prod.mk.inj (Option.some.inj h)
          exact sound_afterTeam hkey hl hw.store hat
      | counting res l' models seen =>
          cases models with
          | cons m models =>
              obtain ⟨rfl, rfl⟩ := Prod.mk.inj (Option.some.inj h)
              exact sound_count hat
          | nil =>
              obtain ⟨rfl, rfl⟩ := Prod.mk.inj (Option.some.inj h)
              exact sound_admit hat
      | reserving res =>
          obtain ⟨rfl, rfl⟩ := Prod.mk.inj (Option.some.inj h)
          exact ⟨_, Table.get?_insert_self .., rfl, rfl, rfl, rfl⟩
      | reserved res reservation =>
          simp only [Creation.stmt] at h
          split at h
          · cases h
          · obtain ⟨-, rfl⟩ := Prod.mk.inj (Option.some.inj h)
            cases reservation <;> trivial
      | created t id resourceId =>
          obtain ⟨rfl, rfl⟩ := Prod.mk.inj (Option.some.inj h)
          unfold QuotaState.lockToConsume
          repeat' split
          all_goals trivial
      | creationFailed t id =>
          obtain ⟨rfl, rfl⟩ := Prod.mk.inj (Option.some.inj h)
          unfold QuotaState.lockToRelease
          repeat' split
          all_goals trivial
      | consuming id resourceId | releasing id =>
          obtain ⟨-, rfl⟩ := Prod.mk.inj (Option.some.inj h)
          exact sound_done s'

/-- A statement of one creation keeps what holds for another. -/
theorem sound_other {i : Nat} {a : Event} {l₁ l₂ m : Creation} {s' : QuotaState}
    (hw : creations.Good (quotaAssertions teamId key team l) w)
    (hok : undisturbed teamId key w (.run i a) = true) (hi : w.procs[i]? = some l₁)
    (h : l₁.stmt w.db a = some (s', l₂)) (hm : m ∈ w.procs) (hat : m.Sound teamId key l w.db)
    (hlock : ∀ r ∈ l₁.held, r ∉ m.held) : m.Sound teamId key l s' := by
  rcases Creation.writes_of h with rfl | ⟨res, rfl, rfl⟩ |
    ⟨res, reservation, rfl, rfl, hfree, rfl⟩ | ⟨id, f, hl, rfl, rfl⟩
  · exact hat
  · exact sound_insertReservation hat (hlock _ (List.mem_singleton.mpr rfl))
  · exact sound_insertResource hat fun hb => covers_of_reserved (hw.at_ hi) hi hok hb
  · obtain ⟨hends, hmiss⟩ := undisturbed_ends hl hi hok
    exact sound_updateReservation hends hw.store.unique hat (misses_of_noneMisses hmiss hm)

/-- Neither a deletion nor the clock adds to the load or uncovers a resource. -/
theorem load_env {e : QuotaEnv} {s' : QuotaState}
    (hok : undisturbed teamId key w (.env e) = true) (h : w.db.env e = some s') :
    s'.load teamId key ≤ w.db.load teamId key ∧
      (∀ i r, s'.db.resources.get? i = some r → w.db.db.resources.get? i = some r) ∧
      (∀ i r, s'.db.resources.get? i = some r → belongs teamId key i r = true →
        w.db.covers teamId key r.idempotencyKey = true →
        s'.covers teamId key r.idempotencyKey = true) ∧
      s'.db.reservations = w.db.db.reservations ∧ s'.db.teams = w.db.db.teams := by
  cases e with
  | delete resourceId =>
      refine ⟨load_delete h, ?_⟩
      obtain rfl := Option.some.inj h
      exact ⟨fun i r hget => (Table.get?_deleteWhere.mp hget).1, fun _ _ _ _ hc => hc, rfl, rfl⟩
  | pass seconds =>
      have hcov := covers_pass hok h
      refine ⟨load_pass h hcov, ?_⟩
      obtain rfl := Option.some.inj h
      exact ⟨fun _ _ hget => hget, hcov, rfl, rfl⟩

theorem within_env {e : QuotaEnv} {s' : QuotaState}
    (hok : undisturbed teamId key w (.env e) = true) (h : w.db.env e = some s')
    (hw : Within teamId key team l w.db) : Within teamId key team l s' := by
  obtain ⟨hload, hsub, -, -, hteams⟩ := load_env hok h
  exact ⟨fun i j r r' hi hj hk => hw.unique i j r r' (hsub i r hi) (hsub j r' hj) hk,
    by rw [hteams, hw.team], le_trans (Nat.cast_le.mpr hload) hw.load⟩

theorem sound_env {e : QuotaEnv} {s' : QuotaState} {m : Creation}
    (hok : undisturbed teamId key w (.env e) = true) (h : w.db.env e = some s')
    (hat : m.Sound teamId key l w.db) : m.Sound teamId key l s' := by
  obtain ⟨hload, hsub, hcov, hres, hteams⟩ := load_env hok h
  cases m with
  | teamLocked res team' =>
      have hteam : w.db.db.teams.get? res.teamId = some team' := hat
      rwa [← hteams] at hteam
  | counting res l' models seen =>
      intro ht hq
      obtain ⟨hl, hseen⟩ := hat ht hq
      exact ⟨hl, fun i r hget hb hnot hns =>
        hcov i r hget hb (hseen i r (hsub i r hget) hb hnot hns)⟩
  | reserving res =>
      intro ht hq
      exact le_trans (Nat.cast_le.mpr (by omega)) (hat ht hq)
  | reserved res reservation =>
      cases reservation with
      | none => exact hat
      | some id =>
          obtain ⟨r, hget, hid⟩ := hat
          exact ⟨r, by rw [hres, hget], hid⟩
  | _ => trivial

theorem quota_obligations (hkey : key ≠ .members) (hl : limit teamId team key = .ok (some l)) :
    creations.Obligations (fun w a => undisturbed teamId key w a = true)
      (quotaAssertions teamId key team l) where
  start {s m} _ hm := by
    cases m with
    | creating res => trivial
    | _ => cases hm
  startPair _ _ := ⟨trivial, trivial⟩
  own hw hok hi h := ⟨within_stmt hw hok hi h, sound_stmt hkey hl hw hi h⟩
  other hw hok hi h _ hj _ hlock :=
    ⟨sound_other hw hok hi h (List.mem_of_getElem? hj) (hw.at_ hj) hlock, trivial, trivial⟩
  env hw hok h := within_env hok h hw.store
  envOther hw hok h hj _ := sound_env hok h (hw.at_ hj)

/-- The counted resources of a team stay within its limit in every undisturbed
interleaving of creations and deletions. -/
theorem usage_le_limit {s : QuotaState} {w : World QuotaState Creation}
    (hkey : key ≠ .members) (hu : s.db.UniqueUuids)
    (hteam : s.db.teams.get? teamId = some team)
    (hl : limit teamId team key = .ok (some l))
    (hstart : ((s.db.usage teamId key + s.db.reserved teamId key s.clock : Nat) : ℚ) ≤ l)
    (hrun : Reaches creations.step (fun w a => undisturbed teamId key w a = true)
      (Machine.idle s) w) :
    (w.db.db.usage teamId key : ℚ) ≤ l := by
  have hload : ((s.load teamId key : Nat) : ℚ) ≤ l :=
    le_trans (Nat.cast_le.mpr (load_le_usage_add_reserved hkey)) hstart
  have hgood := (quota_obligations hkey hl).reaches hrun
    (Machine.good_idle (S := quotaAssertions teamId key team l) ⟨hu, hteam, hload⟩)
  have hwithin : Within teamId key team l w.db := hgood.store
  exact le_trans (Nat.cast_le.mpr (usage_le_load hkey hwithin.unique)) hwithin.load

/-! ## Two projects for one -/

instance (teamId : Nat) (key : QuotaKey) :
    DecidableRel fun w a => undisturbed teamId key w a = true :=
  fun w a => inferInstanceAs (Decidable (undisturbed teamId key w a = true))

theorem emptyTeam_uniqueUuids (l : ℚ) : (emptyTeam l).db.UniqueUuids := by
  intro i j r r' hi
  cases hi

def projectRow (uuid : String) : Resource := ⟨.project, uuid, 1⟩

/-- Two projects created side by side under a limit of two: both count before
either is inserted. -/
theorem usage_le_limit_two_projects :
    ∃ w, Reaches creations.step (fun w a => undisturbed 1 .projects w a = true)
      (Machine.idle (emptyTeam 2)) w ∧ w.db.db.usage 1 .projects = 2 ∧
      (w.db.db.usage 1 .projects : ℚ) ≤ 2 := by
  obtain ⟨w, hrun, husage⟩ := exists_reaches_of_execIf creations.step
    (fun w a => undisturbed 1 .projects w a = true) (Machine.idle (emptyTeam 2))
    (List.flatten [[.spawn (.creating (projectRow "a")), .spawn (.creating (projectRow "b"))],
      .replicate 5 (.run 0 .next), .replicate 5 (.run 1 .next), [.env (.pass 60)],
      .replicate 3 (.run 0 .next), .replicate 3 (.run 1 .next)])
    (fun w => w.db.db.usage 1 .projects == 2) (by decide +kernel)
  have hteam : (emptyTeam 2).db.teams.get? 1 = some ⟨true, fun _ => .number 2⟩ := rfl
  exact ⟨w, hrun, by simpa using husage,
    usage_le_limit (by decide) (emptyTeam_uniqueUuids _) hteam rfl (by decide) hrun⟩

/-- No active reservation expires. -/
def inTime (w : World QuotaState Creation) : Action Creation Event QuotaEnv → Bool
  | .env (.pass seconds) => w.db.db.reservations.rows.all fun (_, r) =>
      !(r.isActive w.db.clock) || r.isActive (w.db.clock + seconds)
  | _ => true

/-- Under a limit of one, the second creation counts before the first project
is inserted and sums after its reservation is consumed. -/
theorem creations_exceed_limit :
    ¬ ∀ (s : QuotaState) (w : World QuotaState Creation) (teamId : Nat) (key : QuotaKey)
      (team : Team) (l : ℚ), key ≠ .members → s.db.UniqueUuids →
      s.db.teams.get? teamId = some team → limit teamId team key = .ok (some l) →
      ((s.db.usage teamId key + s.db.reserved teamId key s.clock : Nat) : ℚ) ≤ l →
      Reaches creations.step (fun w a => inTime w a = true) (Machine.idle s) w →
      (w.db.db.usage teamId key : ℚ) ≤ l := by
  intro h
  obtain ⟨w, hrun, husage⟩ := exists_reaches_of_execIf creations.step
    (fun w a => inTime w a = true) (Machine.idle (emptyTeam 1))
    (List.flatten [[.spawn (.creating (projectRow "a")), .spawn (.creating (projectRow "b"))],
      .replicate 5 (.run 0 .next), .replicate 3 (.run 1 .next), .replicate 3 (.run 0 .next),
      .replicate 3 (.run 1 .next)])
    (fun w => w.db.db.usage 1 .projects == 2) (by decide +kernel)
  have hteam : (emptyTeam 1).db.teams.get? 1 = some ⟨true, fun _ => .number 1⟩ := rfl
  have hle := h _ w 1 .projects _ 1 (by decide) (emptyTeam_uniqueUuids _) hteam rfl
    (by decide) hrun
  rw [show w.db.db.usage 1 .projects = 2 by simpa using husage] at hle
  norm_num at hle

end OnePloy
