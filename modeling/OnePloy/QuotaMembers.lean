import OnePloy.Lib.Reach
import OnePloy.QuotaGate

/-!
# The members quota over the life of a team

`TeamMemberAdmission::attach` admits a member under a reservation whose
idempotency key is fixed per user. Each attach is one transaction that holds
the team row, so a team's history is a sequence of attaches and removals with
time passing in between (`memberStep`).

The gate answers a second admission of the same user with the reservation of
the first, without looking at the limit again. `RoomForReadmission` says when
that is harmless: the limit survives exactly the steps that satisfy it.
-/

namespace OnePloy

open Conc

/-! ## Attach and remove -/

def QuotaDb.isMember (db : QuotaDb) (userId teamId : Nat) : Bool :=
  db.members.any fun m => m.userId == userId && m.teamId == teamId

def QuotaDb.addMember (db : QuotaDb) (userId teamId : Nat) (role : String) : QuotaDb :=
  { db with members := db.members ++ [⟨userId, teamId, role⟩] }

/-- `TeamMemberAdmission::attach`; an error rolls the whole transaction back. -/
def attach (db : QuotaDb) (now userId teamId : Nat) (role : String) :
    Except String (QuotaDb × Bool) :=
  match db.teams.get? teamId with
  | none => .error noTeam
  | some _ =>
      if db.isMember userId teamId then .ok (db, false)
      else do
        let (db, reservation) ← reserveIfLimited db now teamId .members (.teamMember userId) 1
        let db := db.addMember userId teamId role
        match reservation with
        | none => .ok (db, true)
        | some (id, r) => do
            let db ← consume db now r.teamId id userId
            .ok (db, true)

/-- The detach of `Team\Member::remove`. -/
def detach (db : QuotaDb) (userId teamId : Nat) : QuotaDb :=
  { db with members := db.members.filter fun m => !(m.userId == userId && m.teamId == teamId) }

inductive MemberAction
  | attach (userId teamId : Nat) (role : String)
  | remove (userId teamId : Nat)
  | pass (seconds : Nat)

def memberStep (s : QuotaState) : MemberAction → Option QuotaState
  | .attach userId teamId role =>
      match attach s.db s.clock userId teamId role with
      | .ok (db, _) => some { s with db := db }
      | .error _ => some s
  | .remove userId teamId => some { s with db := detach s.db userId teamId }
  | .pass seconds => some { s with clock := s.clock + seconds }

/-! ## Readmission -/

/-- The user is no member but has a reservation that the gate replays and
`consume` accepts: one this user consumed before, or one still active. -/
def QuotaState.readmits (s : QuotaState) (userId teamId : Nat) : Bool :=
  !s.db.isMember userId teamId &&
    match s.db.existing teamId (.teamMember userId) with
    | none => false
    | some (_, r) => r.resourceType == .members && r.quantity == 1 &&
        (r.isActive s.clock || (r.status == .consumed && r.resourceId == some userId))

/-- No readmission to a full team. -/
def RoomForReadmission (teamId : Nat) (l : ℚ) (s : QuotaState) : MemberAction → Prop
  | .attach userId teamId' _ => teamId' = teamId → s.readmits userId teamId = true →
      ((s.db.memberCount teamId + 1 : Nat) : ℚ) ≤ l
  | _ => True

/-! ## What the transactions do to the members -/

theorem memberCount_addMember (db : QuotaDb) (userId teamId teamId' : Nat) (role : String) :
    (db.addMember userId teamId' role).memberCount teamId
      = db.memberCount teamId + if teamId' = teamId then 1 else 0 := by
  by_cases h : teamId' = teamId
  · simp [QuotaDb.memberCount, QuotaDb.addMember, h]
  · simp [QuotaDb.memberCount, QuotaDb.addMember, h]

theorem memberCount_detach_le (db : QuotaDb) (userId teamId teamId' : Nat) :
    (detach db userId teamId').memberCount teamId ≤ db.memberCount teamId :=
  List.filter_sublist.countP_le

/-- `consume` writes reservations only. -/
theorem consume_frame {db db' : QuotaDb} {now teamId id resourceId : Nat}
    (h : consume db now teamId id resourceId = .ok db') :
    ∃ rs, db' = { db with reservations := rs } := by
  obtain ⟨r, -, -, ⟨rfl, -⟩ | ⟨-, rfl⟩⟩ := consume_cases h
  · exact ⟨_, rfl⟩
  · exact ⟨_, rfl⟩

/-- A reservation can be consumed exactly when it is active, or consumed by
the same resource before. -/
theorem consume_ok_iff {now id resourceId : Nat} {r : QuotaReservation} (db : QuotaDb)
    (hr : db.reservations.get? id = some r) :
    (∃ db', consume db now r.teamId id resourceId = .ok db') ↔
      (r.isActive now || (r.status == .consumed && r.resourceId == some resourceId)) = true := by
  simp only [consume, hr, ne_eq, not_true_eq_false, if_false, checkConsumable, bind_eq_ok]
  cases hs : r.status with
  | consumed =>
      by_cases hid : r.resourceId = some resourceId
      · simp [hid, QuotaReservation.isActive, hs]
      · simp [hid, QuotaReservation.isActive, hs]
  | released => simp [QuotaReservation.isActive, hs]
  | reserved => cases hact : r.isActive now <;> simp

/-- What a successful attach did: nothing, for a member; otherwise it reserved
and added the member, and consumed the reservation if there is one. Only
members and reservations are written. -/
theorem attach_cases {db db' : QuotaDb} {now userId teamId : Nat} {role : String} {b : Bool}
    (h : attach db now userId teamId role = .ok (db', b)) :
    (db.isMember userId teamId = true ∧ db' = db) ∨
    (db.isMember userId teamId = false ∧ ∃ db₁ res rs,
      reserveIfLimited db now teamId .members (.teamMember userId) 1 = .ok (db₁, res) ∧
      (∀ id r, res = some (id, r) →
        ∃ db₂, consume (db₁.addMember userId teamId role) now r.teamId id userId = .ok db₂) ∧
      db' = { db.addMember userId teamId role with reservations := rs }) := by
  unfold attach at h
  cases ht : db.teams.get? teamId with
  | none => rw [ht] at h; cases h
  | some team =>
      cases hmem : db.isMember userId teamId with
      | true =>
          simp only [ht, hmem, if_true] at h
          exact Or.inl ⟨rfl, (Prod.mk.inj (Except.ok.inj h)).1.symm⟩
      | false =>
          simp only [ht, hmem, Bool.false_eq_true, if_false, bind_eq_ok] at h
          obtain ⟨⟨db₁, res⟩, hres, h⟩ := h
          obtain ⟨rs, rfl⟩ := reserveIfLimited_frame hres
          refine Or.inr ⟨rfl, { db with reservations := rs }, res, ?_⟩
          cases res with
          | none =>
              obtain ⟨rfl, -⟩ := Prod.mk.inj (Except.ok.inj h)
              exact ⟨rs, hres, fun _ _ hn => (nomatch hn), rfl⟩
          | some q =>
              obtain ⟨id, r⟩ := q
              simp only [bind_eq_ok] at h
              obtain ⟨db₂, hcon, h⟩ := h
              obtain ⟨rs₂, rfl⟩ := consume_frame hcon
              obtain ⟨rfl, -⟩ := Prod.mk.inj (Except.ok.inj h)
              refine ⟨rs₂, hres, fun id' r' heq => ?_, rfl⟩
              obtain ⟨rfl, rfl⟩ := Prod.mk.inj (Option.some.inj heq)
              exact ⟨_, hcon⟩

theorem attach_teams {db db' : QuotaDb} {now userId teamId : Nat} {role : String} {b : Bool}
    (h : attach db now userId teamId role = .ok (db', b)) : db'.teams = db.teams := by
  rcases attach_cases h with ⟨-, rfl⟩ | ⟨-, _, _, _, -, -, rfl⟩
  · rfl
  · rfl

theorem memberCount_attach_other {db db' : QuotaDb} {now userId teamId teamId' : Nat}
    {role : String} {b : Bool} (hne : teamId' ≠ teamId)
    (h : attach db now userId teamId' role = .ok (db', b)) :
    db'.memberCount teamId = db.memberCount teamId := by
  rcases attach_cases h with ⟨-, rfl⟩ | ⟨-, _, _, _, -, -, rfl⟩
  · rfl
  · exact (memberCount_addMember db userId teamId teamId' role).trans (by rw [if_neg hne]; rfl)

section Limit

variable {teamId : Nat} {team : Team} {l : ℚ}

/-- A readmission succeeds, whatever the member count. -/
theorem attach_readmits {s : QuotaState} {userId : Nat} (role : String)
    (ht : s.db.teams.get? teamId = some team) (hre : s.readmits userId teamId = true) :
    ∃ db', attach s.db s.clock userId teamId role = .ok (db', true) ∧
      db'.memberCount teamId = s.db.memberCount teamId + 1 := by
  simp only [QuotaState.readmits, Bool.and_eq_true, Bool.not_eq_true'] at hre
  obtain ⟨hmem, hre⟩ := hre
  cases hex : s.db.existing teamId (.teamMember userId) with
  | none => rw [hex] at hre; cases hre
  | some q =>
      obtain ⟨id, r⟩ := q
      simp only [hex, Bool.and_eq_true, beq_iff_eq] at hre
      obtain ⟨⟨hkey, hq⟩, hcon⟩ := hre
      have hres : reserveIfLimited s.db s.clock teamId .members (.teamMember userId) 1
          = .ok (s.db, some (id, r)) := by
        simp [reserveIfLimited, assertRequestIsMeasurable, ht, hex, hkey, hq,
          assertIdempotentRetryMatches, bind, Except.bind]
      obtain ⟨hget, -, -⟩ := existing_some hex
      obtain ⟨db₂, hcon⟩ := (consume_ok_iff (s.db.addMember userId teamId role) hget).mpr hcon
      refine ⟨db₂, ?_, ?_⟩
      · simp [attach, ht, hmem, hres, hcon, bind, Except.bind]
      · obtain ⟨rs, rfl⟩ := consume_frame hcon
        exact (memberCount_addMember s.db userId teamId teamId role).trans (by rw [if_pos rfl])

/-- An attach that is no readmission adds a member only where the gate found
room. -/
theorem attach_not_readmits {s : QuotaState} {db' : QuotaDb} {b : Bool} {userId : Nat}
    {role : String} (ht : s.db.teams.get? teamId = some team)
    (hl : limit teamId team .members = .ok (some l)) (hre : s.readmits userId teamId = false)
    (h : attach s.db s.clock userId teamId role = .ok (db', b)) :
    db' = s.db ∨ (db'.memberCount teamId : ℚ) ≤ l := by
  rcases attach_cases h with ⟨-, rfl⟩ | ⟨hmem, db₁, res, rs, hres, hcon, rfl⟩
  · exact Or.inl rfl
  · refine Or.inr ?_
    rcases reserveIfLimited_cases ht hl hres with
      ⟨id, r, hex, hkey, hq, rfl, rfl⟩ | ⟨-, hroom, -, -⟩
    · -- a replay that went on to `consume` successfully is a readmission
      obtain ⟨hget, -, -⟩ := existing_some hex
      have hok := (consume_ok_iff (s.db.addMember userId teamId role) hget).mp (hcon id r rfl)
      simp [QuotaState.readmits, hmem, hex, hkey, hq, hok] at hre
    · have hcount := memberCount_addMember s.db userId teamId teamId role
      rw [if_pos rfl] at hcount
      refine le_trans (Nat.cast_le.mpr ?_) hroom
      calc (s.db.addMember userId teamId role).memberCount teamId
          = s.db.memberCount teamId + 1 := hcount
        _ ≤ s.db.memberCount teamId + s.db.reserved teamId .members s.clock + 1 := by omega

/-! ## The limit over a run -/

theorem memberStep_teams {s s' : QuotaState} {a : MemberAction} (h : memberStep s a = some s') :
    s'.db.teams = s.db.teams := by
  cases a with
  | attach userId teamId role =>
      simp only [memberStep] at h
      split at h
      · next hatt =>
          obtain rfl := Option.some.inj h
          exact attach_teams hatt
      · rw [Option.some.inj h]
  | remove userId teamId => obtain rfl := Option.some.inj h; rfl
  | pass seconds => obtain rfl := Option.some.inj h; rfl

/-- A team within its limit stays within it in exactly the steps that leave
room for a readmission. -/
theorem memberCount_step_le_iff {s s' : QuotaState} {a : MemberAction}
    (ht : s.db.teams.get? teamId = some team)
    (hl : limit teamId team .members = .ok (some l))
    (hs : (s.db.memberCount teamId : ℚ) ≤ l) (h : memberStep s a = some s') :
    (s'.db.memberCount teamId : ℚ) ≤ l ↔ RoomForReadmission teamId l s a := by
  cases a with
  | pass seconds =>
      obtain rfl := Option.some.inj h
      exact ⟨fun _ => trivial, fun _ => hs⟩
  | remove userId teamId' =>
      obtain rfl := Option.some.inj h
      have hle := memberCount_detach_le s.db userId teamId teamId'
      exact ⟨fun _ => trivial, fun _ => le_trans (Nat.cast_le.mpr hle) hs⟩
  | attach userId teamId' role =>
      by_cases hteam : teamId' = teamId
      · subst hteam
        cases hre : s.readmits userId teamId' with
        | true =>
            obtain ⟨db', hatt, hcount⟩ := attach_readmits role ht hre
            simp only [memberStep, hatt] at h
            obtain rfl := Option.some.inj h
            simp [RoomForReadmission, hre, hcount]
        | false =>
            refine ⟨fun _ _ hre' => absurd hre' (by simp [hre]), fun _ => ?_⟩
            simp only [memberStep] at h
            split at h
            · next hatt =>
                obtain rfl := Option.some.inj h
                rcases attach_not_readmits ht hl hre hatt with rfl | hle
                · exact hs
                · exact hle
            · rwa [← Option.some.inj h]
      · refine ⟨fun _ heq => absurd heq hteam, fun _ => ?_⟩
        simp only [memberStep] at h
        split at h
        · next hatt =>
            obtain rfl := Option.some.inj h
            rwa [memberCount_attach_other hteam hatt]
        · rwa [← Option.some.inj h]

/-- Within the limit at the start, a team is within it throughout every run
that leaves room for its readmissions, and from any state of such a run one
more step exceeds the limit exactly when it is a readmission to a full team. -/
theorem memberCount_le_limit {s s' : QuotaState} (ht : s.db.teams.get? teamId = some team)
    (hl : limit teamId team .members = .ok (some l)) (hs : (s.db.memberCount teamId : ℚ) ≤ l)
    (hrun : Reaches memberStep (RoomForReadmission teamId l) s s') :
    (s'.db.memberCount teamId : ℚ) ≤ l ∧
      ∀ a s'', memberStep s' a = some s'' →
        ((s''.db.memberCount teamId : ℚ) ≤ l ↔ RoomForReadmission teamId l s' a) := by
  have hinv : s'.db.teams.get? teamId = some team ∧ (s'.db.memberCount teamId : ℚ) ≤ l := by
    refine hrun.invariant (I := fun s => s.db.teams.get? teamId = some team ∧
      (s.db.memberCount teamId : ℚ) ≤ l) ?_ ⟨ht, hs⟩
    rintro s a s' ⟨ht, hs⟩ hok hst
    exact ⟨by rw [memberStep_teams hst, ht],
      (memberCount_step_le_iff ht hl hs hst).mpr hok⟩
  exact ⟨hinv.2, fun a s'' hst => memberCount_step_le_iff hinv.1 hl hinv.2 hst⟩

end Limit

/-! ## One seat, two users -/

instance (teamId : Nat) (l : ℚ) : DecidableRel (RoomForReadmission teamId l)
  | s, .attach userId teamId' _ => inferInstanceAs (Decidable (teamId' = teamId →
      s.readmits userId teamId = true → ((s.db.memberCount teamId + 1 : Nat) : ℚ) ≤ l))
  | _, .remove _ _ => isTrue trivial
  | _, .pass _ => isTrue trivial

/-- With two seats, a removed user is readmitted next to another one. -/
theorem memberCount_le_limit_two_seats :
    ∃ s', Reaches memberStep (RoomForReadmission 1 2) (emptyTeam 2) s' ∧
      s'.db.memberCount 1 = 2 ∧ (s'.db.memberCount 1 : ℚ) ≤ 2 ∧
      ∀ a s'', memberStep s' a = some s'' →
        ((s''.db.memberCount 1 : ℚ) ≤ 2 ↔ RoomForReadmission 1 2 s' a) := by
  obtain ⟨s', hrun, hcount⟩ := exists_reaches_of_execIf memberStep
    (RoomForReadmission 1 2) (emptyTeam 2)
    [.attach 7 1 "member", .remove 7 1, .pass 60, .attach 8 1 "member", .attach 7 1 "admin"]
    (fun s => s.db.memberCount 1 == 2) (by decide)
  have hteam : (emptyTeam 2).db.teams.get? 1 = some ⟨true, fun _ => .number 2⟩ := rfl
  exact ⟨s', hrun, by simpa using hcount, memberCount_le_limit hteam rfl (by decide) hrun⟩

/-- With one seat, the attach that ends the same run succeeds and leaves two
members. -/
theorem readmission_exceeds_limit :
    ¬ ∀ (s s' : QuotaState) (teamId : Nat) (team : Team) (l : ℚ),
      s.db.teams.get? teamId = some team → limit teamId team .members = .ok (some l) →
      (s.db.memberCount teamId : ℚ) ≤ l → Reaches memberStep Any s s' →
      ∀ (userId : Nat) (role : String) (db' : QuotaDb),
        attach s'.db s'.clock userId teamId role = .ok (db', true) →
        (db'.memberCount teamId : ℚ) ≤ l := by
  intro h
  obtain ⟨s', hrun, hlast⟩ := exists_reaches_of_execIf memberStep Any (emptyTeam 1)
    [.attach 7 1 "member", .remove 7 1, .attach 8 1 "member"]
    (fun s => (attach s.db s.clock 7 1 "member").toOption.any fun r =>
      r.2 && r.1.memberCount 1 == 2) (by decide)
  obtain ⟨⟨db', attached⟩, hr, htwo⟩ := (Option.any_eq_true ..).mp hlast
  rw [Bool.and_eq_true, beq_iff_eq] at htwo
  obtain ⟨hattached, hcount⟩ := htwo
  have hatt := eq_ok_of_toOption hr
  rw [show attached = true from hattached] at hatt
  have hle := h _ s' 1 ⟨true, fun _ => .number 1⟩ 1 rfl rfl (by decide) hrun 7 "member" db' hatt
  rw [show db'.memberCount 1 = 2 from hcount] at hle
  norm_num at hle

end OnePloy
