import OnePloy.DomainDelivery

/-!
# Provisioning, once and for good

A domain row waits for its payment, then for its job; the first transaction of
a provisioning job takes it out of waiting under lock, and nothing brings it
back. So a domain is taken by one job at most, whatever else is queued,
retried or killed, and the registrar is called once at most, for a checkout
that was paid (`registered_once`).

What becomes of the row afterwards is up to the jobs: only the hook `failed`
writes without looking, and it may write over a registration that has
succeeded. `sparesDelivered` allows all runs but those, and in them a
registration is kept (`registration_kept`).
-/

namespace OnePloy

open Conc Php

variable {conv : Conversions} {cfg : CommerceConfig} {s s' : CommerceStore}

/-! ## Where a domain stands, and who has it -/

/-- Not yet taken by a job. -/
def DomainStatus.waiting : DomainStatus → Bool
  | .pendingPayment | .pendingRegistration => true
  | _ => false

/-- Registered, and known to be. -/
def DomainStatus.delivered : DomainStatus → Bool
  | .registered | .dnsPending | .active => true
  | _ => false

/-- The domain that a job has taken. -/
def DomainJob.taker : DomainJob → Option Nat
  | .registering m => some m.id
  | .awaitingRegistrar m => some m.id
  | .registered m _ => some m.id
  | .refused m _ => some m.id
  | .ensuringZone m => some m.id
  | .storingZone m _ _ => some m.id
  | .pendingDns m => some m.id
  | .dispatching m => some m.id
  | .noting m _ => some m.id
  | _ => none

/-- The answer of the registrar is not stored yet. -/
def DomainJob.unregistered : DomainJob → Bool
  | .registering _ => true
  | .awaitingRegistrar _ => true
  | .registered _ _ => true
  | .refused _ _ => true
  | _ => false

/-- What a job still has to write of a status. -/
def DomainJob.Honest : DomainJob → Prop
  | .ensuringZone m => m.current.status.delivered = true
  | .storingZone m _ _ => m.current.status.delivered = true
  | .pendingDns m => m.current.status.delivered = true
  | .dispatching m => m.current.status.delivered = true
  | .noting m _ => m.current.status.delivered = true
  | .verifying m _ => m.current.status = m.original.status
  | .waiting m => m.current.status = m.original.status
  | _ => True

def CommerceCall.taker : CommerceCall → Option Nat
  | .checkout _ => none
  | .job j => j.taker

def CommerceCall.Honest : CommerceCall → Prop
  | .checkout _ => True
  | .job j => j.Honest

/-! ## What a statement does to a status -/

/-- The moves of a domain's status that a statement may make. -/
inductive CommerceCall.Moves (l : CommerceCall) (id : Nat) : DomainStatus → DomainStatus → Prop
  | stays {st} : Moves l id st st
  | queued : Moves l id .pendingPayment .pendingRegistration
  | taken (job : l = .job (.provision id)) : Moves l id .pendingRegistration .registering
  | delivered {st st'} (taker : l.taker = some id) (delivered : st'.delivered = true) :
      Moves l id st st'
  | refused {m message st} (job : l = .job (.refused m message)) (taker : m.id = id) :
      Moves l id st .manualReview
  | failed {st} (job : l = .job (.failed id)) : Moves l id st .manualReview
  | activated : Moves l id .dnsPending .active

/-- What a statement does to the domain rows: those that were there move, or
are deleted while they wait. -/
structure CommerceCall.Rows (l : CommerceCall) (db db' : CommerceDb) : Prop where
  nextId : db.domains.nextId ≤ db'.domains.nextId
  moves : ∀ {id d'}, id < db.domains.nextId → db'.domains.get? id = some d' →
    ∃ d, db.domains.get? id = some d ∧ l.Moves id d.status d'.status
  kept : ∀ {id d}, db.domains.get? id = some d → d.status.waiting = false →
    ∃ d', db'.domains.get? id = some d'

theorem CommerceCall.Rows.same {l : CommerceCall} {db db' : CommerceDb}
    (h : db'.domains = db.domains) : l.Rows db db' where
  nextId := by rw [h]
  moves {id d'} _ hd' := ⟨d', by rw [← h, hd'], .stays⟩
  kept {id d} hd _ := ⟨d, by rw [h, hd]⟩

theorem CommerceCall.Rows.updateWhere {l : CommerceCall} {db db' : CommerceDb}
    {p : Nat → Domain → Bool} {f : Domain → Domain}
    (h : db'.domains = db.domains.updateWhere p f)
    (hmoves : ∀ id d, db.domains.get? id = some d → p id d = true →
      l.Moves id d.status (f d).status) : l.Rows db db' := by
  have hget : ∀ id, db'.domains.get? id =
      (db.domains.get? id).map fun d => if p id d then f d else d := by
    intro id
    rw [h, Table.get?_updateWhere]
  refine ⟨by rw [h, Table.updateWhere_nextId], fun {id d'} _ hd' => ?_, fun {id d} hd _ => ?_⟩
  · rw [hget] at hd'
    obtain ⟨d, hd, rfl⟩ := Option.map_eq_some_iff.mp hd'
    refine ⟨d, hd, ?_⟩
    split
    · next hp => exact hmoves id d hd hp
    · exact .stays
  · exact ⟨_, by rw [hget, hd, Option.map_some]⟩

theorem CommerceCall.Rows.modify {l : CommerceCall} {db db' : CommerceDb} {key : Nat}
    {f : Domain → Domain} (h : db'.domains = db.domains.modify key f)
    (hmoves : ∀ d, db.domains.get? key = some d → l.Moves key d.status (f d).status) :
    l.Rows db db' :=
  .updateWhere h fun id d hd hid => by
    obtain rfl : id = key := by simpa using hid
    exact hmoves d hd

/-- A new row, in place of one that waited or of none. -/
theorem CommerceCall.Rows.create {l : CommerceCall} {db base : CommerceDb} {name : String}
    {sessions : Table CheckoutSession} {row : Domain}
    (hrow : (base.domains = db.domains ∧
        ∀ i d, db.domains.get? i = some d → d.name ≠ name) ∨
      ∃ key existing, db.domains.get? key = some existing ∧ existing.name = name ∧
        existing.status = .pendingPayment ∧
        base.domains = db.domains.deleteWhere fun i _ => i == key) :
    l.Rows db { base with sessions := sessions, domains := base.domains.insert row } := by
  have hnext : base.domains.nextId = db.domains.nextId := by
    rcases hrow with ⟨heq, -⟩ | ⟨key, existing, -, -, -, heq⟩
    · rw [heq]
    · rw [heq, Table.deleteWhere_nextId]
  have hget : ∀ id d, base.domains.get? id = some d → db.domains.get? id = some d := by
    intro id d hd
    rcases hrow with ⟨heq, -⟩ | ⟨key, existing, -, -, -, heq⟩
    · exact heq ▸ hd
    · rw [heq] at hd
      exact (Table.get?_deleteWhere.mp hd).1
  refine ⟨?_, fun {id d'} hid hd' => ?_, fun {id d} hd hsettled => ?_⟩
  · rw [Table.insert_nextId, hnext]
    exact Nat.le_succ _
  · rw [Table.get?_insert, if_neg (by omega)] at hd'
    exact ⟨d', hget id d' hd', .stays⟩
  · refine ⟨d, Table.get?_insert_of_some _ ?_⟩
    rcases hrow with ⟨heq, -⟩ | ⟨key, existing, hexisting, -, hwaiting, heq⟩
    · rw [heq, hd]
    · rw [heq]
      refine Table.get?_deleteWhere.mpr ⟨hd, ?_⟩
      rw [beq_eq_false_iff_ne]
      rintro rfl
      obtain rfl := Option.some.inj (hd.symm.trans hexisting)
      rw [hwaiting] at hsettled
      cases hsettled

/-- A save writes the status only where it was changed. -/
theorem write_status (m : DomainInstance) (row : Domain) :
    (m.write row).status = row.status ∨ (m.write row).status = m.current.status := by
  unfold DomainInstance.write
  split
  · exact Or.inl rfl
  · exact Or.inr rfl

theorem CommerceCall.Rows.save {l : CommerceCall} {db : CommerceDb} {m : DomainInstance}
    (h : ∀ st, l.Moves m.id st m.current.status) : l.Rows db (db.save m) :=
  .modify rfl fun d _ => by
    rcases write_status m d with heq | heq
    · rw [heq]
      exact .stays
    · rw [heq]
      exact h _

theorem DomainJob.Writes.rows {j : DomainJob} {db : CommerceDb} (h : j.Writes cfg s db)
    (hj : j.Honest) : (CommerceCall.job j).Rows s.db db := by
  cases h with
  | nothing => exact .same rfl
  | take =>
      simp only [CommerceDb.takeDomain]
      split
      · exact .same rfl
      · next d hget =>
          split
          · exact .same rfl
          · split
            · exact .same rfl
            · next hpaid =>
                refine .modify (by dsimp only [CommerceDb.updateDomain]) fun d' hd' => ?_
                obtain rfl := Option.some.inj (hget.symm.trans hd')
                rw [not_or, not_not] at hpaid
                rw [hpaid.1]
                exact .taken rfl
  | storeRegistered => exact .save fun _ => .delivered rfl rfl
  | refuse => exact .save fun _ => .refused rfl rfl
  | storeZone =>
      simp only [CommerceDb.storeZone]
      split
      · exact .same rfl
      · exact .same rfl
  | storePending => exact .save fun _ => .delivered rfl rfl
  | note => exact .save fun _ => .delivered rfl hj
  | fail => exact .modify rfl fun _ _ => .failed rfl
  | @wait m =>
      refine .modify rfl fun d _ => ?_
      have hstatus : ((m.fill (·.noted waitingForDelegation)).write d).status = d.status :=
        if_pos hj
      rw [hstatus]
      exact .stays
  | activate =>
      simp only [CommerceDb.activateDomain]
      split
      · exact .same rfl
      · next d hget =>
          split
          · exact .same rfl
          · next hpending =>
              refine .modify (by dsimp only) fun d' hd' => ?_
              obtain rfl := Option.some.inj (hget.symm.trans hd')
              rw [not_or, not_not] at hpending
              rw [hpending.1]
              exact .activated
  | verifyFailed => exact .modify rfl fun _ _ => .stays

theorem CheckoutCall.Writes.rows {c : CheckoutCall} {db : CommerceDb} (h : c.Writes cfg s db) :
    (CommerceCall.checkout c).Rows s.db db := by
  cases h with
  | nothing | closeWebhook | failInitiation | expire past => exact .same rfl
  | recordWebhook =>
      simp only [CommerceDb.recordWebhook]
      split
      · exact .same rfl
      · exact .same rfl
  | claim supported ok =>
      rcases claimPayment_cases ok with rfl | ⟨locked, f, -, -, rfl, -⟩
      · exact .same rfl
      · exact .same rfl
  | finish ok =>
      rcases finishPayment_cases ok with rfl | ⟨locked, -, -, -, rfl⟩
      · exact .same rfl
      · exact .same rfl
  | cancel =>
      unfold CommerceDb.cancelSession
      split
      · exact .same rfl
      · exact .same rfl
  | markPaid ok =>
      rcases markPaid_cases ok with ⟨rfl, -⟩ | ⟨session, teamId, -, -, -, -, -, -, -, rfl⟩
      · exact .same rfl
      · exact .same rfl
  | queue =>
      refine .updateWhere (by dsimp only [CommerceDb.queuePaidDomainRegistrations])
        fun id d _ hqueued => ?_
      rw [Bool.and_eq_true, beq_iff_eq, beq_iff_eq] at hqueued
      rw [hqueued.2]
      exact .queued
  | note =>
      unfold CommerceDb.noteFailure
      split
      · exact .same rfl
      · exact .same rfl
  | startDomain ok =>
      rcases startDomain_cases ok with rfl | ⟨base, -, -, -, hrow, rfl⟩
      · exact .same rfl
      · exact .create hrow

/-! ## What moves preserve -/

theorem CommerceCall.Moves.settled {l : CommerceCall} {id : Nat} {st st' : DomainStatus}
    (h : l.Moves id st st') (hst : st.waiting = false) : st'.waiting = false := by
  cases h with
  | stays => exact hst
  | queued | taken => cases hst
  | delivered taker hdelivered =>
      cases st' <;> first | rfl | cases hdelivered
  | refused | failed | activated => rfl

/-- Only who has taken a domain delivers it. -/
theorem CommerceCall.Moves.undelivered {l : CommerceCall} {id : Nat} {st st' : DomainStatus}
    (h : l.Moves id st st') (htaker : l.taker ≠ some id) (hst : st.delivered = false) :
    st'.delivered = false := by
  cases h with
  | stays => exact hst
  | delivered taker => exact absurd taker htaker
  | queued | taken | refused | failed => rfl
  | activated => cases hst

/-- A delivered domain is taken back by a refusal or by the hook. -/
theorem CommerceCall.Moves.delivered_cases {l : CommerceCall} {id : Nat} {st st' : DomainStatus}
    (h : l.Moves id st st') (hst : st.delivered = true) :
    st'.delivered = true ∨ (∃ m message, l = .job (.refused m message) ∧ m.id = id) ∨
      l = .job (.failed id) := by
  cases h with
  | stays => exact Or.inl hst
  | queued | taken => cases hst
  | delivered _ hdelivered => exact Or.inl hdelivered
  | @refused m message _ job taker => exact Or.inr (Or.inl ⟨m, message, job, taker⟩)
  | failed job => exact Or.inr (Or.inr job)
  | activated => exact Or.inl rfl

/-! ## What a job may hold -/

/-- The row of a domain that is taken, or was, is there for good and waits no
more. -/
def CommerceDb.Taken (db : CommerceDb) (id : Nat) : Prop :=
  id < db.domains.nextId ∧ ∀ d, db.domains.get? id = some d → d.status.waiting = false

theorem CommerceCall.Rows.taken {l : CommerceCall} {db db' : CommerceDb} (h : l.Rows db db')
    {id : Nat} (ht : db.Taken id) : db'.Taken id := by
  refine ⟨Nat.lt_of_lt_of_le ht.1 h.nextId, fun d' hd' => ?_⟩
  obtain ⟨d, hd, hmoves⟩ := h.moves ht.1 hd'
  exact hmoves.settled (ht.2 d hd)

theorem CommerceCall.Rows.undelivered {l : CommerceCall} {db db' : CommerceDb}
    (h : l.Rows db db') {id : Nat} (hid : id < db.domains.nextId) (htaker : l.taker ≠ some id)
    (hun : ∀ d, db.domains.get? id = some d → d.status.delivered = false) :
    ∀ d, db'.domains.get? id = some d → d.status.delivered = false := by
  intro d' hd'
  obtain ⟨d, hd, hmoves⟩ := h.moves hid hd'
  exact hmoves.undelivered htaker (hun d hd)

/-- What is true of a job that runs. -/
structure DomainJob.At (j : DomainJob) (s : CommerceStore) : Prop where
  honest : j.Honest
  taken : ∀ id, j.taker = some id → s.db.Taken id
  undelivered : ∀ id, j.taker = some id → j.unregistered = true →
    ∀ d, s.db.domains.get? id = some d → d.status.delivered = false
  uncalled : ∀ m, j = .registering m → m.id ∉ s.registrations

def CommerceCall.At (l : CommerceCall) (s : CommerceStore) : Prop :=
  match l with
  | .checkout _ => True
  | .job j => j.At s

theorem CommerceCall.At.honest {l : CommerceCall} (h : l.At s) : l.Honest := by
  cases l with
  | checkout c => trivial
  | job j => exact DomainJob.At.honest h

/-- A domain is taken while it waits, for a session that is paid. -/
theorem takeDomain_cases {db db' : CommerceDb} {domainId : Nat} {m : DomainInstance}
    (h : db.takeDomain domainId = (db', some m)) :
    m.id = domainId ∧ ∃ d sessionId r, db.domains.get? domainId = some d ∧
      d.status = .pendingRegistration ∧ d.checkoutSessionId = some sessionId ∧
      db.sessions.get? sessionId = some r ∧ r.status = .paid ∧
      (∀ d', db'.domains.get? domainId = some d' → d'.status = .registering) := by
  simp only [CommerceDb.takeDomain] at h
  split at h
  · cases (Prod.mk.inj h).2
  · next d hget =>
      split at h
      · cases (Prod.mk.inj h).2
      · split at h
        · cases (Prod.mk.inj h).2
        · next hready =>
            obtain ⟨rfl, hm⟩ := Prod.mk.inj h
            obtain rfl := Option.some.inj hm
            rw [not_or, not_not, not_not] at hready
            obtain ⟨r, hr, hpaid⟩ := Option.map_eq_some_iff.mp hready.2
            obtain ⟨sessionId, hsession, hr⟩ := Option.bind_eq_some_iff.mp hr
            refine ⟨rfl, d, sessionId, r, hget, hready.1, hsession, hr, hpaid, fun d' hd' => ?_⟩
            rw [show (db.updateDomain domainId _).domains.get? domainId = _ from
              Table.get?_modify_self _ hget] at hd'
            obtain rfl := Option.some.inj hd'
            rfl

/-- A job has what it had, or takes a domain; and until it has stored the
registrar's answer, it writes nothing. -/
inductive DomainJob.Holds (s s' : CommerceStore) (j j' : DomainJob) (id : Nat) : Prop
  | had (taker : j.taker = some id)
      (unregistered : j'.unregistered = true → j.unregistered = true ∧ s'.db = s.db)
      (called : ∀ m, j' ≠ .registering m)
  | takes (m : DomainInstance) (before : j = .provision id) (after : j' = .registering m)
      (mine : m.id = id) (taken : s.db.takeDomain id = (s'.db, some m))
      (registrations : s'.registrations = s.registrations)

theorem DomainJob.holds {j j' : DomainJob} {a : Reply} (h : j.stmt cfg s a = some (s', j'))
    {id : Nat} (ht : j'.taker = some id) : DomainJob.Holds s s' j j' id := by
  cases a with
  | next =>
      cases j with
      | provision domainId =>
          simp only [DomainJob.stmt] at h
          cases htake : s.db.takeDomain domainId with
          | mk db taken =>
              simp only [htake] at h
              obtain ⟨rfl, rfl⟩ := Prod.mk.inj (Option.some.inj h)
              cases taken with
              | none => cases ht
              | some m =>
                  obtain rfl : m.id = id := Option.some.inj ht
                  have hid := (takeDomain_cases htake).1
                  exact .takes m (by rw [hid]) rfl rfl (by rw [hid]; exact htake) rfl
      | verify domainId =>
          obtain ⟨rfl, rfl⟩ := Prod.mk.inj (Option.some.inj h)
          split at ht
          · cases ht
          · split at ht
            · cases ht
            · cases ht
      | awaitingRegistrar _ | verifying _ _ | done => cases h
      | registering m =>
          obtain ⟨rfl, rfl⟩ := Prod.mk.inj (Option.some.inj h)
          exact .had ht (fun _ => ⟨rfl, rfl⟩) fun _ heq => nomatch heq
      | registered m registration =>
          obtain ⟨rfl, rfl⟩ := Prod.mk.inj (Option.some.inj h)
          exact .had ht (fun hun => nomatch hun) fun _ heq => nomatch heq
      | ensuringZone m | storingZone m _ _ | pendingDns m =>
          obtain ⟨rfl, rfl⟩ := Prod.mk.inj (Option.some.inj h)
          exact .had ht (fun hun => nomatch hun) fun _ heq => nomatch heq
      | _ =>
          obtain ⟨rfl, rfl⟩ := Prod.mk.inj (Option.some.inj h)
          cases ht
  | fail message =>
      cases j with
      | awaitingRegistrar m =>
          obtain ⟨rfl, rfl⟩ := Prod.mk.inj (Option.some.inj h)
          exact .had ht (fun _ => ⟨rfl, rfl⟩) fun _ heq => nomatch heq
      | ensuringZone m | storingZone m _ _ | pendingDns m | dispatching m =>
          obtain ⟨rfl, rfl⟩ := Prod.mk.inj (Option.some.inj h)
          exact .had ht (fun hun => nomatch hun) fun _ heq => nomatch heq
      | done => cases h
      | _ =>
          obtain ⟨rfl, rfl⟩ := Prod.mk.inj (Option.some.inj h)
          cases ht
  | crash =>
      cases j with
      | done => cases h
      | _ =>
          obtain ⟨rfl, rfl⟩ := Prod.mk.inj (Option.some.inj h)
          cases ht
  | registered registration =>
      cases j with
      | awaitingRegistrar m =>
          obtain ⟨rfl, rfl⟩ := Prod.mk.inj (Option.some.inj h)
          exact .had ht (fun _ => ⟨rfl, rfl⟩) fun _ heq => nomatch heq
      | _ => cases h
  | zone records dnssec =>
      cases j with
      | ensuringZone m =>
          obtain ⟨rfl, rfl⟩ := Prod.mk.inj (Option.some.inj h)
          exact .had ht (fun hun => nomatch hun) fun _ heq => nomatch heq
      | _ => cases h
  | delegated isDelegated =>
      cases j with
      | verifying m hasZone =>
          obtain ⟨rfl, rfl⟩ := Prod.mk.inj (Option.some.inj h)
          split at ht
          · cases ht
          · cases ht
      | _ => cases h
  | initiated result => cases j <;> cases h
  | payPal order => cases j <;> cases h

theorem DomainJob.Honest.stmt {j j' : DomainJob} {a : Reply} (hj : j.Honest)
    (h : j.stmt cfg s a = some (s', j')) : j'.Honest := by
  cases a with
  | next =>
      cases j with
      | provision domainId =>
          obtain ⟨rfl, rfl⟩ := Prod.mk.inj (Option.some.inj h)
          split
          · trivial
          · trivial
      | verify domainId =>
          obtain ⟨rfl, rfl⟩ := Prod.mk.inj (Option.some.inj h)
          split
          · trivial
          · split
            · rfl
            · trivial
      | awaitingRegistrar _ | verifying _ _ | done => cases h
      | ensuringZone m | storingZone m _ _ =>
          obtain ⟨rfl, rfl⟩ := Prod.mk.inj (Option.some.inj h)
          exact hj
      | registered m registration | pendingDns m =>
          obtain ⟨rfl, rfl⟩ := Prod.mk.inj (Option.some.inj h)
          rfl
      | _ =>
          obtain ⟨rfl, rfl⟩ := Prod.mk.inj (Option.some.inj h)
          trivial
  | fail message =>
      cases j with
      | ensuringZone m | storingZone m _ _ | dispatching m =>
          obtain ⟨rfl, rfl⟩ := Prod.mk.inj (Option.some.inj h)
          exact hj
      | pendingDns m =>
          obtain ⟨rfl, rfl⟩ := Prod.mk.inj (Option.some.inj h)
          rfl
      | done => cases h
      | _ =>
          obtain ⟨rfl, rfl⟩ := Prod.mk.inj (Option.some.inj h)
          trivial
  | crash =>
      cases j with
      | done => cases h
      | _ =>
          obtain ⟨rfl, rfl⟩ := Prod.mk.inj (Option.some.inj h)
          trivial
  | registered registration =>
      cases j with
      | awaitingRegistrar m =>
          obtain ⟨rfl, rfl⟩ := Prod.mk.inj (Option.some.inj h)
          trivial
      | _ => cases h
  | zone records dnssec =>
      cases j with
      | ensuringZone m =>
          obtain ⟨rfl, rfl⟩ := Prod.mk.inj (Option.some.inj h)
          exact hj
      | _ => cases h
  | delegated isDelegated =>
      cases j with
      | verifying m hasZone =>
          obtain ⟨rfl, rfl⟩ := Prod.mk.inj (Option.some.inj h)
          split
          · trivial
          · exact hj
      | _ => cases h
  | initiated result => cases j <;> cases h
  | payPal order => cases j <;> cases h

/-! ## All interleavings -/

/-- No register call was made twice or for a domain that still waits, and no
domain is taken by two jobs. -/
def provisionAssertions : Machine.Assertions CommerceStore CommerceCall where
  store s := s.registrations.Nodup ∧ ∀ id ∈ s.registrations, s.db.Taken id
  at_ l s := l.At s
  pair l m := ∀ id, l.taker = some id → m.taker ≠ some id

theorem stmt_rows {l l' : CommerceCall} {a : Reply} (hl : l.Honest)
    (h : (commerce conv cfg).stmt s l a = some (s', l')) : l.Rows s.db s'.db := by
  cases l with
  | checkout c =>
      obtain ⟨c', hc, rfl⟩ := stmt_checkout h
      exact (CheckoutCall.effect hc).writes.rows
  | job j =>
      obtain ⟨j', hj, rfl⟩ := stmt_job h
      exact (DomainJob.effect hj).writes.rows hl

theorem stmt_registrations {l l' : CommerceCall} {a : Reply}
    (h : (commerce conv cfg).stmt s l a = some (s', l')) :
    s'.registrations = s.registrations ∨
      ∃ m, l = .job (.registering m) ∧ s'.registrations = m.id :: s.registrations := by
  cases l with
  | checkout c =>
      obtain ⟨c', hc, rfl⟩ := stmt_checkout h
      exact Or.inl (CheckoutCall.effect hc).registrations
  | job j =>
      obtain ⟨j', hj, rfl⟩ := stmt_job h
      rcases (DomainJob.effect hj).registrations with heq | ⟨m, rfl, heq⟩
      · exact Or.inl heq
      · exact Or.inr ⟨m, rfl, heq⟩

/-- Who has a domain after a statement had it before, or takes it while it
waits. -/
theorem stmt_taker {l l' : CommerceCall} {a : Reply}
    (h : (commerce conv cfg).stmt s l a = some (s', l')) {id : Nat} (ht : l'.taker = some id) :
    l.taker = some id ∨
      ∃ d, s.db.domains.get? id = some d ∧ d.status = .pendingRegistration := by
  cases l with
  | checkout c =>
      obtain ⟨c', hc, rfl⟩ := stmt_checkout h
      cases ht
  | job j =>
      obtain ⟨j', hj, rfl⟩ := stmt_job h
      cases DomainJob.holds hj ht with
      | had taker => exact Or.inl taker
      | takes m before after mine taken =>
          obtain ⟨-, d, sessionId, r, hd, hstatus, -⟩ := takeDomain_cases taken
          exact Or.inr ⟨d, hd, hstatus⟩

theorem not_taken {db : CommerceDb} {id : Nat} {d : Domain} (hd : db.domains.get? id = some d)
    (hstatus : d.status = .pendingRegistration) : ¬ db.Taken id := by
  intro ht
  have hwaiting := ht.2 d hd
  rw [hstatus] at hwaiting
  cases hwaiting

theorem DomainJob.At.own {j j' : DomainJob} {a : Reply} (hstore : provisionAssertions.store s)
    (hj : j.At s) (h : j.stmt cfg s a = some (s', j')) : j'.At s' := by
  have hrows := (DomainJob.effect h).writes.rows hj.honest
  refine ⟨hj.honest.stmt h, fun id ht => ?_, fun id ht hun => ?_, fun m heq => ?_⟩
  · cases DomainJob.holds h ht with
    | had taker => exact hrows.taken (hj.taken id taker)
    | takes m before after mine taken =>
        obtain ⟨-, d, sessionId, r, hd, -, -, -, -, hnow⟩ := takeDomain_cases taken
        refine ⟨Nat.lt_of_lt_of_le (Table.get?_lt hd) hrows.nextId, fun d' hd' => ?_⟩
        rw [hnow d' hd']
        rfl
  · cases DomainJob.holds h ht with
    | had taker unregistered =>
        obtain ⟨hbefore, hdb⟩ := unregistered hun
        rw [hdb]
        exact hj.undelivered id taker hbefore
    | takes m before after mine taken =>
        obtain ⟨-, d, sessionId, r, hd, -, -, -, -, hnow⟩ := takeDomain_cases taken
        intro d' hd'
        rw [hnow d' hd']
        rfl
  · subst heq
    have hholds : DomainJob.Holds s s' j (.registering m) m.id := DomainJob.holds h rfl
    cases hholds with
    | had taker unregistered called => exact absurd rfl (called m)
    | takes m' before after mine taken registrations =>
        obtain ⟨-, d, sessionId, r, hd, hstatus, -⟩ := takeDomain_cases taken
        rw [registrations]
        exact fun hmem => not_taken hd hstatus (hstore.2 _ hmem)

theorem DomainJob.At.other {j : DomainJob} {l l' : CommerceCall} {a : Reply} (hj : j.At s)
    (hl : l.Honest) (hpair : ∀ id, l.taker = some id → j.taker ≠ some id)
    (h : (commerce conv cfg).stmt s l a = some (s', l')) : j.At s' := by
  have hrows := stmt_rows hl h
  refine ⟨hj.honest, fun id ht => hrows.taken (hj.taken id ht), fun id ht hun => ?_,
    fun m heq => ?_⟩
  · exact hrows.undelivered (hj.taken id ht).1 (fun hlt => hpair id hlt ht)
      (hj.undelivered id ht hun)
  · rcases stmt_registrations h with hsame | ⟨m', rfl, hcalled⟩
    · rw [hsame]
      exact hj.uncalled m heq
    · rw [hcalled]
      subst heq
      intro hmem
      rcases List.mem_cons.mp hmem with hid | hmem
      · exact hpair m'.id rfl (congrArg some hid)
      · exact hj.uncalled m rfl hmem

theorem start_at {l : CommerceCall} (h : l.start = true) : l.At s := by
  cases l with
  | checkout c => trivial
  | job j =>
      cases j with
      | provision domainId | verify domainId =>
          refine ⟨trivial, fun id ht => ?_, fun id ht => ?_, fun m heq => ?_⟩
          · cases ht
          · cases ht
          · cases heq
      | _ => cases h

theorem start_taker {l : CommerceCall} (h : l.start = true) : l.taker = none := by
  cases l with
  | checkout c => rfl
  | job j => cases j <;> first | rfl | cases h

theorem provision_obligations :
    (commerce conv cfg).Obligations Any provisionAssertions where
  start _ hl := start_at hl
  startPair hl _ := by
    have hnone := start_taker hl
    refine ⟨fun id ht => ?_, fun id _ ht => ?_⟩
    · rw [hnone] at ht
      cases ht
    · rw [hnone] at ht
      cases ht
  own {w i a l s' l'} hw _ hi h := by
    have hl : l.At w.db := hw.at_ hi
    have hrows := stmt_rows hl.honest h
    refine ⟨?_, ?_⟩
    · have htaken : ∀ id ∈ w.db.registrations, s'.db.Taken id :=
        fun id hmem => hrows.taken (hw.store.2 id hmem)
      rcases stmt_registrations h with hsame | ⟨m, rfl, hcalled⟩
      · exact ⟨hsame ▸ hw.store.1, hsame ▸ htaken⟩
      · refine ⟨?_, fun id hmem => ?_⟩
        · rw [hcalled]
          exact List.nodup_cons.mpr ⟨DomainJob.At.uncalled hl m rfl, hw.store.1⟩
        · rw [hcalled] at hmem
          rcases List.mem_cons.mp hmem with rfl | hmem
          · exact hrows.taken (DomainJob.At.taken hl m.id rfl)
          · exact htaken id hmem
    · cases l with
      | checkout c =>
          obtain ⟨c', hc, rfl⟩ := stmt_checkout h
          trivial
      | job j =>
          obtain ⟨j', hj, rfl⟩ := stmt_job h
          exact DomainJob.At.own hw.store hl hj
  other {w i a l s' l' j m} hw _ hi h hji hj _ _ := by
    have hl : l.At w.db := hw.at_ hi
    have hm : m.At w.db := hw.at_ hj
    have hpair : ∀ id, l'.taker = some id → m.taker ≠ some id := by
      intro id ht hmt
      rcases stmt_taker h ht with hbefore | ⟨d, hd, hstatus⟩
      · exact hw.pair (Ne.symm hji) hi hj id hbefore hmt
      · cases m with
        | checkout c => cases hmt
        | job k => exact not_taken hd hstatus (DomainJob.At.taken hm id hmt)
    refine ⟨?_, hpair, fun id hmt ht => hpair id ht hmt⟩
    cases m with
    | checkout c => trivial
    | job k => exact DomainJob.At.other hm hl.honest (hw.pair (Ne.symm hji) hi hj) h
  env hw _ h := by
    obtain rfl := Option.some.inj h
    exact hw.store
  envOther {w seconds s' j m} hw _ h hj _ := by
    obtain rfl := Option.some.inj h
    have hm : m.At w.db := hw.at_ hj
    cases m with
    | checkout c => trivial
    | job k => exact ⟨hm.honest, hm.taken, hm.undelivered, hm.uncalled⟩

/-- Every state reached, when no register call has been counted at first. -/
theorem provision_good (hs : s.registrations = []) {w : World CommerceStore CommerceCall}
    (hrun : Reaches (commerce conv cfg).step Any (Machine.idle s) w) :
    (commerce conv cfg).Good provisionAssertions w := by
  refine provision_obligations.reaches hrun (Machine.good_idle ?_)
  refine ⟨?_, fun id hmem => ?_⟩
  · rw [hs]
    exact .nil
  · rw [hs] at hmem
    cases hmem

/-! ## Registered once -/

/-- The registrar was called for a domain, or a job is about to. -/
def called (id : Nat) (w : World CommerceStore CommerceCall) : Prop :=
  id ∈ w.db.registrations ∨
    ∃ (i : Nat) (m : DomainInstance), w.procs[i]? = some (.job (.registering m)) ∧ m.id = id

/-- The registrar was not called for a domain whose checkout session is paid. -/
structure PaidUncalled (id : Nat) (s : CommerceStore) : Prop where
  uncalled : id ∉ s.registrations
  paid : ∃ d sessionId r, s.db.domains.get? id = some d ∧
    d.checkoutSessionId = some sessionId ∧ s.db.sessions.get? sessionId = some r ∧ r.status = .paid

theorem called_step {w w' : World CommerceStore CommerceCall} {a : Action CommerceCall Reply Nat}
    (hw : (commerce conv cfg).Good provisionAssertions w)
    (hst : (commerce conv cfg).step w a = some w') {id : Nat} (hcalled : called id w') :
    called id w ∨ PaidUncalled id w.db := by
  cases a with
  | spawn l =>
      obtain ⟨hl, rfl⟩ := Machine.step_spawn hst
      rcases hcalled with hmem | ⟨i, m, hi, hid⟩
      · exact Or.inl (Or.inl hmem)
      · rcases Machine.getElem?_concat_some hi with hi | rfl
        · exact Or.inl (Or.inr ⟨i, m, hi, hid⟩)
        · cases hl
  | env seconds =>
      obtain ⟨s', hs', -, rfl⟩ := Machine.step_env hst
      obtain rfl := Option.some.inj hs'
      exact Or.inl hcalled
  | run i r =>
      obtain ⟨l, s', l', hi, h, -, rfl⟩ := Machine.step_run hst
      rcases hcalled with hmem | ⟨k, m, hk, rfl⟩
      · rcases stmt_registrations h with hsame | ⟨m, rfl, hcons⟩
        · exact Or.inl (Or.inl (hsame ▸ hmem))
        · rcases List.mem_cons.mp (hcons ▸ hmem) with rfl | hmem
          · exact Or.inl (Or.inr ⟨i, m, hi, rfl⟩)
          · exact Or.inl (Or.inl hmem)
      · rcases Machine.getElem?_set_some hk with ⟨-, rfl⟩ | ⟨-, hk⟩
        · cases l with
          | checkout c =>
              obtain ⟨c', -, heq⟩ := stmt_checkout h
              cases heq
          | job j =>
              obtain ⟨j', hj, heq⟩ := stmt_job h
              cases heq
              have hholds : DomainJob.Holds w.db s' j (.registering m) m.id :=
                DomainJob.holds hj rfl
              cases hholds with
              | had taker unregistered called => exact absurd rfl (called m)
              | takes m' before after mine taken =>
                  obtain ⟨-, d, sessionId, r, hd, hstatus, hsession, hr, hpaid, -⟩ :=
                    takeDomain_cases taken
                  exact Or.inr ⟨fun hmem => not_taken hd hstatus (hw.store.2 _ hmem),
                    d, sessionId, r, hd, hsession, hr, hpaid⟩
        · exact Or.inl (Or.inr ⟨k, m, hk, rfl⟩)

/-- In every run the registrar is called once at most for a domain row, and
only after a state in which the checkout session of the row was paid. -/
theorem registered_once (hs : s.registrations = []) {w : World CommerceStore CommerceCall}
    (hrun : Reaches (commerce conv cfg).step Any (Machine.idle s) w) (id : Nat) :
    w.db.registrations.count id ≤ 1 ∧
      (id ∈ w.db.registrations → ∃ t,
        Reaches (commerce conv cfg).step Any (Machine.idle s) t ∧ PaidUncalled id t.db ∧
        Reaches (commerce conv cfg).step Any t w) := by
  refine ⟨List.nodup_iff_count_le_one.mp (provision_good hs hrun).store.1 id, fun hmem => ?_⟩
  refine Reaches.since (Q := called id) (fun t a t' ht _ hst hcalled => ?_) hrun ?_ (Or.inl hmem)
  · exact called_step (provision_good hs ht) hst hcalled
  · rintro (hmem | ⟨i, m, hi, -⟩)
    · rw [show (Machine.idle s : World CommerceStore CommerceCall).db.registrations = [] from hs]
        at hmem
      cases hmem
    · simp [Machine.idle] at hi

/-- The first team returns, its session is settled and its domain queued; the
job takes the domain and calls the registrar. -/
def paidAndCalled : List (Action CommerceCall Reply Nat) :=
  List.flatten [firstCheckout, returnsPaid 1, [.run 1 .next, .run 1 .next,
    .spawn (.job (.provision 1)), .run 2 .next, .run 2 .next]]

theorem registered_once_paid :
    ∃ w, Reaches (commerce sampleConversions januaryConfig).step Any (Machine.idle emptyStore) w ∧
      w.db.registrations = [1] ∧ w.db.registrations.count 1 ≤ 1 ∧
      ∃ t, Reaches (commerce sampleConversions januaryConfig).step Any (Machine.idle emptyStore) t ∧
        PaidUncalled 1 t.db ∧ Reaches (commerce sampleConversions januaryConfig).step Any t w := by
  -- a second job for the domain comes too late, and dies
  obtain ⟨w, hrun, hw⟩ := exists_reaches_of_execIf
    (commerce sampleConversions januaryConfig).step Any (Machine.idle emptyStore)
    (paidAndCalled ++ [.spawn (.job (.provision 1)), .run 3 .crash, .run 3 .next])
    (fun w => w.db.registrations == [1]) (by decide +kernel)
  have hcalls : w.db.registrations = [1] := by simpa using hw
  obtain ⟨hcount, hpaid⟩ := registered_once rfl hrun 1
  exact ⟨w, hrun, hcalls, hcount, hpaid (by simp [hcalls])⟩

/-! ## Registered for good -/

/-- The hook of a provisioning job does not write over a registration. -/
def sparesDelivered (w : World CommerceStore CommerceCall) : Action CommerceCall Reply Nat → Bool
  | .run i .next =>
      match w.procs[i]? with
      | some (.job (.failed id)) => (w.db.db.domains.get? id).all fun d => !d.status.delivered
      | _ => true
  | _ => true

/-- One step. -/
theorem delivered_step {w w' : World CommerceStore CommerceCall}
    {a : Action CommerceCall Reply Nat}
    (hw : (commerce conv cfg).Good provisionAssertions w) (hok : sparesDelivered w a = true)
    (hst : (commerce conv cfg).step w a = some w') {id : Nat} {d : Domain}
    (hget : w.db.db.domains.get? id = some d) (hd : d.status.delivered = true) :
    ∃ d', w'.db.db.domains.get? id = some d' ∧ d'.status.delivered = true := by
  cases a with
  | spawn l =>
      obtain ⟨-, rfl⟩ := Machine.step_spawn hst
      exact ⟨d, hget, hd⟩
  | env seconds =>
      obtain ⟨s', hs', -, rfl⟩ := Machine.step_env hst
      obtain rfl := Option.some.inj hs'
      exact ⟨d, hget, hd⟩
  | run i r =>
      obtain ⟨l, s', l', hi, h, -, rfl⟩ := Machine.step_run hst
      have hl : l.At w.db := hw.at_ hi
      have hrows := stmt_rows hl.honest h
      have hsettled : d.status.waiting = false := by
        cases hstatus : d.status <;> first | rfl | (rw [hstatus] at hd; cases hd)
      obtain ⟨d', hget'⟩ := hrows.kept hget hsettled
      obtain ⟨d₀, hget₀, hmoves⟩ := hrows.moves (Table.get?_lt hget) hget'
      obtain rfl := Option.some.inj (hget.symm.trans hget₀)
      rcases hmoves.delivered_cases hd with hkept | ⟨m, message, rfl, rfl⟩ | rfl
      · exact ⟨d', hget', hkept⟩
      · have hundelivered := DomainJob.At.undelivered hl m.id rfl rfl d hget
        rw [hd] at hundelivered
        cases hundelivered
      · cases r with
        | next => simp [sparesDelivered, hi, hget, hd] at hok
        | fail _ | crash =>
            obtain ⟨j', hj, rfl⟩ := stmt_job h
            obtain ⟨rfl, -⟩ := Prod.mk.inj (Option.some.inj hj)
            exact ⟨d, hget, hd⟩
        | _ =>
            obtain ⟨j', hj, rfl⟩ := stmt_job h
            cases hj

/-- In every run in which no hook writes over a registration, a domain that is
registered, waiting for its delegation or active remains one of these. -/
theorem registration_kept (hs : s.registrations = []) {w w' : World CommerceStore CommerceCall}
    (hrun : Reaches (commerce conv cfg).step Any (Machine.idle s) w)
    (hrun' : Reaches (commerce conv cfg).step (fun w a => sparesDelivered w a = true) w w')
    {id : Nat} {d : Domain} (hget : w.db.db.domains.get? id = some d)
    (hd : d.status.delivered = true) :
    ∃ d', w'.db.db.domains.get? id = some d' ∧ d'.status.delivered = true := by
  have hboth := hrun'.invariant (I := fun w => (commerce conv cfg).Good provisionAssertions w ∧
    ∃ d', w.db.db.domains.get? id = some d' ∧ d'.status.delivered = true) ?_
    ⟨provision_good hs hrun, d, hget, hd⟩
  · exact hboth.2
  · rintro t a t' ⟨hgood, d', hget', hd'⟩ hok hst
    exact ⟨provision_obligations.step hgood trivial hst, delivered_step hgood hok hst hget' hd'⟩

/-- The registrar has answered, and the registration is stored. -/
def registeredAndStored : List (Action CommerceCall Reply Nat) :=
  List.flatten [paidAndCalled,
    [.run 2 (.registered ⟨"R-1", none⟩), .run 2 .next]]

def hasStatus (id : Nat) (p : DomainStatus → Bool) (w : World CommerceStore CommerceCall) : Bool :=
  (w.db.db.domains.get? id).any fun d => p d.status

theorem hasStatus_elim {id : Nat} {p : DomainStatus → Bool}
    {w : World CommerceStore CommerceCall} (h : hasStatus id p w = true) :
    ∃ d, w.db.db.domains.get? id = some d ∧ p d.status = true :=
  (Option.any_eq_true _ _).mp h

theorem registration_kept_active :
    ∃ w w', Reaches (commerce sampleConversions januaryConfig).step Any
        (Machine.idle emptyStore) w ∧
      Reaches (commerce sampleConversions januaryConfig).step
        (fun w a => sparesDelivered w a = true) w w' ∧ hasStatus 1 (· == .registered) w = true ∧
      ∃ d, w'.db.db.domains.get? 1 = some d ∧ d.status.delivered = true := by
  -- with a zone, delegated, and the job verified
  obtain ⟨w, hrun, hw, w', hrun', -⟩ := exists_reaches_twice
    (commerce sampleConversions januaryConfig).step (fun w a => sparesDelivered w a = true)
    (Machine.idle emptyStore) registeredAndStored (hasStatus 1 (· == .registered))
    [.run 2 (.zone .null false), .run 2 .next, .run 2 .next, .run 2 .next, .run 2 .next,
      .spawn (.job (.verify 1)), .run 3 .next, .run 3 (.delegated true), .run 3 .next]
    (hasStatus 1 (· == .active)) (by decide +kernel)
  obtain ⟨d, hget, hd⟩ := hasStatus_elim hw
  have hrun : Reaches (commerce sampleConversions januaryConfig).step Any
      (Machine.idle emptyStore) w := hrun.mono fun _ _ _ => trivial
  refine ⟨w, w', hrun, hrun', hw, registration_kept rfl hrun hrun' hget ?_⟩
  rw [beq_iff_eq.mp hd]
  rfl

/-- The notification fails, after the registration is stored. -/
theorem registration_forgotten :
    ¬ ∀ (conv : Conversions) (cfg : CommerceConfig) (s : CommerceStore)
      (w w' : World CommerceStore CommerceCall) (id : Nat) (d : Domain), s.registrations = [] →
      Reaches (commerce conv cfg).step Any (Machine.idle s) w →
      Reaches (commerce conv cfg).step Any w w' →
      w.db.db.domains.get? id = some d → d.status = .registered →
      ∃ d', w'.db.db.domains.get? id = some d' ∧ d'.status.delivered = true := by
  intro h
  obtain ⟨w, hrun, hw, w', hrun', hw'⟩ := exists_reaches_twice
    (commerce sampleConversions januaryConfig).step Any (Machine.idle emptyStore)
    registeredAndStored (hasStatus 1 (· == .registered))
    [.run 2 .next, .run 2 .next, .run 2 (.fail "Connection refused"), .run 2 .next]
    (hasStatus 1 (· == .manualReview)) (by decide +kernel)
  obtain ⟨d, hget, hd⟩ := hasStatus_elim hw
  obtain ⟨d', hget', hd'⟩ := h _ _ _ w w' 1 d rfl hrun hrun' hget (by simpa using hd)
  obtain ⟨d₂, hget₂, hd₂⟩ := hasStatus_elim hw'
  obtain rfl := Option.some.inj (hget'.symm.trans hget₂)
  rw [beq_iff_eq.mp hd₂] at hd'
  cases hd'

end OnePloy
