import OnePloy.DomainJobs

/-!
# Commerce as a system

Checkout calls and domain jobs over one database, interleaved statement by
statement while the clock moves on. Every transaction is one statement here,
so nothing is locked between two of them.

`CheckoutCall.Writes` and `DomainJob.Writes` list what one statement can do to
the database. The lemmas after them say what that means for one session and
for one domain.
-/

namespace OnePloy

open Conc Php

/-! ## The machine -/

inductive CommerceCall
  | checkout (c : CheckoutCall)
  | job (j : DomainJob)

def CommerceCall.stmt (conv : Conversions) (cfg : CommerceConfig) (s : CommerceStore) :
    CommerceCall → Reply → Option (CommerceStore × CommerceCall)
  | .checkout c, a => (c.stmt conv cfg s a).map fun (s', c') => (s', .checkout c')
  | .job j, a => (j.stmt cfg s a).map fun (s', j') => (s', .job j')

def CommerceCall.start : CommerceCall → Bool
  | .checkout c => c.start
  | .job j => j.start

/-- The environment lets some seconds pass. -/
def commerce (conv : Conversions) (cfg : CommerceConfig) :
    Machine CommerceStore CommerceCall Reply Nat Empty where
  start := CommerceCall.start
  stmt s l a := l.stmt conv cfg s a
  needs _ _ _ := []
  held _ := []
  env s seconds := some { s with clock := s.clock + seconds }
  envNeeds _ _ := []
  held_start _ := rfl
  held_stmt _ _ hr := by cases hr

variable {conv : Conversions} {cfg : CommerceConfig} {s s' : CommerceStore}

theorem stmt_checkout {c : CheckoutCall} {a : Reply} {l : CommerceCall}
    (h : (commerce conv cfg).stmt s (.checkout c) a = some (s', l)) :
    ∃ c', c.stmt conv cfg s a = some (s', c') ∧ l = .checkout c' := by
  obtain ⟨⟨t, c'⟩, hst, heq⟩ := Option.map_eq_some_iff.mp h
  obtain ⟨rfl, rfl⟩ := Prod.mk.inj heq
  exact ⟨c', hst, rfl⟩

theorem stmt_job {j : DomainJob} {a : Reply} {l : CommerceCall}
    (h : (commerce conv cfg).stmt s (.job j) a = some (s', l)) :
    ∃ j', j.stmt cfg s a = some (s', j') ∧ l = .job j' := by
  obtain ⟨⟨t, j'⟩, hst, heq⟩ := Option.map_eq_some_iff.mp h
  obtain ⟨rfl, rfl⟩ := Prod.mk.inj heq
  exact ⟨j', hst, rfl⟩

/-! ## What a statement writes -/

inductive CheckoutCall.Writes (cfg : CommerceConfig) (s : CommerceStore) :
    CheckoutCall → CommerceDb → Prop
  | nothing {c} : Writes cfg s c s.db
  | claim {sessionId provider db state}
      (supported : strtolower provider ∈ paymentProviders)
      (ok : s.db.claimPayment s.clock sessionId (strtolower provider) = .ok (db, state)) :
      Writes cfg s (.startPayment sessionId provider) db
  | finish {sessionId provider result db}
      (ok : s.db.finishPayment s.clock sessionId provider result = .ok db) :
      Writes cfg s (.initiated sessionId provider result) db
  | failInitiation {sessionId provider} :
      Writes cfg s (.initiationFailed sessionId provider)
        (s.db.failPayment s.clock sessionId provider)
  | recordWebhook {provider request eventId payload} :
      Writes cfg s (.webhook provider request) (s.db.recordWebhook provider eventId payload).1
  | closeWebhook {eventId status} :
      Writes cfg s (.closingWebhook eventId status) (s.db.closeWebhook eventId s.clock status)
  | cancel {id session} :
      Writes cfg s (.cancelling id session) (s.db.cancelSession s.clock id session)
  | expire {id session rest} (past : session.isPast s.clock = true) :
      Writes cfg s (.reconciling ((id, session) :: rest)) (s.db.expireSession s.clock id)
  | markPaid {sessionId provider providerReference raw origin db orderId}
      (ok : s.db.markPaid cfg s.clock sessionId provider providerReference raw
        = .ok (db, orderId)) :
      Writes cfg s (.settling sessionId provider providerReference raw origin) db
  | queue {sessionId origin} :
      Writes cfg s (.queueing sessionId origin) (s.db.queuePaidDomainRegistrations sessionId)
  | note {origin id session reason} :
      Writes cfg s (.noting origin) (s.db.noteFailure s.clock id session reason)
  | startDomain {req db sessionId} (ok : s.db.startDomain s.clock req = .ok (db, sessionId)) :
      Writes cfg s (.startDomain req) db

/-- What a statement of a call does to the store. -/
structure CheckoutCall.Effect (cfg : CommerceConfig) (s : CommerceStore) (c : CheckoutCall)
    (s' : CommerceStore) : Prop where
  writes : c.Writes cfg s s'.db
  clock : s'.clock = s.clock
  registrations : s'.registrations = s.registrations
  reports : ∀ r ∈ s.reports, r ∈ s'.reports

theorem CheckoutCall.Effect.same {c : CheckoutCall} : c.Effect cfg s s :=
  ⟨.nothing, rfl, rfl, fun _ hr => hr⟩

theorem CheckoutCall.Effect.withDb {c : CheckoutCall} {db : CommerceDb}
    (h : c.Writes cfg s db) : c.Effect cfg s (s.withDb db) :=
  ⟨h, rfl, rfl, fun _ hr => hr⟩

/-- A report received, with nothing written. -/
theorem CheckoutCall.Effect.report {c : CheckoutCall} (r : PaymentReport) :
    c.Effect cfg s { s with reports := r :: s.reports } :=
  ⟨.nothing, rfl, rfl, fun _ hr => List.mem_cons_of_mem _ hr⟩

theorem transact_effect {α : Type} {result : Except String (CommerceDb × α)}
    {committed : α → CheckoutCall} {thrown c c' : CheckoutCall}
    (h : s.transact result committed thrown = (s', c'))
    (hok : ∀ db a, result = .ok (db, a) → c.Writes cfg s db) : c.Effect cfg s s' := by
  unfold CommerceStore.transact at h
  split at h
  · next db a =>
      obtain ⟨rfl, -⟩ := Prod.mk.inj h
      exact .withDb (hok db a rfl)
  · obtain ⟨rfl, -⟩ := Prod.mk.inj h
    exact .same

theorem settleReported_effect {id : Nat} {session : CheckoutSession} {order : Value}
    {eventId eventType : String} {origin : Origin} {c c' : CheckoutCall}
    (h : settleReported conv s id session order eventId eventType origin = (s', c')) :
    c.Effect cfg s s' := by
  unfold settleReported at h
  split at h
  · obtain ⟨rfl, -⟩ := Prod.mk.inj h
    exact .same
  · split at h
    · obtain ⟨rfl, -⟩ := Prod.mk.inj h
      exact .same
    · obtain ⟨rfl, -⟩ := Prod.mk.inj h
      exact .report _

theorem reconcileSession_effect {id : Nat} {session : CheckoutSession}
    {rest : List (Nat × CheckoutSession)} {order : Value} {c c' : CheckoutCall}
    (h : reconcileSession conv s id session rest order = (s', c')) : c.Effect cfg s s' := by
  simp only [reconcileSession] at h
  split at h
  · obtain ⟨rfl, -⟩ := Prod.mk.inj h
    exact .same
  · split at h
    · obtain ⟨rfl, -⟩ := Prod.mk.inj h
      exact .same
    · split at h
      · obtain ⟨rfl, -⟩ := Prod.mk.inj h
        exact .same
      · split at h
        · obtain ⟨rfl, -⟩ := Prod.mk.inj h
          exact .same
        · exact settleReported_effect h

theorem receiveWebhook_effect {provider : String} {request : WebhookRequest} {c' : CheckoutCall}
    (h : s.receiveWebhook conv provider request = (s', c')) :
    (CheckoutCall.webhook provider request).Effect cfg s s' := by
  unfold CommerceStore.receiveWebhook at h
  split at h
  · obtain ⟨rfl, -⟩ := Prod.mk.inj h
    exact .same
  · obtain ⟨rfl, -⟩ := Prod.mk.inj h
    exact .same
  · obtain ⟨rfl, -⟩ := Prod.mk.inj h
    exact ⟨.recordWebhook, rfl, rfl, fun _ hr => List.mem_cons_of_mem _ hr⟩

theorem CheckoutCall.effect {c c' : CheckoutCall} {a : Reply}
    (h : c.stmt conv cfg s a = some (s', c')) : c.Effect cfg s s' := by
  cases a with
  | crash =>
      cases c with
      | done => cases h
      | _ =>
          obtain ⟨rfl, -⟩ := Prod.mk.inj (Option.some.inj h)
          exact .same
  | fail message =>
      cases c with
      | done => cases h
      | reconciling rest =>
          cases rest <;> (obtain ⟨rfl, -⟩ := Prod.mk.inj (Option.some.inj h); exact .same)
      | _ =>
          obtain ⟨rfl, -⟩ := Prod.mk.inj (Option.some.inj h)
          exact .same
  | initiated result =>
      cases c with
      | initiating sessionId provider =>
          obtain ⟨rfl, -⟩ := Prod.mk.inj (Option.some.inj h)
          exact .same
      | reconciling rest => cases rest <;> cases h
      | _ => cases h
  | payPal order =>
      cases c with
      | reconciling rest =>
          cases rest with
          | nil => cases h
          | cons q rest =>
              simp only [CheckoutCall.stmt] at h
              split at h
              · cases h
              · exact reconcileSession_effect (Option.some.inj h)
      | capturing id session orderId origin => exact settleReported_effect (Option.some.inj h)
      | _ => cases h
  | registered registration =>
      cases c with
      | reconciling rest => cases rest <;> cases h
      | _ => cases h
  | zone records dnssec =>
      cases c with
      | reconciling rest => cases rest <;> cases h
      | _ => cases h
  | delegated isDelegated =>
      cases c with
      | reconciling rest => cases rest <;> cases h
      | _ => cases h
  | next =>
      cases c with
      | startPayment sessionId provider =>
          simp only [CheckoutCall.stmt] at h
          split at h
          · next hp =>
              exact transact_effect (Option.some.inj h) fun _ _ hres =>
                .claim (List.contains_iff_mem.mp hp) hres
          · obtain ⟨rfl, -⟩ := Prod.mk.inj (Option.some.inj h)
            exact .same
      | initiated sessionId provider result =>
          obtain ⟨rfl, -⟩ := Prod.mk.inj (Option.some.inj h)
          cases hres : s.db.finishPayment s.clock sessionId provider result with
          | error e => exact .withDb .nothing
          | ok db => exact .withDb (.finish hres)
      | initiationFailed sessionId provider =>
          obtain ⟨rfl, -⟩ := Prod.mk.inj (Option.some.inj h)
          exact .withDb .failInitiation
      | webhook provider request => exact receiveWebhook_effect (Option.some.inj h)
      | closingWebhook eventId status =>
          obtain ⟨rfl, -⟩ := Prod.mk.inj (Option.some.inj h)
          exact .withDb .closeWebhook
      | cancelling id session =>
          obtain ⟨rfl, -⟩ := Prod.mk.inj (Option.some.inj h)
          exact .withDb .cancel
      | reconciling rest =>
          cases rest with
          | nil =>
              obtain ⟨rfl, -⟩ := Prod.mk.inj (Option.some.inj h)
              exact .same
          | cons q rest =>
              simp only [CheckoutCall.stmt] at h
              split at h
              · next hpast =>
                  obtain ⟨rfl, -⟩ := Prod.mk.inj (Option.some.inj h)
                  exact .withDb (.expire hpast)
              · cases h
      | settling sessionId provider providerReference raw origin =>
          exact transact_effect (Option.some.inj h) fun _ _ hres => .markPaid hres
      | queueing sessionId origin =>
          obtain ⟨rfl, -⟩ := Prod.mk.inj (Option.some.inj h)
          exact .withDb .queue
      | noting origin =>
          have hnote := Option.some.inj h
          cases origin with
          | webhook eventId =>
              obtain ⟨rfl, -⟩ := Prod.mk.inj hnote
              exact .same
          | payPalReturn id session =>
              obtain ⟨rfl, -⟩ := Prod.mk.inj hnote
              exact .withDb .note
          | reconciliation id session rest =>
              obtain ⟨rfl, -⟩ := Prod.mk.inj hnote
              exact .withDb .note
      | startDomain req =>
          exact transact_effect (Option.some.inj h) fun _ _ hres => .startDomain hres
      | webhookRecorded _ _ _ | payPalReturn _ _ | payPalCancel _ _ | reconcile =>
          obtain ⟨rfl, -⟩ := Prod.mk.inj (Option.some.inj h)
          exact .same
      | done | initiating _ _ | capturing _ _ _ _ => cases h

inductive DomainJob.Writes (cfg : CommerceConfig) (s : CommerceStore) :
    DomainJob → CommerceDb → Prop
  | nothing {j} : Writes cfg s j s.db
  | take {domainId} : Writes cfg s (.provision domainId) (s.db.takeDomain domainId).1
  | storeRegistered {m registration} :
      Writes cfg s (.registered m registration)
        (s.db.save (m.fill (·.registeredAs cfg s.clock registration)))
  | refuse {m message} :
      Writes cfg s (.refused m message) (s.db.save (m.fill (·.underReview message)))
  | storeZone {m records dnssec} :
      Writes cfg s (.storingZone m records dnssec) (s.db.storeZone m records dnssec)
  | storePending {m} : Writes cfg s (.pendingDns m) (s.db.save (m.fill (·.dnsPending)))
  | note {m message} :
      Writes cfg s (.noting m message) (s.db.save (m.fill (·.noted message)))
  | fail {domainId} : Writes cfg s (.failed domainId) (s.db.provisioningFailed domainId)
  | wait {m} : Writes cfg s (.waiting m) (s.db.save (m.fill (·.noted waitingForDelegation)))
  | activate {domainId} : Writes cfg s (.activating domainId) (s.db.activateDomain domainId)
  | verifyFailed {domainId} :
      Writes cfg s (.verifyFailed domainId)
        (s.db.updateDomain domainId (·.noted verificationDelayed))

/-- What a statement of a job does to the store. -/
structure DomainJob.Effect (cfg : CommerceConfig) (s : CommerceStore) (j : DomainJob)
    (s' : CommerceStore) : Prop where
  writes : j.Writes cfg s s'.db
  clock : s'.clock = s.clock
  registrations : s'.registrations = s.registrations ∨
    ∃ m, j = .registering m ∧ s'.registrations = m.id :: s.registrations
  reports : s'.reports = s.reports

theorem DomainJob.Effect.same {j : DomainJob} : j.Effect cfg s s := ⟨.nothing, rfl, Or.inl rfl, rfl⟩

theorem DomainJob.Effect.withDb {j : DomainJob} {db : CommerceDb} (h : j.Writes cfg s db) :
    j.Effect cfg s (s.withDb db) := ⟨h, rfl, Or.inl rfl, rfl⟩

theorem DomainJob.effect {j j' : DomainJob} {a : Reply}
    (h : j.stmt cfg s a = some (s', j')) : j.Effect cfg s s' := by
  cases a with
  | next =>
      cases j with
      | provision domainId =>
          obtain ⟨rfl, -⟩ := Prod.mk.inj (Option.some.inj h)
          exact .withDb .take
      | registering m =>
          obtain ⟨rfl, -⟩ := Prod.mk.inj (Option.some.inj h)
          exact ⟨.nothing, rfl, Or.inr ⟨m, rfl, rfl⟩, rfl⟩
      | registered m registration =>
          obtain ⟨rfl, -⟩ := Prod.mk.inj (Option.some.inj h)
          exact .withDb .storeRegistered
      | refused m message =>
          obtain ⟨rfl, -⟩ := Prod.mk.inj (Option.some.inj h)
          exact .withDb .refuse
      | storingZone m records dnssec =>
          obtain ⟨rfl, -⟩ := Prod.mk.inj (Option.some.inj h)
          exact .withDb .storeZone
      | pendingDns m =>
          obtain ⟨rfl, -⟩ := Prod.mk.inj (Option.some.inj h)
          exact .withDb .storePending
      | noting m message =>
          obtain ⟨rfl, -⟩ := Prod.mk.inj (Option.some.inj h)
          exact .withDb .note
      | failed domainId =>
          obtain ⟨rfl, -⟩ := Prod.mk.inj (Option.some.inj h)
          exact .withDb .fail
      | waiting m =>
          obtain ⟨rfl, -⟩ := Prod.mk.inj (Option.some.inj h)
          exact .withDb .wait
      | activating domainId =>
          obtain ⟨rfl, -⟩ := Prod.mk.inj (Option.some.inj h)
          exact .withDb .activate
      | verifyFailed domainId =>
          obtain ⟨rfl, -⟩ := Prod.mk.inj (Option.some.inj h)
          exact .withDb .verifyFailed
      | ensuringZone _ | dispatching _ | notifying _ | verify _ =>
          obtain ⟨rfl, -⟩ := Prod.mk.inj (Option.some.inj h)
          exact .same
      | awaitingRegistrar _ | verifying _ _ | done => cases h
  | crash =>
      cases j with
      | done => cases h
      | _ =>
          obtain ⟨rfl, -⟩ := Prod.mk.inj (Option.some.inj h)
          exact .same
  | fail message =>
      cases j with
      | done => cases h
      | _ =>
          obtain ⟨rfl, -⟩ := Prod.mk.inj (Option.some.inj h)
          exact .same
  | registered registration =>
      cases j with
      | awaitingRegistrar m =>
          obtain ⟨rfl, -⟩ := Prod.mk.inj (Option.some.inj h)
          exact .same
      | _ => cases h
  | zone records dnssec =>
      cases j with
      | ensuringZone m =>
          obtain ⟨rfl, -⟩ := Prod.mk.inj (Option.some.inj h)
          exact .same
      | _ => cases h
  | delegated isDelegated =>
      cases j with
      | verifying m hasZone =>
          obtain ⟨rfl, -⟩ := Prod.mk.inj (Option.some.inj h)
          exact .same
      | _ => cases h
  | initiated result => cases j <;> cases h
  | payPal order => cases j <;> cases h

/-- Jobs write domains and zones only. -/
theorem DomainJob.Writes.frame {j : DomainJob} {db : CommerceDb} (h : j.Writes cfg s db) :
    ∃ domains dnsZones, db = { s.db with domains := domains, dnsZones := dnsZones } := by
  cases h with
  | take =>
      simp only [CommerceDb.takeDomain]
      split
      · exact ⟨_, _, rfl⟩
      · split
        · exact ⟨_, _, rfl⟩
        · split
          · exact ⟨_, _, rfl⟩
          · exact ⟨_, _, rfl⟩
  | storeZone =>
      simp only [CommerceDb.storeZone]
      split
      · exact ⟨_, _, rfl⟩
      · exact ⟨_, _, rfl⟩
  | activate =>
      simp only [CommerceDb.activateDomain]
      split
      · exact ⟨_, _, rfl⟩
      · split
        · exact ⟨_, _, rfl⟩
        · exact ⟨_, _, rfl⟩
  | _ => exact ⟨_, _, rfl⟩

/-! ## One session -/

/-- What never changes in a session; a provider, once assigned, stays. -/
structure CheckoutSession.Evolves (r t : CheckoutSession) : Prop where
  uuid : t.uuid = r.uuid
  teamId : t.teamId = r.teamId
  currency : t.currency = r.currency
  items : t.items = r.items
  amountMinor : t.amountMinor = r.amountMinor
  provider : filled r.provider = true → t.provider = r.provider

theorem CheckoutSession.Evolves.refl (r : CheckoutSession) : r.Evolves r :=
  ⟨rfl, rfl, rfl, rfl, rfl, fun _ => rfl⟩

theorem CheckoutSession.Evolves.trans {r t u : CheckoutSession} (h : r.Evolves t)
    (h' : t.Evolves u) : r.Evolves u where
  uuid := h'.uuid.trans h.uuid
  teamId := h'.teamId.trans h.teamId
  currency := h'.currency.trans h.currency
  items := h'.items.trans h.items
  amountMinor := h'.amountMinor.trans h.amountMinor
  provider hf := by
    have hp := h.provider hf
    exact (h'.provider (hp ▸ hf)).trans hp

/-- The session that a call overwrites with what it makes of an old copy. -/
def CheckoutCall.overwrites (now : Nat) : CheckoutCall → Option Nat
  | .cancelling id session => if session.status = .cancelled then none else some id
  | .reconciling ((id, session) :: _) => if session.isPast now then some id else none
  | _ => none

/-- What a statement may make of a session. -/
structure CheckoutCall.Keeps (c : CheckoutCall) (now id : Nat) (r t : CheckoutSession) :
    Prop where
  evolves : r.Evolves t
  paid : c.overwrites now ≠ some id → r.status = .paid → t.status = .paid

theorem CheckoutCall.Keeps.refl (c : CheckoutCall) (now id : Nat) (r : CheckoutSession) :
    c.Keeps now id r r :=
  ⟨.refl r, fun _ h => h⟩

theorem CheckoutCall.Keeps.modify {c : CheckoutCall} {now id key : Nat} {r : CheckoutSession}
    {sessions : Table CheckoutSession} {f : CheckoutSession → CheckoutSession}
    (hget : sessions.get? id = some r) (h : id = key → c.Keeps now id r (f r)) :
    ∃ t, (sessions.modify key f).get? id = some t ∧ c.Keeps now id r t := by
  rw [Table.get?_modify]
  by_cases hid : id = key
  · exact ⟨f r, by rw [if_pos hid, hget, Option.map_some], h hid⟩
  · exact ⟨r, by rw [if_neg hid, hget], .refl c now id r⟩

theorem CheckoutCall.Writes.keeps {c : CheckoutCall} {db : CommerceDb}
    (h : c.Writes cfg s db) {id : Nat} {r : CheckoutSession}
    (hget : s.db.sessions.get? id = some r) :
    ∃ t, db.sessions.get? id = some t ∧ c.Keeps s.clock id r t := by
  have same : ∀ {c : CheckoutCall}, ∃ t, s.db.sessions.get? id = some t ∧ c.Keeps s.clock id r t :=
    ⟨r, hget, .refl _ _ _ _⟩
  cases h with
  | nothing | closeWebhook | queue => exact same
  | recordWebhook =>
      simp only [CommerceDb.recordWebhook]
      split
      · exact same
      · exact same
  | @claim sessionId provider db state supported ok =>
      rcases claimPayment_cases ok with rfl | ⟨locked, f, hlocked, hpaid, rfl, hf⟩
      · exact same
      · refine Keeps.modify hget fun hid => ?_
        subst hid
        obtain rfl := Option.some.inj (hlocked.symm.trans hget)
        rcases hf with rfl | ⟨hfree, rfl⟩
        · exact ⟨⟨by simp, by simp, by simp, by simp, by simp, fun _ => by simp⟩,
            fun _ hp => absurd hp hpaid⟩
        · refine ⟨⟨by simp, by simp, by simp, by simp, by simp, fun hf => ?_⟩,
            fun _ hp => absurd hp hpaid⟩
          rw [update_provider]
          exact (not_not.mp fun hne => hfree ⟨hf, hne⟩).symm
  | @finish sessionId provider result db ok =>
      rcases finishPayment_cases ok with rfl | ⟨locked, hlocked, hstatus, hprovider, rfl⟩
      · exact same
      · refine Keeps.modify hget fun hid => ?_
        subst hid
        obtain rfl := Option.some.inj (hlocked.symm.trans hget)
        refine ⟨⟨by simp, by simp, by simp, by simp, by simp, fun _ => by simp⟩, fun _ hp => ?_⟩
        rw [hstatus] at hp
        cases hp
  | @failInitiation sessionId provider =>
      rw [show (s.db.failPayment s.clock sessionId provider).sessions.get? id = _ from
        Table.get?_updateWhere .., hget]
      refine ⟨_, rfl, ?_⟩
      beta_reduce
      split
      · next hcond =>
          simp only [Bool.and_eq_true, beq_iff_eq] at hcond
          refine ⟨⟨rfl, rfl, rfl, rfl, rfl, fun _ => rfl⟩, fun _ hp => ?_⟩
          rw [hcond.2] at hp
          cases hp
      · exact .refl _ _ _ _
  | @cancel key session =>
      unfold CommerceDb.cancelSession
      split
      · exact same
      · next hcancelled =>
          refine Keeps.modify hget fun hid => ?_
          subst hid
          exact ⟨⟨rfl, rfl, rfl, rfl, rfl, fun _ => rfl⟩, fun hne _ =>
            absurd (by simp [CheckoutCall.overwrites, hcancelled]) hne⟩
  | @expire key session rest past =>
      refine Keeps.modify hget fun hid => ?_
      subst hid
      exact ⟨⟨rfl, rfl, rfl, rfl, rfl, fun _ => rfl⟩, fun hne _ =>
        absurd (by simp [CheckoutCall.overwrites, past]) hne⟩
  | @markPaid sessionId provider providerReference raw origin db orderId ok =>
      rcases markPaid_cases ok with ⟨rfl, -⟩ | ⟨session, teamId, -, -, -, -, -, -, -, rfl⟩
      · exact same
      · refine Keeps.modify hget fun _ => ?_
        unfold CheckoutSession.markedPaid
        exact ⟨⟨by simp, by simp, by simp, by simp, by simp, fun _ => by simp⟩,
          fun _ _ => by simp⟩
  | @note origin key session reason =>
      unfold CommerceDb.noteFailure
      split
      · exact same
      · exact Keeps.modify hget fun _ =>
          ⟨⟨rfl, rfl, rfl, rfl, rfl, fun _ => rfl⟩, fun _ hp => hp⟩
  | @startDomain req db sessionId ok =>
      rcases startDomain_cases ok with rfl | ⟨base, -, -, -, -, rfl⟩
      · exact same
      · exact ⟨r, Table.get?_insert_of_some _ hget, .refl _ _ _ _⟩

/-! ## One step -/

/-- A call starts, a call or a job takes a statement, or time passes. -/
theorem commerce_step {w w' : World CommerceStore CommerceCall}
    {a : Action CommerceCall Reply Nat} (h : (commerce conv cfg).step w a = some w') :
    (∃ l, a = .spawn l ∧ l.start = true ∧ w' = ⟨w.db, w.procs ++ [l]⟩) ∨
    (∃ i r c c' t, a = .run i r ∧ w.procs[i]? = some (.checkout c) ∧
      c.stmt conv cfg w.db r = some (t, c') ∧ w' = ⟨t, w.procs.set i (.checkout c')⟩) ∨
    (∃ i r j j' t, a = .run i r ∧ w.procs[i]? = some (.job j) ∧
      j.stmt cfg w.db r = some (t, j') ∧ w' = ⟨t, w.procs.set i (.job j')⟩) ∨
    ∃ seconds, a = .env seconds ∧
      w' = ⟨{ w.db with clock := w.db.clock + seconds }, w.procs⟩ := by
  cases a with
  | spawn l =>
      obtain ⟨hl, rfl⟩ := Machine.step_spawn h
      exact Or.inl ⟨l, rfl, hl, rfl⟩
  | run i r =>
      obtain ⟨l, t, l', hi, hst, -, rfl⟩ := Machine.step_run h
      cases l with
      | checkout c =>
          obtain ⟨c', hc, rfl⟩ := stmt_checkout hst
          exact Or.inr (Or.inl ⟨i, r, c, c', t, rfl, hi, hc, rfl⟩)
      | job j =>
          obtain ⟨j', hj, rfl⟩ := stmt_job hst
          exact Or.inr (Or.inr (Or.inl ⟨i, r, j, j', t, rfl, hi, hj, rfl⟩))
  | env seconds =>
      obtain ⟨t, ht, -, rfl⟩ := Machine.step_env h
      obtain rfl := Option.some.inj ht
      exact Or.inr (Or.inr (Or.inr ⟨seconds, rfl, rfl⟩))

end OnePloy
