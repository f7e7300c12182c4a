import OnePloy.CheckoutPaid

/-!
# No order without a matching payment

Webhook, PayPal return and reconciliation each hold what a provider reports
against the session, the webhook against the row it has just read, the others
against a copy. Uuid, amount and currency of a session never change, and its
provider does not once there is one (`CheckoutSession.Evolves`), so what
matches a copy matches the row. A settling call therefore has a matching
report behind it, and so has every order.
-/

namespace OnePloy

open Conc Php

variable {conv : Conversions} {cfg : CommerceConfig} {s s' : CommerceStore}

/-! ## Reports and copies -/

/-- A report that has come in matches the session, whose provider is final. -/
def CommerceStore.Vouched (s : CommerceStore) (sessionId : Nat) : Prop :=
  ∃ r report, s.db.sessions.get? sessionId = some r ∧ report ∈ s.reports ∧
    report.Matches r ∧ filled r.provider = true

/-- The copy is an earlier state of the row. -/
def CommerceStore.CopyOf (s : CommerceStore) (id : Nat) (copy : CheckoutSession) : Prop :=
  ∃ r, s.db.sessions.get? id = some r ∧ copy.Evolves r

/-- What every step does to sessions and reports. -/
structure Grows (s s' : CommerceStore) : Prop where
  sessions : ∀ id r, s.db.sessions.get? id = some r →
    ∃ t, s'.db.sessions.get? id = some t ∧ r.Evolves t
  reports : ∀ r ∈ s.reports, r ∈ s'.reports

theorem Grows.of_sessions (hdb : s'.db.sessions = s.db.sessions)
    (hreports : ∀ r ∈ s.reports, r ∈ s'.reports) : Grows s s' :=
  ⟨fun _ r hget => ⟨r, hdb ▸ hget, .refl r⟩, hreports⟩

theorem CheckoutCall.Effect.grows {c : CheckoutCall} (h : c.Effect cfg s s') : Grows s s' where
  sessions _ _ hget := by
    obtain ⟨t, ht, hkeeps⟩ := h.writes.keeps hget
    exact ⟨t, ht, hkeeps.evolves⟩
  reports := h.reports

theorem DomainJob.Effect.grows {j : DomainJob} (h : j.Effect cfg s s') : Grows s s' := by
  obtain ⟨domains, dnsZones, hdb⟩ := h.writes.frame
  exact .of_sessions (by rw [hdb]) fun r hr => h.reports ▸ hr

theorem PaymentReport.Matches.evolves {report : PaymentReport} {r t : CheckoutSession}
    (h : report.Matches r) (hf : filled r.provider = true) (he : r.Evolves t) :
    report.Matches t where
  uuid := h.uuid.trans (congrArg some he.uuid.symm)
  provider := (he.provider hf).trans h.provider
  success := h.success
  amountMinor := by rw [he.amountMinor, h.amountMinor]
  currency := by rw [he.currency, h.currency]

theorem Grows.vouched (h : Grows s s') {id : Nat} (hv : s.Vouched id) : s'.Vouched id := by
  obtain ⟨r, report, hget, hmem, hmatch, hf⟩ := hv
  obtain ⟨t, ht, he⟩ := h.sessions id r hget
  exact ⟨t, report, ht, h.reports report hmem, hmatch.evolves hf he, by rwa [he.provider hf]⟩

theorem Grows.copyOf (h : Grows s s') {id : Nat} {copy : CheckoutSession}
    (hc : s.CopyOf id copy) : s'.CopyOf id copy := by
  obtain ⟨r, hget, he⟩ := hc
  obtain ⟨t, ht, he'⟩ := h.sessions id r hget
  exact ⟨t, ht, he.trans he'⟩

/-! ## The checks -/

/-- A payment that matches a copy of PayPal's matches the row. -/
theorem matches_of_paymentMatches {id : Nat} {copy : CheckoutSession} {payment : PayPalPayment}
    (hmatch : paymentMatches copy payment = true) (hcopy : s.CopyOf id copy)
    (hpaypal : copy.provider = some "paypal") :
    ∃ r, s.db.sessions.get? id = some r ∧ payment.report.Matches r ∧
      filled r.provider = true := by
  obtain ⟨r, hget, he⟩ := hcopy
  simp only [paymentMatches, Bool.and_eq_true, beq_iff_eq] at hmatch
  obtain ⟨⟨⟨⟨huuid, -⟩, hamount⟩, hcurrency⟩, hstatus⟩ := hmatch
  have hf : filled copy.provider = true := by
    rw [hpaypal]
    decide
  have hcopied : payment.report.Matches copy :=
    ⟨huuid, hpaypal, by simp [PayPalPayment.report, hstatus], hamount, hcurrency⟩
  exact ⟨r, hget, hcopied.evolves hf he, by rwa [he.provider hf]⟩

/-- The webhook controller settles what matches the session it has read. -/
theorem webhookVerdict_settle {db : CommerceDb} {provider : String} {v : VerifiedWebhook}
    {id : Nat} {session : CheckoutSession}
    (h : db.webhookVerdict provider v = .settle id session) :
    db.sessions.get? id = some session ∧ (v.report provider).Matches session ∧
      filled session.provider = true := by
  unfold CommerceDb.webhookVerdict at h
  split at h
  · cases h
  · next hsuccess =>
      split at h
      · cases h
      · next key row hfirst =>
          obtain ⟨hget, huuid⟩ := Table.first?_some hfirst
          split at h
          · cases h
          · next hprovider =>
              split at h
              · cases h
              · next hamount =>
                  obtain ⟨rfl, rfl⟩ := WebhookVerdict.settle.inj h
                  simp only [Bool.or_eq_true, Bool.not_eq_true', bne_iff_ne, ne_eq, not_or,
                    not_not, Bool.not_eq_true, Bool.not_eq_false] at hsuccess hprovider hamount
                  refine ⟨hget, ⟨beq_iff_eq.mp huuid, hprovider.2, hsuccess.1, hamount.1,
                    hamount.2⟩, ?_⟩
                  simp [filled, hprovider.1]

/-! ## Assertions -/

def CommerceStore.Pending (s : CommerceStore) (rest : List (Nat × CheckoutSession)) : Prop :=
  ∀ q ∈ rest, s.CopyOf q.1 q.2 ∧ q.2.provider = some "paypal"

def Origin.Sound (s : CommerceStore) : Origin → Prop
  | .reconciliation _ _ rest => s.Pending rest
  | _ => True

/-- What holds of the copies and reports a call carries. -/
def CheckoutCall.Sound (s : CommerceStore) : CheckoutCall → Prop
  | .webhookRecorded provider verified _ => verified.report provider ∈ s.reports
  | .reconciling rest => s.Pending rest
  | .capturing id session _ origin =>
      s.CopyOf id session ∧ session.provider = some "paypal" ∧ origin.Sound s
  | .settling sessionId _ _ _ origin => s.Vouched sessionId ∧ origin.Sound s
  | .queueing _ origin => origin.Sound s
  | .noting origin => origin.Sound s
  | _ => True

def CommerceCall.Sound (s : CommerceStore) : CommerceCall → Prop
  | .checkout c => c.Sound s
  | .job _ => True

theorem Grows.pending (h : Grows s s') {rest : List (Nat × CheckoutSession)}
    (hp : s.Pending rest) : s'.Pending rest :=
  fun q hq => ⟨h.copyOf (hp q hq).1, (hp q hq).2⟩

theorem Grows.origin (h : Grows s s') {origin : Origin} (ho : origin.Sound s) :
    origin.Sound s' := by
  cases origin with
  | reconciliation _ _ rest => exact h.pending ho
  | _ => trivial

theorem Grows.call (h : Grows s s') {l : CommerceCall} (hl : l.Sound s) : l.Sound s' := by
  cases l with
  | job j => trivial
  | checkout c =>
      cases c with
      | webhookRecorded provider verified eventId => exact h.reports _ hl
      | reconciling rest => exact h.pending hl
      | capturing id session orderId origin =>
          exact ⟨h.copyOf hl.1, hl.2.1, h.origin hl.2.2⟩
      | settling sessionId provider providerReference raw origin =>
          exact ⟨h.vouched hl.1, h.origin hl.2⟩
      | queueing sessionId origin => exact h.origin hl
      | noting origin => exact h.origin hl
      | _ => trivial

theorem Origin.Sound.failed {origin : Origin} (h : origin.Sound s) : origin.failed.Sound s := by
  cases origin <;> trivial

theorem Origin.Sound.finished {origin : Origin} (h : origin.Sound s) :
    origin.finished.Sound s := by
  cases origin <;> trivial

theorem completePayPal_sound {id : Nat} {session : CheckoutSession} {orderId : String}
    {origin : Origin} (hcopy : s.CopyOf id session) (ho : origin.Sound s) :
    (s.db.completePayPal id session orderId origin).Sound s := by
  unfold CommerceDb.completePayPal
  split
  · exact ho.failed
  · next hbelongs =>
      split
      · split
        · exact ho.finished
        · exact ho.failed
      · simp only [belongsToCheckout, Bool.not_eq_true', Bool.not_eq_false, Bool.and_eq_true,
          beq_iff_eq] at hbelongs
        exact ⟨hcopy, hbelongs.1, ho⟩

theorem settleReported_sound {id : Nat} {session : CheckoutSession} {order : Value}
    {eventId eventType : String} {origin : Origin} {c' : CheckoutCall}
    (hcopy : s.CopyOf id session) (hpaypal : session.provider = some "paypal")
    (ho : origin.Sound s)
    (h : settleReported conv s id session order eventId eventType origin = (s', c')) :
    c'.Sound s' := by
  unfold settleReported at h
  split at h
  · obtain ⟨rfl, rfl⟩ := Prod.mk.inj h
    exact ho.failed
  · split at h
    · obtain ⟨rfl, rfl⟩ := Prod.mk.inj h
      exact ho.failed
    · next payment _ =>
        obtain ⟨rfl, rfl⟩ := Prod.mk.inj h
        have hgrows : Grows s { s with reports := payment.report :: s.reports } :=
          .of_sessions rfl fun _ hr => List.mem_cons_of_mem _ hr
        split
        · next hmatch =>
            obtain ⟨r, hget, hr, hf⟩ :=
              matches_of_paymentMatches hmatch (hgrows.copyOf hcopy) hpaypal
            exact ⟨⟨r, _, hget, List.mem_cons_self .., hr, hf⟩, hgrows.origin ho⟩
        · exact (hgrows.origin ho).failed

theorem pendingPayPal_sound : s.Pending s.db.pendingPayPal := by
  intro q hq
  obtain ⟨hget, hcond⟩ := Table.mem_select.mp (List.mem_of_mem_take hq)
  simp only [Bool.and_eq_true, beq_iff_eq] at hcond
  exact ⟨⟨q.2, hget, .refl _⟩, hcond.1.1⟩

theorem reconcileSession_sound {id : Nat} {session : CheckoutSession}
    {rest : List (Nat × CheckoutSession)} {order : Value} {c' : CheckoutCall}
    (hp : s.Pending ((id, session) :: rest))
    (h : reconcileSession conv s id session rest order = (s', c')) : c'.Sound s' := by
  obtain ⟨hcopy, hpaypal⟩ := hp _ (List.mem_cons_self ..)
  have hrest : s.Pending rest := fun q hq => hp q (List.mem_cons_of_mem _ hq)
  have ho : (Origin.reconciliation id session rest).Sound s := hrest
  simp only [reconcileSession] at h
  split at h
  · obtain ⟨rfl, rfl⟩ := Prod.mk.inj h
    exact ho.failed
  · split at h
    · obtain ⟨rfl, rfl⟩ := Prod.mk.inj h
      exact ho.failed
    · split at h
      · obtain ⟨rfl, rfl⟩ := Prod.mk.inj h
        exact completePayPal_sound hcopy ho
      · split at h
        · obtain ⟨rfl, rfl⟩ := Prod.mk.inj h
          exact hrest
        · exact settleReported_sound hcopy hpaypal ho h

theorem receiveWebhook_sound {provider : String} {request : WebhookRequest} {c' : CheckoutCall}
    (h : s.receiveWebhook conv provider request = (s', c')) : c'.Sound s' := by
  unfold CommerceStore.receiveWebhook at h
  split at h
  · obtain ⟨rfl, rfl⟩ := Prod.mk.inj h
    trivial
  · obtain ⟨rfl, rfl⟩ := Prod.mk.inj h
    trivial
  · next verified _ =>
      rcases hrecord : s.db.recordWebhook provider verified.eventId verified.auditPayload with
        ⟨db, eventId, event⟩
      rw [hrecord] at h
      obtain ⟨rfl, rfl⟩ := Prod.mk.inj h
      split
      · trivial
      · exact List.mem_cons_self ..

theorem sessionForTeam_copyOf {teamId id : Nat} {orderId : String} {session : CheckoutSession}
    (h : s.db.sessionForTeam teamId orderId = some (id, session)) : s.CopyOf id session :=
  ⟨session, (Table.first?_some h).1, .refl _⟩

/-- A statement leaves a call with copies and reports in order. -/
theorem CheckoutCall.Sound.stmt {c c' : CheckoutCall} {a : Reply} (hc : c.Sound s)
    (h : c.stmt conv cfg s a = some (s', c')) : c'.Sound s' := by
  have hgrows : Grows s s' := (CheckoutCall.effect h).grows
  cases a with
  | crash =>
      cases c with
      | done => cases h
      | _ =>
          obtain ⟨-, rfl⟩ := Prod.mk.inj (Option.some.inj h)
          trivial
  | fail message =>
      cases c with
      | done => cases h
      | initiating sessionId provider =>
          obtain ⟨-, rfl⟩ := Prod.mk.inj (Option.some.inj h)
          trivial
      | reconciling rest =>
          cases rest with
          | nil =>
              obtain ⟨-, rfl⟩ := Prod.mk.inj (Option.some.inj h)
              trivial
          | cons q rest =>
              obtain ⟨rfl, rfl⟩ := Prod.mk.inj (Option.some.inj h)
              split
              · trivial
              · exact fun p hp => hc p (List.mem_cons_of_mem _ hp)
      | capturing id session orderId origin =>
          obtain ⟨rfl, rfl⟩ := Prod.mk.inj (Option.some.inj h)
          exact hc.2.2.failed
      | settling sessionId provider providerReference raw origin =>
          obtain ⟨rfl, rfl⟩ := Prod.mk.inj (Option.some.inj h)
          exact hc.2.failed
      | queueing sessionId origin =>
          obtain ⟨rfl, rfl⟩ := Prod.mk.inj (Option.some.inj h)
          exact Origin.Sound.failed hc
      | _ =>
          obtain ⟨-, rfl⟩ := Prod.mk.inj (Option.some.inj h)
          trivial
  | initiated result =>
      cases c with
      | initiating sessionId provider =>
          obtain ⟨-, rfl⟩ := Prod.mk.inj (Option.some.inj h)
          trivial
      | reconciling rest => cases rest <;> cases h
      | _ => cases h
  | payPal order =>
      cases c with
      | reconciling rest =>
          cases rest with
          | nil => cases h
          | cons q rest =>
              simp only [CheckoutCall.stmt] at h
              split at h
              · cases h
              · exact reconcileSession_sound hc (Option.some.inj h)
      | capturing id session orderId origin =>
          exact settleReported_sound hc.1 hc.2.1 hc.2.2 (Option.some.inj h)
      | _ => cases h
  | registered _ | zone _ _ | delegated _ =>
      cases c with
      | reconciling rest => cases rest <;> cases h
      | _ => cases h
  | next =>
      cases c with
      | startPayment sessionId provider =>
          simp only [CheckoutCall.stmt, CommerceStore.transact] at h
          split at h
          · split at h
            · next state _ =>
                obtain ⟨-, rfl⟩ := Prod.mk.inj (Option.some.inj h)
                cases state <;> trivial
            · obtain ⟨-, rfl⟩ := Prod.mk.inj (Option.some.inj h)
              trivial
          · obtain ⟨-, rfl⟩ := Prod.mk.inj (Option.some.inj h)
            trivial
      | webhook provider request => exact receiveWebhook_sound (Option.some.inj h)
      | webhookRecorded provider verified eventId =>
          obtain ⟨rfl, rfl⟩ := Prod.mk.inj (Option.some.inj h)
          split
          · trivial
          · trivial
          · next id session hverdict =>
              obtain ⟨hget, hmatch, hf⟩ := webhookVerdict_settle hverdict
              exact ⟨⟨session, _, hget, hc, hmatch, hf⟩, trivial⟩
      | payPalReturn teamId orderId =>
          obtain ⟨rfl, rfl⟩ := Prod.mk.inj (Option.some.inj h)
          split
          · trivial
          · split
            · trivial
            · next id session hfound =>
                exact completePayPal_sound (sessionForTeam_copyOf hfound) trivial
      | payPalCancel teamId orderId =>
          obtain ⟨rfl, rfl⟩ := Prod.mk.inj (Option.some.inj h)
          split
          · trivial
          · split
            · trivial
            · split <;> trivial
      | reconcile =>
          obtain ⟨rfl, rfl⟩ := Prod.mk.inj (Option.some.inj h)
          exact pendingPayPal_sound
      | reconciling rest =>
          cases rest with
          | nil =>
              obtain ⟨-, rfl⟩ := Prod.mk.inj (Option.some.inj h)
              trivial
          | cons q rest =>
              simp only [CheckoutCall.stmt] at h
              split at h
              · obtain ⟨-, rfl⟩ := Prod.mk.inj (Option.some.inj h)
                exact hgrows.pending fun p hp => hc p (List.mem_cons_of_mem _ hp)
              · cases h
      | settling sessionId provider providerReference raw origin =>
          simp only [CheckoutCall.stmt, CommerceStore.transact] at h
          split at h
          · obtain ⟨-, rfl⟩ := Prod.mk.inj (Option.some.inj h)
            exact hgrows.origin hc.2
          · obtain ⟨-, rfl⟩ := Prod.mk.inj (Option.some.inj h)
            exact (hgrows.origin hc.2).failed
      | queueing sessionId origin =>
          obtain ⟨-, rfl⟩ := Prod.mk.inj (Option.some.inj h)
          exact (hgrows.origin hc).finished
      | noting origin =>
          have hnote := Option.some.inj h
          cases origin with
          | reconciliation id session rest =>
              obtain ⟨-, rfl⟩ := Prod.mk.inj hnote
              exact hgrows.pending hc
          | webhook _ | payPalReturn _ _ =>
              obtain ⟨-, rfl⟩ := Prod.mk.inj hnote
              trivial
      | startDomain req =>
          simp only [CheckoutCall.stmt, CommerceStore.transact] at h
          split at h
          · obtain ⟨-, rfl⟩ := Prod.mk.inj (Option.some.inj h)
            trivial
          · obtain ⟨-, rfl⟩ := Prod.mk.inj (Option.some.inj h)
            trivial
      | initiated _ _ _ | initiationFailed _ _ | closingWebhook _ _ | cancelling _ _ =>
          obtain ⟨-, rfl⟩ := Prod.mk.inj (Option.some.inj h)
          trivial
      | done | initiating _ _ | capturing _ _ _ _ => cases h

/-! ## Orders -/

/-- Only a settlement writes orders: one, for its session. -/
theorem CheckoutCall.Writes.orders {c : CheckoutCall} {db : CommerceDb}
    (h : c.Writes cfg s db) :
    db.orders = s.db.orders ∨
      ∃ sessionId provider providerReference raw origin o,
        c = .settling sessionId provider providerReference raw origin ∧
        db.orders = s.db.orders.insert o ∧ o.checkoutSessionId = some sessionId := by
  cases h with
  | claim supported ok =>
      rcases claimPayment_cases ok with rfl | ⟨locked, f, -, -, rfl, -⟩ <;> exact Or.inl rfl
  | finish ok =>
      rcases finishPayment_cases ok with rfl | ⟨locked, -, -, -, rfl⟩ <;> exact Or.inl rfl
  | recordWebhook =>
      simp only [CommerceDb.recordWebhook]
      split <;> exact Or.inl rfl
  | cancel =>
      unfold CommerceDb.cancelSession
      split <;> exact Or.inl rfl
  | note =>
      unfold CommerceDb.noteFailure
      split <;> exact Or.inl rfl
  | markPaid ok =>
      rcases markPaid_cases ok with ⟨rfl, -⟩ | ⟨session, teamId, -, -, -, -, -, -, -, rfl⟩
      · exact Or.inl rfl
      · exact Or.inr ⟨_, _, _, _, _, _, rfl, rfl, rfl⟩
  | startDomain ok =>
      rcases startDomain_cases ok with rfl | ⟨base, -, horders, -, -, rfl⟩
      · exact Or.inl rfl
      · exact Or.inl horders
  | _ => exact Or.inl rfl

/-- Every order is of a session that a report has matched. -/
def Accounted (s : CommerceStore) : Prop :=
  ∀ i o, s.db.orders.get? i = some o → ∃ sessionId,
    o.checkoutSessionId = some sessionId ∧ s.Vouched sessionId

def reportAssertions : Machine.Assertions CommerceStore CommerceCall where
  store := Accounted
  at_ l s := l.Sound s

theorem Accounted.mono (h : Accounted s) (hgrows : Grows s s')
    (horders : s'.db.orders = s.db.orders) : Accounted s' := by
  intro i o ho
  rw [horders] at ho
  obtain ⟨sessionId, hsession, hv⟩ := h i o ho
  exact ⟨sessionId, hsession, hgrows.vouched hv⟩

theorem Accounted.call {c c' : CheckoutCall} {a : Reply} (h : Accounted s) (hc : c.Sound s)
    (hst : c.stmt conv cfg s a = some (s', c')) : Accounted s' := by
  have heffect := CheckoutCall.effect hst
  rcases heffect.writes.orders with hsame | ⟨sessionId, _, _, _, origin, o, rfl, hinsert, ho⟩
  · exact h.mono heffect.grows hsame
  · intro i o' ho'
    rw [hinsert, Table.get?_insert] at ho'
    split at ho'
    · obtain rfl := Option.some.inj ho'
      exact ⟨sessionId, ho, heffect.grows.vouched hc.1⟩
    · obtain ⟨id, hid, hv⟩ := h i o' ho'
      exact ⟨id, hid, heffect.grows.vouched hv⟩

theorem start_sound {l : CommerceCall} (h : l.start = true) : l.Sound s := by
  cases l with
  | job j => trivial
  | checkout c =>
      cases c with
      | startPayment | webhook | payPalReturn | payPalCancel | reconcile | startDomain => trivial
      | _ => cases h

/-- A statement of the system: sessions evolve, and its call stays sound. -/
theorem stmt_grows {l l' : CommerceCall} {a : Reply} (hl : l.Sound s)
    (h : (commerce conv cfg).stmt s l a = some (s', l')) : Grows s s' ∧ l'.Sound s' := by
  cases l with
  | checkout c =>
      obtain ⟨c', hst, rfl⟩ := stmt_checkout h
      exact ⟨(CheckoutCall.effect hst).grows, CheckoutCall.Sound.stmt hl hst⟩
  | job j =>
      obtain ⟨j', hst, rfl⟩ := stmt_job h
      exact ⟨(DomainJob.effect hst).grows, trivial⟩

theorem report_obligations :
    (commerce conv cfg).Obligations Any reportAssertions where
  start _ hl := start_sound hl
  startPair _ _ := ⟨trivial, trivial⟩
  own {w i a l s' l'} hw _ hi h := by
    have hl : l.Sound w.db := hw.at_ hi
    refine ⟨?_, (stmt_grows hl h).2⟩
    cases l with
    | checkout c =>
        obtain ⟨c', hst, -⟩ := stmt_checkout h
        exact Accounted.call hw.store hl hst
    | job j =>
        obtain ⟨j', hst, -⟩ := stmt_job h
        obtain ⟨domains, dnsZones, hdb⟩ := (DomainJob.effect hst).writes.frame
        exact Accounted.mono hw.store (DomainJob.effect hst).grows (by rw [hdb])
  other hw _ hi h _ hj _ _ :=
    ⟨(stmt_grows (hw.at_ hi) h).1.call (hw.at_ hj), trivial, trivial⟩
  env {w seconds s'} hw _ h := by
    obtain rfl := Option.some.inj h
    exact Accounted.mono hw.store (.of_sessions rfl fun _ hr => hr) rfl
  envOther {w seconds s' j m} hw _ h hj _ := by
    obtain rfl := Option.some.inj h
    exact Grows.call (.of_sessions rfl fun _ hr => hr) (hw.at_ hj)

/-! ## Reports that do not match -/

/-- The status by which reconciliation takes an order for paid. -/
def isCompleted (order : Value) : Bool :=
  (order.dataGetOr (.string "") ["status"]).toText.toOption.any fun status =>
    strtoupper status == "COMPLETED"

/-- The report a statement holds against sessions: against the one with this
key, or against whichever it names. -/
def CheckoutCall.examines (conv : Conversions) :
    CheckoutCall → Reply → Option (PaymentReport × Option Nat)
  | .webhookRecorded provider verified _, .next => some (verified.report provider, none)
  | .capturing id _ _ _, .payPal order =>
      (paymentData conv order).toOption.map fun p => (p.report, some id)
  | .reconciling ((id, _) :: _), .payPal order =>
      if isCompleted order then
        (paymentData conv order).toOption.map fun p => (p.report, some id)
      else none
  | _, _ => none

/-- The report does not match the session it is held against. -/
def PaymentReport.Fails (report : PaymentReport) (s : CommerceStore) (target : Option Nat) :
    Prop :=
  ∀ id r, s.db.sessions.get? id = some r → (∀ key, target = some key → id = key) →
    ¬ report.Matches r

/-- The call has only notes left to write about its report. -/
def CheckoutCall.closing : CheckoutCall → Bool
  | .closingWebhook _ _ => true
  | .noting _ => true
  | _ => false

/-- The call is through with its report. -/
def CheckoutCall.closed : CheckoutCall → Bool
  | .reconciling _ => true
  | .done => true
  | _ => false

/-- Nothing but failure reasons and timestamps of sessions has changed. -/
structure OnlyNotes (db db' : CommerceDb) : Prop where
  sessions : ∀ id r, db.sessions.get? id = some r → ∃ failureReason updatedAt,
    db'.sessions.get? id = some { r with failureReason := failureReason, updatedAt := updatedAt }
  noSession : ∀ id, db.sessions.get? id = none → db'.sessions.get? id = none
  orders : db'.orders = db.orders
  invoices : db'.invoices = db.invoices
  payments : db'.payments = db.payments
  subscriptions : db'.subscriptions = db.subscriptions

theorem OnlyNotes.refl (db : CommerceDb) : OnlyNotes db db :=
  ⟨fun _ _ h => ⟨_, _, h⟩, fun _ h => h, rfl, rfl, rfl, rfl⟩

theorem onlyNotes_noteFailure (db : CommerceDb) (now id : Nat) (session : CheckoutSession)
    (reason : String) : OnlyNotes db (db.noteFailure now id session reason) := by
  unfold CommerceDb.noteFailure
  split
  · exact .refl db
  · refine ⟨fun key r hget => ?_, fun key hnone => ?_, rfl, rfl, rfl, rfl⟩
    · rw [show (db.updateSession id _).sessions.get? key = _ from Table.get?_modify .., hget]
      split
      · exact ⟨_, _, rfl⟩
      · exact ⟨_, _, rfl⟩
    · rw [show (db.updateSession id _).sessions.get? key = _ from Table.get?_modify .., hnone]
      simp

theorem Origin.failed_ends (origin : Origin) :
    origin.failed.closing = true ∨ origin.failed.closed = true := by
  cases origin <;> simp [Origin.failed, CheckoutCall.closing, CheckoutCall.closed]

/-- A payment that does not match is dropped. -/
theorem settleReported_fails {id : Nat} {session : CheckoutSession} {order : Value}
    {eventId eventType : String} {origin : Origin} {c' : CheckoutCall} {payment : PayPalPayment}
    (hcopy : s.CopyOf id session) (hpaypal : session.provider = some "paypal")
    (hpayment : paymentData conv order = .ok payment) (hfails : payment.report.Fails s (some id))
    (h : settleReported conv s id session order eventId eventType origin = (s', c')) :
    s'.db = s.db ∧ (c'.closing = true ∨ c'.closed = true) := by
  simp only [settleReported, hpayment] at h
  split at h
  · obtain ⟨rfl, rfl⟩ := Prod.mk.inj h
    exact ⟨rfl, origin.failed_ends⟩
  · obtain ⟨rfl, rfl⟩ := Prod.mk.inj h
    refine ⟨rfl, ?_⟩
    split
    · next hmatch =>
        obtain ⟨r, hget, hr, -⟩ := matches_of_paymentMatches hmatch hcopy hpaypal
        exact absurd hr (hfails id r hget fun _ hkey => Option.some.inj hkey)
    · exact origin.failed_ends

theorem reconcileSession_fails {id : Nat} {session : CheckoutSession}
    {rest : List (Nat × CheckoutSession)} {order : Value} {c' : CheckoutCall}
    {payment : PayPalPayment} (hp : s.Pending ((id, session) :: rest))
    (hcompleted : isCompleted order = true) (hpayment : paymentData conv order = .ok payment)
    (hfails : payment.report.Fails s (some id))
    (h : reconcileSession conv s id session rest order = (s', c')) :
    s'.db = s.db ∧ (c'.closing = true ∨ c'.closed = true) := by
  obtain ⟨hcopy, hpaypal⟩ := hp _ (List.mem_cons_self ..)
  simp only [reconcileSession] at h
  split at h
  · obtain ⟨rfl, rfl⟩ := Prod.mk.inj h
    exact ⟨rfl, Or.inl rfl⟩
  · cases htext : (order.dataGetOr (.string "") ["status"]).toText with
    | error e =>
        rw [htext] at h
        obtain ⟨rfl, rfl⟩ := Prod.mk.inj h
        exact ⟨rfl, Or.inl rfl⟩
    | ok status =>
        have hstatus : strtoupper status = "COMPLETED" := by
          rw [isCompleted, htext] at hcompleted
          exact beq_iff_eq.mp hcompleted
        simp only [htext, hstatus] at h
        exact settleReported_fails hcopy hpaypal hpayment hfails h

theorem examines_fails {c c' : CheckoutCall} {a : Reply} {report : PaymentReport}
    {target : Option Nat} (hc : c.Sound s) (h : c.stmt conv cfg s a = some (s', c'))
    (hexamines : c.examines conv a = some (report, target)) (hfails : report.Fails s target) :
    s'.db = s.db ∧ (c'.closing = true ∨ c'.closed = true) := by
  have hdata : ∀ {order : Value} {id : Nat},
      (paymentData conv order).toOption.map (fun p => (p.report, some id)) = some (report, target) →
      ∃ payment, paymentData conv order = .ok payment ∧ report = payment.report ∧
        target = some id := by
    intro order id hmap
    obtain ⟨payment, hp, heq⟩ := Option.map_eq_some_iff.mp hmap
    obtain ⟨rfl, rfl⟩ := Prod.mk.inj heq
    cases hres : paymentData conv order with
    | error e => rw [hres] at hp; cases hp
    | ok p =>
        rw [hres] at hp
        obtain rfl := Option.some.inj hp
        exact ⟨p, rfl, rfl, rfl⟩
  cases c with
  | webhookRecorded provider verified eventId =>
      cases a with
      | next =>
          obtain ⟨rfl, rfl⟩ := Prod.mk.inj (Option.some.inj hexamines)
          obtain ⟨rfl, rfl⟩ := Prod.mk.inj (Option.some.inj h)
          refine ⟨rfl, Or.inl ?_⟩
          split
          · rfl
          · rfl
          · next id session hverdict =>
              obtain ⟨hget, hmatch, -⟩ := webhookVerdict_settle hverdict
              exact absurd hmatch (hfails id session hget fun _ hkey => nomatch hkey)
      | _ => cases hexamines
  | capturing id session orderId origin =>
      cases a with
      | payPal order =>
          obtain ⟨payment, hpayment, rfl, rfl⟩ := hdata hexamines
          exact settleReported_fails hc.1 hc.2.1 hpayment hfails (Option.some.inj h)
      | _ => cases hexamines
  | reconciling rest =>
      cases rest with
      | nil => cases a <;> cases hexamines
      | cons q rest =>
          cases a with
          | payPal order =>
              simp only [CheckoutCall.examines] at hexamines
              split at hexamines
              · next hcompleted =>
                  obtain ⟨payment, hpayment, rfl, rfl⟩ := hdata hexamines
                  simp only [CheckoutCall.stmt] at h
                  split at h
                  · cases h
                  · exact reconcileSession_fails hc hcompleted hpayment hfails (Option.some.inj h)
              · cases hexamines
          | _ => cases hexamines
  | _ => cases a <;> cases hexamines

/-- The notes that are left are about the event and the session's failure. -/
theorem closing_stmt {c c' : CheckoutCall} {a : Reply} (hc : c.closing = true)
    (h : c.stmt conv cfg s a = some (s', c')) :
    OnlyNotes s.db s'.db ∧ c'.closed = true := by
  cases c with
  | closingWebhook eventId status =>
      cases a with
      | next | crash | fail _ =>
          obtain ⟨rfl, rfl⟩ := Prod.mk.inj (Option.some.inj h)
          exact ⟨⟨fun _ _ hget => ⟨_, _, hget⟩, fun _ hnone => hnone, rfl, rfl, rfl, rfl⟩, rfl⟩
      | _ => cases h
  | noting origin =>
      cases a with
      | crash | fail _ =>
          obtain ⟨rfl, rfl⟩ := Prod.mk.inj (Option.some.inj h)
          exact ⟨.refl _, rfl⟩
      | next =>
          have hnote := Option.some.inj h
          cases origin with
          | webhook eventId =>
              obtain ⟨rfl, rfl⟩ := Prod.mk.inj hnote
              exact ⟨.refl _, rfl⟩
          | payPalReturn id session =>
              obtain ⟨rfl, rfl⟩ := Prod.mk.inj hnote
              exact ⟨onlyNotes_noteFailure .., rfl⟩
          | reconciliation id session rest =>
              obtain ⟨rfl, rfl⟩ := Prod.mk.inj hnote
              exact ⟨onlyNotes_noteFailure .., rfl⟩
      | _ => cases h
  | _ => cases hc

/-! ## Every run -/

/-- What orders and sessions owe to reports. -/
structure Provenance (conv : Conversions) (cfg : CommerceConfig)
    (w : World CommerceStore CommerceCall) : Prop where
  /-- The session of an order matches a report that has come in. -/
  order : ∀ i o sessionId r, w.db.db.orders.get? i = some o →
    o.checkoutSessionId = some sessionId → w.db.db.sessions.get? sessionId = some r →
    ∃ report ∈ w.db.reports, report.Matches r
  /-- A provider, once assigned, stays. -/
  assigned : ∀ w' id r, Reaches (commerce conv cfg).step Any w w' →
    w.db.db.sessions.get? id = some r → filled r.provider = true →
    ∃ t, w'.db.db.sessions.get? id = some t ∧ t.provider = r.provider
  /-- A report that does not match is dropped. -/
  dropped : ∀ (i : Nat) c a s' c' report target, w.procs[i]? = some (.checkout c) →
    c.stmt conv cfg w.db a = some (s', c') → c.examines conv a = some (report, target) →
    report.Fails w.db target → s'.db = w.db.db ∧ (c'.closing = true ∨ c'.closed = true)
  /-- And what is left to write about it are notes. -/
  noted : ∀ (i : Nat) c a s' c', w.procs[i]? = some (.checkout c) → c.closing = true →
    c.stmt conv cfg w.db a = some (s', c') → OnlyNotes w.db.db s'.db ∧ c'.closed = true

theorem assigned_reaches {w w' : World CommerceStore CommerceCall}
    (hrun : Reaches (commerce conv cfg).step Any w w') {id : Nat} {r : CheckoutSession}
    (hget : w.db.db.sessions.get? id = some r) (hf : filled r.provider = true) :
    ∃ t, w'.db.db.sessions.get? id = some t ∧ t.provider = r.provider := by
  have hevolves : ∃ t, w'.db.db.sessions.get? id = some t ∧ r.Evolves t := by
    refine hrun.invariant
      (I := fun w => ∃ t, w.db.db.sessions.get? id = some t ∧ r.Evolves t) ?_ ⟨r, hget, .refl r⟩
    rintro w a w' ⟨t, ht, he⟩ - hst
    rcases commerce_step hst with ⟨l, rfl, -, rfl⟩ | ⟨i, a, c, c', s', rfl, -, hstmt, rfl⟩ |
      ⟨i, a, j, j', s', rfl, -, hstmt, rfl⟩ | ⟨seconds, rfl, rfl⟩
    · exact ⟨t, ht, he⟩
    · obtain ⟨u, hu, he'⟩ := (CheckoutCall.effect hstmt).grows.sessions id t ht
      exact ⟨u, hu, he.trans he'⟩
    · obtain ⟨u, hu, he'⟩ := (DomainJob.effect hstmt).grows.sessions id t ht
      exact ⟨u, hu, he.trans he'⟩
    · exact ⟨t, ht, he⟩
  obtain ⟨t, ht, he⟩ := hevolves
  exact ⟨t, ht, he.provider hf⟩

/-- In every state reached from a database without orders, whatever sessions
it has. -/
theorem provenance {s : CommerceStore} (horders : ∀ i, s.db.orders.get? i = none)
    {w : World CommerceStore CommerceCall}
    (hrun : Reaches (commerce conv cfg).step Any (Machine.idle s) w) :
    Provenance conv cfg w := by
  have hinit : Accounted s := fun i o ho => by
    rw [horders] at ho
    cases ho
  have hgood := report_obligations.reaches hrun
    (Machine.good_idle (S := reportAssertions) hinit)
  have hsound : ∀ {i : Nat} {c : CheckoutCall}, w.procs[i]? = some (.checkout c) →
      c.Sound w.db := fun hi => hgood.at_ hi
  refine ⟨fun i o sessionId r ho hsession hget => ?_,
    fun w' id r hrun' hget hf => assigned_reaches hrun' hget hf,
    fun i c a s' c' report target hi hst hexamines hfails =>
      examines_fails (hsound hi) hst hexamines hfails,
    fun i c a s' c' _ hc hst => closing_stmt hc hst⟩
  obtain ⟨id, hid, r', report, hget', hmem, hmatch, -⟩ := hgood.store i o ho
  obtain rfl := Option.some.inj (hid.symm.trans hsession)
  obtain rfl := Option.some.inj (hget'.symm.trans hget)
  exact ⟨report, hmem, hmatch⟩

/-! ## A capture that does not match -/

theorem provenance_returned :
    ∃ w, Reaches (commerce sampleConversions januaryConfig).step Any
        (Machine.idle twoCheckoutsStore) w ∧
      w.db.db.orders.rows.length = 1 ∧ Provenance sampleConversions januaryConfig w := by
  obtain ⟨w, hrun, hw⟩ := exists_reaches_of_execIf
    (commerce sampleConversions januaryConfig).step Any (Machine.idle twoCheckoutsStore)
    paidWhileCancelling (fun w => w.db.db.orders.rows.length == 1) (by decide +kernel)
  exact ⟨w, hrun, by simpa using hw, provenance (fun _ => rfl) hrun⟩

/-- Only PayPal returns start. -/
def onlyReturns : Action CommerceCall Reply Nat → Bool
  | .spawn (.checkout (.payPalReturn _ _)) => true
  | .run _ _ => true
  | _ => false

/-- A report that matches no session can still change one: the return that
brought it writes the failure down. -/
theorem mismatch_noted :
    ¬ ∀ (conv : Conversions) (cfg : CommerceConfig) (s : CommerceStore)
      (w : World CommerceStore CommerceCall), (∀ i, s.db.orders.get? i = none) →
      Reaches (commerce conv cfg).step (fun _ a => onlyReturns a = true) (Machine.idle s) w →
      (∀ report ∈ w.db.reports, ∀ id r, s.db.sessions.get? id = some r → ¬ report.Matches r) →
      ∀ id, w.db.db.sessions.get? id = s.db.sessions.get? id := by
  intro h
  obtain ⟨w, hrun, hw⟩ := exists_reaches_of_execIf
    (commerce sampleConversions januaryConfig).step (fun _ a => onlyReturns a = true)
    (Machine.idle twoCheckoutsStore)
    [.spawn (.checkout (.payPalReturn 1 "O-1")), .run 0 .next,
      .run 0 (.payPal (capturedOrder "14.00")), .run 0 .next]
    (fun w => (w.db.reports.all fun report => report.amountMinor == some 1400) &&
      (w.db.db.sessions.get? 1).any fun r => r.failureReason.isSome) (by decide +kernel)
  simp only [Bool.and_eq_true, List.all_eq_true, beq_iff_eq] at hw
  have hamount : ∀ id r, twoCheckoutsStore.db.sessions.get? id = some r →
      r.amountMinor = 1500 := by
    intro id r hget
    have hmem : (id, r) ∈
        [(1, pendingCheckout "s-1" 1 "O-1"), (2, pendingCheckout "s-2" 2 "O-2")] :=
      Table.mem_rows.mpr hget
    simp only [List.mem_cons, Prod.mk.injEq, List.not_mem_nil, or_false] at hmem
    rcases hmem with ⟨-, rfl⟩ | ⟨-, rfl⟩ <;> rfl
  have hsame := h _ _ _ w (fun _ => rfl) hrun (fun report hmem id r hget hmatch => by
    have hreported := hw.1 report hmem
    rw [hmatch.amountMinor, hamount id r hget] at hreported
    cases hreported) 1
  rw [hsame] at hw
  exact absurd hw.2 (by decide +kernel)

end OnePloy
