import OnePloy.CheckoutRows
import OnePloy.PaymentReports

/-!
# The checkout service

The transactions of `CheckoutService`, each a function on the tables: the
claim, the success and the failure of `startPayment`, the settlement
`markPaid`, and `queuePaidDomainRegistrations`; with them what the controllers
decide on a report. A transaction that throws returns an error, and changes
nothing.

After the transactions comes what each of them does to the tables.
-/

namespace OnePloy

open Conc Php

/-! ## Saves -/

section Update

variable (f : CheckoutSession → CheckoutSession) (now : Nat) (s : CheckoutSession)

/-- But for the timestamp, a save leaves what was assigned. -/
theorem update_apply {β : Type*} (g : CheckoutSession → β)
    (hg : ∀ s t, g { s with updatedAt := t } = g s) : g (s.update f now) = g (f s) := by
  unfold CheckoutSession.update
  split
  · next h => rw [h]
  · exact hg _ _

@[simp] theorem update_uuid : (s.update f now).uuid = (f s).uuid :=
  update_apply f now s (·.uuid) fun _ _ => rfl

@[simp] theorem update_teamId : (s.update f now).teamId = (f s).teamId :=
  update_apply f now s (·.teamId) fun _ _ => rfl

@[simp] theorem update_status : (s.update f now).status = (f s).status :=
  update_apply f now s (·.status) fun _ _ => rfl

@[simp] theorem update_provider : (s.update f now).provider = (f s).provider :=
  update_apply f now s (·.provider) fun _ _ => rfl

@[simp] theorem update_providerReference :
    (s.update f now).providerReference = (f s).providerReference :=
  update_apply f now s (·.providerReference) fun _ _ => rfl

@[simp] theorem update_currency : (s.update f now).currency = (f s).currency :=
  update_apply f now s (·.currency) fun _ _ => rfl

@[simp] theorem update_items : (s.update f now).items = (f s).items :=
  update_apply f now s (·.items) fun _ _ => rfl

@[simp] theorem update_amountMinor : (s.update f now).amountMinor = (f s).amountMinor :=
  update_apply f now s (·.amountMinor) fun _ _ => rfl

end Update

/-! ## startPayment -/

/-- The providers `PaymentProviderManager` knows. -/
def paymentProviders : List String := ["paypal", "stripe", "razorpay"]

/-- What a provider's `initiate` returns. -/
structure InitiationResult where
  providerReference : String
  approvalUrl : Option String
  publicPayload : List (String × PayloadValue)

inductive StartState
  | paid | expired | cancelled | ready | initiating | start
deriving DecidableEq

def initiationException : String := "The payment provider could not start checkout."

/-- The first transaction of `startPayment`. -/
def CommerceDb.claimPayment (db : CommerceDb) (now sessionId : Nat) (provider : String) :
    Except String (CommerceDb × StartState) :=
  match db.sessions.get? sessionId with
  | none => .error "No query results for model [App\\Models\\OneployCheckoutSession]."
  | some locked =>
      if locked.status = .paid then .ok (db, .paid)
      else if locked.isPast now then
        .ok (db.updateSession sessionId (·.update ({ · with status := .expired }) now), .expired)
      else if locked.status = .cancelled then .ok (db, .cancelled)
      else if filled locked.provider && locked.provider != some provider then
        .error ("This checkout is already assigned to " ++ locked.provider.getD "" ++ ".")
      else if locked.provider == some provider && locked.status == .pendingProvider &&
          filled locked.providerReference then .ok (db, .ready)
      else if locked.status == .initiatingProvider && decide (now < locked.updatedAt + 120) then
        .ok (db, .initiating)
      else
        .ok (db.updateSession sessionId (·.update ({ · with
          status := .initiatingProvider
          provider := some provider
          providerReference := none
          approvalUrl := none
          failureReason := none
          providerPayload := none }) now), .start)

/-- The second transaction, after the provider has answered. -/
def CommerceDb.finishPayment (db : CommerceDb) (now sessionId : Nat) (provider : String)
    (result : InitiationResult) : Except String CommerceDb :=
  match db.sessions.get? sessionId with
  | none => .error "No query results for model [App\\Models\\OneployCheckoutSession]."
  | some locked =>
      if locked.status = .paid then .ok db
      else if locked.provider ≠ some provider ∨ locked.status ≠ .initiatingProvider then
        .error initiationException
      else
        .ok (db.updateSession sessionId (·.update ({ · with
          status := .pendingProvider
          providerReference := some result.providerReference
          approvalUrl := result.approvalUrl
          failureReason := none
          providerPayload := some result.publicPayload }) now))

/-- The update when the provider has thrown. -/
def CommerceDb.failPayment (db : CommerceDb) (now sessionId : Nat) (provider : String) :
    CommerceDb :=
  { db with
    sessions := db.sessions.updateWhere
      (fun i s => i == sessionId && s.provider == some provider &&
        s.status == .initiatingProvider)
      ({ · with
        status := .opened
        failureReason := some initiationException
        updatedAt := now }) }

/-! ## markPaid -/

def newOrder (session : CheckoutSession) (teamId sessionId : Nat)
    (provider providerReference : String) (raw : List (String × Value)) : Order where
  teamId := teamId
  checkoutSessionId := some sessionId
  status := .paid
  currency := session.currency
  amountMinor := session.amountMinor
  lines := session.items
  metadata := ⟨provider, providerReference, raw.map Prod.fst⟩

def newInvoice (session : CheckoutSession) (teamId orderId now : Nat) : Invoice where
  teamId := teamId
  orderId := some orderId
  status := .paid
  currency := session.currency
  amountMinor := session.amountMinor
  lines := session.items
  paidAt := some now

def newPayment (session : CheckoutSession) (teamId invoiceId : Nat)
    (provider providerReference : String) (raw : List (String × Value)) : Payment where
  teamId := teamId
  invoiceId := some invoiceId
  provider := provider
  status := .succeeded
  currency := session.currency
  amountMinor := session.amountMinor
  providerReference := some providerReference
  rawEventId := (raw.lookup "event_id").getD .null
  rawEventType := (raw.lookup "event_type").getD .null

def CheckoutSession.markedPaid (now : Nat) (s : CheckoutSession) : CheckoutSession :=
  s.update ({ · with status := .paid, completedAt := some now }) now

/-- The session marked paid, with its order, invoice and payment. -/
def CommerceDb.settle (db : CommerceDb) (now sessionId teamId : Nat)
    (session : CheckoutSession) (provider providerReference : String)
    (raw : List (String × Value)) : CommerceDb :=
  { db with
    sessions := db.sessions.modify sessionId (·.markedPaid now)
    orders := db.orders.insert
      (newOrder session teamId sessionId provider providerReference raw)
    invoices := db.invoices.insert (newInvoice session teamId db.orders.nextId now)
    payments := db.payments.insert
      (newPayment session teamId db.invoices.nextId provider providerReference raw) }

/-- `updateOrCreate` on team and product. -/
def CommerceDb.updateOrCreateSubscription (db : CommerceDb)
    (row : CommerceSubscription) : CommerceDb :=
  match db.subscriptions.first? fun _ s =>
      s.teamId == row.teamId && s.productId == row.productId with
  | some (id, _) => { db with subscriptions := db.subscriptions.modify id fun _ => row }
  | none => { db with subscriptions := db.subscriptions.insert row }

def assignablePlans : List String := ["starter", "pro", "free", "unlimited"]

/-- `Team::assignPlan`. -/
def CommerceDb.assignPlan (db : CommerceDb) (cfg : CommerceConfig) (teamId : Nat)
    (plan : String) : Except String CommerceDb :=
  if filled (some plan) && !cfg.tenancyPlans.contains plan then
    .error ("Unknown plan [" ++ plan ++ "].")
  else .ok { db with teams := db.teams.modify teamId fun _ => some plan }

/-- The subscription and the plan that a price brings. -/
def CommerceDb.grantPrice (db : CommerceDb) (cfg : CommerceConfig) (now teamId priceId : Nat)
    (price : Price) : Except String CommerceDb :=
  let planVersion := db.planVersions.get? price.planVersionId
  let plan := planVersion.bind fun v => db.plans.get? v.planId
  let db := db.updateOrCreateSubscription {
    teamId := teamId
    productId := plan.map (·.productId)
    planVersionId := price.planVersionId
    priceId := some priceId
    status := "active"
    currentPeriodEndsAt := some
      (if price.interval = "yearly" then cfg.addYears now 1 else cfg.addMonth now)
    entitlementSnapshot := (planVersion.map (·.entitlements)).getD (.list []) }
  match db.teams.get? teamId, plan with
  | some _, some plan =>
      if ((db.products.get? plan.productId).any fun p => p.family == "app_hosting") &&
          assignablePlans.contains plan.slug then
        db.assignPlan cfg teamId plan.slug
      else .ok db
  | _, _ => .ok db

/-- The transaction of `markPaid`; the answer is the order's key. -/
def CommerceDb.markPaid (db : CommerceDb) (cfg : CommerceConfig) (now sessionId : Nat)
    (provider providerReference : String) (raw : List (String × Value)) :
    Except String (CommerceDb × Nat) :=
  match db.sessions.get? sessionId with
  | none => .error "No query results for model [App\\Models\\OneployCheckoutSession]."
  | some session =>
      if session.status = .paid then
        match db.orderOf sessionId with
        | none => .error "No query results for model [App\\Models\\OneployOrder]."
        | some (orderId, _) => .ok (db, orderId)
      else
        match db.payments.first? fun _ p =>
            p.provider == provider && p.providerReference == some providerReference with
        | some (_, existingPayment) =>
            let orderId := (existingPayment.invoiceId.bind db.invoices.get?).bind (·.orderId)
            match orderId, orderId.bind db.orders.get? with
            | some orderId, some order =>
                if order.checkoutSessionId = some sessionId then .ok (db, orderId)
                else .error "This provider payment was already applied to another checkout."
            | _, _ => .error "This provider payment was already applied to another checkout."
        | none =>
            match session.teamId with
            -- the orders' `team_id` is not nullable
            | none => .error "Not null violation: team_id"
            | some teamId =>
                let settled := db.settle now sessionId teamId session provider providerReference raw
                let price := session.priceId.bind fun id => (db.prices.get? id).map (id, ·)
                match price with
                | none => .ok (settled, db.orders.nextId)
                | some (priceId, price) =>
                    (settled.grantPrice cfg now teamId priceId price).map (·, db.orders.nextId)

/-! ## queuePaidDomainRegistrations -/

/-- The transaction; the jobs are dispatched after it. -/
def CommerceDb.queuePaidDomainRegistrations (db : CommerceDb) (sessionId : Nat) : CommerceDb :=
  { db with
    domains := db.domains.updateWhere
      (fun _ d => d.checkoutSessionId == some sessionId && d.status == .pendingPayment)
      ({ · with status := .pendingRegistration, lastError := none }) }

/-! ## Reports against sessions -/

/-- `assertPaymentMatches`. -/
def paymentMatches (session : CheckoutSession) (payment : PayPalPayment) : Bool :=
  payment.checkoutUuid == some session.uuid && payment.providerReference.isSome &&
    payment.amountMinor == some (session.amountMinor : Int) &&
    payment.currency == some (strtoupper session.currency) && payment.status == "COMPLETED"

/-- The first check of `completePayPal`. -/
def belongsToCheckout (session : CheckoutSession) (orderId : String) : Bool :=
  session.provider == some "paypal" && session.providerReference.getD "" == orderId

/-- The provider's name, the uuid, amount and currency of a report are the
session's, and it reports success. -/
structure PaymentReport.Matches (report : PaymentReport) (s : CheckoutSession) : Prop where
  uuid : report.checkoutUuid = some s.uuid
  provider : s.provider = some report.provider
  success : report.success = true
  amountMinor : report.amountMinor = some (s.amountMinor : Int)
  currency : report.currency = some (strtoupper s.currency)

/-- What the webhook controller does with a verified report. -/
inductive WebhookVerdict
  | ignored | rejected
  | settle (sessionId : Nat) (session : CheckoutSession)

def CommerceDb.webhookVerdict (db : CommerceDb) (provider : String) (v : VerifiedWebhook) :
    WebhookVerdict :=
  if !v.isPaymentSuccess || blank v.checkoutUuid then .ignored
  else
    match db.sessions.first? fun _ s => v.checkoutUuid == some s.uuid with
    | none => .ignored
    | some (id, session) =>
        if blank session.provider || session.provider != some provider then .rejected
        else if v.amountMinor != some (session.amountMinor : Int) ||
            v.currency != some (strtoupper session.currency) then .rejected
        else .settle id session

/-- `recordWebhook`: `firstOrCreate`. -/
def CommerceDb.recordWebhook (db : CommerceDb) (provider eventId : String)
    (payload : List (String × Value)) : CommerceDb × Nat × WebhookEvent :=
  match db.webhookEvents.first? fun _ e =>
      e.provider == provider && e.providerEventId == eventId with
  | some (id, event) => (db, id, event)
  | none =>
      let event := ⟨provider, eventId, .received, payload, none⟩
      ({ db with webhookEvents := db.webhookEvents.insert event }, db.webhookEvents.nextId, event)

/-- `$event->update(['status' => …, 'processed_at' => now()])`. -/
def CommerceDb.closeWebhook (db : CommerceDb) (id now : Nat) (status : WebhookStatus) :
    CommerceDb :=
  { db with
    webhookEvents := db.webhookEvents.modify id
      ({ · with status := status, processedAt := some now }) }

/-! ## What the transactions do -/

section Cases

variable {db db' : CommerceDb} {cfg : CommerceConfig} {now sessionId : Nat} {provider : String}

/-- Granting a price touches subscriptions and teams only. -/
theorem grantPrice_frame {teamId priceId : Nat} {price : Price}
    (h : db.grantPrice cfg now teamId priceId price = .ok db') :
    ∃ subscriptions teams, db' = { db with subscriptions := subscriptions, teams := teams } := by
  have hupsert : ∀ row, ∃ subscriptions,
      db.updateOrCreateSubscription row = { db with subscriptions := subscriptions } := by
    intro row
    unfold CommerceDb.updateOrCreateSubscription
    split
    · exact ⟨_, rfl⟩
    · exact ⟨_, rfl⟩
  simp only [CommerceDb.grantPrice] at h
  obtain ⟨subscriptions, hdb⟩ := hupsert _
  rw [hdb] at h
  refine ⟨subscriptions, ?_⟩
  split at h
  · split at h
    · rw [CommerceDb.assignPlan, ite_error_eq_ok] at h
      exact ⟨_, (Except.ok.inj h.2).symm⟩
    · exact ⟨_, (Except.ok.inj h).symm⟩
  · exact ⟨_, (Except.ok.inj h).symm⟩

/-- What a committed `markPaid` did: it found the session's order and changed
nothing, or it settled a session that was not paid with a payment that was not
recorded. -/
theorem markPaid_cases {providerReference : String} {raw : List (String × Value)}
    {orderId : Nat}
    (h : db.markPaid cfg now sessionId provider providerReference raw = .ok (db', orderId)) :
    (db' = db ∧ ∃ o, db.orders.get? orderId = some o ∧ o.checkoutSessionId = some sessionId) ∨
    ∃ session teamId, db.sessions.get? sessionId = some session ∧ session.status ≠ .paid ∧
      session.teamId = some teamId ∧
      (∀ i p, db.payments.get? i = some p → p.provider = provider →
        p.providerReference ≠ some providerReference) ∧
      orderId = db.orders.nextId ∧
      ∃ subscriptions teams,
        db' = { db.settle now sessionId teamId session provider providerReference raw with
          subscriptions := subscriptions, teams := teams } := by
  unfold CommerceDb.markPaid at h
  cases hs : db.sessions.get? sessionId with
  | none => rw [hs] at h; cases h
  | some session =>
      simp only [hs] at h
      split at h
      · -- already paid
        cases ho : db.orderOf sessionId with
        | none => rw [ho] at h; cases h
        | some q =>
            simp only [ho] at h
            obtain ⟨rfl, rfl⟩ := Prod.mk.inj (Except.ok.inj h)
            obtain ⟨hget, hsession⟩ := Table.first?_some ho
            exact Or.inl ⟨rfl, q.2, hget, by simpa using hsession⟩
      · next hpaid =>
          cases hp : db.payments.first? fun _ p =>
              p.provider == provider && p.providerReference == some providerReference with
          | some q =>
              simp only [hp] at h
              split at h
              · next id order hid horder =>
                  split at h
                  · next hsession =>
                      obtain ⟨rfl, rfl⟩ := Prod.mk.inj (Except.ok.inj h)
                      rw [hid] at horder
                      exact Or.inl ⟨rfl, order, horder, hsession⟩
                  · cases h
              · cases h
          | none =>
              simp only [hp] at h
              have hnew : ∀ i p, db.payments.get? i = some p → p.provider = provider →
                  p.providerReference ≠ some providerReference := by
                intro i p hget hprovider href
                have hfalse := Table.first?_none hp hget
                simp [hprovider, href] at hfalse
              cases ht : session.teamId with
              | none => rw [ht] at h; cases h
              | some teamId =>
                  refine Or.inr ⟨session, teamId, rfl, hpaid, ht, hnew, ?_⟩
                  simp only [ht] at h
                  split at h
                  · obtain ⟨rfl, rfl⟩ := Prod.mk.inj (Except.ok.inj h)
                    exact ⟨rfl, _, _, rfl⟩
                  · cases hg : (db.settle now sessionId teamId session provider providerReference
                        raw).grantPrice cfg now teamId _ _ with
                    | error e => rw [hg] at h; cases h
                    | ok granted =>
                        rw [hg] at h
                        obtain ⟨rfl, rfl⟩ := Prod.mk.inj (Except.ok.inj h)
                        exact ⟨rfl, grantPrice_frame hg⟩

/-- What the claim of `startPayment` did to the session it found: nothing, or it
expired it, or it gave it to a provider it did not yet have. -/
theorem claimPayment_cases {state : StartState}
    (h : db.claimPayment now sessionId provider = .ok (db', state)) :
    db' = db ∨ ∃ locked f, db.sessions.get? sessionId = some locked ∧ locked.status ≠ .paid ∧
      db' = db.updateSession sessionId (·.update f now) ∧
      ((f = ({ · with status := .expired })) ∨
        (¬(filled locked.provider = true ∧ locked.provider ≠ some provider) ∧
          f = ({ · with
            status := .initiatingProvider
            provider := some provider
            providerReference := none
            approvalUrl := none
            failureReason := none
            providerPayload := none }))) := by
  unfold CommerceDb.claimPayment at h
  split at h
  · cases h
  · next locked hget =>
      split at h
      · exact Or.inl (Prod.mk.inj (Except.ok.inj h)).1.symm
      · next hpaid =>
          split at h
          · obtain ⟨rfl, -⟩ := Prod.mk.inj (Except.ok.inj h)
            exact Or.inr ⟨locked, _, hget, hpaid, rfl, Or.inl rfl⟩
          · split at h
            · exact Or.inl (Prod.mk.inj (Except.ok.inj h)).1.symm
            · split at h
              · cases h
              · next hassigned =>
                  split at h
                  · exact Or.inl (Prod.mk.inj (Except.ok.inj h)).1.symm
                  · split at h
                    · exact Or.inl (Prod.mk.inj (Except.ok.inj h)).1.symm
                    · obtain ⟨rfl, -⟩ := Prod.mk.inj (Except.ok.inj h)
                      exact Or.inr ⟨locked, _, hget, hpaid, rfl,
                        Or.inr ⟨by simpa using hassigned, rfl⟩⟩

/-- A provider's answer reaches the session only while it is being initiated
with that provider. -/
theorem finishPayment_cases {result : InitiationResult}
    (h : db.finishPayment now sessionId provider result = .ok db') :
    db' = db ∨ ∃ locked, db.sessions.get? sessionId = some locked ∧
      locked.status = .initiatingProvider ∧ locked.provider = some provider ∧
      db' = db.updateSession sessionId (·.update ({ · with
        status := .pendingProvider
        providerReference := some result.providerReference
        approvalUrl := result.approvalUrl
        failureReason := none
        providerPayload := some result.publicPayload }) now) := by
  unfold CommerceDb.finishPayment at h
  split at h
  · cases h
  · next locked hget =>
      split at h
      · exact Or.inl (Except.ok.inj h).symm
      · rw [ite_error_eq_ok] at h
        obtain ⟨hmine, h⟩ := h
        simp only [not_or, not_not] at hmine
        exact Or.inr ⟨locked, hget, hmine.2, hmine.1, (Except.ok.inj h).symm⟩

end Cases

end OnePloy
