import OnePloy.DomainService

/-!
# Checkout, call by call

The entry points that touch a checkout session as sequences of statements:
`startPayment`, webhook delivery, PayPal return and cancel, reconciliation, and
the start of a domain checkout. A locked transaction is one statement, and so
is an unlocked read, a later save of what was read, and a call to a provider;
anything may happen between two statements.

A call keeps the session as it read it. `reports` remembers what providers
have reported, the latest first: webhooks that were verified and orders that
PayPal has answered with.
-/

namespace OnePloy

open Conc Php

/-! ## States -/

structure CommerceStore where
  db : CommerceDb
  clock : Nat
  reports : List PaymentReport
  /-- The domains `ConnectResellerClient::register` was called for. -/
  registrations : List Nat

def CommerceStore.withDb (s : CommerceStore) (db : CommerceDb) : CommerceStore :=
  { s with db := db }

/-- What a statement meets: nothing in particular, an exception, the end of the
process, or the answer of a remote party. -/
inductive Reply
  | next | crash
  | fail (message : String)
  | initiated (result : InitiationResult)
  | payPal (order : Value)
  | registered (registration : DomainRegistration)
  | zone (records : Value) (dnssec : Bool)
  | delegated (isDelegated : Bool)

/-- Who settles a session, and how the call goes on afterwards. -/
inductive Origin
  | webhook (eventId : Nat)
  | payPalReturn (id : Nat) (session : CheckoutSession)
  | reconciliation (id : Nat) (session : CheckoutSession) (rest : List (Nat × CheckoutSession))

inductive CheckoutCall
  | startPayment (sessionId : Nat) (provider : String)
  | initiating (sessionId : Nat) (provider : String)
  | initiated (sessionId : Nat) (provider : String) (result : InitiationResult)
  | initiationFailed (sessionId : Nat) (provider : String)
  | webhook (provider : String) (request : WebhookRequest)
  | webhookRecorded (provider : String) (verified : VerifiedWebhook) (eventId : Nat)
  | closingWebhook (eventId : Nat) (status : WebhookStatus)
  | payPalReturn (teamId : Nat) (orderId : String)
  | payPalCancel (teamId : Nat) (orderId : String)
  | cancelling (id : Nat) (session : CheckoutSession)
  | reconcile
  | reconciling (rest : List (Nat × CheckoutSession))
  | capturing (id : Nat) (session : CheckoutSession) (orderId : String) (origin : Origin)
  | settling (sessionId : Nat) (provider providerReference : String)
      (raw : List (String × Value)) (origin : Origin)
  | queueing (sessionId : Nat) (origin : Origin)
  | noting (origin : Origin)
  | startDomain (req : DomainRequest)
  | done

/-- How a call ends well. -/
def Origin.finished : Origin → CheckoutCall
  | .webhook eventId => .closingWebhook eventId .processed
  | .payPalReturn _ _ => .done
  | .reconciliation _ _ rest => .reconciling rest

/-- Where an exception takes the call: a webhook is answered with an error and
delivered again, the others are caught. -/
def Origin.failed : Origin → CheckoutCall
  | .webhook _ => .done
  | .payPalReturn id session => .noting (.payPalReturn id session)
  | .reconciliation id session rest => .noting (.reconciliation id session rest)

/-- The save in the `catch`: only `failure_reason`, and only if it is new. -/
def CommerceDb.noteFailure (db : CommerceDb) (now id : Nat) (session : CheckoutSession)
    (reason : String) : CommerceDb :=
  if session.failureReason = some reason then db
  else db.updateSession id ({ · with failureReason := some reason, updatedAt := now })

def captureUnverified : String :=
  "PayPal capture could not be verified. Reconciliation will retry automatically."

def reconciliationPending : String := "Automatic PayPal reconciliation is pending."

/-- The rest of `complete` and of `handle` after an exception. -/
def Origin.note (origin : Origin) (s : CommerceStore) : CommerceStore × CheckoutCall :=
  match origin with
  | .webhook _ => (s, .done)
  | .payPalReturn id session =>
      (s.withDb (s.db.noteFailure s.clock id session captureUnverified), .done)
  | .reconciliation id session rest =>
      (s.withDb (s.db.noteFailure s.clock id session reconciliationPending), .reconciling rest)

/-- `cancel` from what it read. -/
def CommerceDb.cancelSession (db : CommerceDb) (now id : Nat) (session : CheckoutSession) :
    CommerceDb :=
  if session.status = .cancelled then db
  else db.updateSession id ({ · with status := .cancelled, updatedAt := now })

/-- Reconciliation from what it read, which was pending. -/
def CommerceDb.expireSession (db : CommerceDb) (now id : Nat) : CommerceDb :=
  db.updateSession id ({ · with status := .expired, updatedAt := now })

/-- The session a PayPal redirect is about. -/
def CommerceDb.sessionForTeam (db : CommerceDb) (teamId : Nat) (orderId : String) :
    Option (Nat × CheckoutSession) :=
  db.sessions.first? fun _ s => s.teamId == some teamId && s.provider == some "paypal" &&
    s.providerReference == some orderId

/-- The sessions a reconciliation goes through. -/
def CommerceDb.pendingPayPal (db : CommerceDb) : List (Nat × CheckoutSession) :=
  (db.sessions.select fun _ s => s.provider == some "paypal" &&
    s.status == .pendingProvider && s.providerReference.isSome).take 100

/-- `completePayPal` up to the capture. -/
def CommerceDb.completePayPal (db : CommerceDb) (id : Nat) (session : CheckoutSession)
    (orderId : String) (origin : Origin) : CheckoutCall :=
  if !belongsToCheckout session orderId then origin.failed
  else if session.status = .paid then
    if (db.orderOf id).isSome then origin.finished else origin.failed
  else .capturing id session orderId origin

/-- A session's report, to be matched and settled: the rest of `completePayPal`,
and the same lines of the reconciliation. -/
def settleReported (conv : Conversions) (s : CommerceStore) (id : Nat)
    (session : CheckoutSession) (order : Value) (eventId eventType : String) (origin : Origin) :
    CommerceStore × CheckoutCall :=
  if !order.isArray then (s, origin.failed)
  else
    match paymentData conv order with
    | .error _ => (s, origin.failed)
    | .ok payment =>
        ({ s with reports := payment.report :: s.reports },
          if paymentMatches session payment then
            .settling id "paypal" (payment.providerReference.getD "")
              [("event_id", .string eventId), ("event_type", .string eventType),
                ("order_status", .string payment.status)] origin
          else origin.failed)

/-- A pending session that has not expired, and what PayPal says of its order. -/
def reconcileSession (conv : Conversions) (s : CommerceStore) (id : Nat)
    (session : CheckoutSession) (rest : List (Nat × CheckoutSession)) (order : Value) :
    CommerceStore × CheckoutCall :=
  let reference := session.providerReference.getD ""
  let origin := Origin.reconciliation id session rest
  if !order.isArray then (s, origin.failed)
  else
    match (order.dataGetOr (.string "") ["status"]).toText with
    | .error _ => (s, origin.failed)
    | .ok status =>
        if strtoupper status = "APPROVED" then
          (s, s.db.completePayPal id session reference origin)
        else if strtoupper status ≠ "COMPLETED" then (s, .reconciling rest)
        else settleReported conv s id session order reference "PAYPAL.RECONCILIATION" origin

/-- The database after a transaction, and the call: thrown out of if it fails. -/
def CommerceStore.transact {α : Type} (s : CommerceStore)
    (result : Except String (CommerceDb × α)) (committed : α → CheckoutCall)
    (thrown : CheckoutCall) : CommerceStore × CheckoutCall :=
  match result with
  | .ok (db, a) => (s.withDb db, committed a)
  | .error _ => (s, thrown)

def WebhookStatus.isClosed : WebhookStatus → Bool
  | .received => false
  | _ => true

/-- Verification and `recordWebhook`. -/
def CommerceStore.receiveWebhook (conv : Conversions) (s : CommerceStore) (provider : String)
    (request : WebhookRequest) : CommerceStore × CheckoutCall :=
  match verify conv request provider with
  | .error _ => (s, .done)
  | .ok none => (s, .done)
  | .ok (some verified) =>
      let (db, eventId, event) := s.db.recordWebhook provider verified.eventId verified.auditPayload
      ({ s with db := db, reports := verified.report provider :: s.reports },
        if event.status.isClosed then .done else .webhookRecorded provider verified eventId)

/-- One statement of a call. -/
def CheckoutCall.stmt (conv : Conversions) (cfg : CommerceConfig) (s : CommerceStore) :
    CheckoutCall → Reply → Option (CommerceStore × CheckoutCall)
  | .done, _ => none
  | _, .crash => some (s, .done)
  | .startPayment sessionId provider, .next =>
      some (if paymentProviders.contains (strtolower provider) then
          s.transact (s.db.claimPayment s.clock sessionId (strtolower provider))
            (fun state => match state with
              | .start => .initiating sessionId (strtolower provider)
              | _ => .done) .done
        else (s, .done))
  | .initiating sessionId provider, .initiated result =>
      some (s, .initiated sessionId provider result)
  | .initiating sessionId provider, .fail _ => some (s, .initiationFailed sessionId provider)
  | .initiated sessionId provider result, .next =>
      some (s.withDb (commit s.db (s.db.finishPayment s.clock sessionId provider result)), .done)
  | .initiationFailed sessionId provider, .next =>
      some (s.withDb (s.db.failPayment s.clock sessionId provider), .done)
  | .webhook provider request, .next => some (s.receiveWebhook conv provider request)
  | .webhookRecorded provider verified eventId, .next =>
      some (s, match s.db.webhookVerdict provider verified with
        | .ignored => .closingWebhook eventId .ignored
        | .rejected => .closingWebhook eventId .rejected
        | .settle sessionId _ =>
            .settling sessionId provider verified.providerReference verified.auditPayload
              (.webhook eventId))
  | .closingWebhook eventId status, .next =>
      some (s.withDb (s.db.closeWebhook eventId s.clock status), .done)
  | .payPalReturn teamId orderId, .next =>
      some (s, if orderId = "" then .done
        else match s.db.sessionForTeam teamId orderId with
          | none => .done
          | some (id, session) =>
              s.db.completePayPal id session orderId (.payPalReturn id session))
  | .payPalCancel teamId orderId, .next =>
      some (s, if orderId = "" then .done
        else match s.db.sessionForTeam teamId orderId with
          | none => .done
          | some (id, session) => if session.status = .paid then .done else .cancelling id session)
  | .cancelling id session, .next =>
      some (s.withDb (s.db.cancelSession s.clock id session), .done)
  | .reconcile, .next => some (s, .reconciling s.db.pendingPayPal)
  | .reconciling [], .next => some (s, .done)
  | .reconciling ((id, session) :: rest), .next =>
      -- an expired session needs no answer
      if session.isPast s.clock then
        some (s.withDb (s.db.expireSession s.clock id), .reconciling rest)
      else none
  | .reconciling ((id, session) :: rest), .payPal order =>
      if session.isPast s.clock then none
      else some (reconcileSession conv s id session rest order)
  | .reconciling ((id, session) :: rest), .fail _ =>
      some (s, if session.isPast s.clock then .done
        else Origin.failed (.reconciliation id session rest))
  | .capturing id session orderId origin, .payPal order =>
      some (settleReported conv s id session order orderId "PAYPAL.ORDER.CAPTURE" origin)
  | .capturing _ _ _ origin, .fail _ => some (s, origin.failed)
  | .settling sessionId provider providerReference raw origin, .next =>
      some (s.transact (s.db.markPaid cfg s.clock sessionId provider providerReference raw)
        (fun _ => .queueing sessionId origin) origin.failed)
  | .settling _ _ _ _ origin, .fail _ => some (s, origin.failed)
  | .queueing sessionId origin, .next =>
      some (s.withDb (s.db.queuePaidDomainRegistrations sessionId), origin.finished)
  | .queueing _ origin, .fail _ => some (s, origin.failed)
  | .noting origin, .next => some (origin.note s)
  | .startDomain req, .next =>
      some (s.transact (s.db.startDomain s.clock req)
        (fun sessionId => .startPayment sessionId "paypal") .done)
  | _, .fail _ => some (s, .done)
  | _, _ => none

/-- The calls that come from outside. -/
def CheckoutCall.start : CheckoutCall → Bool
  | .startPayment _ _ => true
  | .webhook _ _ => true
  | .payPalReturn _ _ => true
  | .payPalCancel _ _ => true
  | .reconcile => true
  | .startDomain _ => true
  | _ => false

end OnePloy
