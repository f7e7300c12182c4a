import OnePloy.Lib.Attempt
import OnePloy.Lib.PhpValue
import OnePloy.Lib.Table

/-!
# Checkout: rows

The tables of checkout and of domain registration: sessions, what a settled
session leaves behind (order, invoice, payment, subscription), the webhook
events already seen, and the domains and zones that are delivered.

A model instance is a row as it was read. Saving it writes the attributes that
differ from what was read and nothing else, so an instance may be stale and a
save may be no statement at all; `CheckoutSession.update` is the save of an
instance read under lock. Times are whole seconds.
-/

namespace OnePloy

open Conc Php

/-! ## Sessions -/

inductive CheckoutStatus
  | opened | initiatingProvider | pendingProvider | paid | expired | cancelled
deriving DecidableEq

inductive CheckoutItem
  | plan (priceId : Nat)
  | domainRegistration (domain : String) (years : Nat) (privacy : Bool)
      (nameservers : List String) (unitAmountMinor amountMinor : Nat)
deriving DecidableEq

inductive PayloadValue
  | text (s : String)
  | number (n : Nat)
deriving DecidableEq

structure CheckoutSession where
  uuid : String
  teamId : Option Nat
  userId : Option Nat
  status : CheckoutStatus
  provider : Option String
  providerReference : Option String
  approvalUrl : Option String
  failureReason : Option String
  providerPayload : Option (List (String × PayloadValue))
  currency : String
  idempotencyKey : Option String
  items : List CheckoutItem
  amountMinor : Nat
  expiresAt : Option Nat
  completedAt : Option Nat
  updatedAt : Nat
deriving DecidableEq

/-- `expires_at?->isPast()`. -/
def CheckoutSession.isPast (s : CheckoutSession) (now : Nat) : Bool :=
  s.expiresAt.any fun e => decide (e < now)

/-- `update`, of a row that was read under lock: nothing is saved, not even the
timestamp, unless an attribute changes. -/
def CheckoutSession.update (f : CheckoutSession → CheckoutSession) (now : Nat)
    (s : CheckoutSession) : CheckoutSession :=
  if f s = s then s else { f s with updatedAt := now }

/-- `data_get($items, '0.price_id')`. -/
def CheckoutSession.priceId (s : CheckoutSession) : Option Nat :=
  match s.items with
  | .plan priceId :: _ => some priceId
  | _ => none

/-- The name a domain checkout is for. -/
def CheckoutSession.domainName (s : CheckoutSession) : Option String :=
  match s.items with
  | .domainRegistration domain _ _ _ _ _ :: _ => some domain
  | _ => none

/-! ## What a settled session leaves -/

inductive OrderStatus
  | pending | paid
deriving DecidableEq

structure OrderMetadata where
  provider : String
  providerReference : String
  rawKeys : List String

structure Order where
  teamId : Nat
  checkoutSessionId : Option Nat
  status : OrderStatus
  currency : String
  amountMinor : Nat
  lines : List CheckoutItem
  metadata : OrderMetadata

inductive InvoiceStatus
  | draft | paid
deriving DecidableEq

structure Invoice where
  teamId : Nat
  orderId : Option Nat
  status : InvoiceStatus
  currency : String
  amountMinor : Nat
  lines : List CheckoutItem
  paidAt : Option Nat

inductive PaymentStatus
  | pending | succeeded
deriving DecidableEq

structure Payment where
  teamId : Nat
  invoiceId : Option Nat
  provider : String
  status : PaymentStatus
  currency : String
  amountMinor : Nat
  providerReference : Option String
  /-- `raw.event_id` and `raw.event_type`. -/
  rawEventId : Value
  rawEventType : Value

structure CommerceSubscription where
  teamId : Nat
  productId : Option Nat
  planVersionId : Nat
  priceId : Option Nat
  status : String
  currentPeriodEndsAt : Option Nat
  entitlementSnapshot : Value

inductive WebhookStatus
  | received | processed | ignored | rejected
deriving DecidableEq

structure WebhookEvent where
  provider : String
  providerEventId : String
  status : WebhookStatus
  payload : List (String × Value)
  processedAt : Option Nat

/-! ## The catalogue -/

structure Product where
  family : String

structure Plan where
  productId : Nat
  slug : String

structure PlanVersion where
  planId : Nat
  entitlements : Value

structure Price where
  planVersionId : Nat
  interval : String

/-! ## Domains -/

inductive DomainStatus
  | pending | pendingPayment | pendingRegistration | registering | registered | dnsPending
  | active | manualReview
deriving DecidableEq

structure Domain where
  teamId : Nat
  checkoutSessionId : Option Nat
  name : String
  status : DomainStatus
  registrar : Option String
  providerReference : Option String
  currency : Option String
  amountMinor : Option Nat
  years : Nat
  provisioningAttempts : Nat
  lastError : Option String
  provisionedAt : Option Nat
  privacy : Bool
  autoRenew : Bool
  expiresAt : Option Nat
  nameservers : Option (List String)
  contactPayload : Option Value

inductive ZoneStatus
  | pending | pendingDelegation | active
deriving DecidableEq

structure DnsZone where
  teamId : Nat
  domainId : Option Nat
  name : String
  status : ZoneStatus
  records : Value
  dnssec : Bool

/-! ## The database -/

structure CommerceDb where
  sessions : Table CheckoutSession
  orders : Table Order
  invoices : Table Invoice
  payments : Table Payment
  subscriptions : Table CommerceSubscription
  webhookEvents : Table WebhookEvent
  domains : Table Domain
  dnsZones : Table DnsZone
  prices : Table Price
  planVersions : Table PlanVersion
  plans : Table Plan
  products : Table Product
  /-- The plan of each team. -/
  teams : Table (Option String)

structure CommerceConfig where
  addMonth : Nat → Nat
  addYears : Nat → Nat → Nat
  /-- The keys of `config('tenancy.plans')`. -/
  tenancyPlans : List String

def CommerceDb.updateSession (db : CommerceDb) (id : Nat)
    (f : CheckoutSession → CheckoutSession) : CommerceDb :=
  { db with sessions := db.sessions.modify id f }

def CommerceDb.updateDomain (db : CommerceDb) (id : Nat) (f : Domain → Domain) : CommerceDb :=
  { db with domains := db.domains.modify id f }

/-- The order of a session. -/
def CommerceDb.orderOf (db : CommerceDb) (sessionId : Nat) : Option (Nat × Order) :=
  db.orders.first? fun _ o => o.checkoutSessionId == some sessionId

end OnePloy
