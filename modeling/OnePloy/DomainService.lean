import OnePloy.CheckoutService

/-!
# Domain checkout and delivery

The transaction of `DomainCheckoutService::start`, and what
`ProvisionDomainJob` and `VerifyDomainDnsJob` read and write.

The jobs keep the model instance they have read. `DomainInstance` is one: the
attributes as they were last synchronised with the row and as they are now; a
save writes the difference, whatever the row has become in the meantime, and a
save that fails leaves the difference to the next one.
-/

namespace OnePloy

open Conc Php

/-! ## start -/

/-- The arguments of `start` once the name is normalised and quoted, with the
random parts of the rows it may create. -/
structure DomainRequest where
  teamId : Nat
  userId : Nat
  domain : String
  registrant : Value
  currency : String
  unitAmountMinor : Nat
  amountMinor : Nat
  years : Nat
  privacy : Bool
  nameservers : List String
  idempotencyKey : String
  uuid : String

def newDomainSession (req : DomainRequest) (now : Nat) : CheckoutSession where
  uuid := req.uuid
  teamId := some req.teamId
  userId := some req.userId
  status := .opened
  provider := none
  providerReference := none
  approvalUrl := none
  failureReason := none
  providerPayload := none
  currency := req.currency
  idempotencyKey := some req.idempotencyKey
  items := [.domainRegistration req.domain req.years req.privacy req.nameservers
    req.unitAmountMinor req.amountMinor]
  amountMinor := req.amountMinor
  expiresAt := some (now + 1800)
  completedAt := none
  updatedAt := now

def newDomain (req : DomainRequest) (sessionId : Nat) : Domain where
  teamId := req.teamId
  checkoutSessionId := some sessionId
  name := req.domain
  status := .pendingPayment
  registrar := some "connectreseller"
  providerReference := none
  currency := some req.currency
  amountMinor := some req.amountMinor
  years := req.years
  provisioningAttempts := 0
  lastError := none
  provisionedAt := none
  privacy := req.privacy
  autoRenew := true
  expiresAt := none
  nameservers := some req.nameservers
  contactPayload := some req.registrant

def domainTaken : String :=
  "This domain already has an active checkout or registration in OnePloy."

def canResume (existing : Domain) (checkout : Option CheckoutSession) (teamId now : Nat) : Bool :=
  existing.teamId == teamId && existing.status == .pendingPayment &&
    checkout.any fun s => (s.status == .opened || s.status == .pendingProvider) && !s.isPast now

/-- The two inserts; the unique index on team and idempotency key may refuse
the first. -/
def CommerceDb.createDomain (db : CommerceDb) (now : Nat) (req : DomainRequest) :
    Except String (CommerceDb × Nat) :=
  if (db.sessions.first? fun _ s => s.teamId == some req.teamId &&
      s.idempotencyKey == some req.idempotencyKey).isSome then .error domainTaken
  else .ok ({ db with
    sessions := db.sessions.insert (newDomainSession req now)
    domains := db.domains.insert (newDomain req db.sessions.nextId) }, db.sessions.nextId)

/-- `$existing->delete()`; zones keep their rows. -/
def CommerceDb.deleteDomain (db : CommerceDb) (id : Nat) : CommerceDb :=
  { db with
    domains := db.domains.deleteWhere fun i _ => i == id
    dnsZones := db.dnsZones.updateWhere (fun _ z => z.domainId == some id)
      ({ · with domainId := none }) }

/-- The transaction of `start`; the answer is the session's key. -/
def CommerceDb.startDomain (db : CommerceDb) (now : Nat) (req : DomainRequest) :
    Except String (CommerceDb × Nat) :=
  match db.domains.first? fun _ d => d.name == req.domain with
  | none => db.createDomain now req
  | some (id, existing) =>
      let checkout := existing.checkoutSessionId.bind db.sessions.get?
      match existing.checkoutSessionId, canResume existing checkout req.teamId now with
      | some sessionId, true => .ok (db, sessionId)
      | _, _ =>
          if existing.status = .pendingPayment ∧ checkout.any (·.isPast now) then
            (db.deleteDomain id).createDomain now req
          else .error domainTaken

theorem createDomain_ok {db db' : CommerceDb} {now sessionId : Nat} {req : DomainRequest}
    (h : db.createDomain now req = .ok (db', sessionId)) :
    sessionId = db.sessions.nextId ∧
      db' = { db with
        sessions := db.sessions.insert (newDomainSession req now)
        domains := db.domains.insert (newDomain req db.sessions.nextId) } := by
  rw [CommerceDb.createDomain, ite_error_eq_ok] at h
  obtain ⟨rfl, rfl⟩ := Prod.mk.inj (Except.ok.inj h.2)
  exact ⟨rfl, rfl⟩

/-- What a committed `start` did: it found a checkout to resume and changed
nothing, or it created session and domain, under a name that had no row or one
that it deleted, still unpaid. -/
theorem startDomain_cases {db db' : CommerceDb} {now sessionId : Nat} {req : DomainRequest}
    (h : db.startDomain now req = .ok (db', sessionId)) :
    db' = db ∨ ∃ base : CommerceDb, base.sessions = db.sessions ∧ base.orders = db.orders ∧
      sessionId = db.sessions.nextId ∧
      ((base.domains = db.domains ∧ ∀ i d, db.domains.get? i = some d → d.name ≠ req.domain) ∨
        ∃ id existing, db.domains.get? id = some existing ∧ existing.name = req.domain ∧
          existing.status = .pendingPayment ∧
          base.domains = db.domains.deleteWhere fun i _ => i == id) ∧
      db' = { base with
        sessions := db.sessions.insert (newDomainSession req now)
        domains := base.domains.insert (newDomain req sessionId) } := by
  unfold CommerceDb.startDomain at h
  split at h
  · next hnone =>
      obtain ⟨rfl, rfl⟩ := createDomain_ok h
      refine Or.inr ⟨db, rfl, rfl, rfl, Or.inl ⟨rfl, fun i d hd hname => ?_⟩, rfl⟩
      have hfalse := Table.first?_none hnone hd
      simp [hname] at hfalse
  · next id existing hsome =>
      obtain ⟨hget, hname⟩ := Table.first?_some hsome
      simp only at h
      split at h
      · exact Or.inl (Prod.mk.inj (Except.ok.inj h)).1.symm
      · split at h
        · next hexpired =>
            obtain ⟨rfl, rfl⟩ := createDomain_ok h
            exact Or.inr ⟨db.deleteDomain id, rfl, rfl, rfl,
              Or.inr ⟨id, existing, hget, by simpa using hname, hexpired.1, rfl⟩, rfl⟩
        · cases h

/-! ## Instances -/

structure DomainInstance where
  id : Nat
  original : Domain
  current : Domain

/-- The row after the differing attributes are written; of what the jobs may
assign, these are the attributes. -/
def DomainInstance.write (m : DomainInstance) (row : Domain) : Domain :=
  { row with
    status := if m.current.status = m.original.status then row.status else m.current.status
    providerReference :=
      if m.current.providerReference = m.original.providerReference then row.providerReference
      else m.current.providerReference
    expiresAt :=
      if m.current.expiresAt = m.original.expiresAt then row.expiresAt else m.current.expiresAt
    provisionedAt :=
      if m.current.provisionedAt = m.original.provisionedAt then row.provisionedAt
      else m.current.provisionedAt
    lastError :=
      if m.current.lastError = m.original.lastError then row.lastError else m.current.lastError }

def DomainInstance.fill (m : DomainInstance) (f : Domain → Domain) : DomainInstance :=
  { m with current := f m.current }

def DomainInstance.synced (m : DomainInstance) : DomainInstance :=
  { m with original := m.current }

def CommerceDb.save (db : CommerceDb) (m : DomainInstance) : CommerceDb :=
  db.updateDomain m.id m.write

/-! ## ProvisionDomainJob -/

/-- The first transaction of `handle`. -/
def CommerceDb.takeDomain (db : CommerceDb) (domainId : Nat) :
    CommerceDb × Option DomainInstance :=
  match db.domains.get? domainId with
  | none => (db, none)
  | some d =>
      if d.status = .registered ∨ d.status = .active then (db, none)
      else if d.status ≠ .pendingRegistration ∨
          (d.checkoutSessionId.bind db.sessions.get?).map (·.status) ≠ some .paid then (db, none)
      else
        let taken := { d with
          status := .registering
          provisioningAttempts := d.provisioningAttempts + 1
          lastError := none }
        (db.updateDomain domainId fun _ => taken, some ⟨domainId, taken, taken⟩)

/-- What the registrar reports of a registration. -/
structure DomainRegistration where
  providerReference : String
  /-- The expiry date, where it is given and can be parsed. -/
  expiresAt : Option Nat

def Domain.registeredAs (cfg : CommerceConfig) (now : Nat) (r : DomainRegistration)
    (d : Domain) : Domain :=
  { d with
    status := .registered
    providerReference := some r.providerReference
    expiresAt := some (r.expiresAt.getD (cfg.addYears now d.years))
    provisionedAt := some now
    lastError := none }

def Domain.underReview (message : String) (d : Domain) : Domain :=
  { d with status := .manualReview, lastError := some message }

def Domain.dnsPending (d : Domain) : Domain :=
  { d with
    status := .dnsPending
    lastError := some
      "Registration succeeded; waiting for public nameserver delegation verification." }

def Domain.noted (message : String) (d : Domain) : Domain := { d with lastError := some message }

def dnsNeedsAttention : String :=
  "Registration succeeded, but authoritative DNS activation needs attention."

def dnsNotConfigured : String :=
  "Registration succeeded, but authoritative DNS is not configured."

def provisioningStopped : String :=
  "Domain provisioning stopped unexpectedly and requires operator review."

/-- `updateOrCreate` on the zone's domain. -/
def CommerceDb.storeZone (db : CommerceDb) (m : DomainInstance) (records : Value)
    (dnssec : Bool) : CommerceDb :=
  let zone : DnsZone :=
    ⟨m.current.teamId, some m.id, m.current.name, .pendingDelegation, records, dnssec⟩
  match db.dnsZones.first? fun _ z => z.domainId == some m.id with
  | some (id, _) => { db with dnsZones := db.dnsZones.modify id fun _ => zone }
  | none => { db with dnsZones := db.dnsZones.insert zone }

/-- `failed`: no instance, no condition but the key. -/
def CommerceDb.provisioningFailed (db : CommerceDb) (domainId : Nat) : CommerceDb :=
  db.updateDomain domainId (·.underReview provisioningStopped)

/-! ## VerifyDomainDnsJob -/

def waitingForDelegation : String :=
  "Registration succeeded; waiting for the public nameserver delegation to agree across " ++
    "independent resolvers."

def verificationDelayed : String :=
  "Public DNS verification is delayed and will be retried automatically."

def CommerceDb.hasZone (db : CommerceDb) (domainId : Nat) : Bool :=
  (db.dnsZones.first? fun _ z => z.domainId == some domainId).isSome

/-- The transaction that ends `handle`. -/
def CommerceDb.activateDomain (db : CommerceDb) (domainId : Nat) : CommerceDb :=
  match db.domains.get? domainId with
  | none => db
  | some d =>
      if d.status ≠ .dnsPending ∨ !db.hasZone domainId then db
      else
        { db with
          dnsZones := db.dnsZones.updateWhere (fun _ z => z.domainId == some domainId)
            ({ · with status := .active })
          domains := db.domains.modify domainId
            ({ · with status := .active, lastError := none }) }

end OnePloy
