import OnePloy.Lib.Foreign
import OnePloy.Lib.Reach
import OnePloy.CheckoutService

/-!
# Exactly-once settlement

Whatever `markPaid` is called with and however often, a session has at most
one order, an order exactly one invoice and one payment, and a provider's
payment is applied once. The four tables form a chain of one-to-one foreign
keys (`Ledger`), which `settle` extends by one row each; the two duplicate
checks of `markPaid`, by the session's status and by the provider's reference,
are what keeps it one to one.
-/

namespace OnePloy

open Conc

/-! ## The chain -/

def OrderOfSession (s : CheckoutSession) (o : Order) : Prop :=
  s.status = .paid ∧ s.teamId = some o.teamId ∧ o.currency = s.currency ∧
    o.amountMinor = s.amountMinor

def InvoiceOfOrder (o : Order) (i : Invoice) : Prop :=
  i.teamId = o.teamId ∧ i.currency = o.currency ∧ i.amountMinor = o.amountMinor

def PaymentOfInvoice (i : Invoice) (p : Payment) : Prop :=
  p.status = .succeeded ∧ p.teamId = i.teamId ∧ p.currency = i.currency ∧
    p.amountMinor = i.amountMinor

def Payment.reference (p : Payment) : Option (String × String) :=
  p.providerReference.map (p.provider, ·)

structure Ledger (db : CommerceDb) : Prop where
  orders : Table.Links db.sessions db.orders (·.checkoutSessionId) OrderOfSession
  invoices : Table.Links db.orders db.invoices (·.orderId) InvoiceOfOrder
  invoiced : Table.Total db.orders db.invoices (·.orderId)
  payments : Table.Links db.invoices db.payments (·.invoiceId) PaymentOfInvoice
  settled : Table.Total db.invoices db.payments (·.invoiceId)
  references : db.payments.Unique Payment.reference

variable {db db' : CommerceDb} {cfg : CommerceConfig}

theorem Ledger.empty (horders : ∀ i, db.orders.get? i = none)
    (hinvoices : ∀ i, db.invoices.get? i = none)
    (hpayments : ∀ i, db.payments.get? i = none) : Ledger db where
  orders := Table.links_empty horders
  invoices := Table.links_empty hinvoices
  invoiced h := by
    rw [horders] at h
    cases h
  payments := Table.links_empty hpayments
  settled h := by
    rw [hinvoices] at h
    cases h
  references h := by
    rw [hpayments] at h
    cases h

theorem Ledger.settle (h : Ledger db) {now sessionId teamId : Nat} {session : CheckoutSession}
    {provider providerReference : String} {raw : List (String × Php.Value)}
    (hget : db.sessions.get? sessionId = some session) (hstatus : session.status ≠ .paid)
    (hteam : session.teamId = some teamId)
    (hnew : ∀ i p, db.payments.get? i = some p → p.provider = provider →
      p.providerReference ≠ some providerReference) :
    Ledger (db.settle now sessionId teamId session provider providerReference raw) where
  orders := by
    -- an order of the session would make it paid
    have hfree : ∀ k o, db.orders.get? k = some o → o.checkoutSessionId ≠ some sessionId := by
      intro k o ho heq
      obtain ⟨i, s, hi, hs, hagree⟩ := h.orders.target ho
      obtain rfl := Option.some.inj (hi.symm.trans heq)
      obtain rfl := Option.some.inj (hs.symm.trans hget)
      exact hstatus hagree.1
    have hsessions : Table.Links (db.sessions.modify sessionId (·.markedPaid now)) db.orders
        (·.checkoutSessionId) OrderOfSession :=
      h.orders.modify_parent fun s o _ hagree =>
        ⟨by simp [CheckoutSession.markedPaid], by simpa [CheckoutSession.markedPaid] using hagree.2⟩
    exact hsessions.insert_child rfl (Table.get?_modify_self _ hget)
      ⟨by simp [CheckoutSession.markedPaid],
        by simpa [CheckoutSession.markedPaid, newOrder] using hteam,
        by simp [CheckoutSession.markedPaid, newOrder],
        by simp [CheckoutSession.markedPaid, newOrder]⟩ hfree
  invoices := h.invoices.insert_both rfl ⟨rfl, rfl, rfl⟩
  invoiced := Table.Total.insert_both h.invoiced rfl
  payments := h.payments.insert_both rfl ⟨rfl, rfl, rfl, rfl⟩
  settled := Table.Total.insert_both h.settled rfl
  references := Table.Unique.insert h.references fun i p k hp hkey heq => by
    obtain ⟨ref, href, rfl⟩ := Option.map_eq_some_iff.mp heq
    obtain ⟨hprovider, rfl⟩ := Prod.mk.inj (Option.some.inj hkey)
    exact hnew i p hp hprovider.symm href

/-! ## Sequences of calls -/

structure MarkPaidCall where
  now : Nat
  sessionId : Nat
  provider : String
  providerReference : String
  raw : List (String × Php.Value)

def MarkPaidCall.result (c : MarkPaidCall) (cfg : CommerceConfig) (db : CommerceDb) :
    Except String (CommerceDb × Nat) :=
  db.markPaid cfg c.now c.sessionId c.provider c.providerReference c.raw

/-- One call, committed or rolled back. -/
def settlements (cfg : CommerceConfig) (db : CommerceDb) (c : MarkPaidCall) : Option CommerceDb :=
  some (commit db ((c.result cfg db).map Prod.fst))

theorem Ledger.markPaid (h : Ledger db) {now sessionId orderId : Nat}
    {provider providerReference : String} {raw : List (String × Php.Value)}
    (hok : db.markPaid cfg now sessionId provider providerReference raw = .ok (db', orderId)) :
    Ledger db' := by
  rcases markPaid_cases hok with
    ⟨rfl, -⟩ | ⟨session, teamId, hget, hstatus, hteam, hnew, -, subscriptions, teams, rfl⟩
  · exact h
  · have hs : Ledger (db.settle now sessionId teamId session provider providerReference raw) :=
      h.settle hget hstatus hteam hnew
    exact ⟨hs.orders, hs.invoices, hs.invoiced, hs.payments, hs.settled, hs.references⟩

theorem Ledger.step (h : Ledger db) {c : MarkPaidCall} (hst : settlements cfg db c = some db') :
    Ledger db' := by
  obtain rfl := Option.some.inj hst
  cases hres : c.result cfg db with
  | error e => exact h
  | ok q => exact h.markPaid hres

/-- The session that a provider's payment was applied to. -/
def CommerceDb.appliedTo (db : CommerceDb) (provider providerReference : String) : Option Nat := do
  let (_, payment) ← db.payments.first? fun _ p =>
    p.provider == provider && p.providerReference == some providerReference
  let invoice ← payment.invoiceId.bind db.invoices.get?
  let order ← invoice.orderId.bind db.orders.get?
  order.checkoutSessionId

/-- Settlement happened at most once for each session and each payment of a
provider, and it stays so. -/
structure SettledOnce (cfg : CommerceConfig) (db : CommerceDb) : Prop where
  oneOrder : ∀ i j o o' sessionId, db.orders.get? i = some o → db.orders.get? j = some o' →
    o.checkoutSessionId = some sessionId → o'.checkoutSessionId = some sessionId → i = j
  /-- An order has one invoice and one payment, all with the session's data. -/
  lifecycle : ∀ i o, db.orders.get? i = some o →
    ∃ sessionId s k invoice l payment,
      o.checkoutSessionId = some sessionId ∧ db.sessions.get? sessionId = some s ∧
      db.invoices.get? k = some invoice ∧ invoice.orderId = some i ∧
      (∀ k' invoice', db.invoices.get? k' = some invoice' → invoice'.orderId = some i → k' = k) ∧
      db.payments.get? l = some payment ∧ payment.invoiceId = some k ∧
      payment.status = .succeeded ∧
      (∀ l' payment', db.payments.get? l' = some payment' → payment'.invoiceId = some k → l' = l) ∧
      s.teamId = some o.teamId ∧ s.teamId = some invoice.teamId ∧
      s.teamId = some payment.teamId ∧
      o.currency = s.currency ∧ invoice.currency = s.currency ∧ payment.currency = s.currency ∧
      o.amountMinor = s.amountMinor ∧ invoice.amountMinor = s.amountMinor ∧
      payment.amountMinor = s.amountMinor
  oneReference : ∀ l l' p p' providerReference,
    db.payments.get? l = some p → db.payments.get? l' = some p' → p.provider = p'.provider →
    p.providerReference = some providerReference →
    p'.providerReference = some providerReference → l = l'
  /-- A call on a session that has an order returns it. -/
  replay : ∀ i o (c : MarkPaidCall), db.orders.get? i = some o →
    o.checkoutSessionId = some c.sessionId → c.result cfg db = .ok (db, i)
  /-- A payment of another session settles no session that has no order. -/
  applied : ∀ (c : MarkPaidCall) other, db.appliedTo c.provider c.providerReference = some other →
    other ≠ c.sessionId →
    (∀ i o, db.orders.get? i = some o → o.checkoutSessionId ≠ some c.sessionId) →
    (∃ e, c.result cfg db = .error e) ∧ settlements cfg db c = some db

theorem Ledger.lifecycle (h : Ledger db) {i : Nat} {o : Order} (ho : db.orders.get? i = some o) :
    ∃ sessionId s k invoice l payment,
      o.checkoutSessionId = some sessionId ∧ db.sessions.get? sessionId = some s ∧
      db.invoices.get? k = some invoice ∧ invoice.orderId = some i ∧
      db.payments.get? l = some payment ∧ payment.invoiceId = some k ∧
      OrderOfSession s o ∧ InvoiceOfOrder o invoice ∧ PaymentOfInvoice invoice payment := by
  obtain ⟨sessionId, s, hsession, hs, hso⟩ := h.orders.target ho
  obtain ⟨k, invoice, hinvoice, hk⟩ := h.invoiced ho
  obtain ⟨i', o', hi', ho', hio⟩ := h.invoices.target hinvoice
  obtain rfl := Option.some.inj (hi'.symm.trans hk)
  obtain rfl := Option.some.inj (ho'.symm.trans ho)
  obtain ⟨l, payment, hpayment, hl⟩ := h.settled hinvoice
  obtain ⟨k', invoice', hk', hinvoice', hpi⟩ := h.payments.target hpayment
  obtain rfl := Option.some.inj (hk'.symm.trans hl)
  obtain rfl := Option.some.inj (hinvoice'.symm.trans hinvoice)
  exact ⟨sessionId, s, k', invoice', l, payment, hsession, hs, hinvoice, hk, hpayment, hl,
    hso, hio, hpi⟩

theorem Ledger.replay (h : Ledger db) {i : Nat} {o : Order} {c : MarkPaidCall}
    (ho : db.orders.get? i = some o) (hc : o.checkoutSessionId = some c.sessionId) :
    c.result cfg db = .ok (db, i) := by
  obtain ⟨sessionId, s, hsession, hs, hpaid, -⟩ := h.orders.target ho
  obtain rfl := Option.some.inj (hsession.symm.trans hc)
  obtain ⟨⟨j, o'⟩, hfirst⟩ := Table.exists_first?
    (p := fun _ (o : Order) => o.checkoutSessionId == some c.sessionId) ho (by simp [hc])
  obtain ⟨ho', hc'⟩ := Table.first?_some hfirst
  obtain rfl : j = i := h.orders.unique ho' ho (by simpa using hc') hc
  have horder : db.orderOf c.sessionId = some (j, o') := hfirst
  simp [MarkPaidCall.result, CommerceDb.markPaid, hs, hpaid, horder]

/-- A payment that is recorded can only be found again, with its order. -/
theorem applied_error {c : MarkPaidCall} {other : Nat}
    (hother : db.appliedTo c.provider c.providerReference = some other)
    (hfree : ∀ i o, db.orders.get? i = some o → o.checkoutSessionId ≠ some c.sessionId) :
    ∃ e, c.result cfg db = .error e := by
  obtain ⟨⟨l, p⟩, hfirst, -⟩ := Option.bind_eq_some_iff.mp hother
  obtain ⟨hp, hmatch⟩ := Table.first?_some hfirst
  simp only [Bool.and_eq_true, beq_iff_eq] at hmatch
  cases hres : c.result cfg db with
  | error e => exact ⟨e, rfl⟩
  | ok q =>
      rcases markPaid_cases hres with ⟨-, o, ho, hc⟩ | ⟨-, -, -, -, -, hnew, -⟩
      · exact absurd hc (hfree _ o ho)
      · exact absurd hmatch.2 (hnew l p hp hmatch.1)

/-- From a database without orders, invoices and payments, after any sequence
of calls. -/
theorem settledOnce (horders : ∀ i, db.orders.get? i = none)
    (hinvoices : ∀ i, db.invoices.get? i = none) (hpayments : ∀ i, db.payments.get? i = none)
    (hrun : Reaches (settlements cfg) Any db db') : SettledOnce cfg db' := by
  have h : Ledger db' := hrun.invariant (fun _ _ _ h _ hst => h.step hst)
    (Ledger.empty horders hinvoices hpayments)
  refine ⟨fun i j o o' sessionId hi hj ho ho' => h.orders.unique hi hj ho ho', fun i o ho => ?_,
    fun l l' p p' ref hl hl' hp hr hr' => ?_, fun i o c ho hc => h.replay ho hc,
    fun c other hother _ hfree => ?_⟩
  · obtain ⟨sessionId, s, k, invoice, l, payment, hsession, hs, hk, hki, hl, hlk,
      ⟨-, hteam, hcur, hamount⟩, ⟨hiteam, hicur, hiamount⟩, hsucceeded, hpteam, hpcur, hpamount⟩ :=
      h.lifecycle ho
    refine ⟨sessionId, s, k, invoice, l, payment, hsession, hs, hk, hki,
      fun k' _ hk' hki' => h.invoices.unique hk' hk hki' hki, hl, hlk, hsucceeded,
      fun l' _ hl' hlk' => h.payments.unique hl' hl hlk' hlk, hteam, ?_, ?_, hcur, ?_, ?_,
      hamount, ?_, ?_⟩
    · rw [hteam, hiteam]
    · rw [hteam, hpteam, hiteam]
    · rw [hicur, hcur]
    · rw [hpcur, hicur, hcur]
    · rw [hiamount, hamount]
    · rw [hpamount, hiamount, hamount]
  · have hkey : p.reference = some (p.provider, ref) := by simp [Payment.reference, hr]
    have hkey' : p'.reference = some (p.provider, ref) := by simp [Payment.reference, hr', hp]
    exact h.references hl hl' hkey hkey'
  · obtain ⟨e, he⟩ : ∃ e, c.result cfg db' = .error e := applied_error hother hfree
    refine ⟨⟨e, he⟩, ?_⟩
    rw [settlements, he]
    rfl

/-! ## Two sessions -/

def emptyCommerce : CommerceDb where
  sessions := .empty
  orders := .empty
  invoices := .empty
  payments := .empty
  subscriptions := .empty
  webhookEvents := .empty
  domains := .empty
  dnsZones := .empty
  prices := .empty
  planVersions := .empty
  plans := .empty
  products := .empty
  teams := (Table.empty.insert none).insert none

/-- From midnight on the first of January. -/
def januaryConfig : CommerceConfig where
  addMonth now := now + 31 * 86400
  addYears now years := now + years * 365 * 86400
  tenancyPlans := ["free", "starter", "pro", "unlimited"]

def pendingCheckout (uuid : String) (teamId : Nat) (orderId : String) : CheckoutSession where
  uuid := uuid
  teamId := some teamId
  userId := some teamId
  status := .pendingProvider
  provider := some "paypal"
  providerReference := some orderId
  approvalUrl := some "https://www.paypal.com/checkoutnow"
  failureReason := none
  providerPayload := none
  currency := "usd"
  idempotencyKey := none
  items := []
  amountMinor := 1500
  expiresAt := none
  completedAt := none
  updatedAt := 0

def twoCheckouts : CommerceDb :=
  { emptyCommerce with
    sessions := (Table.empty.insert (pendingCheckout "s-1" 1 "O-1")).insert
      (pendingCheckout "s-2" 2 "O-2") }

/-- Both are settled, the first one twice. -/
def threeCalls : List MarkPaidCall :=
  [⟨0, 1, "paypal", "A", []⟩, ⟨0, 2, "paypal", "B", []⟩, ⟨0, 1, "paypal", "A", []⟩]

theorem settledOnce_twoCheckouts :
    ∃ db, Reaches (settlements januaryConfig) Any twoCheckouts db ∧
      (db.orders.rows.length = 2 ∧ db.appliedTo "paypal" "A" = some 1) ∧
      SettledOnce januaryConfig db := by
  obtain ⟨db, hrun, hdb⟩ := exists_reaches_of_execIf (settlements januaryConfig) Any twoCheckouts
    threeCalls (fun db => db.orders.rows.length == 2 && db.appliedTo "paypal" "A" == some 1)
    (by decide +kernel)
  exact ⟨db, hrun, by simpa using hdb,
    settledOnce (fun _ => rfl) (fun _ => rfl) (fun _ => rfl) hrun⟩

/-- On a session that is settled, the payment of another session is not
refused: the call finds the session's own order first. -/
theorem foreign_reference_accepted :
    ¬ ∀ (cfg : CommerceConfig) (db db' : CommerceDb) (c : MarkPaidCall) (other : Nat),
      (∀ i, db.orders.get? i = none) → (∀ i, db.invoices.get? i = none) →
      (∀ i, db.payments.get? i = none) → Reaches (settlements cfg) Any db db' →
      db'.appliedTo c.provider c.providerReference = some other → other ≠ c.sessionId →
      ∃ e, c.result cfg db' = .error e := by
  intro h
  obtain ⟨db, hrun, hdb⟩ := exists_reaches_of_execIf (settlements januaryConfig) Any twoCheckouts
    threeCalls (fun db => db.appliedTo "paypal" "A" == some 1 &&
      ((⟨0, 2, "paypal", "A", []⟩ : MarkPaidCall).result januaryConfig db).isOk)
    (by decide +kernel)
  simp only [Bool.and_eq_true, beq_iff_eq] at hdb
  obtain ⟨e, he⟩ := h januaryConfig twoCheckouts db ⟨0, 2, "paypal", "A", []⟩ 1 (fun _ => rfl)
    (fun _ => rfl) (fun _ => rfl) hrun hdb.1 (by decide)
  rw [he] at hdb
  cases hdb.2

end OnePloy
