import OnePloy.CheckoutPaid

/-!
# Whether a paid domain is delivered

A domain checkout creates a session and a domain row at once. The row is
unique by name, and a later start under the same name deletes it once the
checkout has expired; the session stays, and may still be paid. So a session
has its row exactly as long as no later session is for the same name
(`Delivering`), and a payment that comes too late finds none
(`paid_without_domain`).
-/

namespace OnePloy

open Conc Php

variable {conv : Conversions} {cfg : CommerceConfig} {s s' : CommerceStore}

/-! ## Names and keys -/

/-- The name a session is for, if it is a domain checkout. -/
def CommerceDb.nameOf (db : CommerceDb) (sessionId : Nat) : Option String :=
  (db.sessions.get? sessionId).bind (·.domainName)

/-- Name and session of a domain row. -/
def CommerceDb.keyOf (db : CommerceDb) (id : Nat) : Option (String × Option Nat) :=
  (db.domains.get? id).map fun d => (d.name, d.checkoutSessionId)

/-- The last session for a name. -/
def CommerceDb.Newest (db : CommerceDb) (sessionId : Nat) (name : String) : Prop :=
  db.nameOf sessionId = some name ∧ ∀ j, db.nameOf j = some name → j ≤ sessionId

/-- Domain rows are the newest sessions, one to one. -/
structure Delivering (db : CommerceDb) : Prop where
  row : ∀ i name o, db.keyOf i = some (name, o) →
    ∃ sessionId, o = some sessionId ∧ db.Newest sessionId name
  delivered : ∀ sessionId name, db.Newest sessionId name →
    ∃ i, db.keyOf i = some (name, some sessionId)
  names : ∀ i j name o o', db.keyOf i = some (name, o) → db.keyOf j = some (name, o') → i = j

theorem nameOf_lt {db : CommerceDb} {sessionId : Nat} {name : String}
    (h : db.nameOf sessionId = some name) : sessionId < db.sessions.nextId := by
  obtain ⟨r, hget, -⟩ := Option.bind_eq_some_iff.mp h
  exact Table.get?_lt hget

theorem Delivering.congr {db db' : CommerceDb} (h : Delivering db)
    (hnames : ∀ i, db'.nameOf i = db.nameOf i) (hkeys : ∀ i, db'.keyOf i = db.keyOf i) :
    Delivering db' := by
  have hnewest : ∀ sessionId name, db'.Newest sessionId name ↔ db.Newest sessionId name := by
    intro sessionId name
    simp only [CommerceDb.Newest, hnames]
  refine ⟨fun i name o hkey => ?_, fun sessionId name hnew => ?_, fun i j name o o' hi hj => ?_⟩
  · obtain ⟨sessionId, rfl, hnew⟩ := h.row i name o ((hkeys i).symm.trans hkey)
    exact ⟨sessionId, rfl, (hnewest sessionId name).mpr hnew⟩
  · obtain ⟨i, hkey⟩ := h.delivered sessionId name ((hnewest sessionId name).mp hnew)
    exact ⟨i, (hkeys i).trans hkey⟩
  · exact h.names i j name o o' ((hkeys i).symm.trans hi) ((hkeys j).symm.trans hj)

/-- A new session with its row, in place of the rows under its name. -/
theorem Delivering.create {db base : CommerceDb} {req : DomainRequest} {now : Nat}
    (h : Delivering db)
    (hbase : ∀ i name o, base.keyOf i = some (name, o) ↔
      db.keyOf i = some (name, o) ∧ name ≠ req.domain) :
    Delivering { base with
      sessions := db.sessions.insert (newDomainSession req now)
      domains := base.domains.insert (newDomain req db.sessions.nextId) } := by
  generalize hdb : ({ base with
    sessions := db.sessions.insert (newDomainSession req now)
    domains := base.domains.insert (newDomain req db.sessions.nextId) } : CommerceDb) = db'
  have hname : ∀ i, db'.nameOf i =
      if i = db.sessions.nextId then some req.domain else db.nameOf i := by
    intro i
    subst hdb
    simp only [CommerceDb.nameOf, Table.get?_insert]
    split <;> rfl
  have hkey : ∀ i, db'.keyOf i =
      if i = base.domains.nextId then some (req.domain, some db.sessions.nextId)
      else base.keyOf i := by
    intro i
    subst hdb
    simp only [CommerceDb.keyOf, Table.get?_insert]
    split <;> rfl
  have hbaseNext : ∀ i name o, base.keyOf i = some (name, o) → i ≠ base.domains.nextId := by
    rintro i name o hi rfl
    simp [CommerceDb.keyOf] at hi
  have hold : ∀ i name, name ≠ req.domain →
      (db'.nameOf i = some name ↔ db.nameOf i = some name) := by
    intro i name hne
    rw [hname]
    split
    · next hi =>
        subst hi
        refine ⟨fun heq => absurd (Option.some.inj heq).symm hne, fun heq => ?_⟩
        exact absurd (nameOf_lt heq) (Nat.lt_irrefl _)
    · exact Iff.rfl
  have hnewest : ∀ sessionId name, name ≠ req.domain →
      (db'.Newest sessionId name ↔ db.Newest sessionId name) := by
    intro sessionId name hne
    simp only [CommerceDb.Newest, hold _ name hne]
  refine ⟨fun i name o hi => ?_, fun sessionId name hnew => ?_, fun i j name o o' hi hj => ?_⟩
  · rw [hkey] at hi
    split at hi
    · obtain ⟨rfl, rfl⟩ := Prod.mk.inj (Option.some.inj hi)
      refine ⟨_, rfl, by rw [hname, if_pos rfl], fun j hj => ?_⟩
      rw [hname] at hj
      split at hj
      · omega
      · exact Nat.le_of_lt (nameOf_lt hj)
    · obtain ⟨hi', hne⟩ := (hbase i name o).mp hi
      obtain ⟨sessionId, rfl, hnew⟩ := h.row i name o hi'
      exact ⟨sessionId, rfl, (hnewest sessionId name hne).mpr hnew⟩
  · by_cases hne : name = req.domain
    · subst hne
      have hge : db.sessions.nextId ≤ sessionId := hnew.2 _ (by rw [hname, if_pos rfl])
      have hsession : sessionId = db.sessions.nextId := by
        have hnamed := hnew.1
        rw [hname] at hnamed
        split at hnamed
        · assumption
        · exact absurd (nameOf_lt hnamed) (Nat.not_lt.mpr hge)
      subst hsession
      exact ⟨base.domains.nextId, by rw [hkey, if_pos rfl]⟩
    · obtain ⟨i, hi⟩ := h.delivered sessionId name ((hnewest sessionId name hne).mp hnew)
      have hi' := (hbase i name _).mpr ⟨hi, hne⟩
      exact ⟨i, by rw [hkey, if_neg (hbaseNext i name _ hi'), hi']⟩
  · rw [hkey] at hi hj
    split at hi
    · split at hj
      · omega
      · obtain ⟨rfl, rfl⟩ := Prod.mk.inj (Option.some.inj hi)
        exact absurd rfl ((hbase j _ _).mp hj).2
    · split at hj
      · obtain ⟨rfl, rfl⟩ := Prod.mk.inj (Option.some.inj hj)
        exact absurd rfl ((hbase i _ _).mp hi).2
      · exact h.names i j name o o' ((hbase i _ _).mp hi).1 ((hbase j _ _).mp hj).1

/-! ## What the calls and jobs do to them -/

theorem nameOf_updateWhere {db : CommerceDb} {p : Nat → CheckoutSession → Bool}
    {f : CheckoutSession → CheckoutSession} (hf : ∀ r, (f r).items = r.items) (i : Nat) :
    ({ db with sessions := db.sessions.updateWhere p f } : CommerceDb).nameOf i = db.nameOf i := by
  simp only [CommerceDb.nameOf, Table.get?_updateWhere]
  cases db.sessions.get? i with
  | none => rfl
  | some r =>
      simp only [Option.map_some, Option.bind_some]
      split
      · simp only [CheckoutSession.domainName, hf]
      · rfl

theorem keyOf_updateWhere {db : CommerceDb} {p : Nat → Domain → Bool} {f : Domain → Domain}
    (hf : ∀ i d, db.domains.get? i = some d → p i d = true →
      (f d).name = d.name ∧ (f d).checkoutSessionId = d.checkoutSessionId) (i : Nat) :
    ({ db with domains := db.domains.updateWhere p f } : CommerceDb).keyOf i = db.keyOf i := by
  simp only [CommerceDb.keyOf, Table.get?_updateWhere]
  cases hget : db.domains.get? i with
  | none => rfl
  | some d =>
      simp only [Option.map_some]
      split
      · next hp =>
          obtain ⟨hname, hsession⟩ := hf i d hget hp
          rw [hname, hsession]
      · rfl

theorem keyOf_modify {db : CommerceDb} {id : Nat} {f : Domain → Domain}
    (hf : ∀ d, db.domains.get? id = some d →
      (f d).name = d.name ∧ (f d).checkoutSessionId = d.checkoutSessionId) (i : Nat) :
    (db.updateDomain id f).keyOf i = db.keyOf i :=
  keyOf_updateWhere (fun j d hget hj => by
    obtain rfl : j = id := by simpa using hj
    exact hf d hget) i

/-- Only the start of a domain checkout changes names or keys. -/
theorem CheckoutCall.Writes.names {c : CheckoutCall} {db : CommerceDb} (h : c.Writes cfg s db) :
    ((∀ i, db.nameOf i = s.db.nameOf i) ∧ ∀ i, db.keyOf i = s.db.keyOf i) ∨
      ∃ req sessionId, s.db.startDomain s.clock req = .ok (db, sessionId) := by
  cases h with
  | nothing | closeWebhook => exact Or.inl ⟨fun _ => rfl, fun _ => rfl⟩
  | recordWebhook =>
      simp only [CommerceDb.recordWebhook]
      split
      · exact Or.inl ⟨fun _ => rfl, fun _ => rfl⟩
      · exact Or.inl ⟨fun _ => rfl, fun _ => rfl⟩
  | claim supported ok =>
      rcases claimPayment_cases ok with rfl | ⟨locked, f, -, -, rfl, hf⟩
      · exact Or.inl ⟨fun _ => rfl, fun _ => rfl⟩
      · refine Or.inl ⟨fun i => nameOf_updateWhere (fun r => ?_) i, fun _ => rfl⟩
        rcases hf with rfl | ⟨-, rfl⟩
        · exact update_items ..
        · exact update_items ..
  | finish ok =>
      rcases finishPayment_cases ok with rfl | ⟨locked, -, -, -, rfl⟩
      · exact Or.inl ⟨fun _ => rfl, fun _ => rfl⟩
      · exact Or.inl ⟨fun i => nameOf_updateWhere (fun r => update_items ..) i, fun _ => rfl⟩
  | failInitiation => exact Or.inl ⟨fun i => nameOf_updateWhere (fun _ => by rfl) i, fun _ => rfl⟩
  | cancel =>
      unfold CommerceDb.cancelSession
      split
      · exact Or.inl ⟨fun _ => rfl, fun _ => rfl⟩
      · exact Or.inl ⟨fun i => nameOf_updateWhere (fun _ => by rfl) i, fun _ => rfl⟩
  | expire past => exact Or.inl ⟨fun i => nameOf_updateWhere (fun _ => by rfl) i, fun _ => rfl⟩
  | markPaid ok =>
      rcases markPaid_cases ok with ⟨rfl, -⟩ | ⟨session, teamId, -, -, -, -, -, -, -, rfl⟩
      · exact Or.inl ⟨fun _ => rfl, fun _ => rfl⟩
      · exact Or.inl ⟨fun i => nameOf_updateWhere (fun r => update_items ..) i, fun _ => rfl⟩
  | queue =>
      exact Or.inl ⟨fun _ => rfl, fun i => keyOf_updateWhere (fun _ _ _ _ => by exact ⟨rfl, rfl⟩) i⟩
  | note =>
      unfold CommerceDb.noteFailure
      split
      · exact Or.inl ⟨fun _ => rfl, fun _ => rfl⟩
      · exact Or.inl ⟨fun i => nameOf_updateWhere (fun _ => by rfl) i, fun _ => rfl⟩
  | startDomain ok => exact Or.inr ⟨_, _, ok⟩

theorem DomainJob.Writes.keys {j : DomainJob} {db : CommerceDb} (h : j.Writes cfg s db) (i : Nat) :
    db.keyOf i = s.db.keyOf i := by
  cases h with
  | nothing => rfl
  | take =>
      simp only [CommerceDb.takeDomain]
      split
      · rfl
      · next d hget =>
          split
          · rfl
          · split
            · rfl
            · refine keyOf_modify (fun d' hd' => ?_) i
              obtain rfl := Option.some.inj (hget.symm.trans hd')
              exact ⟨rfl, rfl⟩
  | storeZone =>
      simp only [CommerceDb.storeZone]
      split
      · rfl
      · rfl
  | activate =>
      simp only [CommerceDb.activateDomain]
      split
      · rfl
      · split
        · rfl
        · exact keyOf_updateWhere (fun _ _ _ _ => by exact ⟨rfl, rfl⟩) i
  | _ => exact keyOf_modify (fun _ _ => by exact ⟨rfl, rfl⟩) i

/-- A start that finds no row of the name, or deletes the one there is. -/
theorem Delivering.startDomain {db db' : CommerceDb} {now sessionId : Nat} {req : DomainRequest}
    (h : Delivering db) (hstart : db.startDomain now req = .ok (db', sessionId)) :
    Delivering db' := by
  rcases startDomain_cases hstart with rfl | ⟨base, -, -, rfl, hrow, rfl⟩
  · exact h
  · refine h.create fun i name o => ?_
    rcases hrow with ⟨hsame, hnone⟩ | ⟨id, existing, hget, hnamed, -, hdel⟩
    · have hkey : base.keyOf i = db.keyOf i := by
        unfold CommerceDb.keyOf
        rw [hsame]
      rw [hkey]
      refine ⟨fun hi => ⟨hi, ?_⟩, And.left⟩
      obtain ⟨d, hd, heq⟩ := Option.map_eq_some_iff.mp hi
      exact (Prod.mk.inj heq).1 ▸ hnone i d hd
    · have hid : db.keyOf id = some (req.domain, existing.checkoutSessionId) := by
        unfold CommerceDb.keyOf
        rw [hget, Option.map_some, hnamed]
      have hkey : base.keyOf i = some (name, o) ↔ db.keyOf i = some (name, o) ∧ i ≠ id := by
        unfold CommerceDb.keyOf
        rw [hdel]
        simp only [Option.map_eq_some_iff, Table.get?_deleteWhere, beq_eq_false_iff_ne]
        constructor
        · rintro ⟨d, ⟨hd, hne⟩, heq⟩
          exact ⟨⟨d, hd, heq⟩, hne⟩
        · rintro ⟨⟨d, hd, heq⟩, hne⟩
          exact ⟨d, ⟨hd, hne⟩, heq⟩
      rw [hkey]
      refine and_congr_right fun hi => not_congr ⟨?_, ?_⟩
      · rintro rfl
        exact (Prod.mk.inj (Option.some.inj (hi.symm.trans hid))).1
      · rintro rfl
        exact h.names i id _ _ _ hi hid

/-- One step. -/
theorem Delivering.step {w w' : World CommerceStore CommerceCall}
    {a : Action CommerceCall Reply Nat} (h : Delivering w.db.db)
    (hst : (commerce conv cfg).step w a = some w') : Delivering w'.db.db := by
  rcases commerce_step hst with ⟨l, rfl, -, rfl⟩ | ⟨i, a, c, c', t, rfl, -, hstmt, rfl⟩ |
    ⟨i, a, j, j', t, rfl, -, hstmt, rfl⟩ | ⟨seconds, rfl, rfl⟩
  · exact h
  · rcases (CheckoutCall.effect hstmt).writes.names with ⟨hnames, hkeys⟩ | ⟨req, sessionId, hstart⟩
    · exact h.congr hnames hkeys
    · exact h.startDomain hstart
  · have hwrites := (DomainJob.effect hstmt).writes
    refine h.congr (fun k => ?_) hwrites.keys
    obtain ⟨domains, dnsZones, hdb⟩ := hwrites.frame
    rw [hdb]
    rfl
  · exact h

/-! ## Every run -/

/-- The step that marks a session paid creates no session. -/
theorem nameOf_of_paid {w w' : World CommerceStore CommerceCall}
    {a : Action CommerceCall Reply Nat} (hst : (commerce conv cfg).step w a = some w')
    {sessionId : Nat} {r t : CheckoutSession} (hr : w.db.db.sessions.get? sessionId = some r)
    (hunpaid : r.status ≠ .paid) (ht : w'.db.db.sessions.get? sessionId = some t)
    (hpaid : t.status = .paid) (j : Nat) : w'.db.db.nameOf j = w.db.db.nameOf j := by
  have hchanged : w'.db.db.sessions.get? sessionId ≠ w.db.db.sessions.get? sessionId := by
    intro hsame
    rw [ht, hr] at hsame
    obtain rfl := Option.some.inj hsame
    exact hunpaid hpaid
  rcases commerce_step hst with ⟨l, rfl, -, rfl⟩ | ⟨i, a, c, c', t', rfl, -, hstmt, rfl⟩ |
    ⟨i, a, j', j'', t', rfl, -, hstmt, rfl⟩ | ⟨seconds, rfl, rfl⟩
  · rfl
  · rcases (CheckoutCall.effect hstmt).writes.names with ⟨hnames, -⟩ | ⟨req, key, hstart⟩
    · exact hnames j
    · exfalso
      rcases startDomain_cases hstart with hsame | ⟨base, -, -, -, -, hnew⟩
      · exact hchanged (congrArg (fun db : CommerceDb => db.sessions.get? sessionId) hsame)
      · refine hchanged ?_
        rw [show t'.db.sessions.get? sessionId = _ from
          (congrArg (fun db : CommerceDb => db.sessions.get? sessionId) hnew).trans
            (Table.get?_insert_of_some _ hr), hr]
  · obtain ⟨domains, dnsZones, hdb⟩ := (DomainJob.effect hstmt).writes.frame
    rw [hdb]
    rfl
  · rfl

def emptyStore : CommerceStore := ⟨emptyCommerce, 0, [], []⟩

def domainRequest (teamId : Nat) (idempotencyKey uuid : String) : DomainRequest where
  teamId := teamId
  userId := teamId
  domain := "example.com"
  registrant := .null
  currency := "USD"
  unitAmountMinor := 1500
  amountMinor := 1500
  years := 1
  privacy := true
  nameservers := []
  idempotencyKey := idempotencyKey
  uuid := uuid

/-- The first team starts a checkout for the name, and PayPal has an order for
it. -/
def firstCheckout : List (Action CommerceCall Reply Nat) :=
  [.spawn (.checkout (.startDomain (domainRequest 1 "k-1" "s-1"))), .run 0 .next, .run 0 .next,
    .run 0 (.initiated ⟨"O-1", none, []⟩), .run 0 .next]

/-- It returns from PayPal, up to the statement that settles. -/
def returnsPaid (i : Nat) : List (Action CommerceCall Reply Nat) :=
  [.spawn (.checkout (.payPalReturn 1 "O-1")), .run i .next,
    .run i (.payPal (capturedOrder "15.00"))]

/-- The next statement of a program marks session 1 paid. -/
def settlesFirst (i : Nat) (p : World CommerceStore CommerceCall → Bool)
    (w : World CommerceStore CommerceCall) : Bool :=
  (w.db.db.sessions.get? 1).any
      (fun r => r.status != .paid && r.domainName == some "example.com") &&
    ((commerce sampleConversions januaryConfig).step w (.run i .next)).any fun w' =>
      isPaid 1 w' && p w'

theorem settlesFirst_elim {i : Nat} {p : World CommerceStore CommerceCall → Bool}
    {w : World CommerceStore CommerceCall} (h : settlesFirst i p w = true) :
    ∃ w' r t, (commerce sampleConversions januaryConfig).step w (.run i .next) = some w' ∧
      w.db.db.sessions.get? 1 = some r ∧ r.status ≠ .paid ∧ r.domainName = some "example.com" ∧
      w'.db.db.sessions.get? 1 = some t ∧ t.status = .paid ∧ p w' = true := by
  rw [settlesFirst, Bool.and_eq_true] at h
  obtain ⟨r, hr, hcond⟩ := (Option.any_eq_true _ _).mp h.1
  obtain ⟨w', hst, hw'⟩ := (Option.any_eq_true _ _).mp h.2
  rw [Bool.and_eq_true] at hw'
  obtain ⟨t, ht, hpaid⟩ := (Option.any_eq_true _ _).mp hw'.1
  simp only [Bool.and_eq_true, bne_iff_ne, beq_iff_eq] at hcond hpaid
  exact ⟨w', r, t, hst, hr, hcond.1, hcond.2, ht, hpaid, hw'.2⟩

end OnePloy
