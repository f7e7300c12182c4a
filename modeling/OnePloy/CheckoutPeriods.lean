import OnePloy.CheckoutSettlement

/-!
# The period of a subscription

`markPaid` writes `now` plus the interval of the price over the end of the
period that the team's subscription of the product has, whatever that was. So a
payment takes time away exactly where more than its own interval was left, as in
the month bought in a paid year (`periods_grow_iff`).
-/

namespace OnePloy

open Conc Php

/-! ## What a price brings -/

/-- The end of the period that `markPaid` writes for a price. -/
def Price.periodEndsAt (price : Price) (cfg : CommerceConfig) (now : Nat) : Nat :=
  if price.interval = "yearly" then cfg.addYears now 1 else cfg.addMonth now

/-- `$price->planVersion?->plan?->product_id`. -/
def CommerceDb.productOf (db : CommerceDb) (price : Price) : Option Nat :=
  ((db.planVersions.get? price.planVersionId).bind fun v => db.plans.get? v.planId).map
    (·.productId)

/-- The row that `markPaid` creates or updates. -/
def CommerceDb.subscriptionFor (db : CommerceDb) (cfg : CommerceConfig)
    (now teamId priceId : Nat) (price : Price) : CommerceSubscription where
  teamId := teamId
  productId := db.productOf price
  planVersionId := price.planVersionId
  priceId := some priceId
  status := "active"
  currentPeriodEndsAt := some (price.periodEndsAt cfg now)
  entitlementSnapshot :=
    ((db.planVersions.get? price.planVersionId).map (·.entitlements)).getD (.list [])

/-- The stored end of the period of a team's subscription of a product. -/
def CommerceDb.periodEnd (db : CommerceDb) (teamId productId : Nat) : Option Nat :=
  (db.subscriptions.first? fun _ s => s.teamId == teamId && s.productId == some productId).bind
    (·.2.currentPeriodEndsAt)

/-- What is stored at the end is no earlier than what was stored. -/
def CommerceDb.PeriodKept (teamId productId : Nat) (db db' : CommerceDb) : Prop :=
  ∀ e, db.periodEnd teamId productId = some e →
    ∃ e', db'.periodEnd teamId productId = some e' ∧ e ≤ e'

section Grant

variable {db db' : CommerceDb} {cfg : CommerceConfig} {now teamId priceId : Nat} {price : Price}

theorem grantPrice_subscriptions (h : db.grantPrice cfg now teamId priceId price = .ok db') :
    db'.subscriptions = (db.updateOrCreateSubscription
      (db.subscriptionFor cfg now teamId priceId price)).subscriptions := by
  simp only [CommerceDb.grantPrice] at h
  generalize hgranted : db.updateOrCreateSubscription _ = granted at h
  have hrow : db.updateOrCreateSubscription (db.subscriptionFor cfg now teamId priceId price) =
      granted := hgranted
  rw [hrow]
  split at h
  · split at h
    · rw [CommerceDb.assignPlan, ite_error_eq_ok] at h
      obtain rfl := Except.ok.inj h.2
      rfl
    · rw [Except.ok.inj h]
  · rw [Except.ok.inj h]

theorem periodEnd_updateOrCreate (row : CommerceSubscription) (productId : Nat) :
    (db.updateOrCreateSubscription row).periodEnd teamId productId =
      if row.teamId = teamId ∧ row.productId = some productId then row.currentPeriodEndsAt
      else db.periodEnd teamId productId := by
  unfold CommerceDb.updateOrCreateSubscription CommerceDb.periodEnd
  split
  · next id old hold =>
      obtain ⟨hget, hkey⟩ := Table.first?_some hold
      simp only [Bool.and_eq_true, beq_iff_eq] at hkey
      dsimp only
      rw [Table.first?_modify]
      · by_cases hrow : row.teamId = teamId ∧ row.productId = some productId
        · obtain ⟨rfl, hproduct⟩ := hrow
          rw [hproduct] at hold
          simp [hold, hproduct]
        · rw [if_neg hrow]
          cases hfirst : db.subscriptions.first? fun _ s =>
              s.teamId == teamId && s.productId == some productId with
          | none => rfl
          | some q =>
              obtain ⟨hq, hqkey⟩ := Table.first?_some hfirst
              simp only [Bool.and_eq_true, beq_iff_eq] at hqkey
              have hne : q.1 ≠ id := by
                rintro hi
                rw [hi] at hq
                obtain rfl := Option.some.inj (hq.symm.trans hget)
                exact hrow ⟨hkey.1.symm.trans hqkey.1, hkey.2.symm.trans hqkey.2⟩
              simp [hne]
      · intro r hr
        obtain rfl := Option.some.inj (hr.symm.trans hget)
        rw [hkey.1, hkey.2]
  · next hnone =>
      rw [Table.first?_insert]
      by_cases hrow : row.teamId = teamId ∧ row.productId = some productId
      · obtain ⟨rfl, hproduct⟩ := hrow
        rw [hproduct] at hnone
        simp [hnone, hproduct]
      · rw [if_neg hrow, if_neg (by simpa using hrow), Option.or_none]

/-- The team, and the price it pays for, of a call that settles a session. -/
def CommerceDb.purchase (db : CommerceDb) (c : MarkPaidCall) : Option (Nat × Nat × Price) :=
  match db.sessions.get? c.sessionId with
  | none => none
  | some session =>
      if session.status = .paid then none
      else if (db.payments.first? fun _ p => p.provider == c.provider &&
          p.providerReference == some c.providerReference).isSome then none
      else
        session.teamId.bind fun teamId =>
          (session.priceId.bind fun id => (db.prices.get? id).map (id, ·)).map (teamId, ·)

theorem updateOrCreate_congr {db₁ db₂ : CommerceDb} (h : db₁.subscriptions = db₂.subscriptions)
    (row : CommerceSubscription) : (db₁.updateOrCreateSubscription row).subscriptions =
      (db₂.updateOrCreateSubscription row).subscriptions := by
  unfold CommerceDb.updateOrCreateSubscription
  rw [h]
  cases db₂.subscriptions.first? fun _ s =>
      s.teamId == row.teamId && s.productId == row.productId with
  | none => rfl
  | some q => rfl

/-- A committed `markPaid` writes the subscription of its purchase, and no other. -/
theorem markPaid_subscriptions {c : MarkPaidCall} {orderId : Nat}
    (h : c.result cfg db = .ok (db', orderId)) :
    db'.subscriptions = match db.purchase c with
      | none => db.subscriptions
      | some (teamId, priceId, price) => (db.updateOrCreateSubscription
          (db.subscriptionFor cfg c.now teamId priceId price)).subscriptions := by
  rw [MarkPaidCall.result, CommerceDb.markPaid] at h
  cases hs : db.sessions.get? c.sessionId with
  | none => rw [hs] at h; cases h
  | some session =>
      simp only [hs, CommerceDb.purchase] at h ⊢
      split at h
      · next hpaid =>
          split at h
          · cases h
          · obtain ⟨rfl, -⟩ := Prod.mk.inj (Except.ok.inj h)
            rw [if_pos hpaid]
      · next hpaid =>
          rw [if_neg hpaid]
          split at h
          · next existing hexisting =>
              rw [hexisting]
              split at h
              · split at h
                · obtain ⟨rfl, -⟩ := Prod.mk.inj (Except.ok.inj h)
                  rfl
                · cases h
              · cases h
          · next hunrecorded =>
              rw [hunrecorded]
              cases hteam : session.teamId with
              | none => rw [hteam] at h; cases h
              | some teamId =>
                  simp only [hteam, Option.isSome_none, Bool.false_eq_true, if_false,
                    Option.bind_some] at h ⊢
                  cases hprice : session.priceId.bind fun id => (db.prices.get? id).map (id, ·) with
                  | none =>
                      rw [hprice] at h
                      obtain ⟨rfl, -⟩ := Prod.mk.inj (Except.ok.inj h)
                      rfl
                  | some q =>
                      rw [hprice] at h
                      cases hg : (db.settle c.now c.sessionId teamId session c.provider
                          c.providerReference c.raw).grantPrice cfg c.now teamId q.1 q.2 with
                      | error e =>
                          simp only [hg] at h
                          cases h
                      | ok granted =>
                          simp only [hg] at h
                          obtain ⟨rfl, -⟩ := Prod.mk.inj (Except.ok.inj h)
                          rw [grantPrice_subscriptions hg]
                          have hsame : (db.settle c.now c.sessionId teamId session c.provider
                              c.providerReference c.raw).subscriptions = db.subscriptions := rfl
                          exact updateOrCreate_congr hsame _

theorem markPaid_periodEnd {c : MarkPaidCall} {orderId : Nat}
    (h : c.result cfg db = .ok (db', orderId)) (teamId productId : Nat) :
    (db'.periodEnd teamId productId = db.periodEnd teamId productId ∧
      ∀ priceId price, db.purchase c = some (teamId, priceId, price) →
        db.productOf price ≠ some productId) ∨
    ∃ priceId price, db.purchase c = some (teamId, priceId, price) ∧
      db.productOf price = some productId ∧
      db'.periodEnd teamId productId = some (price.periodEndsAt cfg c.now) := by
  have hsub := markPaid_subscriptions h
  cases hp : db.purchase c with
  | none =>
      rw [hp] at hsub
      refine .inl ⟨?_, nofun⟩
      rw [CommerceDb.periodEnd, hsub, CommerceDb.periodEnd]
  | some q =>
      obtain ⟨teamId', priceId, price⟩ := q
      rw [hp] at hsub
      have hend : db'.periodEnd teamId productId = _ :=
        (congrArg (fun t : Table CommerceSubscription => (t.first? _).bind _) hsub).trans
          (periodEnd_updateOrCreate (db.subscriptionFor cfg c.now teamId' priceId price) productId)
      by_cases hrow : teamId' = teamId ∧ db.productOf price = some productId
      · obtain ⟨rfl, hproduct⟩ := hrow
        refine .inr ⟨priceId, price, rfl, hproduct, ?_⟩
        rw [hend, if_pos ⟨rfl, hproduct⟩]
        rfl
      · refine .inl ⟨by rw [hend]; exact if_neg hrow, fun _ _ hbuys => ?_⟩
        obtain ⟨rfl, hrest⟩ := Prod.mk.inj (Option.some.inj hbuys)
        obtain ⟨-, rfl⟩ := Prod.mk.inj hrest
        exact fun hproduct => hrow ⟨rfl, hproduct⟩

end Grant

/-! ## Settlements, one after the other -/

inductive SettlementStep
  /-- A `markPaid` that returns. -/
  | settle (c : MarkPaidCall)
  /-- Anything that writes no subscription: new sessions, another catalogue. -/
  | elsewhere (db : CommerceDb)

def settlementStep (cfg : CommerceConfig) (db : CommerceDb) : SettlementStep → Option CommerceDb
  | .settle c =>
      match c.result cfg db with
      | .ok (db', _) => some db'
      | .error _ => none
  | .elsewhere db' => some { db' with subscriptions := db.subscriptions }

/-- What is left of the team's period of the product is no more than the month or
the year that is paid for. -/
def Renews (cfg : CommerceConfig) (teamId productId : Nat) (db : CommerceDb) :
    SettlementStep → Prop
  | .settle c => ∀ priceId price e, db.purchase c = some (teamId, priceId, price) →
      db.productOf price = some productId → db.periodEnd teamId productId = some e →
      e ≤ price.periodEndsAt cfg c.now
  | .elsewhere _ => True

section Run

variable {db db' : CommerceDb} {cfg : CommerceConfig} {teamId productId : Nat}

theorem periodKept_of_same (h : db'.periodEnd teamId productId = db.periodEnd teamId productId) :
    db.PeriodKept teamId productId db' :=
  fun e he => ⟨e, h.trans he, le_rfl⟩

/-- One step keeps the period exactly if it renews it. -/
theorem periodKept_iff {a : SettlementStep} (h : settlementStep cfg db a = some db') :
    db.PeriodKept teamId productId db' ↔ Renews cfg teamId productId db a := by
  cases a with
  | elsewhere other =>
      obtain rfl := Option.some.inj h
      exact ⟨fun _ => trivial, fun _ => periodKept_of_same rfl⟩
  | settle c =>
      simp only [settlementStep] at h
      split at h
      · next granted orderId hok =>
          obtain rfl := Option.some.inj h
          rcases markPaid_periodEnd hok teamId productId with
            ⟨hsame, hother⟩ | ⟨priceId, price, hbuys, hproduct, hend⟩
          · refine ⟨fun _ priceId price e hbuys hproduct => ?_, fun _ => periodKept_of_same hsame⟩
            exact absurd hproduct (hother priceId price hbuys)
          · constructor
            · intro hkept priceId' price' e hbuys' _ he
              obtain ⟨-, hrest⟩ := Prod.mk.inj (Option.some.inj (hbuys.symm.trans hbuys'))
              obtain ⟨-, rfl⟩ := Prod.mk.inj hrest
              obtain ⟨e', he', hle⟩ := hkept e he
              rwa [Option.some.inj (hend.symm.trans he')]
            · intro hrenews e he
              exact ⟨_, hend, hrenews priceId price e hbuys hproduct he⟩
      · cases h

instance : IsTrans CommerceDb (CommerceDb.PeriodKept teamId productId) where
  trans a b c hab hbc e he := by
    obtain ⟨e', he', hle⟩ := hab e he
    obtain ⟨e'', he'', hle'⟩ := hbc e' he'
    exact ⟨e'', he'', le_trans hle hle'⟩

/-- In a run of settlements the stored end of a period never decreases, from any
state to any later one, exactly if each settlement renews the period. -/
theorem periods_grow_iff {trail : List (CommerceDb × SettlementStep)}
    (hrun : Runs (settlementStep cfg) db trail db') :
    (trail.map Prod.fst ++ [db']).Pairwise (CommerceDb.PeriodKept teamId productId) ↔
      ∀ p ∈ trail, Renews cfg teamId productId p.1 p.2 := by
  have hstep : ∀ d a t, settlementStep cfg d a = some t →
      (d.PeriodKept teamId productId t ↔ Renews cfg teamId productId d a) :=
    fun _ _ _ h => periodKept_iff h
  rw [← List.isChain_iff_pairwise]
  exact Runs.isChain_iff hstep hrun

end Run

/-! ## A month in a paid year -/

def planCheckout (uuid : String) (orderId : String) (priceId : Nat) : CheckoutSession :=
  { pendingCheckout uuid 1 orderId with items := [.plan priceId] }

/-- A plan with a yearly and a monthly price, and a checkout of each. -/
def twoPrices : CommerceDb :=
  { emptyCommerce with
    sessions := (Table.empty.insert (planCheckout "s-1" "O-1" 1)).insert
      (planCheckout "s-2" "O-2" 2)
    prices := (Table.empty.insert ⟨1, "yearly"⟩).insert ⟨1, "monthly"⟩
    planVersions := Table.empty.insert ⟨1, .list []⟩
    plans := Table.empty.insert ⟨1, "pro"⟩
    products := Table.empty.insert ⟨"app_hosting"⟩
    teams := Table.empty.insert none }

/-- The year is paid for on the day given, counted from the first of January. -/
def payYear (day : Nat) : SettlementStep := .settle ⟨day * 86400, 1, "paypal", "A", []⟩

def payMonth (day : Nat) : SettlementStep := .settle ⟨day * 86400, 2, "paypal", "B", []⟩

theorem two_settlements {a b : SettlementStep} {p : CommerceDb → CommerceDb → Bool}
    (h : (settlementStep januaryConfig twoPrices a).any (fun d =>
      (settlementStep januaryConfig d b).any (p d)) = true) :
    ∃ d d', Runs (settlementStep januaryConfig) twoPrices [(twoPrices, a), (d, b)] d' ∧
      p d d' = true := by
  obtain ⟨d, hd, hnext⟩ := (Option.any_eq_true ..).mp h
  obtain ⟨d', hd', hp⟩ := (Option.any_eq_true ..).mp hnext
  exact ⟨d, d', .cons hd (.cons hd' (.nil d')), hp⟩

theorem periods_grow_iff_year_after_month :
    ∃ trail db', Runs (settlementStep januaryConfig) twoPrices trail db' ∧ trail.length = 2 ∧
      (trail.map Prod.fst ++ [db']).Pairwise (CommerceDb.PeriodKept 1 1) := by
  obtain ⟨d, d', hrun, hd⟩ := two_settlements (a := payMonth 0) (b := payYear 1)
    (p := fun d _ => d.periodEnd 1 1 == some (31 * 86400) &&
      (d.purchase ⟨86400, 1, "paypal", "A", []⟩).all fun (q : Nat × Nat × Price) =>
        decide (31 * 86400 ≤ q.2.2.periodEndsAt januaryConfig 86400)) (by decide +kernel)
  simp only [Bool.and_eq_true, beq_iff_eq] at hd
  refine ⟨_, d', hrun, rfl, (periods_grow_iff hrun).mpr ?_⟩
  rw [List.forall_mem_cons, List.forall_mem_singleton]
  refine ⟨fun priceId price e _ _ he => ?_, fun priceId price e hbuys _ he => ?_⟩
  · cases he
  · have hle := hd.2
    rw [hbuys, Option.all_some, decide_eq_true_eq] at hle
    rwa [← Option.some.inj (hd.1.symm.trans he)]

/-- The month paid for on the second of January ends the year bought the day
before in February. -/
theorem month_ends_paid_year :
    ∃ trail db', Runs (settlementStep januaryConfig) twoPrices trail db' ∧
      ¬ (trail.map Prod.fst ++ [db']).Pairwise (CommerceDb.PeriodKept 1 1) := by
  obtain ⟨d, d', hrun, hd⟩ := two_settlements (a := payYear 0) (b := payMonth 1)
    (p := fun d d' => d.periodEnd 1 1 == some (365 * 86400) &&
      d'.periodEnd 1 1 == some (32 * 86400)) (by decide +kernel)
  simp only [Bool.and_eq_true, beq_iff_eq] at hd
  refine ⟨_, d', hrun, fun hgrow => ?_⟩
  have hkept : d.PeriodKept 1 1 d' :=
    (List.pairwise_cons.mp (List.pairwise_cons.mp hgrow).2).1 d' (List.mem_singleton.mpr rfl)
  obtain ⟨e, he, hle⟩ := hkept _ hd.1
  obtain rfl := Option.some.inj (hd.2.symm.trans he)
  omega

end OnePloy
