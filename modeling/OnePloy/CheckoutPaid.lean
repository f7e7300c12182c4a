import OnePloy.CheckoutSettlement
import OnePloy.Commerce

/-!
# Paid, and what overwrites it

Every transaction that writes a session's status looks at the status it
replaces, under lock, and lets a paid session be. Cancelling and reconciling
do not: they act on a copy, and where the payment comes in between they write
`cancelled` or `expired` over `paid`. `keepsPaid` allows all runs but those,
and in them a paid session stays paid (`paid_final`).
-/

namespace OnePloy

open Conc Php

variable {conv : Conversions} {cfg : CommerceConfig}

/-- A step does not overwrite a paid session from an old copy. -/
def keepsPaid (w : World CommerceStore CommerceCall) : Action CommerceCall Reply Nat → Bool
  | .run i .next =>
      match w.procs[i]? with
      | some (.checkout c) => (c.overwrites w.db.clock).all fun id =>
          (w.db.db.sessions.get? id).all fun r => r.status != .paid
      | _ => true
  | _ => true

/-- Only its own statement overwrites a session: a call that throws or dies
first writes nothing. -/
theorem overwrites_next {s s' : CommerceStore} {c c' : CheckoutCall} {a : Reply} {id : Nat}
    (h : c.stmt conv cfg s a = some (s', c')) (hc : c.overwrites s.clock = some id) :
    a = .next ∨ s'.db = s.db := by
  cases c with
  | cancelling key session =>
      cases a with
      | next => exact Or.inl rfl
      | crash | fail _ =>
          obtain ⟨rfl, -⟩ := Prod.mk.inj (Option.some.inj h)
          exact Or.inr rfl
      | _ => cases h
  | reconciling rest =>
      cases rest with
      | nil => cases hc
      | cons q rest =>
          have hpast : q.2.isPast s.clock = true := by
            by_contra hnot
            simp [CheckoutCall.overwrites, hnot] at hc
          cases a with
          | next => exact Or.inl rfl
          | crash | fail _ =>
              obtain ⟨rfl, -⟩ := Prod.mk.inj (Option.some.inj h)
              exact Or.inr rfl
          | payPal order =>
              simp only [CheckoutCall.stmt, hpast, if_true] at h
              cases h
          | _ => cases h
  | _ => cases hc

/-- One step. -/
theorem paid_step {w w' : World CommerceStore CommerceCall} {a : Action CommerceCall Reply Nat}
    (hok : keepsPaid w a = true) (h : (commerce conv cfg).step w a = some w') {id : Nat}
    {r : CheckoutSession} (hget : w.db.db.sessions.get? id = some r) (hpaid : r.status = .paid) :
    ∃ t, w'.db.db.sessions.get? id = some t ∧ t.status = .paid := by
  rcases commerce_step h with
    ⟨l, rfl, -, rfl⟩ | ⟨i, a, c, c', s', rfl, hi, hst, rfl⟩ | ⟨i, a, j, j', s', rfl, hi, hst, rfl⟩ |
    ⟨seconds, rfl, rfl⟩
  · exact ⟨r, hget, hpaid⟩
  · obtain ⟨t, ht, hkeeps⟩ := (CheckoutCall.effect hst).writes.keeps hget
    by_cases hover : c.overwrites w.db.clock = some id
    · rcases overwrites_next hst hover with rfl | hsame
      · simp [keepsPaid, hi, hover, hget, hpaid] at hok
      · exact ⟨r, by rw [hsame, hget], hpaid⟩
    · exact ⟨t, ht, hkeeps.paid hover hpaid⟩
  · obtain ⟨domains, dnsZones, hdb⟩ := (DomainJob.effect hst).writes.frame
    exact ⟨r, by rw [hdb, hget], hpaid⟩
  · exact ⟨r, hget, hpaid⟩

/-- In every run that overwrites no paid session from an old copy, paid is
final. -/
theorem paid_final {w w' : World CommerceStore CommerceCall}
    (hrun : Reaches (commerce conv cfg).step (fun w a => keepsPaid w a = true) w w') {id : Nat}
    {r : CheckoutSession} (hget : w.db.db.sessions.get? id = some r) (hpaid : r.status = .paid) :
    ∃ t, w'.db.db.sessions.get? id = some t ∧ t.status = .paid :=
  hrun.invariant (I := fun w => ∃ t, w.db.db.sessions.get? id = some t ∧ t.status = .paid)
    (fun _ _ _ ⟨_, ht, hp⟩ hok hst => paid_step hok hst ht hp) ⟨r, hget, hpaid⟩

/-! ## A payment and a cancellation -/

/-- Decimal amounts, as far as they are needed below. -/
def sampleConversions : Conversions where
  minorAmount
    | .string "15.00" => some 1500
    | .string "14.00" => some 1400
    | _ => none
  integerOrNull
    | .int n => some n
    | _ => none
  upper := strtoupper

/-- PayPal's answer for order `O-1`, captured with an amount. -/
def capturedOrder (value : String) : Value :=
  .map [("id", .string "O-1"), ("status", .string "COMPLETED"),
    ("purchase_units", .list [.map [("custom_id", .string "s-1"),
      ("payments", .map [("captures", .list [.map [("id", .string "A"),
        ("status", .string "COMPLETED"), ("amount", .map [("value", .string value),
          ("currency_code", .string "USD")])]])])]])]

def twoCheckoutsStore : CommerceStore := ⟨twoCheckouts, 0, [], []⟩

/-- The user cancels in one window and returns from PayPal, paid, in another:
the session is paid, and the cancellation has read it as pending. -/
def paidWhileCancelling : List (Action CommerceCall Reply Nat) :=
  [.spawn (.checkout (.payPalCancel 1 "O-1")), .spawn (.checkout (.payPalReturn 1 "O-1")),
    .run 0 .next, .run 1 .next, .run 1 (.payPal (capturedOrder "15.00")), .run 1 .next]

def isPaid (id : Nat) (w : World CommerceStore CommerceCall) : Bool :=
  (w.db.db.sessions.get? id).any fun r => r.status == .paid

theorem paid_final_returned :
    ∃ w w' r, Reaches (commerce sampleConversions januaryConfig).step
        (fun w a => keepsPaid w a = true) (Machine.idle twoCheckoutsStore) w ∧
      Reaches (commerce sampleConversions januaryConfig).step
        (fun w a => keepsPaid w a = true) w w' ∧
      w.db.db.sessions.get? 1 = some r ∧ r.status = .paid ∧
      ∃ t, w'.db.db.sessions.get? 1 = some t ∧ t.status = .paid := by
  -- the cancellation dies, and another comes late
  obtain ⟨w, hrun, hw, w', hrun', -⟩ := exists_reaches_twice
    (commerce sampleConversions januaryConfig).step (fun w a => keepsPaid w a = true)
    (Machine.idle twoCheckoutsStore) paidWhileCancelling (isPaid 1)
    [.run 0 .crash, .run 1 .next, .spawn (.checkout (.payPalCancel 1 "O-1")), .run 2 .next]
    (fun _ => true) (by decide +kernel)
  obtain ⟨r, hr, hpaid⟩ := (Option.any_eq_true _ _).mp hw
  have hpaid : r.status = .paid := by simpa using hpaid
  exact ⟨w, w', r, hrun, hrun', hr, hpaid, paid_final hrun' hr hpaid⟩

/-- A paid session can become cancelled. -/
theorem paid_overwritten :
    ¬ ∀ (conv : Conversions) (cfg : CommerceConfig) (s : CommerceStore)
      (w w' : World CommerceStore CommerceCall) (id : Nat) (r : CheckoutSession),
      Reaches (commerce conv cfg).step Any (Machine.idle s) w →
      Reaches (commerce conv cfg).step Any w w' →
      w.db.db.sessions.get? id = some r → r.status = .paid →
      ∃ t, w'.db.db.sessions.get? id = some t ∧ t.status = .paid := by
  intro h
  obtain ⟨w, hrun, hw, w', hrun', hnot⟩ := exists_reaches_twice
    (commerce sampleConversions januaryConfig).step Any (Machine.idle twoCheckoutsStore)
    paidWhileCancelling (isPaid 1) [.run 0 .next] (fun w => !isPaid 1 w) (by decide +kernel)
  obtain ⟨r, hr, hpaid⟩ := (Option.any_eq_true _ _).mp hw
  obtain ⟨t, ht, htpaid⟩ := h _ _ _ w w' 1 r hrun hrun' hr (by simpa using hpaid)
  simp [isPaid, ht, htpaid] at hnot

end OnePloy
