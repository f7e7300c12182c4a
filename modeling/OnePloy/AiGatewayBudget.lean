import OnePloy.AiGatewayIdempotency

/-!
# The monthly token budget

A request reserves its tokens in the month it begins in and posts them to the
month it ends in. Within a month the reservation pays for the posting. A
posting to a later month has nothing reserved there: it stays within that
month's budget only if there is room for it besides what is used and reserved
(`withinBudget_iff_room`).
-/

namespace OnePloy

open Conc Php

variable {cfg : GatewayConfig} {s s' : GatewayStore} {l l' : GatewayState}

/-! ## The budget -/

/-- What a team has used and reserved of a month is at most its limit. -/
def GatewayStore.WithinBudget (cfg : GatewayConfig) (s : GatewayStore) : Prop :=
  ∀ teamId M, (cfg.teams teamId).monthlyTokenLimit = .ok (some M) →
    ∀ period, s.db.usedTokens teamId period + s.db.pendingTokens teamId period ≤ M

/-- What is recorded of a completed upstream call. -/
def GatewayState.answer? : GatewayState → Option (GatewayCall × Nat × Value)
  | .answered call id _ body => some (call, id, body)
  | _ => none

/-- The completed call that a step records. -/
def recordedBy (w : World GatewayStore GatewayState) :
    Action GatewayState GatewayReply Nat → Option (GatewayCall × Nat × Value)
  | .run i .next => w.procs[i]?.bind GatewayState.answer?
  | _ => none

/-- A completed call reports no more tokens than its request has reserved. -/
def reportsWithinReservation (cfg : GatewayConfig) (w : World GatewayStore GatewayState)
    (a : Action GatewayState GatewayReply Nat) : Bool :=
  (recordedBy w a).all fun q =>
    decide ((cfg.usageFrom q.2.2).totalTokens ≤ cfg.reservedTokens q.1.payload)

/-- The limit of a team, or nothing if it has none. -/
def GatewayConfig.limit (cfg : GatewayConfig) (teamId : Nat) : Option Nat :=
  (cfg.teams teamId).monthlyTokenLimit.toOption.bind id

/-- A call is recorded in the month its request began in, or in a month that
has room for its tokens. -/
def recordsWithRoom (cfg : GatewayConfig) (w : World GatewayStore GatewayState)
    (a : Action GatewayState GatewayReply Nat) : Bool :=
  (recordedBy w a).all fun q =>
    let period := cfg.period w.db.clock
    (w.db.db.requests.get? q.2.1).all fun r => r.billingPeriod == period ||
      (cfg.limit q.1.teamId).all fun M => decide
        (w.db.db.usedTokens q.1.teamId period + w.db.db.pendingTokens q.1.teamId period +
          (cfg.usageFrom q.2.2).totalTokens ≤ M)

theorem GatewayConfig.limit_eq_some {teamId M : Nat} :
    cfg.limit teamId = some M ↔ (cfg.teams teamId).monthlyTokenLimit = .ok (some M) := by
  unfold GatewayConfig.limit
  cases (cfg.teams teamId).monthlyTokenLimit with
  | error e => simp [Except.toOption]
  | ok limit => simp [Except.toOption]

/-! ## What a statement does to it -/

/-- What a request reserves of a team's month. -/
def GatewayRequest.reservedIn (r : GatewayRequest) (teamId : Nat) (period : String) : Nat :=
  if r.teamId = teamId ∧ r.billingPeriod = period then r.reservedTokens else 0

theorem GatewayDb.pendingTokens_insert (db : GatewayDb) {r : GatewayRequest}
    (hpending : r.status = .pending) (teamId : Nat) (period : String) :
    GatewayDb.pendingTokens ⟨db.requests.insert r, db.ledgers⟩ teamId period
      = db.pendingTokens teamId period + r.reservedIn teamId period := by
  have hsum : GatewayDb.pendingTokens ⟨db.requests.insert r, db.ledgers⟩ teamId period
    = db.pendingTokens teamId period + _ := Table.sumWhere_insert ..
  simpa [hpending, GatewayRequest.reservedIn] using hsum

/-- A request that is no longer pending gives its reservation back. -/
theorem GatewayDb.pendingTokens_modify {db : GatewayDb} {id : Nat} {r : GatewayRequest}
    (hget : db.requests.get? id = some r) (hpending : r.status = .pending)
    {f : GatewayRequest → GatewayRequest} (hf : (f r).status ≠ .pending)
    (ledgers : Table UsageLedger) (teamId : Nat) (period : String) :
    GatewayDb.pendingTokens ⟨db.requests.modify id f, ledgers⟩ teamId period
        + r.reservedIn teamId period
      = db.pendingTokens teamId period := by
  have hsum : GatewayDb.pendingTokens ⟨db.requests.modify id f, ledgers⟩ teamId period + _
    = db.pendingTokens teamId period + _ := Table.sumWhere_modify f hget
  simpa [hpending, hf, GatewayRequest.reservedIn] using hsum

/-- The store after a completed call has been recorded. -/
theorem GatewayDb.recordSuccess_tokens {db db' : GatewayDb}
    {teamId id upstreamStatus now : Nat} {responsePayload : Value} {usage : TokenUsage}
    {period : String}
    (h : db.recordSuccess teamId id upstreamStatus responsePayload usage now period = some db')
    {r : GatewayRequest} (hget : db.requests.get? id = some r) (hpending : r.status = .pending)
    (t : Nat) (p : String) :
    db'.usedTokens t p
        = db.usedTokens t p + (if t = teamId ∧ p = period then usage.totalTokens else 0) ∧
      db'.pendingTokens t p + r.reservedIn t p = db.pendingTokens t p := by
  rw [GatewayDb.recordSuccess_some h]
  refine ⟨GatewayDb.usedTokens_postUsage _ teamId period usage t p, ?_⟩
  have hrequests : GatewayDb.pendingTokens (GatewayDb.postUsage
      ⟨db.requests.modify id (·.succeed upstreamStatus responsePayload usage now), db.ledgers⟩
      teamId period usage) t p = GatewayDb.pendingTokens
      ⟨db.requests.modify id (·.succeed upstreamStatus responsePayload usage now), db.ledgers⟩ t p := by
    rw [GatewayDb.pendingTokens, GatewayDb.postUsage_requests]
    rfl
  rw [hrequests]
  exact GatewayDb.pendingTokens_modify hget hpending (by nofun) db.ledgers t p

/-! ## Runs -/

variable {w w' : World GatewayStore GatewayState}

theorem recordedBy_returned {i : Nat} {call c : GatewayCall} {id upstreamStatus : Nat}
    {body : Value} {a : GatewayReply} {o : Except GatewayException GatewayResult}
    (hi : w.procs[i]? = some (.answered call id upstreamStatus body))
    (hst : GatewayState.stmt cfg s (.answered call id upstreamStatus body) a =
      some (s', .returned c o)) :
    recordedBy w (.run i a) = some (call, id, body) := by
  cases a with
  | next =>
      rw [recordedBy, hi]
      rfl
  | crash => cases hst
  | unavailable => cases hst
  | response _ _ => cases hst

/-- A step that changes the tables keeps the budget, where the completed call
it records meets its conditions. -/
theorem GatewayState.Effect.withinBudget (h : GatewayState.Effect cfg s l s' l')
    (hl : l.Sound cfg s) (hs : s.WithinBudget cfg)
    (hrecord : ∀ call id upstreamStatus body, l = .answered call id upstreamStatus body →
      l'.result?.isSome → (cfg.usageFrom body).totalTokens ≤ cfg.reservedTokens call.payload ∧
      ∀ r, s.db.requests.get? id = some r → r.billingPeriod ≠ cfg.period s.clock →
        ∀ M, cfg.limit call.teamId = some M →
          s.db.usedTokens call.teamId (cfg.period s.clock) +
            s.db.pendingTokens call.teamId (cfg.period s.clock) +
              (cfg.usageFrom body).totalTokens ≤ M) :
    s'.WithinBudget cfg := by
  intro teamId M hM period
  have hbefore := hs teamId M hM period
  cases h with
  | crashed _ => exact hbefore
  | refused _ _ => exact hbefore
  | replayed _ _ _ => exact hbefore
  | posted _ _ => exact hbefore
  | heard _ => exact hbefore
  | @begun call r hnew =>
      have hpending := s.db.pendingTokens_insert hnew.status teamId period
      have hused : GatewayDb.usedTokens ⟨s.db.requests.insert r, s.db.ledgers⟩ teamId period
        = s.db.usedTokens teamId period := rfl
      rw [hpending, hused, GatewayRequest.reservedIn]
      split
      · next heq =>
          obtain ⟨rfl, rfl⟩ := heq
          have hfits := hnew.fits M (hnew.teamId ▸ hM)
          rw [← hnew.teamId, ← hnew.period] at hfits
          omega
      · omega
  | failed call id upstreamStatus failure =>
      obtain ⟨r, hget, hof, hpending, -⟩ := hl.owns rfl
      have hback := GatewayDb.pendingTokens_modify hget hpending
        (f := fun r => r.fail upstreamStatus failure.errorCode s.clock) (by nofun) s.db.ledgers
        teamId period
      have hused : (s.db.recordFailure id upstreamStatus failure.errorCode s.clock).usedTokens
        teamId period = s.db.usedTokens teamId period := rfl
      have hsame : (s.db.recordFailure id upstreamStatus failure.errorCode s.clock).pendingTokens
        teamId period + r.reservedIn teamId period = s.db.pendingTokens teamId period := hback
      dsimp only
      omega
  | @succeeded call id upstreamStatus body db hdb =>
      obtain ⟨r, hget, hof, hpending, hreserved⟩ := hl.owns rfl
      obtain ⟨hwithin, hroom⟩ := hrecord call id upstreamStatus body rfl rfl
      obtain ⟨hused, hback⟩ := GatewayDb.recordSuccess_tokens hdb hget hpending teamId period
      dsimp only
      split at hused
      · next heq =>
          obtain ⟨rfl, rfl⟩ := heq
          by_cases hperiod : r.billingPeriod = cfg.period s.clock
          · -- the reservation pays for the posting
            rw [GatewayRequest.reservedIn, if_pos ⟨hof.teamId, hperiod⟩] at hback
            omega
          · have := hroom r hget hperiod M (GatewayConfig.limit_eq_some.mpr hM)
            omega
      · omega

/-- A recorded call for which there was no room breaks the budget. -/
theorem not_withinBudget_of_no_room {call : GatewayCall} {id upstreamStatus : Nat} {body : Value}
    {db : GatewayDb} (hdb : s.db.recordSuccess call.teamId id upstreamStatus body
      (cfg.usageFrom body) s.clock (cfg.period s.clock) = some db)
    {r : GatewayRequest} (hget : s.db.requests.get? id = some r) (hpending : r.status = .pending)
    (hperiod : r.billingPeriod ≠ cfg.period s.clock) {M : Nat}
    (hno : M < s.db.usedTokens call.teamId (cfg.period s.clock) +
      s.db.pendingTokens call.teamId (cfg.period s.clock) + (cfg.usageFrom body).totalTokens) :
    M < db.usedTokens call.teamId (cfg.period s.clock) +
      db.pendingTokens call.teamId (cfg.period s.clock) := by
  obtain ⟨hused, hback⟩ := GatewayDb.recordSuccess_tokens hdb hget hpending call.teamId
    (cfg.period s.clock)
  rw [GatewayRequest.reservedIn, if_neg fun h => hperiod h.2] at hback
  rw [hused, if_pos ⟨rfl, rfl⟩]
  omega

theorem withinBudget_empty (clock : Nat) : (emptyGateway clock).WithinBudget cfg :=
  fun _ _ _ _ => Nat.zero_le _

/-- What the two conditions say of a call that is about to be recorded. -/
theorem records_of_conditions {i : Nat} {call c : GatewayCall} {id upstreamStatus : Nat}
    {body : Value} {a : GatewayReply} {o : Except GatewayException GatewayResult}
    (hi : w.procs[i]? = some (.answered call id upstreamStatus body))
    (hst : GatewayState.stmt cfg w.db (.answered call id upstreamStatus body) a =
      some (s', .returned c o))
    (hreports : reportsWithinReservation cfg w (.run i a) = true)
    (hroom : recordsWithRoom cfg w (.run i a) = true) :
    (cfg.usageFrom body).totalTokens ≤ cfg.reservedTokens call.payload ∧
    ∀ r, w.db.db.requests.get? id = some r → r.billingPeriod ≠ cfg.period w.db.clock →
      ∀ M, cfg.limit call.teamId = some M →
        w.db.db.usedTokens call.teamId (cfg.period w.db.clock) +
          w.db.db.pendingTokens call.teamId (cfg.period w.db.clock) +
            (cfg.usageFrom body).totalTokens ≤ M := by
  have hrecorded := recordedBy_returned hi hst
  rw [reportsWithinReservation, hrecorded, Option.all_some, decide_eq_true_eq] at hreports
  refine ⟨hreports, fun r hget hperiod M hM => ?_⟩
  rw [recordsWithRoom, hrecorded, Option.all_some, hget, Option.all_some, hM, Option.all_some,
    Bool.or_eq_true, beq_iff_eq, decide_eq_true_eq] at hroom
  exact hroom.resolve_left hperiod

theorem withinBudget_step {a : Action GatewayState GatewayReply Nat}
    (hgood : (gateway cfg).Good (gatewayAssertions cfg) w) (hw : w.db.WithinBudget cfg)
    (hreports : reportsWithinReservation cfg w a = true)
    (hroom : recordsWithRoom cfg w a = true) (hstep : (gateway cfg).step w a = some w') :
    w'.db.WithinBudget cfg := by
  cases a with
  | spawn l =>
      obtain ⟨-, rfl⟩ := Machine.step_spawn hstep
      exact hw
  | env seconds =>
      obtain ⟨d, hd, -, rfl⟩ := Machine.step_env hstep
      obtain rfl := Option.some.inj hd
      exact hw
  | run i a =>
      obtain ⟨l, d, l', hi, hst, -, rfl⟩ := Machine.step_run hstep
      refine (GatewayState.stmt_effect hst).withinBudget (hgood.at_ hi) hw ?_
      rintro call id upstreamStatus body rfl hresult
      cases l' with
      | returned c o => exact records_of_conditions hi hst hreports hroom
      | _ => cases hresult

/-- The step that records a call. -/
theorem step_of_recordedBy {a : Action GatewayState GatewayReply Nat} {call : GatewayCall}
    {id : Nat} {body : Value} (hrecorded : recordedBy w a = some (call, id, body))
    (hstep : (gateway cfg).step w a = some w') {r : GatewayRequest}
    (hget : w.db.db.requests.get? id = some r) :
    ∃ (i : Nat) (upstreamStatus : Nat) (db : GatewayDb),
      w.procs[i]? = some (.answered call id upstreamStatus body) ∧
      w.db.db.recordSuccess call.teamId id upstreamStatus body (cfg.usageFrom body) w.db.clock
        (cfg.period w.db.clock) = some db ∧ w'.db.db = db := by
  cases a with
  | spawn l => cases hrecorded
  | env seconds => cases hrecorded
  | run i a =>
      cases a with
      | next =>
          obtain ⟨l, hi, hanswer⟩ := Option.bind_eq_some_iff.mp hrecorded
          obtain ⟨l', d, m, hi', hst, -, rfl⟩ := Machine.step_run hstep
          obtain rfl := Option.some.inj (hi.symm.trans hi')
          cases l with
          | answered call' id' upstreamStatus body' =>
              obtain ⟨rfl, rfl, rfl⟩ := by simpa [GatewayState.answer?] using hanswer
              obtain ⟨db, hdb⟩ : ∃ db, w.db.db.recordSuccess call'.teamId id' upstreamStatus body'
                  (cfg.usageFrom body') w.db.clock (cfg.period w.db.clock) = some db := by
                rw [GatewayDb.recordSuccess, hget]
                exact ⟨_, rfl⟩
              refine ⟨i, upstreamStatus, db, hi, hdb, ?_⟩
              have hstmt : GatewayState.stmt cfg w.db (.answered call' id' upstreamStatus body') .next
                = some (d, m) := hst
              rw [GatewayState.stmt, hdb] at hstmt
              obtain ⟨rfl, -⟩ := Prod.mk.inj (Option.some.inj hstmt)
              rfl
          | _ => cases hanswer
      | crash => cases hrecorded
      | unavailable => cases hrecorded
      | response _ _ => cases hrecorded

/-- Within the budget as long as every call is recorded in the month its request
began in, or in one that has room for its tokens; and no longer. -/
theorem withinBudget_iff_room (cfg : GatewayConfig) (clock : Nat) :
    (∀ w, Reaches (gateway cfg).step (fun w a => reportsWithinReservation cfg w a = true ∧
        recordsWithRoom cfg w a = true) (Machine.idle (emptyGateway clock)) w →
      w.db.WithinBudget cfg) ∧
    ∀ w a w', Reaches (gateway cfg).step (fun w a => reportsWithinReservation cfg w a = true)
        (Machine.idle (emptyGateway clock)) w →
      (gateway cfg).step w a = some w' → recordsWithRoom cfg w a = false →
      ¬ w'.db.WithinBudget cfg := by
  constructor
  · intro w hrun
    have hinv : (gateway cfg).Good (gatewayAssertions cfg) w ∧ w.db.WithinBudget cfg := by
      refine hrun.invariant (I := fun w => (gateway cfg).Good (gatewayAssertions cfg) w ∧
        w.db.WithinBudget cfg) (fun v a v' hv hok hstep => ?_)
        ⟨gateway_good .refl, withinBudget_empty clock⟩
      exact ⟨(gatewayObligations cfg).step hv.1 trivial hstep,
        withinBudget_step hv.1 hv.2 hok.1 hok.2 hstep⟩
    exact hinv.2
  · intro w a w' hrun hstep hroom hbudget
    have hgood := gateway_good (hrun.mono fun _ _ _ => trivial)
    obtain ⟨⟨call, id, body⟩, hrecorded, hroom⟩ := (Option.all_eq_false ..).mp hroom
    obtain ⟨r, hget, hroom⟩ := (Option.all_eq_false ..).mp hroom
    rw [Bool.or_eq_false_iff, beq_eq_false_iff_ne] at hroom
    obtain ⟨hperiod, hroom⟩ := hroom
    obtain ⟨M, hM, hroom⟩ := (Option.all_eq_false ..).mp hroom
    rw [decide_eq_false_iff_not, Nat.not_le] at hroom
    obtain ⟨i, upstreamStatus, db, hi, hdb, hw'⟩ := step_of_recordedBy hrecorded hstep hget
    obtain ⟨r', hget', -, hpending, -⟩ := (hgood.at_ hi).owns rfl
    obtain rfl := Option.some.inj (hget.symm.trans hget')
    have hover := not_withinBudget_of_no_room hdb hget hpending hperiod hroom
    have hunder := hbudget call.teamId M (GatewayConfig.limit_eq_some.mp hM)
      (cfg.period w.db.clock)
    rw [hw'] at hunder
    omega

/-- Begun on the last day of September, recorded in October, whose tokens are
all reserved by then. -/
def acrossTheMonth : List (Action GatewayState GatewayReply Nat) :=
  let call : GatewayCall := ⟨1, 1, samplePayload, none⟩
  [.spawn (.complete call), .spawn (.complete call), .run 0 .next, .run 0 .next, .env 86400,
    .run 1 .next, .run 0 (.response 200 sampleBody), .run 0 .next]

theorem budget_exceeded :
    ¬ ∀ (cfg : GatewayConfig) (clock : Nat) (w : World GatewayStore GatewayState),
      Reaches (gateway cfg).step (fun w a => reportsWithinReservation cfg w a = true)
        (Machine.idle (emptyGateway clock)) w → w.db.WithinBudget cfg := by
  intro h
  obtain ⟨w, hrun, hw⟩ := exists_reaches_of_execIf (gateway octoberConfig).step
    (fun w a => reportsWithinReservation octoberConfig w a = true)
    (Machine.idle (emptyGateway 1790800000)) acrossTheMonth
    (fun w => decide (11 < w.db.db.usedTokens 1 "2026-10" + w.db.db.pendingTokens 1 "2026-10"))
    (by decide +kernel)
  have hover := of_decide_eq_true hw
  have hunder := h octoberConfig 1790800000 w hrun 1 11 rfl "2026-10"
  omega

/-- The same two calls with room for the first in October: the second begins
after the first has been recorded. -/
def roomInOctober : List (Action GatewayState GatewayReply Nat) :=
  let call : GatewayCall := ⟨1, 1, samplePayload, none⟩
  [.spawn (.complete call), .spawn (.complete call), .run 0 .next, .run 0 .next, .env 86400,
    .run 0 (.response 200 sampleBody), .run 0 .next, .run 1 .next]

theorem withinBudget_roomInOctober :
    ∃ w, Reaches (gateway octoberConfig).step
        (fun w a => reportsWithinReservation octoberConfig w a = true ∧
          recordsWithRoom octoberConfig w a = true)
        (Machine.idle (emptyGateway 1790800000)) w ∧
      w.db.db.usedTokens 1 "2026-10" = 10 ∧ w.db.WithinBudget octoberConfig := by
  obtain ⟨w, hrun, hw⟩ := exists_reaches_of_execIf (gateway octoberConfig).step
    (fun w a => reportsWithinReservation octoberConfig w a = true ∧
      recordsWithRoom octoberConfig w a = true)
    (Machine.idle (emptyGateway 1790800000)) roomInOctober
    (fun w => w.db.db.usedTokens 1 "2026-10" == 10) (by decide +kernel)
  exact ⟨w, hrun, beq_iff_eq.mp hw, (withinBudget_iff_room octoberConfig 1790800000).1 w hrun⟩

end OnePloy
