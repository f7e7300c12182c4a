import OnePloy.AiGateway
import OnePloy.Lib.Foreign
import OnePloy.Lib.Interleave

/-!
# AI gateway, call by call

`AiGatewayService::complete` as a sequence of statements: the transaction that
begins the request, the POST, the provider's answer, and the transaction that
records it. The clock and every other call may move between two of them.

`posts` remembers the calls that have reached the provider, `answers` what has
been recorded of the answers, by request.
-/

namespace OnePloy

open Conc Php

/-- The arguments of `complete`. -/
structure GatewayCall where
  teamId : Nat
  userId : Nat
  payload : GatewayPayload
  idempotencyKey : Option String

structure GatewayPost where
  teamId : Nat
  idempotencyKey : Option String
  requestId : Nat

structure GatewayAnswer where
  requestId : Nat
  upstreamStatus : Nat
  responsePayload : Value

structure GatewayStore where
  db : GatewayDb
  clock : Nat
  posts : List GatewayPost
  answers : List GatewayAnswer

/-- What `complete` returns. -/
structure GatewayResult where
  payload : Value
  status : Nat
  replay : Bool

inductive GatewayState
  | complete (call : GatewayCall)
  | posting (call : GatewayCall) (id : Nat)
  | awaiting (call : GatewayCall) (id : Nat)
  | answered (call : GatewayCall) (id upstreamStatus : Nat) (responsePayload : Value)
  | failing (call : GatewayCall) (id : Nat) (upstreamStatus : Option Nat)
      (failure : GatewayException)
  | returned (call : GatewayCall) (outcome : Except GatewayException GatewayResult)
  | crashed

/-- What a statement meets: nothing in particular, the end of the process, or
what the provider does. -/
inductive GatewayReply
  | next | crash | unavailable
  | response (status : Nat) (body : Value)

/-- `complete` up to the transaction, and the transaction. -/
def GatewayStore.begin (cfg : GatewayConfig) (s : GatewayStore) (call : GatewayCall) :
    Except GatewayException (GatewayDb × Nat × GatewayRequest × Bool) := do
  if !cfg.enabled then
    .error ⟨"gateway_disabled", 503, "The AI Gateway is not enabled."⟩
  else
    let definition ← cfg.modelDefinition call.payload.model
    let monthlyTokenLimit ← (cfg.teams call.teamId).monthlyTokenLimit
    let _ ← cfg.providerDefinition definition.provider
    s.db.beginRequest call.teamId call.userId (call.idempotencyKey.map cfg.sha256)
      (cfg.requestHash call.payload) definition call.payload.model
      (cfg.reservedTokens call.payload) monthlyTokenLimit (cfg.period s.clock)

def upstreamUnavailable : GatewayException :=
  ⟨"upstream_unavailable", 502, "The AI provider is temporarily unavailable."⟩

/-- How the call goes on from the provider's response. -/
def GatewayState.hear (call : GatewayCall) (id status : Nat) (body : Value) : GatewayState :=
  if status < 200 ∨ 300 ≤ status then
    .failing call id (some status) (if status = 429 then
      ⟨"upstream_rate_limited", 503, "The AI provider could not complete the request."⟩
    else ⟨"upstream_error", 502, "The AI provider could not complete the request."⟩)
  else if !body.isArray || (body.child "choices").isNone then
    .failing call id (some status)
      ⟨"invalid_upstream_response", 502, "The AI provider returned an invalid response."⟩
  else .answered call id status body

def GatewayRequest.result (r : GatewayRequest) : GatewayResult :=
  ⟨r.responsePayload.getD (.list []), r.upstreamStatus.getD 200, true⟩

def GatewayState.stmt (cfg : GatewayConfig) (s : GatewayStore) :
    GatewayState → GatewayReply → Option (GatewayStore × GatewayState)
  | .returned _ _, _ => none
  | .crashed, _ => none
  | _, .crash => some (s, .crashed)
  | .complete call, .next =>
      some (match s.begin cfg call with
        | .error e => (s, .returned call (.error e))
        | .ok (db, id, record, replay) =>
            ({ s with db := db },
              if replay then .returned call (.ok record.result) else .posting call id))
  | .posting call id, .next =>
      some ({ s with posts := ⟨call.teamId, call.idempotencyKey, id⟩ :: s.posts },
        .awaiting call id)
  | .awaiting call id, .unavailable => some (s, .failing call id none upstreamUnavailable)
  | .awaiting call id, .response status body => some (s, .hear call id status body)
  | .answered call id upstreamStatus responsePayload, .next =>
      some (match s.db.recordSuccess call.teamId id upstreamStatus responsePayload
          (cfg.usageFrom responsePayload) s.clock (cfg.period s.clock) with
        | none => (s, .crashed)
        | some db =>
            ({ s with
                db := db
                answers := ⟨id, upstreamStatus, responsePayload⟩ :: s.answers },
              .returned call (.ok ⟨responsePayload, upstreamStatus, false⟩)))
  | .failing call id upstreamStatus failure, .next =>
      some ({ s with db := s.db.recordFailure id upstreamStatus failure.errorCode s.clock },
        .returned call (.error failure))
  | _, _ => none

def GatewayState.start : GatewayState → Bool
  | .complete _ => true
  | _ => false

/-- Calls of the gateway; the environment moves the clock. -/
def gateway (cfg : GatewayConfig) :
    Machine GatewayStore GatewayState GatewayReply Nat Empty where
  start := GatewayState.start
  stmt := GatewayState.stmt cfg
  needs _ _ _ := []
  held _ := []
  env s seconds := some { s with clock := s.clock + seconds }
  envNeeds _ _ := []
  held_start _ := rfl
  held_stmt _ _ hr := by cases hr

def emptyGateway (clock : Nat) : GatewayStore :=
  ⟨⟨.empty, .empty⟩, clock, [], []⟩

/-! ## An example -/

/-- Nine bytes of prompt and two tokens at most: eleven are reserved. -/
def samplePayload : GatewayPayload where
  model := "gpt-5-mini"
  messages := [⟨"user", "123456789"⟩]
  maxTokens := some 2
  options := []

/-- `json_encode` of the canonical form. -/
def samplePayloadJson : String :=
  "\x7b\"max_tokens\":2,\"messages\":[\x7b\"content\":\"123456789\",\"role\":\"user\"\x7d],\"model\":\"gpt-5-mini\"\x7d"

def sampleKey : String := "metered-completion-001"

/-- Around the first of October; every team may use eleven tokens a month. -/
def octoberConfig : GatewayConfig where
  enabled := true
  defaultMaxTokens := 1024
  models := [("gpt-5-mini", ⟨"openai", "gpt-5-mini"⟩)]
  providers := [("openai", ⟨"https://api.openai.com/v1", some "https", "sk-test"⟩)]
  teams _ := ⟨true, false, some (.map [("ai_gateway.enabled", .bool true),
    ("ai.tokens.monthly", .int 11)])⟩
  intOfText _ := 0
  jsonEncode _ := samplePayloadJson
  sha256 text :=
    if text = samplePayloadJson then
      "cb077457f5049272cb5ec794c59b253230b2557457c46df8b925b528b11b4ecd"
    else if text = sampleKey then
      "181090b75bfdac13b3ec7778de5161764d58783be2020ae204014991b98dde14"
    else ""
  period now := if now < 1790812800 then "2026-09" else "2026-10"

def sampleBody : Value :=
  .map [("choices", .list []), ("usage", .map [("prompt_tokens", .int 9),
    ("completion_tokens", .int 1), ("total_tokens", .int 10)])]

/-! ## What a statement can do -/

/-- The request a call has under way. -/
def GatewayState.request? : GatewayState → Option (GatewayCall × Nat)
  | .posting call id => some (call, id)
  | .awaiting call id => some (call, id)
  | .answered call id _ _ => some (call, id)
  | .failing call id _ _ => some (call, id)
  | _ => none

/-- The call has been answered by success, its own or an earlier one's. -/
def GatewayState.result? : GatewayState → Option (GatewayCall × GatewayResult)
  | .returned call (.ok result) => some (call, result)
  | _ => none

/-- A new row for a call. -/
structure GatewayRequest.IsNew (cfg : GatewayConfig) (s : GatewayStore) (call : GatewayCall)
    (r : GatewayRequest) : Prop where
  teamId : r.teamId = call.teamId
  keyHash : r.idempotencyKeyHash = call.idempotencyKey.map cfg.sha256
  requestHash : r.requestHash = cfg.requestHash call.payload
  period : r.billingPeriod = cfg.period s.clock
  reserved : r.reservedTokens = cfg.reservedTokens call.payload
  status : r.status = .pending
  fits : ∀ M, (cfg.teams call.teamId).monthlyTokenLimit = .ok (some M) →
    s.db.usedTokens call.teamId (cfg.period s.clock) +
      s.db.pendingTokens call.teamId (cfg.period s.clock) + r.reservedTokens ≤ M
  unused : s.db.existing call.teamId r.idempotencyKeyHash = none

inductive GatewayState.Effect (cfg : GatewayConfig) (s : GatewayStore) :
    GatewayState → GatewayStore → GatewayState → Prop
  | crashed (l : GatewayState) : Effect cfg s l s .crashed
  | refused (call : GatewayCall) (e : GatewayException) :
      Effect cfg s (.complete call) s (.returned call (.error e))
  | replayed {call : GatewayCall} {id : Nat} {r : GatewayRequest}
      (hexisting : s.db.existing call.teamId (call.idempotencyKey.map cfg.sha256) = some (id, r))
      (hhash : r.requestHash = cfg.requestHash call.payload) (hstatus : r.status = .succeeded) :
      Effect cfg s (.complete call) s (.returned call (.ok r.result))
  | begun {call : GatewayCall} {r : GatewayRequest} (hnew : r.IsNew cfg s call) :
      Effect cfg s (.complete call)
        { s with db := { s.db with requests := s.db.requests.insert r } }
        (.posting call s.db.requests.nextId)
  | posted (call : GatewayCall) (id : Nat) :
      Effect cfg s (.posting call id)
        { s with posts := ⟨call.teamId, call.idempotencyKey, id⟩ :: s.posts } (.awaiting call id)
  | heard {call : GatewayCall} {id : Nat} {l' : GatewayState}
      (hheard : (∃ status body, l' = .answered call id status body) ∨
        ∃ status failure, l' = .failing call id status failure) :
      Effect cfg s (.awaiting call id) s l'
  | succeeded {call : GatewayCall} {id upstreamStatus : Nat} {responsePayload : Value}
      {db : GatewayDb} (hdb : s.db.recordSuccess call.teamId id upstreamStatus responsePayload
        (cfg.usageFrom responsePayload) s.clock (cfg.period s.clock) = some db) :
      Effect cfg s (.answered call id upstreamStatus responsePayload)
        { s with db := db, answers := ⟨id, upstreamStatus, responsePayload⟩ :: s.answers }
        (.returned call (.ok ⟨responsePayload, upstreamStatus, false⟩))
  | failed (call : GatewayCall) (id : Nat) (upstreamStatus : Option Nat)
      (failure : GatewayException) :
      Effect cfg s (.failing call id upstreamStatus failure)
        { s with db := s.db.recordFailure id upstreamStatus failure.errorCode s.clock }
        (.returned call (.error failure))

variable {cfg : GatewayConfig} {s s' : GatewayStore}

theorem GatewayState.hear_cases (call : GatewayCall) (id status : Nat) (body : Value) :
    (∃ status' body', GatewayState.hear call id status body = .answered call id status' body') ∨
      ∃ status' failure, GatewayState.hear call id status body =
        .failing call id status' failure := by
  unfold GatewayState.hear
  split
  · exact Or.inr ⟨_, _, rfl⟩
  · split
    · exact Or.inr ⟨_, _, rfl⟩
    · exact Or.inl ⟨_, _, rfl⟩

/-- The transaction is reached only with the limit of the team at hand. -/
theorem GatewayStore.begin_ok {call : GatewayCall} {q : GatewayDb × Nat × GatewayRequest × Bool}
    (h : s.begin cfg call = .ok q) :
    ∃ definition limit, (cfg.teams call.teamId).monthlyTokenLimit = .ok limit ∧
      s.db.beginRequest call.teamId call.userId (call.idempotencyKey.map cfg.sha256)
        (cfg.requestHash call.payload) definition call.payload.model
        (cfg.reservedTokens call.payload) limit (cfg.period s.clock) = .ok q := by
  unfold GatewayStore.begin at h
  rw [ite_error_eq_ok] at h
  obtain ⟨-, h⟩ := h
  obtain ⟨definition, -, h⟩ := bind_eq_ok.mp h
  obtain ⟨limit, hlimit, h⟩ := bind_eq_ok.mp h
  obtain ⟨-, -, h⟩ := bind_eq_ok.mp h
  exact ⟨definition, limit, hlimit, h⟩

theorem GatewayState.stmt_begin (call : GatewayCall) :
    ∀ {l' : GatewayState}, GatewayState.stmt cfg s (.complete call) .next = some (s', l') →
      GatewayState.Effect cfg s (.complete call) s' l' := by
  intro l' h
  obtain h := Option.some.inj h
  split at h
  · next e _ =>
      obtain ⟨rfl, rfl⟩ := Prod.mk.inj h
      exact .refused call e
  · next db id record replay hbegin =>
      obtain ⟨definition, limit, hlimit, hok⟩ := GatewayStore.begin_ok hbegin
      obtain ⟨rfl, rfl⟩ := Prod.mk.inj h
      rcases GatewayDb.beginRequest_ok hok with
        ⟨rfl, rfl, hexisting, hhash, hstatus⟩ |
        ⟨rfl, hexisting, rfl, hfits, hteam, hkey, hhash, hperiod, hreserved, hstatus, rfl⟩
      · exact .replayed hexisting hhash hstatus
      · refine .begun ⟨hteam, hkey, hhash, hperiod, hreserved, hstatus, fun M hM => ?_, ?_⟩
        · rw [hreserved]
          exact hfits M (Except.ok.inj (hlimit.symm.trans hM))
        · rw [hkey]
          exact hexisting

theorem GatewayState.stmt_effect {l l' : GatewayState} {a : GatewayReply}
    (h : GatewayState.stmt cfg s l a = some (s', l')) : GatewayState.Effect cfg s l s' l' := by
  cases a with
  | crash =>
      cases l with
      | returned _ _ => cases h
      | crashed => cases h
      | _ =>
          obtain ⟨rfl, rfl⟩ := Prod.mk.inj (Option.some.inj h)
          exact .crashed _
  | unavailable =>
      cases l with
      | awaiting call id =>
          obtain ⟨rfl, rfl⟩ := Prod.mk.inj (Option.some.inj h)
          exact .heard (Or.inr ⟨_, _, rfl⟩)
      | _ => cases h
  | response status body =>
      cases l with
      | awaiting call id =>
          obtain ⟨rfl, rfl⟩ := Prod.mk.inj (Option.some.inj h)
          exact .heard (GatewayState.hear_cases call id status body)
      | _ => cases h
  | next =>
      cases l with
      | complete call => exact GatewayState.stmt_begin call h
      | posting call id =>
          obtain ⟨rfl, rfl⟩ := Prod.mk.inj (Option.some.inj h)
          exact .posted call id
      | awaiting call id => cases h
      | answered call id upstreamStatus responsePayload =>
          replace h := Option.some.inj h
          split at h
          · obtain ⟨rfl, rfl⟩ := Prod.mk.inj h
            exact .crashed _
          · next db hdb =>
              obtain ⟨rfl, rfl⟩ := Prod.mk.inj h
              exact .succeeded hdb
      | failing call id upstreamStatus failure =>
          obtain ⟨rfl, rfl⟩ := Prod.mk.inj (Option.some.inj h)
          exact .failed call id upstreamStatus failure
      | returned call outcome => cases h
      | crashed => cases h

end OnePloy
