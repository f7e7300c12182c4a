import Mathlib.Data.List.Sort
import OnePloy.Lib.Attempt
import OnePloy.Lib.PhpValue
import OnePloy.Lib.Table

/-!
# AI gateway: requests and the usage ledger

`AiGatewayService` keeps a row for every request that goes to a provider and a
ledger row for every team and month. `beginRequest`, `recordSuccess` and
`recordFailure` are its transactions; what surrounds them looks up the
configuration and reads the provider's answer.

A request is admitted against the month it begins in, `billing_period`, and
`recordSuccess` posts its tokens to the month it ends in.
-/

namespace OnePloy

open Conc Php

/-! ## Rows -/

inductive GatewayRequestStatus
  | pending | succeeded | failed
deriving DecidableEq

structure TokenUsage where
  promptTokens : Nat
  completionTokens : Nat
  totalTokens : Nat
deriving DecidableEq

def TokenUsage.add (u v : TokenUsage) : TokenUsage where
  promptTokens := u.promptTokens + v.promptTokens
  completionTokens := u.completionTokens + v.completionTokens
  totalTokens := u.totalTokens + v.totalTokens

structure GatewayRequest where
  teamId : Nat
  userId : Nat
  idempotencyKeyHash : Option String
  requestHash : String
  provider : String
  model : String
  upstreamModel : String
  billingPeriod : String
  reservedTokens : Nat
  status : GatewayRequestStatus := .pending
  upstreamStatus : Option Nat := none
  responsePayload : Option Value := none
  usage : TokenUsage := ⟨0, 0, 0⟩
  errorCode : Option String := none
  completedAt : Option Nat := none

/-- A row of the meter `ai.gateway.requests`, the only one there is. -/
structure UsageLedger where
  teamId : Nat
  period : String
  quantity : Nat
  dimensions : Option TokenUsage

structure GatewayDb where
  requests : Table GatewayRequest
  ledgers : Table UsageLedger

structure GatewayException where
  errorCode : String
  httpStatus : Nat
  message : String
deriving DecidableEq

/-! ## Configuration and entitlement -/

structure ModelDefinition where
  provider : String
  upstreamModel : String

structure ProviderDefinition where
  baseUrl : String
  /-- `parse_url($baseUrl, PHP_URL_SCHEME)`. -/
  scheme : Option String
  apiKey : String

/-- A team and the entitlements of its latest eligible subscription. -/
structure GatewayTeam where
  isTenantActive : Bool
  isPlatformTeam : Bool
  entitlements : Option Value

/-- The settings, the teams, and what the standard library does with text and
time: `(int)` of a text, `json_encode`, `hash('sha256', _)`, `format('Y-m')`. -/
structure GatewayConfig where
  enabled : Bool
  defaultMaxTokens : Int
  models : List (String × ModelDefinition)
  providers : List (String × ProviderDefinition)
  teams : Nat → GatewayTeam
  intOfText : String → Int
  jsonEncode : Value → String
  sha256 : String → String
  period : Nat → String

structure GatewayMessage where
  role : String
  content : String
deriving DecidableEq

/-- A validated payload; `options` are its other fields. -/
structure GatewayPayload where
  model : String
  messages : List GatewayMessage
  maxTokens : Option Nat
  options : List (String × Value)

def GatewayConfig.modelDefinition (cfg : GatewayConfig) (model : String) :
    Except GatewayException ModelDefinition :=
  match cfg.models.lookup model with
  | none => .error ⟨"model_not_allowed", 422, "The selected model is not available."⟩
  | some definition =>
      if blank definition.provider || blank definition.upstreamModel then
        .error ⟨"model_not_allowed", 422, "The selected model is not available."⟩
      else .ok definition

def GatewayConfig.providerDefinition (cfg : GatewayConfig) (provider : String) :
    Except GatewayException ProviderDefinition :=
  match cfg.providers.lookup provider with
  | none => .error ⟨"provider_not_configured", 503, "The AI provider is not configured."⟩
  | some definition =>
      if definition.scheme != some "https" || blank definition.apiKey then
        .error ⟨"provider_not_configured", 503, "The AI provider is not configured."⟩
      else .ok definition

/-- `AiGatewayEntitlement::monthlyTokenLimit`; null for the platform's own team. -/
def GatewayTeam.monthlyTokenLimit (team : GatewayTeam) : Except GatewayException (Option Nat) :=
  if !team.isTenantActive then
    .error ⟨"tenant_inactive", 403, "This tenant is not allowed to use the AI Gateway."⟩
  else if team.isPlatformTeam then .ok none
  else
    let entitlements := team.entitlements.getD .null
    match entitlements.child "ai_gateway.enabled" with
    | some (.bool true) =>
        match entitlements.child "ai.tokens.monthly" with
        | some (.int (.ofNat limit)) => .ok (some limit)
        | _ =>
            .error ⟨"invalid_gateway_entitlement", 503,
              "The AI Gateway subscription is not configured correctly."⟩
    | _ =>
        .error ⟨"gateway_not_entitled", 403, "An active AI Gateway subscription is required."⟩

/-! ## The request hash -/

/-- `ksort`, of keys that are not numerals. -/
def ksort (fields : List (String × Value)) : List (String × Value) :=
  fields.mergeSort fun p q => p.1 ≤ q.1

mutual
/-- The keys of every map sorted. -/
def canonicalize : Value → Value
  | .list items => .list (canonicalizeItems items)
  | .map fields => .map (ksort (canonicalizeFields fields))
  | v => v

def canonicalizeItems : List Value → List Value
  | [] => []
  | v :: vs => canonicalize v :: canonicalizeItems vs

def canonicalizeFields : List (String × Value) → List (String × Value)
  | [] => []
  | p :: ps => canonicalizeField p :: canonicalizeFields ps

def canonicalizeField : String × Value → String × Value
  | (key, v) => (key, canonicalize v)
end

def GatewayMessage.toValue (message : GatewayMessage) : Value :=
  .map [("role", .string message.role), ("content", .string message.content)]

/-- `max_tokens ??= ...`. -/
def GatewayConfig.maxTokens (cfg : GatewayConfig) (payload : GatewayPayload) : Nat :=
  payload.maxTokens.getD (max 1 (min 32768 cfg.defaultMaxTokens)).toNat

def GatewayConfig.requestHash (cfg : GatewayConfig) (payload : GatewayPayload) : String :=
  cfg.sha256 (cfg.jsonEncode (canonicalize (.map ([("model", .string payload.model),
    ("messages", .list (payload.messages.map GatewayMessage.toValue)),
    ("max_tokens", .int (cfg.maxTokens payload))] ++ payload.options))))

/-- `strlen` counts bytes. -/
def GatewayConfig.reservedTokens (cfg : GatewayConfig) (payload : GatewayPayload) : Nat :=
  (payload.messages.map (·.content.utf8ByteSize)).sum + cfg.maxTokens payload

/-! ## beginRequest -/

/-- What an earlier request answers to one with the same key. -/
def GatewayRequest.answer (existing : GatewayRequest) (requestHash : String) :
    Except GatewayException GatewayRequest :=
  if existing.requestHash ≠ requestHash then
    .error ⟨"idempotency_conflict", 409,
      "The idempotency key was already used for a different request."⟩
  else if existing.status = .succeeded ∧ existing.responsePayload.any Value.isArray then
    .ok existing
  else if existing.status = .failed then
    .error ⟨((existing.errorCode.filter fun c => c ≠ "" ∧ c ≠ "0").getD "upstream_error"), 502,
      "The previous request with this idempotency key failed."⟩
  else
    .error ⟨"request_in_progress", 409,
      "A request with this idempotency key is already in progress."⟩

namespace GatewayDb

variable (db : GatewayDb)

/-- The request a team has made under a key. -/
def existing (teamId : Nat) (keyHash : Option String) : Option (Nat × GatewayRequest) :=
  keyHash.bind fun h =>
    db.requests.first? fun _ r => r.teamId == teamId && r.idempotencyKeyHash == some h

def ledger (teamId : Nat) (period : String) : Option (Nat × UsageLedger) :=
  db.ledgers.first? fun _ l => l.teamId == teamId && l.period == period

def usedTokens (teamId : Nat) (period : String) : Nat :=
  (((db.ledger teamId period).bind fun q => q.2.dimensions).map (·.totalTokens)).getD 0

def pendingTokens (teamId : Nat) (period : String) : Nat :=
  db.requests.sumWhere (fun _ r => r.teamId == teamId && r.billingPeriod == period &&
    r.status == .pending) (·.reservedTokens)

/-- The transaction, under the lock of the team: a new request, or the earlier
one to be replayed. -/
def beginRequest (teamId userId : Nat) (keyHash : Option String) (requestHash : String)
    (definition : ModelDefinition) (model : String) (reservedTokens : Nat)
    (monthlyTokenLimit : Option Nat) (billingPeriod : String) :
    Except GatewayException (GatewayDb × Nat × GatewayRequest × Bool) :=
  match db.existing teamId keyHash with
  | some (id, existing) => do
      let record ← existing.answer requestHash
      .ok (db, id, record, true)
  | none =>
      if monthlyTokenLimit.any fun limit => decide (limit <
          db.usedTokens teamId billingPeriod + db.pendingTokens teamId billingPeriod +
            reservedTokens) then
        .error ⟨"monthly_token_budget_exhausted", 429, "The monthly AI token budget is exhausted."⟩
      else
        let record : GatewayRequest := {
          teamId := teamId
          userId := userId
          idempotencyKeyHash := keyHash
          requestHash := requestHash
          provider := definition.provider
          model := model
          upstreamModel := definition.upstreamModel
          billingPeriod := billingPeriod
          reservedTokens := reservedTokens }
        .ok ({ db with requests := db.requests.insert record }, db.requests.nextId, record, false)

end GatewayDb

/-! ## recordSuccess and recordFailure -/

/-- `(int) $v`. -/
def GatewayConfig.intval (cfg : GatewayConfig) : Value → Int
  | .null => 0
  | .bool b => if b then 1 else 0
  | .int n => n
  | .float text => cfg.intOfText text
  | .string s => cfg.intOfText s
  | .list items => if items.isEmpty then 0 else 1
  | .map fields => if fields.isEmpty then 0 else 1

def GatewayConfig.usageFrom (cfg : GatewayConfig) (responsePayload : Value) : TokenUsage :=
  let tokens := fun (field : String) (default : Nat) =>
    (max 0 (cfg.intval (responsePayload.dataGetOr (.int default) ["usage", field]))).toNat
  let promptTokens := tokens "prompt_tokens" 0
  let completionTokens := tokens "completion_tokens" 0
  { promptTokens := promptTokens
    completionTokens := completionTokens
    totalTokens := tokens "total_tokens" (promptTokens + completionTokens) }

/-- One more request, and its tokens. -/
def UsageLedger.post (l : UsageLedger) (usage : TokenUsage) : UsageLedger :=
  { l with
    quantity := l.quantity + 1
    dimensions := some ((l.dimensions.getD ⟨0, 0, 0⟩).add usage) }

@[simp] theorem UsageLedger.post_teamId (l : UsageLedger) (usage : TokenUsage) :
    (l.post usage).teamId = l.teamId := rfl

@[simp] theorem UsageLedger.post_period (l : UsageLedger) (usage : TokenUsage) :
    (l.post usage).period = l.period := rfl

def GatewayRequest.succeed (r : GatewayRequest) (upstreamStatus : Nat) (responsePayload : Value)
    (usage : TokenUsage) (now : Nat) : GatewayRequest :=
  { r with
    status := .succeeded
    upstreamStatus := some upstreamStatus
    responsePayload := some responsePayload
    usage := usage
    completedAt := some now }

def GatewayRequest.fail (r : GatewayRequest) (upstreamStatus : Option Nat) (errorCode : String)
    (now : Nat) : GatewayRequest :=
  { r with
    status := .failed
    upstreamStatus := upstreamStatus
    errorCode := some errorCode
    completedAt := some now }

namespace GatewayDb

variable (db : GatewayDb)

/-- `firstOrCreate`, and the update of the row. -/
def postUsage (teamId : Nat) (period : String) (usage : TokenUsage) : GatewayDb :=
  match db.ledger teamId period with
  | some (id, _) => { db with ledgers := db.ledgers.modify id (·.post usage) }
  | none =>
      let ledger : UsageLedger := ⟨teamId, period, 0, some ⟨0, 0, 0⟩⟩
      { db with ledgers := db.ledgers.insert (ledger.post usage) }

/-- The transaction, under the lock of the team; `none` where the request is
not found. -/
def recordSuccess (teamId id upstreamStatus : Nat) (responsePayload : Value) (usage : TokenUsage)
    (now : Nat) (period : String) : Option GatewayDb :=
  (db.requests.get? id).map fun _ =>
    let requests := db.requests.modify id (·.succeed upstreamStatus responsePayload usage now)
    GatewayDb.postUsage { db with requests := requests } teamId period usage

def recordFailure (id : Nat) (upstreamStatus : Option Nat) (errorCode : String) (now : Nat) :
    GatewayDb :=
  { db with requests := db.requests.modify id (·.fail upstreamStatus errorCode now) }

end GatewayDb

/-! ## What the transactions do -/

variable {db db' : GatewayDb}

namespace GatewayDb

theorem existing_some {teamId : Nat} {keyHash : Option String} {q : Nat × GatewayRequest}
    (h : db.existing teamId keyHash = some q) :
    db.requests.get? q.1 = some q.2 ∧ q.2.teamId = teamId ∧ q.2.idempotencyKeyHash = keyHash ∧
      keyHash ≠ none := by
  obtain ⟨k, rfl, hfirst⟩ := Option.bind_eq_some_iff.mp h
  obtain ⟨hget, hq⟩ := Table.first?_some hfirst
  rw [Bool.and_eq_true, beq_iff_eq, beq_iff_eq] at hq
  exact ⟨hget, hq.1, hq.2, Option.some_ne_none k⟩

theorem existing_none {teamId : Nat} {k : String} (h : db.existing teamId (some k) = none)
    {id : Nat} {r : GatewayRequest} (hget : db.requests.get? id = some r)
    (hteam : r.teamId = teamId) : r.idempotencyKeyHash ≠ some k := by
  intro hkey
  have hfirst : db.requests.first? (fun _ r => r.teamId == teamId &&
    r.idempotencyKeyHash == some k) = none := h
  have := Table.first?_none hfirst hget
  rw [hteam, hkey] at this
  simp at this

/-- A transaction that begins a request replays a row it leaves alone, or adds
a pending one that fits the budget. -/
theorem beginRequest_ok {teamId userId : Nat} {keyHash : Option String} {requestHash : String}
    {definition : ModelDefinition} {model : String} {reservedTokens : Nat}
    {limit : Option Nat} {period : String} {id : Nat} {record : GatewayRequest} {replay : Bool}
    (h : db.beginRequest teamId userId keyHash requestHash definition model reservedTokens limit
      period = .ok (db', id, record, replay)) :
    (replay = true ∧ db' = db ∧ db.existing teamId keyHash = some (id, record) ∧
      record.requestHash = requestHash ∧ record.status = .succeeded) ∨
    (replay = false ∧ db.existing teamId keyHash = none ∧ id = db.requests.nextId ∧
      (∀ M, limit = some M →
        db.usedTokens teamId period + db.pendingTokens teamId period + reservedTokens ≤ M) ∧
      record.teamId = teamId ∧ record.idempotencyKeyHash = keyHash ∧
      record.requestHash = requestHash ∧ record.billingPeriod = period ∧
      record.reservedTokens = reservedTokens ∧ record.status = .pending ∧
      db' = { db with requests := db.requests.insert record }) := by
  unfold beginRequest at h
  split at h
  · next id' existing hexisting =>
      obtain ⟨r, hr, hok⟩ := bind_eq_ok.mp h
      obtain ⟨rfl, rfl, rfl, rfl⟩ : db = db' ∧ id' = id ∧ r = record ∧ true = replay := by
        simpa using hok
      unfold GatewayRequest.answer at hr
      split_ifs at hr with hhash hstatus
      obtain rfl := Except.ok.inj hr
      exact Or.inl ⟨rfl, rfl, hexisting, not_not.mp hhash, hstatus.1⟩
  · next hexisting =>
      split at h
      · cases h
      · next hlimit =>
          obtain ⟨rfl, rfl, rfl, rfl⟩ := by simpa using h
          refine Or.inr ⟨rfl, hexisting, rfl, fun M hM => ?_, rfl, rfl, rfl, rfl, rfl, rfl, rfl⟩
          subst hM
          simpa using hlimit

/-- Posting to one month leaves what is used of the others. -/
theorem usedTokens_postUsage (db : GatewayDb) (teamId : Nat) (period : String)
    (usage : TokenUsage) (t : Nat) (p : String) :
    (db.postUsage teamId period usage).usedTokens t p
      = db.usedTokens t p + if t = teamId ∧ p = period then usage.totalTokens else 0 := by
  unfold postUsage
  split
  · next id l hledger =>
      obtain ⟨hget, hl⟩ := Table.first?_some hledger
      simp only [Bool.and_eq_true, beq_iff_eq] at hl
      simp only [usedTokens, ledger, Table.modify]
      rw [Table.first?_updateWhere fun _ _ => by rfl]
      split
      · next heq =>
          obtain ⟨rfl, rfl⟩ := heq
          have hfirst : db.ledgers.first? (fun _ l => l.teamId == t && l.period == p)
            = some (id, l) := hledger
          rw [hfirst]
          cases hdim : l.dimensions <;> simp [UsageLedger.post, TokenUsage.add, hdim]
      · next hne =>
          cases hfirst : db.ledgers.first? (fun _ l => l.teamId == t && l.period == p) with
          | none => rfl
          | some q =>
              obtain ⟨hq, hkey⟩ := Table.first?_some hfirst
              simp only [Bool.and_eq_true, beq_iff_eq] at hkey
              have hid : q.1 ≠ id := by
                rintro rfl
                obtain rfl := Option.some.inj (hget.symm.trans hq)
                exact hne ⟨hkey.1.symm.trans hl.1, hkey.2.symm.trans hl.2⟩
              simp [hid]
  · next hledger =>
      have hfirst : db.ledgers.first? (fun _ l => l.teamId == teamId && l.period == period)
        = none := hledger
      simp only [usedTokens, ledger]
      rw [Table.first?_insert]
      by_cases heq : t = teamId ∧ p = period
      · obtain ⟨rfl, rfl⟩ := heq
        rw [hfirst]
        simp [UsageLedger.post, TokenUsage.add]
      · have hkey : (teamId == t && period == p) = false := by
          rw [Bool.and_eq_false_iff, beq_eq_false_iff_ne, beq_eq_false_iff_ne]
          by_cases ht : teamId = t
          · exact Or.inr fun hp => heq ⟨ht.symm, hp.symm⟩
          · exact Or.inl ht
        simp [hkey, heq]

/-- An aggregate of a team's ledger that a posting moves by a fixed amount. -/
theorem sumWhere_postUsage (db : GatewayDb) (teamId : Nat) (period : String)
    (usage : TokenUsage) {f : UsageLedger → Nat} {c : Nat}
    (hpost : ∀ l, f (l.post usage) = f l + c) (hnew : ∀ t p, f ⟨t, p, 0, some ⟨0, 0, 0⟩⟩ = 0)
    (t : Nat) :
    (db.postUsage teamId period usage).ledgers.sumWhere (fun _ l => l.teamId == t) f
      = db.ledgers.sumWhere (fun _ l => l.teamId == t) f + if teamId = t then c else 0 := by
  unfold postUsage
  split
  · next id l hledger =>
      obtain ⟨hget, hl⟩ := Table.first?_some hledger
      simp only [Bool.and_eq_true, beq_iff_eq] at hl
      have hsum : (db.ledgers.modify id (·.post usage)).sumWhere (fun _ l => l.teamId == t) f + _
          = _ := Table.sumWhere_modify (·.post usage) hget
      simp only [UsageLedger.post_teamId, hl.1, hpost, beq_iff_eq] at hsum
      dsimp only
      split
      · next hteam =>
          rw [if_pos hteam, if_pos hteam] at hsum
          omega
      · next hteam =>
          rw [if_neg hteam, if_neg hteam] at hsum
          omega
  · rw [Table.sumWhere_insert, hpost, hnew]
    simp

end GatewayDb

end OnePloy
