import OnePloy.AiGatewayCalls

/-!
# One request per key, and what the ledger adds up to

The invariant over all interleavings of `complete`: a team has one request per
key, a request has been posted at most once and only by the call that has it
under way, what has been recorded of its answer is in its row, and the ledger
adds up to the requests that have succeeded.
-/

namespace OnePloy

open Conc Php

variable {cfg : GatewayConfig} {s s' : GatewayStore} {l l' : GatewayState}

/-! ## Sums -/

/-- What is added up. -/
inductive UsageMeter
  | quantity | promptTokens | completionTokens | totalTokens

def UsageMeter.ofUsage : UsageMeter → TokenUsage → Nat
  | .quantity, _ => 1
  | .promptTokens, u => u.promptTokens
  | .completionTokens, u => u.completionTokens
  | .totalTokens, u => u.totalTokens

def UsageMeter.ofLedger : UsageMeter → UsageLedger → Nat
  | .quantity, l => l.quantity
  | m, l => m.ofUsage (l.dimensions.getD ⟨0, 0, 0⟩)

/-- A team's ledger, over all periods. -/
def GatewayDb.ledgerSum (db : GatewayDb) (m : UsageMeter) (teamId : Nat) : Nat :=
  db.ledgers.sumWhere (fun _ l => l.teamId == teamId) m.ofLedger

/-- A team's succeeded requests, each counted once. -/
def GatewayDb.requestSum (db : GatewayDb) (m : UsageMeter) (teamId : Nat) : Nat :=
  db.requests.sumWhere (fun _ r => r.teamId == teamId && r.status == .succeeded)
    fun r => m.ofUsage r.usage

theorem UsageMeter.ofLedger_post (m : UsageMeter) (l : UsageLedger) (usage : TokenUsage) :
    m.ofLedger (l.post usage) = m.ofLedger l + m.ofUsage usage := by
  cases m <;> rfl

theorem GatewayDb.ledgerSum_postUsage (db : GatewayDb) (m : UsageMeter) (teamId : Nat)
    (period : String) (usage : TokenUsage) (t : Nat) :
    (db.postUsage teamId period usage).ledgerSum m t
      = db.ledgerSum m t + if teamId = t then m.ofUsage usage else 0 :=
  db.sumWhere_postUsage teamId period usage (fun l => m.ofLedger_post l usage)
    (fun _ _ => by cases m <;> rfl) t

@[simp] theorem GatewayDb.postUsage_requests (db : GatewayDb) (teamId : Nat) (period : String)
    (usage : TokenUsage) : (db.postUsage teamId period usage).requests = db.requests := by
  unfold GatewayDb.postUsage
  split <;> rfl

/-- A request that has not succeeded adds nothing, before and after it fails. -/
theorem GatewayDb.requestSum_fail {db : GatewayDb} {id : Nat} {r : GatewayRequest}
    (hget : db.requests.get? id = some r) (hpending : r.status = .pending) (m : UsageMeter)
    (t : Nat) (upstreamStatus : Option Nat) (errorCode : String) (now : Nat) :
    (db.recordFailure id upstreamStatus errorCode now).requestSum m t = db.requestSum m t := by
  have hsum : (db.recordFailure id upstreamStatus errorCode now).requestSum m t + _
      = db.requestSum m t + _ :=
    Table.sumWhere_modify (·.fail upstreamStatus errorCode now) hget
  have hfailed : (r.fail upstreamStatus errorCode now).status = .failed := rfl
  simpa [hpending, hfailed] using hsum

theorem GatewayDb.requestSum_succeed {db : GatewayDb} {id : Nat} {r : GatewayRequest}
    (hget : db.requests.get? id = some r) (hpending : r.status = .pending) (m : UsageMeter)
    (t upstreamStatus : Nat) (responsePayload : Value) (usage : TokenUsage) (now : Nat) :
    GatewayDb.requestSum
        ⟨db.requests.modify id (·.succeed upstreamStatus responsePayload usage now), db.ledgers⟩ m t
      = db.requestSum m t + if r.teamId = t then m.ofUsage usage else 0 := by
  have hsum : GatewayDb.requestSum
        ⟨db.requests.modify id (·.succeed upstreamStatus responsePayload usage now), db.ledgers⟩ m t
          + _
      = db.requestSum m t + _ :=
    Table.sumWhere_modify (·.succeed upstreamStatus responsePayload usage now) hget
  have hteam : (r.succeed upstreamStatus responsePayload usage now).teamId = r.teamId := rfl
  have hstatus : (r.succeed upstreamStatus responsePayload usage now).status = .succeeded := rfl
  have husage : (r.succeed upstreamStatus responsePayload usage now).usage = usage := rfl
  simpa [hpending, hteam, hstatus, husage] using hsum

/-! ## The invariant -/

def GatewayRequest.key (r : GatewayRequest) : Option (Nat × String) :=
  r.idempotencyKeyHash.map (r.teamId, ·)

/-- The row is the call's. -/
structure GatewayRequest.Of (cfg : GatewayConfig) (call : GatewayCall) (r : GatewayRequest) :
    Prop where
  teamId : r.teamId = call.teamId
  keyHash : r.idempotencyKeyHash = call.idempotencyKey.map cfg.sha256
  requestHash : r.requestHash = cfg.requestHash call.payload

structure GatewayStore.Sound (cfg : GatewayConfig) (s : GatewayStore) : Prop where
  unique : s.db.requests.Unique GatewayRequest.key
  posted : ∀ p ∈ s.posts, ∃ r, s.db.requests.get? p.requestId = some r ∧ r.teamId = p.teamId ∧
    r.idempotencyKeyHash = p.idempotencyKey.map cfg.sha256
  once : (s.posts.map (·.requestId)).Nodup
  recorded : ∀ a ∈ s.answers, (∃ r, s.db.requests.get? a.requestId = some r ∧
    r.status = .succeeded ∧ r.upstreamStatus = some a.upstreamStatus ∧
    r.responsePayload = some a.responsePayload) ∧ ∃ p ∈ s.posts, p.requestId = a.requestId
  answered : ∀ {id r}, s.db.requests.get? id = some r → r.status = .succeeded →
    ∃ a ∈ s.answers, a.requestId = id
  accounted : ∀ m t, s.db.ledgerSum m t = s.db.requestSum m t

/-- The row a call has under way is pending. -/
def GatewayStore.Owns (cfg : GatewayConfig) (s : GatewayStore) (call : GatewayCall) (id : Nat) :
    Prop :=
  ∃ r, s.db.requests.get? id = some r ∧ r.Of cfg call ∧ r.status = .pending ∧
    r.reservedTokens = cfg.reservedTokens call.payload

/-- The result is what has been recorded of the one request of the call. -/
def GatewayStore.Answers (cfg : GatewayConfig) (s : GatewayStore) (call : GatewayCall)
    (result : GatewayResult) : Prop :=
  ∃ a ∈ s.answers, a.upstreamStatus = result.status ∧ a.responsePayload = result.payload ∧
    ∃ r, s.db.requests.get? a.requestId = some r ∧ r.Of cfg call

def GatewayState.isPosting : GatewayState → Bool
  | .posting _ _ => true
  | _ => false

structure GatewayState.Sound (cfg : GatewayConfig) (l : GatewayState) (s : GatewayStore) :
    Prop where
  owns : ∀ {call id}, l.request? = some (call, id) → s.Owns cfg call id
  posted : ∀ {call id}, l.request? = some (call, id) →
    (l.isPosting = false ↔ ∃ p ∈ s.posts, p.requestId = id)
  result : ∀ {call result}, l.result? = some (call, result) → s.Answers cfg call result

/-- No request is under way twice. -/
def GatewayState.Apart (l m : GatewayState) : Prop :=
  ∀ {call call' id}, l.request? = some (call, id) → m.request? ≠ some (call', id)

def gatewayAssertions (cfg : GatewayConfig) : Machine.Assertions GatewayStore GatewayState where
  store := GatewayStore.Sound cfg
  at_ := GatewayState.Sound cfg
  pair := GatewayState.Apart

/-! ## What a statement leaves alone -/

theorem GatewayDb.recordSuccess_some {db db' : GatewayDb} {teamId id upstreamStatus now : Nat}
    {responsePayload : Value} {usage : TokenUsage} {period : String}
    (h : db.recordSuccess teamId id upstreamStatus responsePayload usage now period = some db') :
    db' = GatewayDb.postUsage
      ⟨db.requests.modify id (·.succeed upstreamStatus responsePayload usage now), db.ledgers⟩
      teamId period usage := by
  obtain ⟨_, -, rfl⟩ := Option.map_eq_some_iff.mp h
  rfl

namespace GatewayState.Effect

/-- A row changes only for the call that has it under way. -/
theorem frame (h : GatewayState.Effect cfg s l s' l') {j : Nat} {r : GatewayRequest}
    (hget : s.db.requests.get? j = some r) (hne : ∀ call, l.request? ≠ some (call, j)) :
    s'.db.requests.get? j = some r := by
  cases h with
  | crashed _ => exact hget
  | refused _ _ => exact hget
  | replayed _ _ _ => exact hget
  | begun _ => exact Table.get?_insert_of_some _ hget
  | posted _ _ => exact hget
  | heard _ => exact hget
  | @succeeded call id upstreamStatus responsePayload db hdb =>
      have hj : j ≠ id := fun hj => hne call (by rw [hj]; rfl)
      rw [GatewayDb.recordSuccess_some hdb, GatewayDb.postUsage_requests]
      exact (Table.get?_modify_ne _ hj).trans hget
  | failed call id _ _ =>
      have hj : j ≠ id := fun hj => hne call (by rw [hj]; rfl)
      exact (Table.get?_modify_ne _ hj).trans hget

/-- What is under way was, or is new. -/
theorem request? (h : GatewayState.Effect cfg s l s' l') {call : GatewayCall} {id : Nat}
    (hrequest : l'.request? = some (call, id)) :
    l.request? = some (call, id) ∨ id = s.db.requests.nextId := by
  cases h with
  | crashed _ => cases hrequest
  | refused _ _ => cases hrequest
  | replayed _ _ _ => cases hrequest
  | begun _ =>
      obtain ⟨-, rfl⟩ := Prod.mk.inj (Option.some.inj hrequest)
      exact Or.inr rfl
  | posted _ _ => exact Or.inl hrequest
  | heard hheard =>
      obtain ⟨_, _, rfl⟩ | ⟨_, _, rfl⟩ := hheard
      · exact Or.inl hrequest
      · exact Or.inl hrequest
  | succeeded _ => cases hrequest
  | failed _ _ _ _ => cases hrequest

/-- A posting is new only for the call that has made it. -/
theorem posts (h : GatewayState.Effect cfg s l s' l') {p : GatewayPost} (hp : p ∈ s'.posts) :
    p ∈ s.posts ∨ ∃ call, l.request? = some (call, p.requestId) ∧ l'.isPosting = false ∧
      l'.request? = l.request? := by
  cases h with
  | crashed _ => exact Or.inl hp
  | refused _ _ => exact Or.inl hp
  | replayed _ _ _ => exact Or.inl hp
  | begun _ => exact Or.inl hp
  | posted call id =>
      rcases List.mem_cons.mp hp with rfl | hp
      · exact Or.inr ⟨call, rfl, rfl, rfl⟩
      · exact Or.inl hp
  | heard _ => exact Or.inl hp
  | succeeded _ => exact Or.inl hp
  | failed _ _ _ _ => exact Or.inl hp

theorem posts_mono (h : GatewayState.Effect cfg s l s' l') {p : GatewayPost} (hp : p ∈ s.posts) :
    p ∈ s'.posts := by
  cases h with
  | posted _ _ => exact List.mem_cons_of_mem _ hp
  | _ => exact hp

theorem answers_mono (h : GatewayState.Effect cfg s l s' l') {a : GatewayAnswer}
    (ha : a ∈ s.answers) : a ∈ s'.answers := by
  cases h with
  | succeeded _ => exact List.mem_cons_of_mem _ ha
  | _ => exact ha

end GatewayState.Effect

/-! ## Obligations -/

theorem GatewayStore.Owns.ne {call : GatewayCall} {id j : Nat} (h : s.Owns cfg call id)
    {r : GatewayRequest} (hget : s.db.requests.get? j = some r) (hstatus : r.status ≠ .pending) :
    j ≠ id := by
  rintro rfl
  obtain ⟨r', hget', -, hpending, -⟩ := h
  obtain rfl := Option.some.inj (hget.symm.trans hget')
  exact hstatus hpending

/-- A row that is no longer pending stays as it is. -/
theorem GatewayState.Effect.settled (h : GatewayState.Effect cfg s l s' l')
    (hl : l.Sound cfg s) {j : Nat} {r : GatewayRequest} (hget : s.db.requests.get? j = some r)
    (hstatus : r.status ≠ .pending) : s'.db.requests.get? j = some r :=
  h.frame hget fun _ hrequest => (hl.owns hrequest).ne hget hstatus rfl

theorem GatewayStore.Answers.kept (hs : s.Sound cfg) (h : GatewayState.Effect cfg s l s' l')
    (hl : l.Sound cfg s) {call : GatewayCall} {result : GatewayResult}
    (hr : s.Answers cfg call result) : s'.Answers cfg call result := by
  obtain ⟨a, ha, hstatus, hpayload, r, hget, hof⟩ := hr
  obtain ⟨⟨r', hget', hsucceeded, -, -⟩, -⟩ := hs.recorded a ha
  obtain rfl := Option.some.inj (hget.symm.trans hget')
  refine ⟨a, h.answers_mono ha, hstatus, hpayload, r, h.settled hl hget ?_, hof⟩
  rw [hsucceeded]
  nofun

/-- What is recorded and posted survives a statement that adds nothing to it. -/
theorem GatewayStore.Sound.recorded_kept (hs : s.Sound cfg)
    (h : GatewayState.Effect cfg s l s' l') (hl : l.Sound cfg s) {a : GatewayAnswer}
    (ha : a ∈ s.answers) : (∃ r, s'.db.requests.get? a.requestId = some r ∧
      r.status = .succeeded ∧ r.upstreamStatus = some a.upstreamStatus ∧
      r.responsePayload = some a.responsePayload) ∧ ∃ p ∈ s'.posts, p.requestId = a.requestId := by
  obtain ⟨⟨r, hget, hsucceeded, hrow⟩, p, hp, hid⟩ := hs.recorded a ha
  refine ⟨⟨r, h.settled hl hget ?_, hsucceeded, hrow⟩, p, h.posts_mono hp, hid⟩
  rw [hsucceeded]
  nofun

/-! The store, one kind of statement after the other. -/

theorem GatewayRequest.IsNew.key_free {call : GatewayCall} {r : GatewayRequest}
    (h : r.IsNew cfg s call) {i : Nat} {r' : GatewayRequest} {k : Nat × String}
    (hget : s.db.requests.get? i = some r') (hk : r.key = some k) : r'.key ≠ some k := by
  intro hk'
  obtain ⟨hash, hr, rfl⟩ := Option.map_eq_some_iff.mp hk
  obtain ⟨hash', hr', heq⟩ := Option.map_eq_some_iff.mp hk'
  obtain ⟨hteam, rfl⟩ := Prod.mk.inj heq
  have hunused := h.unused
  rw [hr] at hunused
  exact GatewayDb.existing_none hunused hget (hteam.trans h.teamId) hr'

theorem GatewayStore.Sound.begun (hs : s.Sound cfg) {call : GatewayCall} {r : GatewayRequest}
    (hnew : r.IsNew cfg s call) :
    GatewayStore.Sound cfg { s with db := { s.db with requests := s.db.requests.insert r } } where
  unique := Table.Unique.insert hs.unique fun _ _ _ hget hk => hnew.key_free hget hk
  posted p hp := by
    obtain ⟨r', hget, hteam, hkey⟩ := hs.posted p hp
    exact ⟨r', Table.get?_insert_of_some _ hget, hteam, hkey⟩
  once := hs.once
  recorded a ha := by
    obtain ⟨⟨r', hget, hrow⟩, hp⟩ := hs.recorded a ha
    exact ⟨⟨r', Table.get?_insert_of_some _ hget, hrow⟩, hp⟩
  answered {id r'} hget hstatus := by
    rw [Table.get?_insert] at hget
    split at hget
    · obtain rfl := Option.some.inj hget
      rw [hnew.status] at hstatus
      cases hstatus
    · exact hs.answered hget hstatus
  accounted m t := by
    have hsum : GatewayDb.requestSum ⟨s.db.requests.insert r, s.db.ledgers⟩ m t
      = s.db.requestSum m t + _ := Table.sumWhere_insert ..
    rw [hnew.status] at hsum
    simp only [Bool.and_eq_true, beq_iff_eq, reduceCtorEq, and_false, if_false] at hsum
    exact (hs.accounted m t).trans hsum.symm

theorem GatewayStore.Sound.post (hs : s.Sound cfg) {call : GatewayCall} {id : Nat}
    (howns : s.Owns cfg call id) (hunposted : ∀ p ∈ s.posts, p.requestId ≠ id) :
    GatewayStore.Sound cfg
      { s with posts := ⟨call.teamId, call.idempotencyKey, id⟩ :: s.posts } where
  unique := hs.unique
  posted p hp := by
    rcases List.mem_cons.mp hp with rfl | hp
    · obtain ⟨r, hget, hof, -⟩ := howns
      exact ⟨r, hget, hof.teamId, hof.keyHash⟩
    · exact hs.posted p hp
  once := by
    rw [List.map_cons, List.nodup_cons]
    refine ⟨fun hmem => ?_, hs.once⟩
    obtain ⟨p, hp, hid⟩ := List.mem_map.mp hmem
    exact hunposted p hp hid
  recorded a ha := by
    obtain ⟨hrow, p, hp, hid⟩ := hs.recorded a ha
    exact ⟨hrow, p, List.mem_cons_of_mem _ hp, hid⟩
  answered := hs.answered
  accounted := hs.accounted

/-- Keys and postings, where a row changes but not whose it is. -/
theorem GatewayStore.Sound.modify (hs : s.Sound cfg) {requests : Table GatewayRequest} {id : Nat}
    {f : GatewayRequest → GatewayRequest} (hrequests : requests = s.db.requests.modify id f)
    (hteam : ∀ r, (f r).teamId = r.teamId)
    (hkey : ∀ r, (f r).idempotencyKeyHash = r.idempotencyKeyHash) :
    requests.Unique GatewayRequest.key ∧
    ∀ p ∈ s.posts, ∃ r, requests.get? p.requestId = some r ∧
      r.teamId = p.teamId ∧ r.idempotencyKeyHash = p.idempotencyKey.map cfg.sha256 := by
  subst hrequests
  refine ⟨Table.Unique.modify hs.unique fun r => ?_, fun p hp => ?_⟩
  · rw [GatewayRequest.key, GatewayRequest.key, hteam, hkey]
  · obtain ⟨r, hget, hrow⟩ := hs.posted p hp
    rw [Table.get?_modify, hget]
    split
    · exact ⟨f r, rfl, by rw [hteam, hkey]; exact hrow⟩
    · exact ⟨r, rfl, hrow⟩

theorem GatewayStore.Sound.succeeded (hs : s.Sound cfg)
    (h : GatewayState.Effect cfg s l s' l') (hl : l.Sound cfg s)
    {call : GatewayCall} {id upstreamStatus : Nat} {responsePayload : Value} {db : GatewayDb}
    (hanswered : l = .answered call id upstreamStatus responsePayload)
    (hdb : s.db.recordSuccess call.teamId id upstreamStatus responsePayload
      (cfg.usageFrom responsePayload) s.clock (cfg.period s.clock) = some db)
    (hs' : s' = { s with
      db := db, answers := ⟨id, upstreamStatus, responsePayload⟩ :: s.answers }) :
    s'.Sound cfg := by
  subst hanswered
  obtain ⟨r, hget, hof, hpending, -⟩ := hl.owns rfl
  have hrequests : s'.db.requests = s.db.requests.modify id (·.succeed upstreamStatus
      responsePayload (cfg.usageFrom responsePayload) s.clock) := by
    rw [hs', GatewayDb.recordSuccess_some hdb, GatewayDb.postUsage_requests]
  have hanswers : s'.answers = ⟨id, upstreamStatus, responsePayload⟩ :: s.answers := by rw [hs']
  have hposts : s'.posts = s.posts := by rw [hs']
  obtain ⟨hunique, hposted⟩ := hs.modify hrequests (fun _ => rfl) fun _ => rfl
  refine ⟨hunique, hposts ▸ hposted, hposts ▸ hs.once, fun a ha => ?_,
    fun {j r'} hget' hstatus => ?_, fun m t => ?_⟩
  · rw [hanswers] at ha
    rcases List.mem_cons.mp ha with rfl | ha
    · refine ⟨⟨_, hrequests ▸ Table.get?_modify_self _ hget, rfl, rfl, rfl⟩, ?_⟩
      rw [hposts]
      exact (hl.posted rfl).mp rfl
    · exact hs.recorded_kept h hl ha
  · rw [hanswers]
    by_cases hid : j = id
    · exact ⟨_, List.mem_cons_self .., hid.symm⟩
    · rw [hrequests, Table.get?_modify_ne _ hid] at hget'
      obtain ⟨a, ha, haid⟩ := hs.answered hget' hstatus
      exact ⟨a, List.mem_cons_of_mem _ ha, haid⟩
  · have hledger : s'.db.ledgerSum m t
        = s.db.ledgerSum m t + if call.teamId = t then m.ofUsage (cfg.usageFrom responsePayload)
          else 0 := by
      rw [hs', GatewayDb.recordSuccess_some hdb, GatewayDb.ledgerSum_postUsage]
      rfl
    have hrequest : s'.db.requestSum m t
        = s.db.requestSum m t + if r.teamId = t then m.ofUsage (cfg.usageFrom responsePayload)
          else 0 := by
      rw [← GatewayDb.requestSum_succeed hget hpending m t upstreamStatus responsePayload
        (cfg.usageFrom responsePayload) s.clock, GatewayDb.requestSum, hrequests]
      rfl
    rw [hledger, hrequest, hs.accounted, hof.teamId]

theorem GatewayStore.Sound.failed (hs : s.Sound cfg)
    (h : GatewayState.Effect cfg s l s' l') (hl : l.Sound cfg s)
    {call : GatewayCall} {id : Nat} {upstreamStatus : Option Nat} {failure : GatewayException}
    (hfailing : l = .failing call id upstreamStatus failure)
    (hs' : s' = { s with
      db := s.db.recordFailure id upstreamStatus failure.errorCode s.clock }) :
    s'.Sound cfg := by
  subst hfailing
  obtain ⟨r, hget, hof, hpending, -⟩ := hl.owns rfl
  have hrequests : s'.db.requests =
      s.db.requests.modify id (·.fail upstreamStatus failure.errorCode s.clock) := by
    rw [hs']
    rfl
  have hanswers : s'.answers = s.answers := by rw [hs']
  have hposts : s'.posts = s.posts := by rw [hs']
  obtain ⟨hunique, hposted⟩ := hs.modify hrequests (fun _ => rfl) fun _ => rfl
  refine ⟨hunique, hposts ▸ hposted, hposts ▸ hs.once, fun a ha => ?_,
    fun {j r'} hget' hstatus => ?_, fun m t => ?_⟩
  · exact hs.recorded_kept h hl (hanswers ▸ ha)
  · rw [hrequests, Table.get?_modify] at hget'
    split at hget'
    · next hid =>
        obtain ⟨r'', -, rfl⟩ := Option.map_eq_some_iff.mp hget'
        cases hstatus
    · rw [hanswers]
      exact hs.answered hget' hstatus
  · have hsum :=
      GatewayDb.requestSum_fail hget hpending m t upstreamStatus failure.errorCode s.clock
    have hledger : s'.db.ledgerSum m t = s.db.ledgerSum m t := by
      rw [hs']
      rfl
    rw [hledger, hs.accounted, ← hsum, hs']

theorem GatewayState.Effect.store (h : GatewayState.Effect cfg s l s' l') (hs : s.Sound cfg)
    (hl : l.Sound cfg s) : s'.Sound cfg := by
  cases h with
  | crashed _ => exact hs
  | refused _ _ => exact hs
  | replayed _ _ _ => exact hs
  | begun hnew => exact hs.begun hnew
  | posted call id =>
      refine hs.post (hl.owns rfl) fun p hp hid => ?_
      have := (hl.posted rfl).mpr ⟨p, hp, hid⟩
      cases this
  | heard _ => exact hs
  | succeeded hdb => exact hs.succeeded (.succeeded hdb) hl rfl hdb rfl
  | failed call id upstreamStatus failure => exact hs.failed (.failed ..) hl rfl rfl

/-- A replay answers with what is recorded. -/
theorem GatewayStore.Sound.replay (hs : s.Sound cfg) {call : GatewayCall} {id : Nat}
    {r : GatewayRequest}
    (hexisting : s.db.existing call.teamId (call.idempotencyKey.map cfg.sha256) = some (id, r))
    (hhash : r.requestHash = cfg.requestHash call.payload) (hstatus : r.status = .succeeded) :
    s.Answers cfg call r.result := by
  obtain ⟨hget, hteam, hkey, -⟩ := GatewayDb.existing_some hexisting
  obtain ⟨a, ha, rfl⟩ := hs.answered hget hstatus
  obtain ⟨⟨r', hget', -, hupstream, hpayload⟩, -⟩ := hs.recorded a ha
  obtain rfl := Option.some.inj (hget.symm.trans hget')
  refine ⟨a, ha, ?_, ?_, r, hget, hteam, hkey, hhash⟩
  · rw [GatewayRequest.result, hupstream, Option.getD_some]
  · rw [GatewayRequest.result, hpayload, Option.getD_some]

theorem GatewayState.Effect.own (h : GatewayState.Effect cfg s l s' l') (hs : s.Sound cfg)
    (hl : l.Sound cfg s) : l'.Sound cfg s' := by
  cases h with
  | crashed _ => exact ⟨nofun, nofun, nofun⟩
  | refused _ _ => exact ⟨nofun, nofun, nofun⟩
  | replayed hexisting hhash hstatus =>
      refine ⟨nofun, nofun, fun h => ?_⟩
      obtain ⟨rfl, rfl⟩ := Prod.mk.inj (Option.some.inj h)
      exact hs.replay hexisting hhash hstatus
  | @begun call r hnew =>
      refine ⟨fun h => ?_, fun h => ?_, nofun⟩
      · obtain ⟨rfl, rfl⟩ := Prod.mk.inj (Option.some.inj h)
        exact ⟨r, Table.get?_insert_self _ _,
          ⟨hnew.teamId, hnew.keyHash, hnew.requestHash⟩, hnew.status, hnew.reserved⟩
      · obtain ⟨rfl, rfl⟩ := Prod.mk.inj (Option.some.inj h)
        refine iff_of_false (by nofun) fun ⟨p, hp, hid⟩ => ?_
        obtain ⟨r', hget, -⟩ := hs.posted p hp
        rw [hid, Table.get?_nextId] at hget
        cases hget
  | posted call id =>
      refine ⟨fun h => ?_, fun h => ?_, nofun⟩
      · obtain ⟨rfl, rfl⟩ := Prod.mk.inj (Option.some.inj h)
        exact hl.owns rfl
      · obtain ⟨rfl, rfl⟩ := Prod.mk.inj (Option.some.inj h)
        exact iff_of_true rfl ⟨_, List.mem_cons_self .., rfl⟩
  | heard hheard =>
      obtain ⟨_, _, rfl⟩ | ⟨_, _, rfl⟩ := hheard
      · exact ⟨fun h => hl.owns h, fun h => hl.posted h, nofun⟩
      · exact ⟨fun h => hl.owns h, fun h => hl.posted h, nofun⟩
  | @succeeded call id upstreamStatus responsePayload db hdb =>
      refine ⟨nofun, nofun, fun h => ?_⟩
      obtain ⟨rfl, rfl⟩ := Prod.mk.inj (Option.some.inj h)
      obtain ⟨r, hget, hof, -⟩ := hl.owns rfl
      refine ⟨_, List.mem_cons_self .., rfl, rfl, r.succeed upstreamStatus responsePayload
        (cfg.usageFrom responsePayload) s.clock, ?_, hof.teamId, hof.keyHash, hof.requestHash⟩
      rw [GatewayDb.recordSuccess_some hdb, GatewayDb.postUsage_requests]
      exact Table.get?_modify_self _ hget
  | failed _ _ _ _ => exact ⟨nofun, nofun, nofun⟩

/-- The statements of one call leave what another relies on. -/
theorem GatewayState.Effect.other (h : GatewayState.Effect cfg s l s' l') (hs : s.Sound cfg)
    (hl : l.Sound cfg s) {m : GatewayState} (hm : m.Sound cfg s) (hapart : l.Apart m) :
    m.Sound cfg s' where
  owns {call id} hrequest := by
    obtain ⟨r, hget, hrow⟩ := hm.owns hrequest
    exact ⟨r, h.frame hget fun _ hl => hapart hl hrequest, hrow⟩
  posted {call id} hrequest := by
    refine (hm.posted hrequest).trans ⟨fun ⟨p, hp, hid⟩ => ⟨p, h.posts_mono hp, hid⟩, ?_⟩
    rintro ⟨p, hp, rfl⟩
    rcases h.posts hp with hp | ⟨_, hposting, -⟩
    · exact ⟨p, hp, rfl⟩
    · exact absurd hrequest (hapart hposting)
  result hresult := (hm.result hresult).kept hs h hl

theorem GatewayState.Effect.apart (h : GatewayState.Effect cfg s l s' l') {m : GatewayState}
    (hm : m.Sound cfg s) (hapart : l.Apart m) : l'.Apart m ∧ m.Apart l' := by
  have hfresh : ∀ {call call' id},
      l'.request? = some (call, id) → m.request? ≠ some (call', id) := by
    intro call call' id hrequest hm'
    rcases h.request? hrequest with hl | rfl
    · exact hapart hl hm'
    · obtain ⟨r, hget, -⟩ := hm.owns hm'
      rw [Table.get?_nextId] at hget
      cases hget
  exact ⟨hfresh, fun hm' hl' => hfresh hl' hm'⟩

theorem gatewayObligations (cfg : GatewayConfig) :
    (gateway cfg).Obligations Any (gatewayAssertions cfg) where
  start {s l} _ hstart := by
    cases l with
    | complete call => exact ⟨nofun, nofun, nofun⟩
    | _ => cases hstart
  startPair {s l m} hstart _ := by
    cases l with
    | complete call => exact ⟨nofun, fun _ => nofun⟩
    | _ => cases hstart
  own hw _ hi hst := by
    have heffect := GatewayState.stmt_effect hst
    exact ⟨heffect.store hw.store (hw.at_ hi), heffect.own hw.store (hw.at_ hi)⟩
  other hw _ hi hst hji hj _ _ := by
    have heffect := GatewayState.stmt_effect hst
    exact ⟨heffect.other hw.store (hw.at_ hi) (hw.at_ hj) (hw.pair (Ne.symm hji) hi hj),
      heffect.apart (hw.at_ hj) (hw.pair (Ne.symm hji) hi hj)⟩
  env hw _ hd := by
    obtain rfl := Option.some.inj hd
    exact ⟨hw.store.unique, hw.store.posted, hw.store.once, hw.store.recorded, hw.store.answered,
      hw.store.accounted⟩
  envOther hw _ hd hj _ := by
    obtain rfl := Option.some.inj hd
    exact ⟨(hw.at_ hj).owns, (hw.at_ hj).posted, (hw.at_ hj).result⟩

theorem gateway_good {clock : Nat} {w : World GatewayStore GatewayState}
    (hrun : Reaches (gateway cfg).step Any (Machine.idle (emptyGateway clock)) w) :
    (gateway cfg).Good (gatewayAssertions cfg) w := by
  refine (gatewayObligations cfg).reaches hrun (Machine.good_idle ?_)
  exact ⟨nofun, nofun, .nil, nofun, nofun, fun _ _ => rfl⟩

/-! ## Idempotency and accounting -/

theorem length_le_one_of_nodup_map {α κ : Type*} {l : List α} {f : α → κ}
    (hnodup : (l.map f).Nodup) (hsame : ∀ a ∈ l, ∀ b ∈ l, f a = f b) : l.length ≤ 1 := by
  cases l with
  | nil => exact Nat.zero_le 1
  | cons a l =>
      cases l with
      | nil => exact Nat.le_refl 1
      | cons b l =>
          have hab := hsame a (by simp) b (by simp)
          simp [hab] at hnodup

/-- Postings under one key are of one request. -/
theorem GatewayStore.Sound.posts_le_one (hs : s.Sound cfg) (teamId : Nat) (key : String) :
    (s.posts.filter fun p => p.teamId == teamId && p.idempotencyKey == some key).length ≤ 1 := by
  have hkeyed : ∀ p ∈ s.posts.filter (fun p => p.teamId == teamId && p.idempotencyKey == some key),
      ∃ r, s.db.requests.get? p.requestId = some r ∧ r.key = some (teamId, cfg.sha256 key) := by
    intro p hp
    obtain ⟨hp, hkey⟩ := List.mem_filter.mp hp
    rw [Bool.and_eq_true, beq_iff_eq, beq_iff_eq] at hkey
    obtain ⟨r, hget, hteam, hhash⟩ := hs.posted p hp
    refine ⟨r, hget, ?_⟩
    rw [GatewayRequest.key, hhash, hteam, hkey.1, hkey.2]
    rfl
  refine length_le_one_of_nodup_map ((List.filter_sublist.map _).nodup hs.once) fun p hp q hq => ?_
  obtain ⟨r, hr, hkr⟩ := hkeyed p hp
  obtain ⟨r', hr', hkr'⟩ := hkeyed q hq
  exact hs.unique hr hr' hkr hkr'

/-- A key that stands for another request: the call fails and nothing changes. -/
theorem GatewayState.Effect.conflict {call : GatewayCall}
    (h : GatewayState.Effect cfg s (.complete call) s' l') (hs : s.Sound cfg) {id : Nat}
    {r : GatewayRequest} (hget : s.db.requests.get? id = some r) (hteam : r.teamId = call.teamId)
    {key : String} (hkey : call.idempotencyKey = some key)
    (hr : r.idempotencyKeyHash = some (cfg.sha256 key))
    (hhash : r.requestHash ≠ cfg.requestHash call.payload) :
    s' = s ∧ (l' = .crashed ∨ ∃ e, l' = .returned call (.error e)) := by
  cases h with
  | crashed _ => exact ⟨rfl, Or.inl rfl⟩
  | refused _ e => exact ⟨rfl, Or.inr ⟨e, rfl⟩⟩
  | replayed hexisting hsame _ =>
      obtain ⟨hget', hteam', hkey', -⟩ := GatewayDb.existing_some hexisting
      rw [hkey] at hkey'
      have hkeys := hs.unique hget hget'
        (by rw [GatewayRequest.key, hr, hteam]; rfl)
        (by rw [GatewayRequest.key, hkey', hteam']; rfl)
      subst hkeys
      obtain rfl := Option.some.inj (hget.symm.trans hget')
      exact absurd hsame hhash
  | begun hnew =>
      have hunused := hnew.unused
      rw [hnew.keyHash, hkey] at hunused
      exact absurd hr (GatewayDb.existing_none hunused hget hteam)

/-- In every run: at most one call per key reaches the provider; a replay
returns what is recorded of it; a key that stands for another request fails
and changes nothing; and the ledger of a team adds up to its succeeded
requests. -/
theorem gateway_idempotent {clock : Nat} {w : World GatewayStore GatewayState}
    (hrun : Reaches (gateway cfg).step Any (Machine.idle (emptyGateway clock)) w) :
    (∀ teamId key, (w.db.posts.filter fun p =>
      p.teamId == teamId && p.idempotencyKey == some key).length ≤ 1) ∧
    (∀ (i : Nat) call result, w.procs[i]? = some (.returned call (.ok result)) →
      result.replay = true →
      ∃ p ∈ w.db.posts, p.teamId = call.teamId ∧
        p.idempotencyKey.map cfg.sha256 = call.idempotencyKey.map cfg.sha256 ∧
        ⟨p.requestId, result.status, result.payload⟩ ∈ w.db.answers ∧
        ∃ r, w.db.db.requests.get? p.requestId = some r ∧
          r.upstreamStatus = some result.status ∧ r.responsePayload = some result.payload) ∧
    (∀ (i : Nat) call key id r, w.procs[i]? = some (.complete call) →
      call.idempotencyKey = some key → w.db.db.requests.get? id = some r →
      r.teamId = call.teamId → r.idempotencyKeyHash = some (cfg.sha256 key) →
      r.requestHash ≠ cfg.requestHash call.payload →
      ∀ a w', (gateway cfg).step w (.run i a) = some w' → w'.db = w.db ∧
        (w'.procs[i]? = some .crashed ∨ ∃ e, w'.procs[i]? = some (.returned call (.error e)))) ∧
    ∀ m teamId, w.db.db.ledgerSum m teamId = w.db.db.requestSum m teamId := by
  have hgood := gateway_good hrun
  refine ⟨hgood.store.posts_le_one, fun i call result hi _ => ?_,
    fun i call key id r hi hkey hget hteam hr hhash a w' hstep => ?_, hgood.store.accounted⟩
  · obtain ⟨a, ha, hstatus, hpayload, r, hget, hof⟩ := (hgood.at_ hi).result rfl
    obtain ⟨⟨r', hget', -, hupstream, hresponse⟩, p, hp, hid⟩ := hgood.store.recorded a ha
    obtain rfl := Option.some.inj (hget.symm.trans hget')
    obtain ⟨r'', hget'', hteam, hkey⟩ := hgood.store.posted p hp
    rw [hid] at hget''
    obtain rfl := Option.some.inj (hget.symm.trans hget'')
    refine ⟨p, hp, hteam.symm.trans hof.teamId, hkey.symm.trans hof.keyHash, ?_, r, hid ▸ hget,
      hstatus ▸ hupstream, hpayload ▸ hresponse⟩
    rw [hid, ← hstatus, ← hpayload]
    exact ha
  · obtain ⟨l, d, l', hl, hst, -, rfl⟩ := Machine.step_run hstep
    obtain rfl := Option.some.inj (hi.symm.trans hl)
    have hlt := (List.getElem?_eq_some_iff.mp hi).1
    obtain ⟨rfl, hfail⟩ :=
      (GatewayState.stmt_effect hst).conflict hgood.store hget hteam hkey hr hhash
    refine ⟨rfl, ?_⟩
    rw [List.getElem?_set_self hlt]
    rcases hfail with rfl | ⟨e, rfl⟩
    · exact Or.inl rfl
    · exact Or.inr ⟨e, rfl⟩

/-- Two calls under one key, the second after the first. -/
def keyedTwice : List (Action GatewayState GatewayReply Nat) :=
  let call : GatewayCall := ⟨1, 1, samplePayload, some sampleKey⟩
  [.spawn (.complete call), .spawn (.complete call), .run 0 .next, .run 0 .next,
    .run 0 (.response 200 sampleBody), .run 0 .next, .run 1 .next]

def hasReplayed (w : World GatewayStore GatewayState) : Bool :=
  (w.procs[1]?.bind GatewayState.result?).any fun q => q.2.replay

theorem gateway_idempotent_keyedTwice :
    ∃ w, Reaches (gateway octoberConfig).step Any (Machine.idle (emptyGateway 1790812800)) w ∧
      hasReplayed w = true ∧
      (w.db.posts.filter fun p => p.teamId == 1 && p.idempotencyKey == some sampleKey).length ≤ 1 ∧
      ∀ m, w.db.db.ledgerSum m 1 = w.db.db.requestSum m 1 := by
  obtain ⟨w, hrun, hw⟩ := exists_reaches_of_execIf (gateway octoberConfig).step Any
    (Machine.idle (emptyGateway 1790812800)) keyedTwice hasReplayed (by decide +kernel)
  obtain ⟨hposts, -, -, hsums⟩ := gateway_idempotent hrun
  exact ⟨w, hrun, hw, hposts 1 sampleKey, fun m => hsums m 1⟩

end OnePloy
