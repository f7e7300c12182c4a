import OnePloy.Lib.PhpText
import OnePloy.Lib.Reach
import OnePloy.TransferFlag

/-!
# Migrating a server to another instance

`ServerTransferMigrator::migrate` exports a server, posts the bundle to another
instance and, once that has answered, marks the server as transferred here.
There is one request and no second try. The request and its answer travel
through a network that may lose or delay either; what answers may be the target,
a proxy in front of it, or something that has never heard of OnePloy; and the
transaction of the import on the target is committed, or not, whether or not
somebody still waits for the answer.

The source knows none of this: it sees an answer, a failed connection or the end
of its 120 seconds. `Lawful` says what a run should come to, `accurate` which
steps keep it so.
-/

namespace OnePloy

open Php Conc

/-! ## What goes over the wire -/

/-- What `ServerTransferExporter::export` gives `migrate` to read. -/
structure ExportedBundle where
  exportId : Option String
  warnings : List String
  deriving DecidableEq, Repr

/-- An HTTP answer: `json` is what decoding the body gives, null where it is
no JSON. -/
structure ImportAnswer where
  status : Nat
  body : String
  json : Value

def ImportAnswer.successful (r : ImportAnswer) : Bool := 200 ≤ r.status && r.status < 300

def ImportAnswer.importBody (r : ImportAnswer) : Value :=
  if r.json.isArray then r.json else .map [("raw", .string r.body)]

inductive MigrateError
  | localhost
  | invalidTargetUrl
  | noToken
  | notExported (message : String)
  | unreachable (importUrl message : String)
  | transferFailed (message : String)
  | importFailed (status : Nat) (reason : Value)
  | arrayToString
  /-- "Server was imported on". -/
  | notMarked (targetUrl message : String)

/-- The text of the exception; `encode` is `json_encode`. -/
def MigrateError.message (encode : Value → String) : MigrateError → String
  | localhost => "The OnePloy host (localhost) cannot be transferred between instances."
  | invalidTargetUrl => "A valid target instance URL is required (e.g. http://localhost:8001)."
  | noToken => "A target instance API token is required (root or write + create servers)."
  | notExported message => message
  | unreachable importUrl message =>
      "Could not reach target instance at " ++ importUrl ++ ": " ++ message
  | transferFailed message => "Transfer to target failed: " ++ message
  | importFailed status reason =>
      "Target import failed (HTTP " ++ toString status ++ "): " ++
        (reason.toText.toOption.getD (encode reason))
  | arrayToString => "Array to string conversion"
  | notMarked targetUrl message =>
      "Server was imported on " ++ targetUrl ++
        ", but this instance could not mark it as transferred: " ++ message ++ ". " ++
        "Retry complete (API: POST /api/v1/servers/\x7buuid\x7d/complete) so automations stay " ++
        "disabled here. Do not re-import on the target."

/-- The one error that says the target has the server. -/
def MigrateError.saysImported : MigrateError → Bool
  | notMarked .. => true
  | _ => false

/-- What `migrate` returns. -/
structure Migrated where
  serverUuid : String
  exportId : Option String
  targetUrl : String
  imported : Value
  complete : String × String
  warnings : List Value
  message : String

/-! ## The parts of `migrate` -/

/-- The arguments of `migrate`, and what it asks its PHP: `FILTER_VALIDATE_URL`
and whether this process runs in a container. -/
structure MigrateArgs where
  serverId : Nat
  serverUuid : String
  targetUrl : String
  targetToken : String
  validUrl : String → Bool
  inContainer : Bool

/-- `#^(https?://)(localhost|127\.0\.0\.1)(?=[:/]|$)#i` replaced by the host
gateway. -/
def hostGateway (url : String) : String :=
  let hosts := ["http://", "https://"].flatMap fun scheme =>
    ["localhost", "127.0.0.1"].map fun host => (scheme, host)
  let rewritten := hosts.findSome? fun (scheme, host) =>
    let front := (url.take (scheme.length + host.length)).toString
    let rest := (url.drop (scheme.length + host.length)).toString
    if strtolower front == scheme ++ host && (rest.isEmpty || strStartsWith rest ":" ||
        strStartsWith rest "/") then
      some ((url.take scheme.length).toString ++ "host.docker.internal" ++ rest)
    else none
  rewritten.getD url

namespace MigrateArgs

def normalizeTargetUrl (args : MigrateArgs) : Except MigrateError String :=
  let url := rtrimChar '/' (trim args.targetUrl)
  if url == "" || !args.validUrl url then .error .invalidTargetUrl
  else .ok (if args.inContainer then hostGateway url else url)

/-- The token without a leading "Bearer". -/
def bareToken (args : MigrateArgs) : String :=
  let token := trim args.targetToken
  if strStartsWith (strtolower token) "bearer " then trim (token.drop 7).toString else token

def normalizeToken (args : MigrateArgs) : Except MigrateError String :=
  if args.bareToken == "" then .error .noToken else .ok args.bareToken

/-- All that happens before the request is sent; `exported` is what the export
comes to. -/
def prepare (args : MigrateArgs) (exported : Except String ExportedBundle) :
    Except MigrateError (String × ExportedBundle) := do
  if args.serverId = 0 then throw .localhost
  let targetUrl ← args.normalizeTargetUrl
  let _ ← args.normalizeToken
  let bundle ← exported.mapError .notExported
  return (targetUrl, bundle)

end MigrateArgs

def importUrl (targetUrl : String) : String := targetUrl ++ "/api/v1/servers/import"

/-- `postImportToTarget`, once there is an answer. -/
def postImportToTarget (r : ImportAnswer) : Except MigrateError Value :=
  let importBody := r.importBody
  if r.successful then .ok importBody
  else
    let told := (importBody.dataGet ["message"]).coalesce (importBody.dataGet ["errors"])
    let reason := told.coalesce (.string r.body)
    .error (.importFailed r.status reason)

/-- The values of an array. -/
def arrayValues : Value → List Value
  | .list items => items
  | .map fields => fields.map Prod.snd
  | _ => []

/-- `array_unique`: it compares texts, and does not look at a single value. -/
def uniqueTexts (values : List Value) : Except MigrateError (List Value) :=
  if values.length ≤ 1 then .ok values
  else if values.any Value.isArray then .error .arrayToString
  else .ok (values.eraseDupsBy fun v w => v.toText.toOption == w.toText.toOption)

/-- The warnings of the bundle with those of the target. -/
def mergeWarnings (bundle : ExportedBundle) (importBody : Value) :
    Except MigrateError (List Value) :=
  let own := bundle.warnings.map Value.string
  let theirs := importBody.dataGet ["warnings"]
  if theirs.isArray then uniqueTexts (own ++ arrayValues theirs) else .ok own

/-- What the answer leaves to be done: an error, or the body and the warnings. -/
def afterImport (bundle : ExportedBundle) (r : ImportAnswer) :
    Except MigrateError (Value × List Value) := do
  let importBody ← postImportToTarget r
  let warnings ← mergeWarnings bundle importBody
  return (importBody, warnings)

/-- The server row of `markTransferred` after its transaction. -/
def ServerRow.transferredAway (s : ServerRow) : ServerRow :=
  { s with transfer := some .transferred, forceDisabled := true }

def migrated (args : MigrateArgs) (targetUrl : String) (bundle : ExportedBundle)
    (importBody : Value) (warnings : List Value) : Migrated where
  serverUuid := args.serverUuid
  exportId := bundle.exportId
  targetUrl := targetUrl
  imported := importBody
  complete :=
    (args.serverUuid, "Server marked as transferred. Automations disabled on this instance.")
  warnings := warnings
  message := "Server migrated to " ++ targetUrl ++ ". Automations disabled on this instance."

/-! ## The exchange -/

/-- Where `migrate` is. -/
inductive MigratePoint
  | start
  | posting (targetUrl : String) (bundle : ExportedBundle) (sentAt : Nat)
  | marking (targetUrl : String) (bundle : ExportedBundle) (importBody : Value)
      (warnings : List Value)
  | returned (result : Migrated)
  | threw (e : MigrateError)

/-- Where the import request is. -/
inductive RequestPlace
  | unsent
  | inFlight
  | handled
  | gone
  deriving DecidableEq, Repr

structure Exchange where
  clock : Nat
  /-- The server on the source instance. -/
  source : Option ServerRow
  migrate : MigratePoint
  request : RequestPlace
  /-- The target has committed an import of this bundle. -/
  imported : Bool
  answer : Option ImportAnswer

inductive ExchangeEvent
  | begin (exported : Except String ExportedBundle)
  | tick
  | loseRequest
  | deliverRequest
  /-- The transaction of `ServerTransferImporter::import` on the target. -/
  | targetCommits
  | targetAnswers (r : ImportAnswer)
  /-- A proxy, a host that is no OnePloy instance. -/
  | otherAnswers (r : ImportAnswer)
  | loseAnswer
  | receive
  | connectionFails (message : String)
  /-- Any other exception of the HTTP client. -/
  | requestFails (message : String)
  | timeout (message : String)
  /-- `markTransferred`, with the message of the exception if it throws one. -/
  | mark (failure : Option String)
  /-- Another program of the source writes the server or deletes it. -/
  | sourceWrites (row : Option ServerRow)

/-- `Http::timeout(120)`. -/
def requestTimeout : Nat := 120

namespace Exchange

/-- Before `migrate` is called. -/
def before (source : Option ServerRow) : Exchange where
  clock := 0
  source := source
  migrate := .start
  request := .unsent
  imported := false
  answer := none

def throws (x : Exchange) (e : MigrateError) : Exchange := { x with migrate := .threw e }

def begins (args : MigrateArgs) (x : Exchange) (exported : Except String ExportedBundle) :
    Exchange :=
  match args.prepare exported with
  | .error e => x.throws e
  | .ok (targetUrl, bundle) =>
      { x with migrate := .posting targetUrl bundle x.clock, request := .inFlight }

def receives (x : Exchange) (targetUrl : String) (bundle : ExportedBundle) (r : ImportAnswer) :
    Exchange :=
  match afterImport bundle r with
  | .error e => x.throws e
  | .ok (importBody, warnings) =>
      { x with migrate := .marking targetUrl bundle importBody warnings }

/-- `migrate` from the answer on. The row is looked up anew: `findOrFail`. -/
def marks (args : MigrateArgs) (x : Exchange) (targetUrl : String) (bundle : ExportedBundle)
    (importBody : Value) (warnings : List Value) : Option String → Exchange
  | some message => x.throws (.notMarked targetUrl message)
  | none =>
      x.source.elim (x.throws (.notMarked targetUrl "No query results for model")) fun s =>
        { x with
          source := some s.transferredAway
          migrate := .returned (migrated args targetUrl bundle importBody warnings) }

def step (args : MigrateArgs) (x : Exchange) : ExchangeEvent → Option Exchange
  | .begin exported =>
      match x.migrate with
      | .start => some (x.begins args exported)
      | _ => none
  | .tick => some { x with clock := x.clock + 1 }
  | .loseRequest => if x.request = .inFlight then some { x with request := .gone } else none
  | .deliverRequest => if x.request = .inFlight then some { x with request := .handled } else none
  | .targetCommits => if x.request = .handled then some { x with imported := true } else none
  | .targetAnswers r =>
      -- 201 is what the target answers after the import, and nothing else below 300
      if x.request = .handled ∧ (r.successful → x.imported) then
        some { x with request := .gone, answer := some r }
      else none
  | .otherAnswers r => if x.request = .unsent then none else some { x with answer := some r }
  | .loseAnswer => some { x with answer := none }
  | .receive =>
      match x.migrate, x.answer with
      | .posting targetUrl bundle sentAt, some r =>
          if x.clock ≤ sentAt + requestTimeout then some (x.receives targetUrl bundle r) else none
      | _, _ => none
  | .connectionFails message =>
      match x.migrate with
      | .posting targetUrl .. => some (x.throws (.unreachable (importUrl targetUrl) message))
      | _ => none
  | .requestFails message =>
      match x.migrate with
      | .posting .. => some (x.throws (.transferFailed message))
      | _ => none
  | .timeout message =>
      match x.migrate with
      | .posting targetUrl _ sentAt =>
          if sentAt + requestTimeout ≤ x.clock then
            some (x.throws (.unreachable (importUrl targetUrl) message))
          else none
      | _ => none
  | .mark failure =>
      match x.migrate with
      | .marking targetUrl bundle importBody warnings =>
          some (x.marks args targetUrl bundle importBody warnings failure)
      | _ => none
  | .sourceWrites row => some { x with source := row }

/-! ## What a run should come to -/

/-- The source still runs automations on the server. -/
def sourceManages (x : Exchange) : Prop := ∃ s, x.source = some s ∧ s.forceDisabled = false

def hasReturned (x : Exchange) : Prop := ∃ result, x.migrate = .returned result

/-- `migrate` has thrown, and did not say that the target has the server. -/
def hasFailed (x : Exchange) : Prop := ∃ e, x.migrate = .threw e ∧ e.saysImported = false

/-- The outcome is what `migrate` reports. -/
structure Lawful (x : Exchange) : Prop where
  returned : x.hasReturned → x.imported = true ∧ ¬ x.sourceManages
  failed : x.hasFailed → x.imported = false
  apart : x.hasReturned ∨ x.hasFailed → ¬ (x.imported = true ∧ x.sourceManages)

/-- The answer lets `migrate` go on to mark the server. -/
def accepts (bundle : ExportedBundle) (r : ImportAnswer) : Prop :=
  r.successful = true ∧ ∃ warnings, mergeWarnings bundle r.importBody = .ok warnings

/-- The step reports what is so: the server is marked only once the target has
it, the request is given up only while the target has not, and the target does
not commit afterwards. Nothing else on the source enables the server once
`migrate` has returned. -/
def accurate (x : Exchange) : ExchangeEvent → Prop
  | .mark none => x.source.isSome → x.imported = true
  | .receive =>
      ∀ targetUrl bundle sentAt r, x.migrate = .posting targetUrl bundle sentAt →
        x.answer = some r → ¬ accepts bundle r → x.imported = false
  | .connectionFails _ | .requestFails _ | .timeout _ => x.imported = false
  | .targetCommits => ¬ x.hasFailed
  | .sourceWrites row => x.hasReturned → ∀ s, row = some s → s.forceDisabled = true
  | _ => True

end Exchange

/-! ## Proofs -/

namespace Exchange

variable {args : MigrateArgs} {x y : Exchange} {a : ExchangeEvent}

/-- Nothing has been sent where `migrate` has not begun. -/
def Quiet (x : Exchange) : Prop :=
  x.migrate = .start → x.imported = false ∧ x.request = .unsent

theorem Lawful.of_open (hreturned : ¬ x.hasReturned) (hfailed : ¬ x.hasFailed) : x.Lawful where
  returned h := absurd h hreturned
  failed h := absurd h hfailed
  apart h := absurd h (by rintro (h | h); exacts [hreturned h, hfailed h])

/-- The law reads three fields. -/
theorem Lawful.congr (h : x.Lawful) (hmigrate : y.migrate = x.migrate)
    (hsource : y.source = x.source) (himported : y.imported = x.imported) : y.Lawful := by
  obtain ⟨hreturned, hfailed, hapart⟩ := h
  refine ⟨?_, ?_, ?_⟩
  · rw [hasReturned, sourceManages, hmigrate, hsource, himported]
    exact hreturned
  · rw [hasFailed, hmigrate, himported]
    exact hfailed
  · rw [hasReturned, hasFailed, sourceManages, hmigrate, hsource, himported]
    exact hapart

theorem not_hasReturned_throws (x : Exchange) (e : MigrateError) : ¬ (x.throws e).hasReturned :=
  nofun

theorem hasFailed_throws {e : MigrateError} :
    (x.throws e).hasFailed ↔ e.saysImported = false := by
  constructor
  · rintro ⟨e', he, h⟩
    cases he
    exact h
  · exact fun h => ⟨e, rfl, h⟩

theorem lawful_throws {e : MigrateError} :
    (x.throws e).Lawful ↔ (e.saysImported = false → x.imported = false) := by
  constructor
  · exact fun h he => h.failed (hasFailed_throws.mpr he)
  · intro h
    refine ⟨fun hr => absurd hr (not_hasReturned_throws x e),
      fun hf => h (hasFailed_throws.mp hf), ?_⟩
    rintro (hr | hf) ⟨himported, -⟩
    · exact absurd hr (not_hasReturned_throws x e)
    · rw [throws, h (hasFailed_throws.mp hf)] at himported
      cases himported

theorem normalizeTargetUrl_error {e : MigrateError} (h : args.normalizeTargetUrl = .error e) :
    e = .invalidTargetUrl := by
  unfold MigrateArgs.normalizeTargetUrl at h
  dsimp only at h
  split at h
  · exact (Except.error.inj h).symm
  · exact nomatch h

theorem normalizeToken_error {e : MigrateError} (h : args.normalizeToken = .error e) :
    e = .noToken := by
  unfold MigrateArgs.normalizeToken at h
  split at h
  · exact (Except.error.inj h).symm
  · exact nomatch h

theorem prepare_error {exported : Except String ExportedBundle} {e : MigrateError}
    (h : args.prepare exported = .error e) : e.saysImported = false := by
  unfold MigrateArgs.prepare at h
  by_cases hid : args.serverId = 0
  · rw [if_pos hid] at h
    obtain rfl := Except.error.inj h
    rfl
  · rw [if_neg hid] at h
    cases hurl : args.normalizeTargetUrl with
    | error e' =>
        rw [hurl] at h
        obtain rfl := Except.error.inj h
        rw [normalizeTargetUrl_error hurl]
        rfl
    | ok targetUrl =>
        cases htoken : args.normalizeToken with
        | error e' =>
            rw [hurl, htoken] at h
            obtain rfl := Except.error.inj h
            rw [normalizeToken_error htoken]
            rfl
        | ok token =>
            rw [hurl, htoken] at h
            cases exported with
            | error message =>
                obtain rfl := Except.error.inj h
                rfl
            | ok bundle => exact nomatch h

/-- Before it has sent anything `migrate` fails with nothing committed. -/
theorem lawful_begins {exported : Except String ExportedBundle} (h : x.imported = false) :
    (x.begins args exported).Lawful := by
  unfold begins
  cases hp : args.prepare exported with
  | error e => exact lawful_throws.mpr fun _ => h
  | ok p => exact Lawful.of_open nofun nofun

theorem afterImport_ok {bundle : ExportedBundle} {r : ImportAnswer} (h : accepts bundle r) :
    ∃ p, afterImport bundle r = .ok p := by
  obtain ⟨hsuccessful, warnings, hwarnings⟩ := h
  exact ⟨(r.importBody, warnings), by
    simp only [afterImport, postImportToTarget, hsuccessful, if_true, bind, Except.bind, hwarnings,
      pure, Except.pure]⟩

theorem uniqueTexts_error {values : List Value} {e : MigrateError}
    (h : uniqueTexts values = .error e) : e = .arrayToString := by
  unfold uniqueTexts at h
  split at h
  · cases h
  · split at h
    · cases h; rfl
    · cases h

theorem mergeWarnings_error {bundle : ExportedBundle} {v : Value} {e : MigrateError}
    (h : mergeWarnings bundle v = .error e) : e = .arrayToString := by
  unfold mergeWarnings at h
  dsimp only at h
  split at h
  · exact uniqueTexts_error h
  · cases h

/-- An answer that is not accepted is an error that does not name an import. -/
theorem afterImport_error {bundle : ExportedBundle} {r : ImportAnswer} (h : ¬ accepts bundle r) :
    ∃ e, afterImport bundle r = .error e ∧ e.saysImported = false := by
  cases hsuccessful : r.successful with
  | false =>
      simp only [afterImport, postImportToTarget, hsuccessful, bind, Except.bind]
      exact ⟨_, rfl, rfl⟩
  | true =>
      cases hwarnings : mergeWarnings bundle r.importBody with
      | ok warnings => exact absurd ⟨hsuccessful, warnings, hwarnings⟩ h
      | error e =>
          refine ⟨e, by simp [afterImport, postImportToTarget, hsuccessful, bind, Except.bind,
            hwarnings], ?_⟩
          rw [mergeWarnings_error hwarnings]
          rfl

theorem lawful_receives {targetUrl : String} {bundle : ExportedBundle} {r : ImportAnswer} :
    (x.receives targetUrl bundle r).Lawful ↔ (¬ accepts bundle r → x.imported = false) := by
  by_cases haccepts : accepts bundle r
  · obtain ⟨p, hp⟩ := afterImport_ok haccepts
    simp only [receives, hp]
    exact iff_of_true (Lawful.of_open nofun nofun) fun hrefused => absurd haccepts hrefused
  · obtain ⟨e, he, hsays⟩ := afterImport_error haccepts
    simp only [receives, he]
    rw [lawful_throws]
    exact ⟨fun h _ => h hsays, fun h _ => h haccepts⟩

theorem lawful_marks_none {targetUrl : String} {bundle : ExportedBundle} {v : Value}
    {warnings : List Value} :
    (x.marks args targetUrl bundle v warnings none).Lawful ↔
      (x.source.isSome → x.imported = true) := by
  cases hs : x.source with
  | none =>
      simp only [marks, hs, Option.elim_none]
      exact iff_of_true (lawful_throws.mpr nofun) nofun
  | some s =>
      simp only [marks, hs, Option.elim_some]
      constructor
      · exact fun h _ => (h.returned ⟨_, rfl⟩).1
      · intro h
        have hdisabled : ¬ sourceManages { x with
            source := some s.transferredAway
            migrate := .returned (migrated args targetUrl bundle v warnings) } := by
          rintro ⟨s', hs', henabled⟩
          cases hs'
          cases henabled
        exact ⟨fun _ => ⟨h rfl, hdisabled⟩, nofun, fun _ hboth => hdisabled hboth.2⟩

/-- A commit leaves a run lawful unless `migrate` has given the request up. -/
theorem lawful_commit (h : x.Lawful) :
    ({ x with imported := true } : Exchange).Lawful ↔ ¬ x.hasFailed := by
  constructor
  · intro hcommitted hfailed
    cases hcommitted.failed hfailed
  · intro hfailed
    refine ⟨fun hreturned => ⟨rfl, (h.returned hreturned).2⟩,
      fun hf => absurd hf hfailed, ?_⟩
    rintro (hreturned | hf) ⟨-, hmanages⟩
    · exact (h.returned hreturned).2 hmanages
    · exact hfailed hf

/-- A write to the source does so unless it enables a server that has gone. -/
theorem lawful_sourceWrites {row : Option ServerRow} (h : x.Lawful) :
    ({ x with source := row } : Exchange).Lawful ↔
      (x.hasReturned → ∀ s, row = some s → s.forceDisabled = true) := by
  constructor
  · intro hwritten hreturned s hs
    by_contra hflag
    exact (hwritten.returned hreturned).2 ⟨s, hs, by simpa using hflag⟩
  · intro hkept
    have hgone : x.hasReturned → ¬ sourceManages { x with source := row } := by
      rintro hreturned ⟨s, hs, henabled⟩
      rw [hkept hreturned s hs] at henabled
      cases henabled
    refine ⟨fun hreturned => ⟨(h.returned hreturned).1, hgone hreturned⟩,
      fun hf => h.failed hf, ?_⟩
    rintro (hreturned | hf) ⟨himported, hmanages⟩
    · exact hgone hreturned hmanages
    · exact absurd (h.failed hf) (by rw [himported]; nofun)

/-- One step: exactly the accurate ones keep the law. -/
theorem lawful_step (hquiet : x.Quiet) (h : x.Lawful) (hst : step args x a = some y) :
    y.Lawful ↔ accurate x a := by
  cases a with
  | begin exported =>
      simp only [step] at hst
      split at hst
      · next hstart =>
          cases hst
          exact iff_of_true (lawful_begins (hquiet hstart).1) trivial
      · cases hst
  | tick | loseAnswer =>
      cases hst
      exact iff_of_true (h.congr rfl rfl rfl) trivial
  | loseRequest | deliverRequest | targetAnswers r =>
      simp only [step] at hst
      split at hst
      · cases hst
        exact iff_of_true (h.congr rfl rfl rfl) trivial
      · cases hst
  | otherAnswers r =>
      simp only [step] at hst
      split at hst
      · cases hst
      · cases hst
        exact iff_of_true (h.congr rfl rfl rfl) trivial
  | targetCommits =>
      simp only [step] at hst
      split at hst
      · cases hst
        exact lawful_commit h
      · cases hst
  | receive =>
      simp only [step] at hst
      split at hst
      · next targetUrl bundle sentAt r hposting hanswer =>
          split at hst
          · cases hst
            rw [lawful_receives, accurate]
            constructor
            · intro hrefused targetUrl' bundle' sentAt' r' hposting' hanswer'
              rw [hposting] at hposting'
              rw [hanswer] at hanswer'
              cases hposting'
              cases hanswer'
              exact hrefused
            · exact fun hrefused => hrefused _ _ _ _ hposting hanswer
          · cases hst
      · cases hst
  | connectionFails message | requestFails message =>
      simp only [step] at hst
      split at hst
      · cases hst
        rw [lawful_throws, accurate]
        exact ⟨fun himported => himported rfl, fun himported _ => himported⟩
      · cases hst
  | timeout message =>
      simp only [step] at hst
      split at hst
      · split at hst
        · cases hst
          rw [lawful_throws, accurate]
          exact ⟨fun himported => himported rfl, fun himported _ => himported⟩
        · cases hst
      · cases hst
  | mark failure =>
      simp only [step] at hst
      split at hst
      · cases hst
        cases failure with
        | none => exact lawful_marks_none
        | some message => exact iff_of_true (lawful_throws.mpr nofun) trivial
      · cases hst
  | sourceWrites row =>
      cases hst
      exact lawful_sourceWrites h

theorem begins_begun (exported : Except String ExportedBundle) :
    (x.begins args exported).migrate ≠ .start := by
  unfold begins
  cases args.prepare exported <;> exact nofun

theorem receives_begun (targetUrl : String) (bundle : ExportedBundle) (r : ImportAnswer) :
    (x.receives targetUrl bundle r).migrate ≠ .start := by
  unfold receives
  cases afterImport bundle r <;> exact nofun

theorem marks_begun (targetUrl : String) (bundle : ExportedBundle) (v : Value)
    (warnings : List Value) (failure : Option String) :
    (x.marks args targetUrl bundle v warnings failure).migrate ≠ .start := by
  cases failure with
  | some message => exact nofun
  | none =>
      unfold marks
      cases x.source <;> exact nofun

theorem Quiet.step (hquiet : x.Quiet) (hst : step args x a = some y) : y.Quiet := by
  intro hstart
  cases a with
  | begin exported =>
      simp only [Exchange.step] at hst
      split at hst
      · cases hst
        exact absurd hstart (begins_begun exported)
      · cases hst
  | tick | loseAnswer | sourceWrites row =>
      cases hst
      exact hquiet hstart
  | loseRequest | deliverRequest | targetCommits =>
      simp only [Exchange.step] at hst
      split at hst
      · next hplace =>
          cases hst
          rw [(hquiet hstart).2] at hplace
          cases hplace
      · cases hst
  | targetAnswers r =>
      simp only [Exchange.step] at hst
      split at hst
      · next hplace =>
          cases hst
          rw [(hquiet hstart).2] at hplace
          cases hplace.1
      · cases hst
  | otherAnswers r =>
      simp only [Exchange.step] at hst
      split at hst
      · cases hst
      · cases hst
        exact hquiet hstart
  | receive =>
      simp only [Exchange.step] at hst
      split at hst
      · split at hst
        · cases hst
          exact absurd hstart (receives_begun (x := x) _ _ _)
        · cases hst
      · cases hst
  | timeout message =>
      simp only [Exchange.step] at hst
      split at hst
      · split at hst
        · cases hst
          cases hstart
        · cases hst
      · cases hst
  | connectionFails message | requestFails message =>
      simp only [Exchange.step] at hst
      split at hst
      · cases hst
        cases hstart
      · cases hst
  | mark failure =>
      simp only [Exchange.step] at hst
      split at hst
      · cases hst
        exact absurd hstart (marks_begun (x := x) _ _ _ _ _)
      · cases hst

theorem quiet_before (source : Option ServerRow) : (before source).Quiet := fun _ => ⟨rfl, rfl⟩

theorem lawful_before (source : Option ServerRow) : (before source).Lawful :=
  Lawful.of_open nofun nofun

end Exchange

namespace Exchange

def migrateMe : MigrateArgs where
  serverId := 7
  serverUuid := "srv"
  targetUrl := "http://target.test/"
  targetToken := "Bearer t"
  validUrl := fun _ => true
  inContainer := false

def movedServer : ServerRow where
  teamId := 1
  createdAt := 0
  transfer := none
  forceDisabled := false

def created : ImportAnswer where
  status := 201
  body := "\x7b\"warnings\":[]\x7d"
  json := .map [("warnings", .list [])]

/-- A page of a web server that has no such endpoint. -/
def welcome : ImportAnswer where
  status := 200
  body := "Welcome"
  json := .null

def exported : Except String ExportedBundle := .ok (ExportedBundle.mk (some "e1") [])

end Exchange

namespace Exchange

def reportsMigrated (x : Exchange) : Bool :=
  match x.migrate with
  | .returned _ => true
  | _ => false

def reportsFailure (x : Exchange) : Bool :=
  match x.migrate with
  | .threw e => !e.saysImported
  | _ => false

theorem hasReturned_of_reportsMigrated {x : Exchange} (h : x.reportsMigrated = true) :
    x.hasReturned := by
  unfold reportsMigrated at h
  split at h
  · next result hmigrate => exact ⟨result, hmigrate⟩
  · cases h

theorem hasFailed_of_reportsFailure {x : Exchange} (h : x.reportsFailure = true) : x.hasFailed := by
  unfold reportsFailure at h
  split at h
  · next e hmigrate => exact ⟨e, hmigrate, by simpa using h⟩
  · cases h

end Exchange

end OnePloy
