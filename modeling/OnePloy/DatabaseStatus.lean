import OnePloy.Lib.FirstMatch
import OnePloy.Lib.PhpText
import OnePloy.ContainerStatus

/-!
# The status of a database, pulled and pushed

The status of a standalone database is that of its one container, and there are
two ways to it. `GetContainersStatus` pulls what `docker inspect` prints;
`PushServerUpdateJob` is given what Sentinel has seen. Each goes through the
containers, updates the databases it comes across, and marks as exited those it
did not.

They keep account of what they came across differently: the one by numeric ids,
which the eight tables of databases count each for itself, the other by uuids.
And the one counts an exited container as found where the other does not.
-/

namespace OnePloy

open Php Conc

/-! ## The databases -/

/-- The eight kinds of standalone databases, in the order in which they are
loaded. -/
inductive StandaloneType
  | postgresql | redis | mongodb | mysql | mariadb | keydb | dragonfly | clickhouse
  deriving DecidableEq, Repr

def StandaloneType.all : List StandaloneType :=
  [.postgresql, .redis, .mongodb, .mysql, .mariadb, .keydb, .dragonfly, .clickhouse]

/-- `status` as the attribute of the models writes and reads it. -/
def statusAttribute (value : String) : String :=
  if strContains value "(" then
    let status := trim (explodeOnce '(' value).1
    let health := trim (explodeOnce ')' ((explodeOnce '(' value).2.getD value)).1
    status ++ ":" ++ health
  else if strContains value ":" then
    trim (explodeOnce ':' value).1 ++ ":" ++ trim ((explodeOnce ':' value).2.getD value)
  else value ++ ":unhealthy"

/-- A standalone database: `status` is the column. -/
structure StandaloneDatabase where
  id : Nat
  uuid : String
  name : String
  status : String
  isPublic : Bool
  restartCount : Int
  maxRestartCount : Int
  restartLimitReached : Bool
  deriving DecidableEq

/-- `Server::databases`; `loadDatabases` reads the same rows in this order. -/
def standaloneDatabases (tables : StandaloneType → List StandaloneDatabase) :
    List StandaloneDatabase :=
  (StandaloneType.all.flatMap tables).filter (·.name != "coolify-db")

namespace StandaloneDatabase

def reported (d : StandaloneDatabase) : String := statusAttribute d.status

def setStatus (d : StandaloneDatabase) (status : String) : StandaloneDatabase :=
  { d with status := statusAttribute status }

def isExited (d : StandaloneDatabase) : Bool := strStartsWith d.reported "exited"

def stoppedAfterRestartLimit (d : StandaloneDatabase) : Bool := d.isExited && d.restartLimitReached

/-- With whether this call reached the limit. -/
def trackRestartCount (d : StandaloneDatabase) (observed : Int) : StandaloneDatabase × Bool :=
  let tracked := if d.restartCount < observed then { d with restartCount := observed } else d
  if 0 < d.maxRestartCount ∧ d.maxRestartCount ≤ observed ∧ d.restartLimitReached = false then
    ({ tracked with restartLimitReached := true }, true)
  else (tracked, false)

/-- A container of the database was seen with this status. -/
def seen (d : StandaloneDatabase) (status : String) (restartCount : Int) : StandaloneDatabase :=
  ((if d.reported != status then d.setStatus status else d).trackRestartCount restartCount).1

/-- No container of the database was seen. -/
def unseen (d : StandaloneDatabase) : StandaloneDatabase :=
  if d.stoppedAfterRestartLimit then d
  else if d.isExited then d
  else { d.setStatus "exited" with restartCount := 0, restartLimitReached := false }

end StandaloneDatabase

/-! ## The containers -/

/-- What the two loops read of the labels of a container. -/
structure ContainerLabels where
  managed : Bool
  oneoff : Option String
  applicationId : Option String
  serviceId : Option String
  type : Option String
  /-- `com.docker.compose.service`. -/
  service : Option String
  deriving DecidableEq

/-- A container, apart from how either side spells it: `docker inspect` puts a
slash in front of the name. -/
structure ServerContainer where
  name : String
  report : ContainerReport
  restartCount : Int
  labels : ContainerLabels

/-- `filter_var` with `FILTER_VALIDATE_BOOLEAN`. -/
def validatesTrue (label : Option String) : Bool :=
  label.any fun text => ["1", "true", "on", "yes"].contains (strtolower (trim text))

def truthyLabel (label : Option String) : Bool := label.any fun text => Value.truthy (.string text)

/-- What happens besides. -/
inductive DatabaseAction
  | stopDatabase (uuid : String)
  | startProxy (uuid : String)
  | stopProxy (uuid : String)
  deriving DecidableEq, Repr

/-- The status string of a container in `PushServerUpdateJob`. -/
def ContainerReport.pushedStatus (r : ContainerReport) : String :=
  if r.1.text != "exited" then r.1.text ++ ":" ++ (r.2.map ContainerHealth.text).getD "unknown"
  else r.1.text

namespace ServerContainer

def pulledStatus (c : ServerContainer) : String := c.report.container.statusString

def pushedStatus (c : ServerContainer) : String := c.report.pushedStatus

def isOneoff (c : ServerContainer) : Bool := validatesTrue c.labels.oneoff

end ServerContainer

def isRunning (containerStatus : String) : Bool := strContains containerStatus "running"

def isActiveOrTransient (containerStatus : String) : Bool :=
  ["running", "restarting", "starting", "created", "paused"].any (strContains containerStatus)

/-! ## GetContainersStatus -/

/-- What the loop over the containers keeps. -/
structure PullScan where
  databases : List StandaloneDatabase
  foundDatabases : List Nat
  actions : List DatabaseAction

namespace ServerContainer

/-- The uuid under which the pull looks for a database. -/
def pulledUuid (c : ServerContainer) : Option String :=
  if c.isOneoff || truthyLabel c.labels.applicationId then none
  else if truthyLabel c.labels.service && c.labels.type != some "service" then c.labels.service
  else none

def isCoolifyDb (c : ServerContainer) : Bool :=
  !c.isOneoff && !truthyLabel c.labels.applicationId && c.name == "coolify-db"

/-- The TCP proxy after a database was pulled. -/
def pullProxy (containers : List ServerContainer) (d : StandaloneDatabase) : List DatabaseAction :=
  let found := containers.any (·.name == d.uuid ++ "-proxy")
  if d.isPublic && !found then [.startProxy d.uuid]
  else if !d.isPublic && found then [.stopProxy d.uuid]
  else []

end ServerContainer

namespace PullScan

/-- One container. -/
def turn (containers : List ServerContainer) (s : PullScan) (c : ServerContainer) : PullScan :=
  let s := c.pulledUuid.elim s fun uuid =>
    (s.databases.find? (·.uuid == uuid)).elim s fun d =>
      let updated := if d.reported != c.pulledStatus then d.setStatus c.pulledStatus else d
      let limit := (updated.trackRestartCount c.restartCount).2
      { databases :=
          modifyFirst (·.uuid == uuid) (·.seen c.pulledStatus c.restartCount) s.databases
        foundDatabases := s.foundDatabases ++ [d.id]
        actions := s.actions ++ (if limit then [.stopDatabase uuid] else []) ++
          ServerContainer.pullProxy containers d }
  if c.isCoolifyDb then { s with foundDatabases := s.foundDatabases ++ [0] } else s

/-- One of the ids of `notRunningDatabases`: the first database with it. -/
def notRunning (containers : List ServerContainer) (s : PullScan) (id : Nat) : PullScan :=
  (s.databases.find? (·.id == id)).elim s fun d =>
    if d.stoppedAfterRestartLimit || d.isExited || containers.isEmpty then s
    else
      { s with
        databases := modifyFirst (·.id == id) StandaloneDatabase.unseen s.databases
        actions := s.actions ++ if d.isPublic then [.stopProxy d.uuid] else [] }

end PullScan

/-- `GetContainersStatus::handle`, as far as it is about databases, on a server
that is functional. -/
def getContainersStatus (databases : List StandaloneDatabase) (containers : List ServerContainer) :
    PullScan :=
  let s := containers.foldl (PullScan.turn containers) (PullScan.mk databases [] [])
  let notRunningDatabases := (s.databases.map (·.id)).filter fun id => !s.foundDatabases.contains id
  notRunningDatabases.foldl (PullScan.notRunning containers) s

/-! ## PushServerUpdateJob -/

structure PushScan where
  databases : List StandaloneDatabase
  foundDatabaseUuids : List String
  actions : List DatabaseAction

namespace ServerContainer

/-- The uuid under which the push looks for a database. -/
def pushedUuid (c : ServerContainer) : Option String :=
  if !c.labels.managed || c.isOneoff then none
  else if c.labels.applicationId.isSome || c.labels.serviceId.isSome then none
  else if c.name == "coolify-proxy" && isRunning c.pushedStatus then none
  else if c.labels.type == some "service" && isRunning c.pushedStatus then none
  else if isActiveOrTransient c.pushedStatus then c.labels.service
  else none

/-- The TCP proxy after a database was pushed. -/
def pushProxy (containers : List ServerContainer) (d : StandaloneDatabase)
    (containerStatus : String) : List DatabaseAction :=
  let found := containers.any fun c => c.name == d.uuid ++ "-proxy" && c.report.1.text == "running"
  if isRunning containerStatus && d.isPublic && !found then [.startProxy d.uuid]
  else if isRunning containerStatus && !d.isPublic && found then [.stopProxy d.uuid]
  else []

end ServerContainer

namespace PushScan

/-- `updateDatabaseStatus`: `databasesByUuid` holds one database for each uuid. -/
def updateDatabaseStatus (containers : List ServerContainer) (s : PushScan) (uuid : String)
    (c : ServerContainer) : PushScan :=
  (s.databases.find? (·.uuid == uuid)).elim s fun d =>
    let updated := if d.reported != c.pushedStatus then d.setStatus c.pushedStatus else d
    let limit := (updated.trackRestartCount c.restartCount).2
    { s with
      databases := modifyFirst (·.uuid == uuid) (·.seen c.pushedStatus c.restartCount) s.databases
      actions := s.actions ++
        if limit then [.stopDatabase uuid]
        else ServerContainer.pushProxy containers d c.pushedStatus }

def turn (containers : List ServerContainer) (s : PushScan) (c : ServerContainer) : PushScan :=
  c.pushedUuid.elim s fun uuid =>
    if s.databases.any (·.uuid == uuid) then
      updateDatabaseStatus containers
        { s with foundDatabaseUuids := s.foundDatabaseUuids ++ [uuid] } uuid c
    else s

/-- One uuid of `updateNotFoundDatabaseStatus`. -/
def notFound (s : PushScan) (uuid : String) : PushScan :=
  (s.databases.find? (·.uuid == uuid)).elim s fun d =>
    if d.stoppedAfterRestartLimit then s
    else
      { s with
        databases := modifyFirst (·.uuid == uuid) StandaloneDatabase.unseen s.databases
        actions := s.actions ++ if d.isPublic then [.stopProxy uuid] else [] }

end PushScan

/-- `PushServerUpdateJob::handle`, as far as it is about databases, with a
complete snapshot. -/
def pushServerUpdate (databases : List StandaloneDatabase) (containers : List ServerContainer) :
    PushScan :=
  let s := containers.foldl (PushScan.turn containers) (PushScan.mk databases [] [])
  let notFoundDatabaseUuids :=
    (s.databases.map (·.uuid)).filter fun uuid => !s.foundDatabaseUuids.contains uuid
  notFoundDatabaseUuids.foldl PushScan.notFound s

/-! ## What the two should come to -/

/-- What a database shows for its containers. -/
def StandaloneDatabase.expectedStatus (containers : List ServerContainer) (d : StandaloneDatabase) :
    String :=
  (containers.find? (·.labels.service == some d.uuid)).elim "exited" (·.pushedStatus)

def reports (databases : List StandaloneDatabase) : List (String × String) :=
  databases.map fun d => (d.uuid, d.reported)

/-- The two agree, and on the status of the container of each database, or on
exited if it has none. -/
structure StatusesAgree (databases : List StandaloneDatabase) (containers : List ServerContainer) :
    Prop where
  alike : reports (getContainersStatus databases containers).databases =
    reports (pushServerUpdate databases containers).databases
  expected : reports (getContainersStatus databases containers).databases =
    databases.map fun d => (d.uuid, statusAttribute (d.expectedStatus containers))

/-- The pull keeps its hands off a database of which it has not seen a
container: it has found another one with the same id, or `coolify-db`, whose id
is 0, or another one with the id comes first. -/
def Shadowed (databases : List StandaloneDatabase) (containers : List ServerContainer)
    (d : StandaloneDatabase) : Prop :=
  (∃ c ∈ containers, ∃ e ∈ databases, c.pulledUuid = some e.uuid ∧ e.id = d.id) ∨
    (d.id = 0 ∧ ∃ c ∈ containers, c.isCoolifyDb = true) ∨
    (databases.find? (·.id == d.id)).map (·.uuid) ≠ some d.uuid

/-- A container that is not exited is known to either by its labels; without
one the database is on record as exited, or it is on record as something else
and nothing keeps the pull from noticing. -/
structure ToldAlike (databases : List StandaloneDatabase) (containers : List ServerContainer)
    (d : StandaloneDatabase) : Prop where
  active : ∀ c ∈ containers, c.labels.service = some d.uuid → c.report.1 ≠ .exited →
    c.pushedUuid = some d.uuid ∧
      (c.pulledUuid = some d.uuid ∨
        (Shadowed databases containers d ∧ d.reported = c.pushedStatus))
  gone : (∀ c ∈ containers, c.labels.service = some d.uuid → c.report.1 = .exited) →
    d.reported = "exited:unhealthy" ∨
      (d.isExited = false ∧
        ((∃ c ∈ containers, c.pulledUuid = some d.uuid) ∨ ¬ Shadowed databases containers d))

/-! ## Status strings -/

theorem pulledStatus_eq (c : ServerContainer) : c.pulledStatus = c.pushedStatus := by
  obtain ⟨name, ⟨state, health⟩, restartCount, labels⟩ := c
  cases state <;> rfl

theorem strContains_singleton (s : String) (c : Char) :
    strContains s (String.singleton c) = true ↔ c ∈ s.toList := by
  rw [strContains_iff]
  constructor
  · exact fun h => h.subset (by simp)
  · intro h
    obtain ⟨front, back, hsplit⟩ := List.append_of_mem h
    exact ⟨front, back, by rw [hsplit]; simp⟩

/-- A word of a status: the attribute neither splits nor trims it. -/
structure IsStatusWord (s : String) : Prop where
  noParen : '(' ∉ s.toList
  noColon : ':' ∉ s.toList
  trimmed : trim s = s

theorem explodeOnce_colon {status health : String} (h : ':' ∉ status.toList) :
    explodeOnce ':' (status ++ ":" ++ health) = (status, some health) := by
  have hbefore : (status ++ ":" ++ health).toList = status.toList ++ ':' :: health.toList := by
    rw [String.toList_append, String.toList_append, List.append_assoc]
    rfl
  have hall : ∀ c ∈ status.toList, decide (c ≠ ':') = true :=
    fun c hc => decide_eq_true fun hcolon => h (hcolon ▸ hc)
  have hstop : ¬ decide (':' ≠ ':') = true := by decide
  rw [explodeOnce, hbefore, List.takeWhile_append_of_pos hall, List.dropWhile_append_of_pos hall,
    List.takeWhile_cons_of_neg (p := (decide <| · ≠ ':')) hstop,
    List.dropWhile_cons_of_neg (p := (decide <| · ≠ ':')) hstop, List.append_nil,
    String.ofList_toList, List.tail_cons, String.ofList_toList]
  rfl

theorem statusAttribute_words {status health : String} (hstatus : IsStatusWord status)
    (hhealth : IsStatusWord health) :
    statusAttribute (status ++ ":" ++ health) = status ++ ":" ++ health := by
  have hparen : ¬ strContains (status ++ ":" ++ health) "(" = true := by
    intro h
    have hmem := (strContains_singleton _ '(').mp h
    rw [String.toList_append, String.toList_append] at hmem
    rcases List.mem_append.mp hmem with hmem | hmem
    · rcases List.mem_append.mp hmem with hmem | hmem
      · exact hstatus.noParen hmem
      · exact absurd hmem (by decide)
    · exact hhealth.noParen hmem
  have hcolon : strContains (status ++ ":" ++ health) ":" = true := by
    refine (strContains_singleton _ ':').mpr ?_
    rw [String.toList_append, String.toList_append]
    exact List.mem_append_left _ (List.mem_append_right _ (List.mem_singleton_self _))
  rw [statusAttribute, if_neg hparen, if_pos hcolon, explodeOnce_colon hstatus.noColon,
    Option.getD_some, hstatus.trimmed, hhealth.trimmed]

theorem isTrimmed_of_isAlpha {c : Char} (h : c.isAlpha = true) : isTrimmed c = false := by
  rw [← Bool.not_eq_true]
  intro htrimmed
  simp only [isTrimmed, Bool.or_eq_true, beq_iff_eq] at htrimmed
  rcases htrimmed with ((((rfl | rfl) | rfl) | rfl) | rfl) | rfl <;> cases h

theorem isStatusWord_of_isAlpha {s : String} (h : s.toList.all Char.isAlpha = true) :
    IsStatusWord s where
  noParen hmem := nomatch List.all_eq_true.mp h _ hmem
  noColon hmem := nomatch List.all_eq_true.mp h _ hmem
  trimmed := trim_eq_self
    (fun c hc => isTrimmed_of_isAlpha (List.all_eq_true.mp h c (List.mem_of_head? hc)))
    (fun c hc => isTrimmed_of_isAlpha (List.all_eq_true.mp h c (List.mem_of_getLast? hc)))

theorem ContainerState.isStatusWord (state : ContainerState) : IsStatusWord state.text :=
  isStatusWord_of_isAlpha (by cases state <;> simp [ContainerState.text])

theorem ContainerHealth.isStatusWord (health : Option ContainerHealth) :
    IsStatusWord ((health.map ContainerHealth.text).getD "unknown") :=
  isStatusWord_of_isAlpha (by
    rcases health with - | (- | - | -) <;> simp [ContainerHealth.text])

theorem ContainerReport.pushedStatus_eq {r : ContainerReport} (h : r.1 ≠ .exited) :
    r.pushedStatus = r.1.text ++ ":" ++ (r.2.map ContainerHealth.text).getD "unknown" := by
  rw [ContainerReport.pushedStatus, if_pos]
  obtain ⟨state, health⟩ := r
  cases state with
  | exited => exact absurd rfl h
  | created | running | paused | restarting | removing | dead => rfl

theorem ContainerState.not_exited_front {state : ContainerState} (h : state ≠ .exited)
    (rest : List Char) : "exited".toList.isPrefixOf (state.text.toList ++ rest) = false := by
  cases state with
  | exited => exact absurd rfl h
  | created | running | paused | restarting | removing | dead => rfl

/-- A status that is active is read back as it was written, and does not look
exited. -/
theorem ContainerReport.pushedStatus_active {r : ContainerReport} (h : r.1 ≠ .exited) :
    statusAttribute r.pushedStatus = r.pushedStatus ∧
      strStartsWith r.pushedStatus "exited" = false := by
  rw [r.pushedStatus_eq h]
  refine ⟨statusAttribute_words r.1.isStatusWord (ContainerHealth.isStatusWord r.2), ?_⟩
  rw [strStartsWith, String.toList_append, String.toList_append, List.append_assoc]
  exact ContainerState.not_exited_front h _

theorem ContainerReport.pushedStatus_exited {r : ContainerReport} (h : r.1 = .exited) :
    r.pushedStatus = "exited" := by
  rw [ContainerReport.pushedStatus, h]
  rfl

theorem statusAttribute_exited_unhealthy :
    statusAttribute "exited:unhealthy" = "exited:unhealthy" := by
  have hparts : "exited:unhealthy" = ContainerState.exited.text ++ ":" ++
      ((some ContainerHealth.unhealthy).map ContainerHealth.text).getD "unknown" := by
    simp [ContainerState.text, ContainerHealth.text]
  rw [hparts]
  exact statusAttribute_words ContainerState.exited.isStatusWord (ContainerHealth.isStatusWord _)

theorem statusAttribute_exited : statusAttribute "exited" = "exited:unhealthy" := by
  have hparen : ¬ strContains "exited" "(" = true := by
    intro h
    exact absurd ((strContains_singleton "exited" '(').mp h) (by simp)
  have hcolon : ¬ strContains "exited" ":" = true := by
    intro h
    exact absurd ((strContains_singleton "exited" ':').mp h) (by simp)
  rw [statusAttribute, if_neg hparen, if_neg hcolon]
  rfl

theorem isActiveOrTransient_append {word : String}
    (hword : word ∈ ["running", "restarting", "starting", "created", "paused"])
    (rest : String) : isActiveOrTransient (word ++ rest) = true := by
  refine List.any_eq_true.mpr ⟨word, hword, strContains_iff.mpr ?_⟩
  rw [String.toList_append]
  exact (List.prefix_append ..).isInfix

/-- The states of a container that is there and may run again. -/
theorem ContainerReport.isActiveOrTransient_iff {r : ContainerReport} (hremoving : r.1 ≠ .removing)
    (hdead : r.1 ≠ .dead) : isActiveOrTransient r.pushedStatus = true ↔ r.1 ≠ .exited := by
  by_cases hexited : r.1 = .exited
  · rw [r.pushedStatus_exited hexited]
    exact iff_of_false (by decide +kernel) fun h => h hexited
  · refine iff_of_true ?_ hexited
    rw [r.pushedStatus_eq hexited, String.append_assoc]
    refine isActiveOrTransient_append ?_ _
    obtain ⟨state, health⟩ := r
    cases state with
    | exited => exact absurd rfl hexited
    | removing => exact absurd rfl hremoving
    | dead => exact absurd rfl hdead
    | created | running | paused | restarting =>
        rw [ContainerState.text]
        simp

/-- What is read back has a health. -/
theorem colon_mem_statusAttribute (value : String) : ':' ∈ (statusAttribute value).toList := by
  unfold statusAttribute
  split
  · simp
  · split
    · simp
    · simp

theorem reported_ne_exited (d : StandaloneDatabase) : d.reported ≠ "exited" := by
  intro h
  have := colon_mem_statusAttribute d.status
  rw [show statusAttribute d.status = "exited" from h] at this
  exact absurd this (by simp)

/-! ## One database -/

namespace StandaloneDatabase

variable {d : StandaloneDatabase}

theorem setStatus_reported (status : String) :
    (d.setStatus status).reported = statusAttribute (statusAttribute status) := rfl

theorem trackRestartCount_status (observed : Int) :
    (d.trackRestartCount observed).1.status = d.status := by
  unfold trackRestartCount
  dsimp only
  split <;> split <;> rfl

@[simp] theorem seen_id (status : String) (n : Int) : (d.seen status n).id = d.id := by
  unfold seen trackRestartCount
  dsimp only
  split <;> split <;> split <;> rfl

@[simp] theorem seen_uuid (status : String) (n : Int) : (d.seen status n).uuid = d.uuid := by
  unfold seen trackRestartCount
  dsimp only
  split <;> split <;> split <;> rfl

theorem setStatus_id (status : String) : (d.setStatus status).id = d.id := rfl

theorem setStatus_uuid (status : String) : (d.setStatus status).uuid = d.uuid := rfl

@[simp] theorem unseen_id : d.unseen.id = d.id := by
  unfold unseen
  split
  · rfl
  · split
    · rfl
    · dsimp only
      exact setStatus_id "exited"

@[simp] theorem unseen_uuid : d.unseen.uuid = d.uuid := by
  unfold unseen
  split
  · rfl
  · split
    · rfl
    · dsimp only
      exact setStatus_uuid "exited"

/-- A database that was seen shows the status it was seen with. -/
theorem seen_reported (r : ContainerReport) (n : Int) :
    (d.seen r.pushedStatus n).reported = statusAttribute r.pushedStatus := by
  rw [seen, reported, trackRestartCount_status]
  by_cases hsame : d.reported = r.pushedStatus
  · rw [if_neg (by simpa using hsame)]
    by_cases hexited : r.1 = .exited
    · rw [r.pushedStatus_exited hexited] at hsame
      exact absurd hsame (reported_ne_exited d)
    · rw [(r.pushedStatus_active hexited).1, ← hsame, reported]
  · rw [if_pos (by simpa using hsame), ← reported, setStatus_reported]
    by_cases hexited : r.1 = .exited
    · rw [r.pushedStatus_exited hexited, statusAttribute_exited, statusAttribute_exited_unhealthy]
    · rw [(r.pushedStatus_active hexited).1, (r.pushedStatus_active hexited).1]

theorem unseen_of_isExited (h : d.isExited = true) : d.unseen = d := by
  unfold unseen
  rw [if_pos h, ite_self]

theorem unseen_reported_of_not (h : d.isExited = false) :
    d.unseen.reported = "exited:unhealthy" := by
  have hstopped : d.stoppedAfterRestartLimit = false := by simp [stoppedAfterRestartLimit, h]
  have hstatus : d.unseen.status = (d.setStatus "exited").status := by
    rw [unseen, hstopped, h, if_neg Bool.false_ne_true, if_neg Bool.false_ne_true]
  rw [reported, hstatus, ← reported, setStatus_reported, statusAttribute_exited,
    statusAttribute_exited_unhealthy]

/-- A database that was not seen shows the plain exited status unless it was on
record as exited otherwise. -/
theorem unseen_reported_iff :
    d.unseen.reported = "exited:unhealthy" ↔
      d.reported = "exited:unhealthy" ∨ d.isExited = false := by
  cases h : d.isExited with
  | true => rw [unseen_of_isExited h]; simp
  | false => exact iff_of_true (unseen_reported_of_not h) (.inr rfl)

theorem exited_unhealthy_exited : strStartsWith "exited:unhealthy" "exited" = true := by
  simp [strStartsWith]

theorem unseen_unseen : d.unseen.unseen = d.unseen := by
  cases h : d.isExited with
  | true => rw [unseen_of_isExited h, unseen_of_isExited h]
  | false =>
      refine unseen_of_isExited ?_
      rw [isExited, unseen_reported_of_not h]
      exact exited_unhealthy_exited

/-- It does not come to show an active status. -/
theorem unseen_reported_ne {r : ContainerReport} (h : r.1 ≠ .exited) :
    d.unseen.reported ≠ r.pushedStatus := by
  intro heq
  have hactive := (r.pushedStatus_active h).2
  cases hd : d.isExited with
  | true =>
      rw [unseen_of_isExited hd] at heq
      rw [isExited, heq, hactive] at hd
      cases hd
  | false =>
      rw [← heq, unseen_reported_of_not hd, exited_unhealthy_exited] at hactive
      cases hactive

end StandaloneDatabase

/-! ## The pull -/

namespace PullScan

variable {containers : List ServerContainer} {s : PullScan} {databases : List StandaloneDatabase}

def takes (c : ServerContainer) (d : StandaloneDatabase) : Bool := c.pulledUuid == some d.uuid

def Uuids (databases : List StandaloneDatabase) : Prop := (databases.map (·.uuid)).Nodup

theorem turn_databases (h : Uuids s.databases) (c : ServerContainer) :
    (turn containers s c).databases = s.databases.map fun d =>
      if takes c d then d.seen c.pulledStatus c.restartCount else d := by
  have hturn : (turn containers s c).databases = c.pulledUuid.elim s.databases fun uuid =>
      modifyFirst (·.uuid == uuid) (·.seen c.pulledStatus c.restartCount) s.databases := by
    unfold turn
    cases c.pulledUuid with
    | none => dsimp only [Option.elim_none]; split <;> rfl
    | some uuid =>
        simp only [Option.elim_some]
        cases hfind : s.databases.find? (·.uuid == uuid) with
        | none =>
            rw [modifyFirst_eq_self (by rw [hfind]; exact nofun)]
            simp only [Option.elim_none]
            split <;> rfl
        | some d => simp only [Option.elim_some]; split <;> rfl
  rw [hturn]
  unfold takes
  cases c.pulledUuid with
  | none => simp
  | some uuid =>
      rw [Option.elim_some, modifyFirst_key h]
      refine List.map_congr_left fun d _ => ?_
      by_cases hd : d.uuid = uuid
      · rw [if_pos hd, hd, beq_self_eq_true, if_pos rfl]
      · rw [if_neg hd, if_neg]
        intro htakes
        exact hd (Option.some.inj (beq_iff_eq.mp htakes)).symm

theorem mem_foundDatabases_turn {id : Nat} (h : Uuids s.databases) (c : ServerContainer) :
    id ∈ (turn containers s c).foundDatabases ↔
      id ∈ s.foundDatabases ∨ (∃ d ∈ s.databases, takes c d = true ∧ d.id = id) ∨
        (id = 0 ∧ c.isCoolifyDb = true) := by
  have hturn : (turn containers s c).foundDatabases = s.foundDatabases ++
      (c.pulledUuid.elim [] fun uuid => ((s.databases.find? (·.uuid == uuid)).map (·.id)).toList) ++
      if c.isCoolifyDb then [0] else [] := by
    unfold turn
    cases c.pulledUuid with
    | none => dsimp only [Option.elim_none]; split <;> simp
    | some uuid =>
        simp only [Option.elim_some]
        cases s.databases.find? (·.uuid == uuid) <;>
          (simp only [Option.elim_none, Option.elim_some]; split <;> simp)
  have hfind : (id ∈ c.pulledUuid.elim [] fun uuid =>
      ((s.databases.find? (·.uuid == uuid)).map (·.id)).toList) ↔
        ∃ d ∈ s.databases, takes c d = true ∧ d.id = id := by
    unfold takes
    cases c.pulledUuid with
    | none => simp
    | some uuid =>
        simp only [Option.elim_some, Option.mem_toList, Option.map_eq_some_iff]
        constructor
        · rintro ⟨d, hd, rfl⟩
          have huuid : d.uuid = uuid := by simpa using List.find?_some hd
          exact ⟨d, List.mem_of_find?_eq_some hd, by rw [huuid, beq_self_eq_true], rfl⟩
        · rintro ⟨d, hd, htakes, rfl⟩
          obtain rfl := Option.some.inj (beq_iff_eq.mp htakes)
          cases hfind : s.databases.find? (·.uuid == d.uuid) with
          | none => exact absurd (List.find?_eq_none.mp hfind d hd) (by simp)
          | some e =>
              have huuid : e.uuid = d.uuid := by simpa using List.find?_some hfind
              exact ⟨e, rfl, by rw [eq_of_tag h (List.mem_of_find?_eq_some hfind) hd huuid]⟩
  rw [hturn, List.mem_append, List.mem_append, hfind, or_assoc]
  refine or_congr_right (or_congr_right ?_)
  cases c.isCoolifyDb <;> simp

/-- What one container does to one database. -/
def each (c : ServerContainer) (d : StandaloneDatabase) : StandaloneDatabase :=
  if takes c d then d.seen c.pulledStatus c.restartCount else d

@[simp] theorem each_id (c : ServerContainer) (d : StandaloneDatabase) : (each c d).id = d.id := by
  unfold each
  split <;> simp

@[simp] theorem each_uuid (c : ServerContainer) (d : StandaloneDatabase) :
    (each c d).uuid = d.uuid := by
  unfold each
  split <;> simp

theorem takes_congr {c : ServerContainer} {d e : StandaloneDatabase} (h : d.uuid = e.uuid) :
    takes c d = takes c e := by
  rw [takes, takes, h]

theorem Uuids.map {f : StandaloneDatabase → StandaloneDatabase} (hf : ∀ d, (f d).uuid = d.uuid)
    (h : Uuids databases) : Uuids (databases.map f) := by
  have hmap : (databases.map f).map (·.uuid) = databases.map (·.uuid) := by
    rw [List.map_map]
    exact List.map_congr_left fun d _ => hf d
  rw [Uuids, hmap]
  exact h

/-- The loop over the containers. -/
theorem foldl_turn (h : Uuids s.databases) (containers cs : List ServerContainer) :
    (cs.foldl (turn containers) s).databases =
        s.databases.map (fun d => cs.foldl (fun e c => each c e) d) ∧
      ∀ id, id ∈ (cs.foldl (turn containers) s).foundDatabases ↔
        id ∈ s.foundDatabases ∨
          (∃ c ∈ cs, ∃ d ∈ s.databases, takes c d = true ∧ d.id = id) ∨
          (id = 0 ∧ ∃ c ∈ cs, c.isCoolifyDb = true) := by
  induction cs generalizing s with
  | nil => simp
  | cons c cs ih =>
      have hdatabases : (turn containers s c).databases = s.databases.map (each c) :=
        turn_databases h c
      have huuids : Uuids (turn containers s c).databases := hdatabases ▸ h.map (each_uuid c)
      obtain ⟨ihdatabases, ihfound⟩ := ih huuids
      rw [List.foldl_cons]
      refine ⟨?_, fun id => ?_⟩
      · rw [ihdatabases, hdatabases, List.map_map]
        rfl
      · rw [ihfound, mem_foundDatabases_turn h, hdatabases]
        simp only [List.exists_mem_cons_iff, List.mem_map, exists_exists_and_eq_and, each_id]
        have hmap : (∃ c' ∈ cs, ∃ d ∈ s.databases, takes c' (each c d) = true ∧ d.id = id) ↔
            ∃ c' ∈ cs, ∃ d ∈ s.databases, takes c' d = true ∧ d.id = id := by
          simp only [takes_congr (each_uuid c _)]
        rw [hmap, and_or_left]
        constructor
        · rintro ((hs | hd | hdb) | hd | hdb)
          exacts [.inl hs, .inr (.inl (.inl hd)), .inr (.inr (.inl hdb)), .inr (.inl (.inr hd)),
            .inr (.inr (.inr hdb))]
        · rintro (hs | (hd | hd) | hdb | hdb)
          exacts [.inl (.inl hs), .inl (.inr (.inl hd)), .inr (.inl hd), .inl (.inr (.inr hdb)),
            .inr (.inr hdb)]

theorem foldl_each_uuid (cs : List ServerContainer) (d : StandaloneDatabase) :
    (cs.foldl (fun e c => each c e) d).uuid = d.uuid := by
  induction cs generalizing d with
  | nil => rfl
  | cons c cs ih => rw [List.foldl_cons, ih, each_uuid]

theorem foldl_each_id (cs : List ServerContainer) (d : StandaloneDatabase) :
    (cs.foldl (fun e c => each c e) d).id = d.id := by
  induction cs generalizing d with
  | nil => rfl
  | cons c cs ih => rw [List.foldl_cons, ih, each_id]

theorem notRunning_databases (hne : containers ≠ []) (id : Nat) :
    (notRunning containers s id).databases =
      modifyFirst (·.id == id) StandaloneDatabase.unseen s.databases := by
  unfold notRunning
  have hempty : containers.isEmpty = false := by simpa using hne
  cases hfind : s.databases.find? (·.id == id) with
  | none => rw [modifyFirst_eq_self (by rw [hfind]; exact nofun), Option.elim_none]
  | some d =>
      rw [Option.elim_some, hempty, Bool.or_false]
      by_cases hexited : d.isExited = true
      · rw [if_pos (by simp [hexited]), modifyFirst_eq_self]
        intro e he
        obtain rfl := Option.some.inj (hfind ▸ he)
        exact StandaloneDatabase.unseen_of_isExited hexited
      · rw [if_neg (by simp [hexited, StandaloneDatabase.stoppedAfterRestartLimit])]

theorem foldl_notRunning (hne : containers ≠ []) (ids : List Nat) :
    (ids.foldl (notRunning containers) s).databases =
      ids.foldl (fun ds id => modifyFirst (·.id == id) StandaloneDatabase.unseen ds)
        s.databases := by
  induction ids generalizing s with
  | nil => rfl
  | cons id ids ih => rw [List.foldl_cons, ih, notRunning_databases hne, List.foldl_cons]

end PullScan

/-- At most one container for each database. -/
def OneEach (databases : List StandaloneDatabase) (containers : List ServerContainer) : Prop :=
  ∀ d ∈ databases, containers.Pairwise fun c c' =>
    c.labels.service = some d.uuid → c'.labels.service ≠ some d.uuid

theorem service_of_pulledUuid {c : ServerContainer} {uuid : String}
    (h : c.pulledUuid = some uuid) : c.labels.service = some uuid := by
  unfold ServerContainer.pulledUuid at h
  split at h
  · cases h
  · split at h
    · exact h
    · cases h

theorem service_of_pushedUuid {c : ServerContainer} {uuid : String}
    (h : c.pushedUuid = some uuid) :
    c.labels.service = some uuid ∧ isActiveOrTransient c.pushedStatus = true := by
  unfold ServerContainer.pushedUuid at h
  split_ifs at h with _ _ _ _ hactive
  exact ⟨h, hactive⟩

section Result

variable {databases : List StandaloneDatabase} {containers : List ServerContainer}
  {d : StandaloneDatabase}

instance : DecidablePred (Shadowed databases containers) := fun d => by
  unfold Shadowed
  infer_instance

/-- What the pull leaves of a database. -/
def pulledDatabase (databases : List StandaloneDatabase) (containers : List ServerContainer)
    (d : StandaloneDatabase) : StandaloneDatabase :=
  (containers.find? (PullScan.takes · d)).elim
    (if Shadowed databases containers d then d else d.unseen)
    fun c => d.seen c.pulledStatus c.restartCount

theorem getContainersStatus_databases (hne : containers ≠ [])
    (huuids : (databases.map (·.uuid)).Nodup) (hone : OneEach databases containers) :
    (getContainersStatus databases containers).databases =
      databases.map (pulledDatabase databases containers) := by
  obtain ⟨hdatabases, hfound⟩ := PullScan.foldl_turn (s := PullScan.mk databases [] []) huuids
    containers containers
  set s := containers.foldl (PullScan.turn containers) (PullScan.mk databases [] []) with hs
  have huuids' : PullScan.Uuids s.databases := by
    rw [hdatabases]
    exact PullScan.Uuids.map (PullScan.foldl_each_uuid containers) huuids
  rw [getContainersStatus, ← hs, PullScan.foldl_notRunning hne,
    foldl_modifyFirst StandaloneDatabase.id StandaloneDatabase.uuid
      (fun _ => StandaloneDatabase.unseen_id) (fun _ => StandaloneDatabase.unseen_uuid)
      (fun _ => StandaloneDatabase.unseen_unseen) _ huuids', hdatabases, List.map_map]
  refine List.map_congr_left fun d hd => ?_
  have hfirst : ((databases.map fun d => containers.foldl (fun e c => PullScan.each c e) d).find?
      (·.id == d.id)).map (·.uuid) = (databases.find? (·.id == d.id)).map (·.uuid) := by
    rw [List.find?_map, Option.map_map]
    have hcomp : ((fun e : StandaloneDatabase => e.id == d.id) ∘
        fun e => containers.foldl (fun e c => PullScan.each c e) e) = (·.id == d.id) :=
      funext fun e => by rw [Function.comp_apply, PullScan.foldl_each_id]
    rw [hcomp]
    exact congrArg (fun t => (databases.find? _).map t)
      (funext fun e => PullScan.foldl_each_uuid containers e)
  have hturn : (d.id ∈ ((databases.map fun d =>
      containers.foldl (fun e c => PullScan.each c e) d).map (·.id)).filter
        (fun id => !s.foundDatabases.contains id) ∧
      (databases.find? (·.id == d.id)).map (·.uuid) = some d.uuid) ↔
        ¬ Shadowed databases containers d := by
    have hmem : d.id ∈ (databases.map fun d =>
        containers.foldl (fun e c => PullScan.each c e) d).map (·.id) := by
      rw [List.map_map]
      exact List.mem_map.mpr ⟨d, hd, PullScan.foldl_each_id containers d⟩
    have hfound' : d.id ∈ s.foundDatabases ↔
        (∃ c ∈ containers, ∃ e ∈ databases, c.pulledUuid = some e.uuid ∧ e.id = d.id) ∨
          (d.id = 0 ∧ ∃ c ∈ containers, c.isCoolifyDb = true) := by
      rw [hfound]
      simp only [List.not_mem_nil, false_or, PullScan.takes, beq_iff_eq]
    rw [List.mem_filter, and_iff_right hmem, Shadowed, ← or_assoc, ← hfound', not_or, not_not]
    simp
  rw [Function.comp_apply, PullScan.foldl_each_uuid, PullScan.foldl_each_id, hfirst]
  have heach : containers.foldl (fun e c => PullScan.each c e) d =
      (containers.find? (PullScan.takes · d)).elim d fun c =>
        d.seen c.pulledStatus c.restartCount := by
    refine foldl_takes (fun c c' e => PullScan.takes_congr (by simp)) ((hone d hd).imp ?_)
    intro c c' h hc
    by_contra hc'
    rw [Bool.not_eq_false] at hc'
    exact h (service_of_pulledUuid (beq_iff_eq.mp hc)) (service_of_pulledUuid (beq_iff_eq.mp hc'))
  rw [heach, pulledDatabase]
  cases hfind : containers.find? (PullScan.takes · d) with
  | none =>
      rw [Option.elim_none, Option.elim_none]
      by_cases hshadowed : Shadowed databases containers d
      · rw [if_pos hshadowed, if_neg fun h => hturn.mp h hshadowed]
      · rw [if_neg hshadowed, if_pos (hturn.mpr hshadowed)]
  | some c =>
      have hshadowed : Shadowed databases containers d :=
        .inl ⟨c, List.mem_of_find?_eq_some hfind, d, hd,
          by simpa [PullScan.takes] using List.find?_some hfind, rfl⟩
      rw [if_neg fun h => hturn.mp h hshadowed]
      rfl

end Result

/-! ## The push -/

namespace PushScan

variable {containers : List ServerContainer} {s : PushScan} {databases : List StandaloneDatabase}

def takes (c : ServerContainer) (d : StandaloneDatabase) : Bool := c.pushedUuid == some d.uuid

/-- What one container does to one database. -/
def each (c : ServerContainer) (d : StandaloneDatabase) : StandaloneDatabase :=
  if takes c d then d.seen c.pushedStatus c.restartCount else d

@[simp] theorem each_uuid (c : ServerContainer) (d : StandaloneDatabase) :
    (each c d).uuid = d.uuid := by
  unfold each
  split <;> simp

theorem turn_databases (h : PullScan.Uuids s.databases) (c : ServerContainer) :
    (turn containers s c).databases = s.databases.map (each c) := by
  have hturn : (turn containers s c).databases = c.pushedUuid.elim s.databases fun uuid =>
      modifyFirst (·.uuid == uuid) (·.seen c.pushedStatus c.restartCount) s.databases := by
    unfold turn
    cases c.pushedUuid with
    | none => rfl
    | some uuid =>
        simp only [Option.elim_some]
        cases hfind : s.databases.find? (·.uuid == uuid) with
        | none =>
            rw [modifyFirst_eq_self (by rw [hfind]; exact nofun), if_neg]
            simpa using hfind
        | some d =>
            rw [if_pos (List.any_eq_true.mpr
              ⟨d, List.mem_of_find?_eq_some hfind, List.find?_some hfind⟩)]
            simp only [updateDatabaseStatus, hfind, Option.elim_some]
  rw [hturn]
  unfold each takes
  cases c.pushedUuid with
  | none => simp
  | some uuid =>
      rw [Option.elim_some, modifyFirst_key h]
      refine List.map_congr_left fun d _ => ?_
      by_cases hd : d.uuid = uuid
      · rw [if_pos hd, hd, beq_self_eq_true, if_pos rfl]
      · rw [if_neg hd, if_neg]
        intro htakes
        exact hd (Option.some.inj (beq_iff_eq.mp htakes)).symm

theorem mem_foundDatabaseUuids_turn {uuid : String} (c : ServerContainer) :
    uuid ∈ (turn containers s c).foundDatabaseUuids ↔
      uuid ∈ s.foundDatabaseUuids ∨ ∃ d ∈ s.databases, takes c d = true ∧ d.uuid = uuid := by
  unfold turn takes
  cases c.pushedUuid with
  | none => simp
  | some u =>
      rw [Option.elim_some]
      split
      · next hany =>
          obtain ⟨d, hd, hu⟩ := List.any_eq_true.mp hany
          obtain rfl : d.uuid = u := by simpa using hu
          have hfound : (updateDatabaseStatus containers
              { s with foundDatabaseUuids := s.foundDatabaseUuids ++ [d.uuid] } d.uuid
              c).foundDatabaseUuids = s.foundDatabaseUuids ++ [d.uuid] := by
            unfold updateDatabaseStatus
            cases s.databases.find? (·.uuid == d.uuid) <;> rfl
          rw [hfound, List.mem_append, List.mem_singleton]
          refine or_congr_right ⟨?_, ?_⟩
          · rintro rfl
            exact ⟨d, hd, by simp, rfl⟩
          · rintro ⟨e, -, htakes, rfl⟩
            exact (Option.some.inj (beq_iff_eq.mp htakes)).symm
      · next hnone =>
          refine ⟨.inl, ?_⟩
          rintro (h | ⟨d, hd, htakes, -⟩)
          · exact h
          · obtain rfl := Option.some.inj (beq_iff_eq.mp htakes)
            exact (hnone (List.any_eq_true.mpr ⟨d, hd, beq_self_eq_true _⟩)).elim

/-- The loop over the containers. -/
theorem foldl_turn (h : PullScan.Uuids s.databases) (containers cs : List ServerContainer) :
    (cs.foldl (turn containers) s).databases =
        s.databases.map (fun d => cs.foldl (fun e c => each c e) d) ∧
      ∀ uuid, uuid ∈ (cs.foldl (turn containers) s).foundDatabaseUuids ↔
        uuid ∈ s.foundDatabaseUuids ∨
          ∃ c ∈ cs, ∃ d ∈ s.databases, takes c d = true ∧ d.uuid = uuid := by
  induction cs generalizing s with
  | nil => simp
  | cons c cs ih =>
      have hdatabases : (turn containers s c).databases = s.databases.map (each c) :=
        turn_databases h c
      have huuids : PullScan.Uuids (turn containers s c).databases :=
        hdatabases ▸ h.map (each_uuid c)
      obtain ⟨ihdatabases, ihfound⟩ := ih huuids
      rw [List.foldl_cons]
      refine ⟨?_, fun uuid => ?_⟩
      · rw [ihdatabases, hdatabases, List.map_map]
        rfl
      · rw [ihfound, mem_foundDatabaseUuids_turn, hdatabases, or_assoc]
        simp only [List.exists_mem_cons_iff, List.mem_map, exists_exists_and_eq_and, each_uuid,
          takes]

theorem foldl_each_uuid (cs : List ServerContainer) (d : StandaloneDatabase) :
    (cs.foldl (fun e c => each c e) d).uuid = d.uuid := by
  induction cs generalizing d with
  | nil => rfl
  | cons c cs ih => rw [List.foldl_cons, ih, each_uuid]

theorem notFound_databases (uuid : String) :
    (notFound s uuid).databases =
      modifyFirst (·.uuid == uuid) StandaloneDatabase.unseen s.databases := by
  unfold notFound
  cases hfind : s.databases.find? (·.uuid == uuid) with
  | none => rw [modifyFirst_eq_self (by rw [hfind]; exact nofun), Option.elim_none]
  | some d =>
      rw [Option.elim_some]
      split
      · next hstopped =>
          rw [modifyFirst_eq_self]
          intro e he
          obtain rfl := Option.some.inj (hfind ▸ he)
          exact StandaloneDatabase.unseen_of_isExited (Bool.and_eq_true _ _ ▸ hstopped).1
      · rfl

theorem foldl_notFound (uuids : List String) :
    (uuids.foldl notFound s).databases =
      uuids.foldl (fun ds uuid => modifyFirst (·.uuid == uuid) StandaloneDatabase.unseen ds)
        s.databases := by
  induction uuids generalizing s with
  | nil => rfl
  | cons uuid uuids ih => rw [List.foldl_cons, ih, notFound_databases, List.foldl_cons]

end PushScan

section Result

variable {databases : List StandaloneDatabase} {containers : List ServerContainer}
  {d : StandaloneDatabase}

/-- What the push leaves of a database. -/
def pushedDatabase (containers : List ServerContainer) (d : StandaloneDatabase) :
    StandaloneDatabase :=
  (containers.find? (PushScan.takes · d)).elim d.unseen
    fun c => d.seen c.pushedStatus c.restartCount

theorem pushServerUpdate_databases (huuids : (databases.map (·.uuid)).Nodup)
    (hone : OneEach databases containers) :
    (pushServerUpdate databases containers).databases =
      databases.map (pushedDatabase containers) := by
  obtain ⟨hdatabases, hfound⟩ := PushScan.foldl_turn (s := PushScan.mk databases [] []) huuids
    containers containers
  set s := containers.foldl (PushScan.turn containers) (PushScan.mk databases [] []) with hs
  have huuids' : PullScan.Uuids s.databases := by
    rw [hdatabases]
    exact PullScan.Uuids.map (PushScan.foldl_each_uuid containers) huuids
  rw [pushServerUpdate, ← hs, PushScan.foldl_notFound,
    foldl_modifyFirst StandaloneDatabase.uuid StandaloneDatabase.uuid
      (fun _ => StandaloneDatabase.unseen_uuid) (fun _ => StandaloneDatabase.unseen_uuid)
      (fun _ => StandaloneDatabase.unseen_unseen) _ huuids', hdatabases, List.map_map]
  refine List.map_congr_left fun d hd => ?_
  rw [Function.comp_apply, PushScan.foldl_each_uuid]
  have hmem : d.uuid ∈ (databases.map fun d =>
      containers.foldl (fun e c => PushScan.each c e) d).map (·.uuid) := by
    rw [List.map_map]
    exact List.mem_map.mpr ⟨d, hd, PushScan.foldl_each_uuid containers d⟩
  have hfirst : ((databases.map fun d => containers.foldl (fun e c => PushScan.each c e) d).find?
      (·.uuid == d.uuid)).map (·.uuid) = some d.uuid := by
    obtain ⟨e, he, heq⟩ := List.mem_map.mp hmem
    cases hfind : (databases.map fun d =>
        containers.foldl (fun e c => PushScan.each c e) d).find? (·.uuid == d.uuid) with
    | none => exact absurd (List.find?_eq_none.mp hfind e he) (by simp [heq])
    | some e' => simpa using List.find?_some hfind
  have hturn : (d.uuid ∈ ((databases.map fun d =>
      containers.foldl (fun e c => PushScan.each c e) d).map (·.uuid)).filter
        fun uuid => !s.foundDatabaseUuids.contains uuid) ↔
        containers.find? (PushScan.takes · d) = none := by
    have hfound' : d.uuid ∈ s.foundDatabaseUuids ↔
        ∃ c ∈ containers, PushScan.takes c d = true := by
      rw [hfound]
      constructor
      · rintro (hnil | ⟨c, hc, e, -, htakes, he⟩)
        · cases hnil
        · exact ⟨c, hc, by rw [PushScan.takes, ← he]; exact htakes⟩
      · rintro ⟨c, hc, htakes⟩
        exact .inr ⟨c, hc, d, hd, htakes, rfl⟩
    rw [List.mem_filter, and_iff_right hmem, List.find?_eq_none]
    simp [hfound']
  have heach : containers.foldl (fun e c => PushScan.each c e) d =
      (containers.find? (PushScan.takes · d)).elim d fun c =>
        d.seen c.pushedStatus c.restartCount := by
    refine foldl_takes (fun c c' e => by simp [PushScan.takes]) ((hone d hd).imp ?_)
    intro c c' h hc
    by_contra hc'
    rw [Bool.not_eq_false] at hc'
    exact h (service_of_pushedUuid (beq_iff_eq.mp hc)).1
      (service_of_pushedUuid (beq_iff_eq.mp hc')).1
  rw [heach, pushedDatabase]
  cases hfind : containers.find? (PushScan.takes · d) with
  | none => rw [if_pos ⟨hturn.mpr hfind, hfirst⟩, Option.elim_none, Option.elim_none]
  | some c =>
      rw [if_neg fun h => by rw [hturn.mp h.1] at hfind; cases hfind]
      rfl

/-! ## Where they agree -/

theorem OneEach.pairwise (hone : OneEach databases containers) (hd : d ∈ databases) :
    containers.Pairwise fun c c' => (c.labels.service == some d.uuid) = true →
      (c'.labels.service == some d.uuid) = false :=
  (hone d hd).imp fun h hc => by simpa using h (beq_iff_eq.mp hc)

theorem find?_pulled (hone : OneEach databases containers) (hd : d ∈ databases) :
    containers.find? (PullScan.takes · d) =
      (containers.find? (·.labels.service == some d.uuid)).filter (PullScan.takes · d) :=
  find?_of_unique (fun c hc => by simpa using service_of_pulledUuid (beq_iff_eq.mp hc))
    (hone.pairwise hd)

theorem find?_pushed (hone : OneEach databases containers) (hd : d ∈ databases) :
    containers.find? (PushScan.takes · d) =
      (containers.find? (·.labels.service == some d.uuid)).filter (PushScan.takes · d) :=
  find?_of_unique (fun c hc => by simpa using (service_of_pushedUuid (beq_iff_eq.mp hc)).1)
    (hone.pairwise hd)

theorem pulledDatabase_none (hone : OneEach databases containers) (hd : d ∈ databases)
    (hfind : containers.find? (·.labels.service == some d.uuid) = none) :
    pulledDatabase databases containers d =
      if Shadowed databases containers d then d else d.unseen := by
  rw [pulledDatabase, find?_pulled hone hd, hfind, Option.filter_none, Option.elim_none]

theorem pulledDatabase_some (hone : OneEach databases containers) (hd : d ∈ databases)
    {c : ServerContainer} (hfind : containers.find? (·.labels.service == some d.uuid) = some c) :
    pulledDatabase databases containers d =
      if PullScan.takes c d then d.seen c.pulledStatus c.restartCount
      else if Shadowed databases containers d then d else d.unseen := by
  rw [pulledDatabase, find?_pulled hone hd, hfind, Option.filter_some]
  split <;> rfl

theorem pushedDatabase_none (hone : OneEach databases containers) (hd : d ∈ databases)
    (hfind : containers.find? (·.labels.service == some d.uuid) = none) :
    pushedDatabase containers d = d.unseen := by
  rw [pushedDatabase, find?_pushed hone hd, hfind, Option.filter_none, Option.elim_none]

theorem pushedDatabase_some (hone : OneEach databases containers) (hd : d ∈ databases)
    {c : ServerContainer} (hfind : containers.find? (·.labels.service == some d.uuid) = some c) :
    pushedDatabase containers d =
      if PushScan.takes c d then d.seen c.pushedStatus c.restartCount else d.unseen := by
  rw [pushedDatabase, find?_pushed hone hd, hfind, Option.filter_some]
  split <;> rfl

theorem exists_pulledUuid_iff (hone : OneEach databases containers) (hd : d ∈ databases) :
    (∃ c ∈ containers, c.pulledUuid = some d.uuid) ↔
      ((containers.find? (·.labels.service == some d.uuid)).filter
        (PullScan.takes · d)).isSome = true := by
  rw [← find?_pulled hone hd, List.find?_isSome]
  simp [PullScan.takes]

/-- `ToldAlike`, of the one container. -/
theorem toldAlike_find? (hone : OneEach databases containers) (hd : d ∈ databases) :
    ToldAlike databases containers d ↔
      (∀ c, containers.find? (·.labels.service == some d.uuid) = some c → c.report.1 ≠ .exited →
        PushScan.takes c d = true ∧ (PullScan.takes c d = true ∨
          (Shadowed databases containers d ∧ d.reported = c.pushedStatus))) ∧
      ((∀ c, containers.find? (·.labels.service == some d.uuid) = some c → c.report.1 = .exited) →
        d.reported = "exited:unhealthy" ∨ (d.isExited = false ∧
          ((∃ c ∈ containers, c.pulledUuid = some d.uuid) ∨
            ¬ Shadowed databases containers d))) := by
  have hunique := hone.pairwise hd
  rw [← forall_find?_of_unique hunique, ← forall_find?_of_unique hunique]
  simp only [PushScan.takes, PullScan.takes, beq_iff_eq]
  exact ⟨fun ⟨hactive, hgone⟩ => ⟨hactive, hgone⟩, fun ⟨hactive, hgone⟩ => ⟨hactive, hgone⟩⟩

theorem toldAlike_none (hone : OneEach databases containers) (hd : d ∈ databases)
    (hfind : containers.find? (·.labels.service == some d.uuid) = none) :
    ToldAlike databases containers d ↔
      d.reported = "exited:unhealthy" ∨
        (d.isExited = false ∧ ¬ Shadowed databases containers d) := by
  rw [toldAlike_find? hone hd, exists_pulledUuid_iff hone hd, hfind]
  simp

theorem toldAlike_exited (hone : OneEach databases containers) (hd : d ∈ databases)
    {c : ServerContainer} (hfind : containers.find? (·.labels.service == some d.uuid) = some c)
    (hexited : c.report.1 = .exited) :
    ToldAlike databases containers d ↔
      d.reported = "exited:unhealthy" ∨ (d.isExited = false ∧
        (PullScan.takes c d = true ∨ ¬ Shadowed databases containers d)) := by
  rw [toldAlike_find? hone hd, exists_pulledUuid_iff hone hd, hfind, Option.filter_some]
  simp only [Option.some.injEq, forall_eq', hexited, ne_eq, not_true_eq_false, false_implies,
    true_and, true_implies]
  split <;> simp_all

theorem toldAlike_active (hone : OneEach databases containers) (hd : d ∈ databases)
    {c : ServerContainer} (hfind : containers.find? (·.labels.service == some d.uuid) = some c)
    (hactive : c.report.1 ≠ .exited) :
    ToldAlike databases containers d ↔
      PushScan.takes c d = true ∧ (PullScan.takes c d = true ∨
        (Shadowed databases containers d ∧ d.reported = c.pushedStatus)) := by
  rw [toldAlike_find? hone hd, hfind]
  simp only [Option.some.injEq, forall_eq', hactive, ne_eq, not_false_eq_true, true_implies,
    false_implies, and_true]

/-- A database that no container was taken for. -/
theorem untaken_reported_iff :
    (if Shadowed databases containers d then d else d.unseen).reported = "exited:unhealthy" ∧
        d.unseen.reported = "exited:unhealthy" ↔
      d.reported = "exited:unhealthy" ∨
        (d.isExited = false ∧ ¬ Shadowed databases containers d) := by
  rw [StandaloneDatabase.unseen_reported_iff]
  split
  · next hshadowed =>
      simp only [hshadowed, not_true_eq_false, and_false, or_false]
      exact and_iff_left_of_imp .inl
  · next hshadowed =>
      rw [StandaloneDatabase.unseen_reported_iff]
      simp [hshadowed]

/-- What becomes of one database. -/
theorem toldAlike_iff (hone : OneEach databases containers)
    (hstates : ∀ c ∈ containers, c.report.1 ≠ .removing ∧ c.report.1 ≠ .dead)
    (hd : d ∈ databases) :
    (pulledDatabase databases containers d).reported =
        statusAttribute (d.expectedStatus containers) ∧
      (pushedDatabase containers d).reported = statusAttribute (d.expectedStatus containers) ↔
    ToldAlike databases containers d := by
  rw [StandaloneDatabase.expectedStatus]
  cases hfind : containers.find? (·.labels.service == some d.uuid) with
  | none =>
      rw [pulledDatabase_none hone hd hfind, pushedDatabase_none hone hd hfind,
        toldAlike_none hone hd hfind, Option.elim_none, statusAttribute_exited]
      exact untaken_reported_iff
  | some c =>
      have hc := List.mem_of_find?_eq_some hfind
      rw [pulledDatabase_some hone hd hfind, pushedDatabase_some hone hd hfind, Option.elim_some,
        pulledStatus_eq]
      by_cases hexited : c.report.1 = .exited
      · have hstatus : c.pushedStatus = "exited" := c.report.pushedStatus_exited hexited
        have hpush : PushScan.takes c d = false := by
          rw [← Bool.not_eq_true]
          intro htakes
          have hactive := (service_of_pushedUuid (beq_iff_eq.mp htakes)).2
          obtain ⟨hremoving, hdead⟩ := hstates c hc
          exact (c.report.isActiveOrTransient_iff hremoving hdead).mp hactive hexited
        rw [toldAlike_exited hone hd hfind hexited, hpush, hstatus, statusAttribute_exited]
        cases hpull : PullScan.takes c d with
        | true =>
            have hseen := d.seen_reported c.report c.restartCount
            rw [c.report.pushedStatus_exited hexited, statusAttribute_exited] at hseen
            simp only [if_true, Bool.false_eq_true, if_false, hseen, true_and, true_or, and_true]
            exact StandaloneDatabase.unseen_reported_iff
        | false =>
            simp only [Bool.false_eq_true, if_false, false_or]
            exact untaken_reported_iff
      · have hactive : statusAttribute c.pushedStatus = c.pushedStatus :=
          (c.report.pushedStatus_active hexited).1
        have hseen : (d.seen c.pushedStatus c.restartCount).reported = c.pushedStatus :=
          (d.seen_reported c.report c.restartCount).trans hactive
        have hunseen : d.unseen.reported ≠ c.pushedStatus :=
          StandaloneDatabase.unseen_reported_ne hexited
        rw [toldAlike_active hone hd hfind hexited, hactive]
        cases PushScan.takes c d with
        | false =>
            simp only [Bool.false_eq_true, if_false, false_and, iff_false]
            exact fun h => hunseen h.2
        | true =>
            cases PullScan.takes c d with
            | true => simp only [if_true, hseen, and_self, true_or]
            | false =>
                simp only [if_true, hseen, Bool.false_eq_true, if_false, false_or, true_and,
                  and_true]
                split
                · next hshadowed => simp only [hshadowed, true_and]
                · next hshadowed => simp only [hshadowed, false_and, hunseen]

theorem pulledDatabase_uuid (d : StandaloneDatabase) :
    (pulledDatabase databases containers d).uuid = d.uuid := by
  unfold pulledDatabase
  cases containers.find? (PullScan.takes · d) with
  | none =>
      rw [Option.elim_none]
      split
      · rfl
      · exact StandaloneDatabase.unseen_uuid
  | some c => exact StandaloneDatabase.seen_uuid ..

theorem pushedDatabase_uuid (d : StandaloneDatabase) :
    (pushedDatabase containers d).uuid = d.uuid := by
  unfold pushedDatabase
  cases containers.find? (PushScan.takes · d) with
  | none => exact StandaloneDatabase.unseen_uuid
  | some c => exact StandaloneDatabase.seen_uuid ..

theorem reports_pulled (hne : containers ≠ []) (huuids : (databases.map (·.uuid)).Nodup)
    (hone : OneEach databases containers) :
    reports (getContainersStatus databases containers).databases =
      databases.map fun d => (d.uuid, (pulledDatabase databases containers d).reported) := by
  rw [getContainersStatus_databases hne huuids hone, reports, List.map_map]
  exact List.map_congr_left fun d _ => Prod.ext (pulledDatabase_uuid d) rfl

theorem reports_pushed (huuids : (databases.map (·.uuid)).Nodup)
    (hone : OneEach databases containers) :
    reports (pushServerUpdate databases containers).databases =
      databases.map fun d => (d.uuid, (pushedDatabase containers d).reported) := by
  rw [pushServerUpdate_databases huuids hone, reports, List.map_map]
  exact List.map_congr_left fun d _ => Prod.ext (pushedDatabase_uuid d) rfl

theorem statusesAgree_iff (hne : containers ≠ []) (huuids : (databases.map (·.uuid)).Nodup)
    (hone : OneEach databases containers) :
    StatusesAgree databases containers ↔ ∀ d ∈ databases,
      (pulledDatabase databases containers d).reported =
          statusAttribute (d.expectedStatus containers) ∧
        (pushedDatabase containers d).reported =
          statusAttribute (d.expectedStatus containers) := by
  constructor
  · intro h d hd
    have hexpected := h.expected
    have halike := h.alike
    rw [reports_pulled hne huuids hone] at hexpected halike
    rw [reports_pushed huuids hone] at halike
    have hpulled := (Prod.mk.inj (List.map_inj_left.mp hexpected d hd)).2
    have hsame := (Prod.mk.inj (List.map_inj_left.mp halike d hd)).2
    exact ⟨hpulled, hsame ▸ hpulled⟩
  · intro h
    constructor
    · rw [reports_pulled hne huuids hone, reports_pushed huuids hone]
      exact List.map_congr_left fun d hd => by rw [(h d hd).1, (h d hd).2]
    · rw [reports_pulled hne huuids hone]
      exact List.map_congr_left fun d hd => by rw [(h d hd).1]

end Result

/-- The pulled and the pushed status agree exactly where every database is told
alike. -/
theorem pulled_pushed_agree_iff {tables : StandaloneType → List StandaloneDatabase}
    {containers : List ServerContainer} (hne : containers ≠ [])
    (huuids : ((standaloneDatabases tables).map (·.uuid)).Nodup)
    (hone : OneEach (standaloneDatabases tables) containers)
    (hstates : ∀ c ∈ containers, c.report.1 ≠ .removing ∧ c.report.1 ≠ .dead) :
    StatusesAgree (standaloneDatabases tables) containers ↔
      ∀ d ∈ standaloneDatabases tables, ToldAlike (standaloneDatabases tables) containers d := by
  rw [statusesAgree_iff hne huuids hone]
  exact forall₂_congr fun d hd => toldAlike_iff hone hstates hd

/-! ### A running PostgreSQL and a Redis that died -/

def runningPostgresql : StandaloneDatabase where
  id := 1
  uuid := "pg"
  name := "postgres"
  status := "running:healthy"
  isPublic := false
  restartCount := 0
  maxRestartCount := 10
  restartLimitReached := false

def deadRedis (id : Nat) : StandaloneDatabase :=
  { runningPostgresql with id := id, uuid := "rd", name := "redis" }

def twoTables (id : Nat) : StandaloneType → List StandaloneDatabase
  | .postgresql => [runningPostgresql]
  | .redis => [deadRedis id]
  | _ => []

def postgresqlContainer : ServerContainer where
  name := "pg"
  report := (.running, some .healthy)
  restartCount := 0
  labels := ContainerLabels.mk true (some "False") none none (some "database") (some "pg")

theorem oneEach_singleton (databases : List StandaloneDatabase) (c : ServerContainer) :
    OneEach databases [c] := fun _ _ => List.pairwise_singleton ..

/-- With ids of their own. -/
theorem dead_redis_noticed :
    StatusesAgree (standaloneDatabases (twoTables 2)) [postgresqlContainer] := by
  refine (pulled_pushed_agree_iff (List.cons_ne_nil _ _) (by decide +kernel)
    (oneEach_singleton _ _) (by decide)).mpr ?_
  have hdatabases : standaloneDatabases (twoTables 2) = [runningPostgresql, deadRedis 2] := by
    decide +kernel
  rw [hdatabases, List.forall_mem_cons, List.forall_mem_singleton]
  constructor
  · constructor
    · intro c hc _ _
      rw [List.mem_singleton.mp hc]
      exact ⟨by decide +kernel, .inl (by decide +kernel)⟩
    · intro hgone
      cases hgone postgresqlContainer (List.mem_singleton_self _) rfl
  · constructor
    · intro c hc hservice
      rw [List.mem_singleton.mp hc] at hservice
      exact absurd hservice (by decide)
    · exact fun _ => .inr ⟨by decide +kernel, .inr (by decide +kernel)⟩

/-- With the id of the other the pull leaves it running. -/
theorem dead_redis_overlooked :
    ((standaloneDatabases (twoTables 1)).map (·.uuid)).Nodup ∧
      OneEach (standaloneDatabases (twoTables 1)) [postgresqlContainer] ∧
      ¬ StatusesAgree (standaloneDatabases (twoTables 1)) [postgresqlContainer] := by
  refine ⟨by decide +kernel, oneEach_singleton _ _, fun h => ?_⟩
  have halike := h.alike
  revert halike
  decide +kernel

end OnePloy
