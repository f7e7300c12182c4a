import Mathlib.Data.List.Infix
import OnePloy.DeploymentQueue
import OnePloy.Lib.OrderedMap
import OnePloy.Lib.Reach
import OnePloy.Lib.Table

/-!
# Rolling updates

`ApplicationDeploymentJob` from `rolling_update` on, for one application on one server
that is not a swarm, without its previews. A job goes from one remote command to the
next; between two of them other jobs, the user and docker itself may act, for a
deployment that has come to a final status leaves the next one its place while its own
job goes on. What is built before, and the log, are left out.
-/

namespace OnePloy

open Conc

/-! ## State -/

structure RolloutConfig where
  portsMappingsArray : List String
  isConsistentContainerNameEnabled : Bool
  customInternalName : String
  customDockerRunOptions : String
  isHealthcheckDisabled : Bool
  customHealthcheckFound : Bool
  healthCheckRetries : Nat
  deriving DecidableEq

/-- What docker says of a container. `unchecked`: there is no check. -/
inductive RolloutHealth
  | unchecked | starting | healthy | unhealthy | exited
  deriving DecidableEq

/-- Nothing has shown yet that the container does not work. -/
def RolloutHealth.serves : RolloutHealth → Bool
  | .unchecked | .healthy => true
  | _ => false

/-- Where a job stands. -/
inductive RolloutPhase
  | preparing
  /-- `stop_running_container(force: true)`, with the containers that are left to remove. -/
  | forcing (names : List String)
  | starting
  /-- `health_check`, at one of its attempts. -/
  | checking (counter : Nat)
  /-- The new version is healthy, and the containers are not listed yet. -/
  | listing
  | removing (names : List String)
  /-- The new version is not healthy, and the deployment has not failed yet. -/
  | unhealthy
  /-- The deployment has failed, and the new container is not removed yet. -/
  | rejecting
  /-- `rolling_update` has returned. -/
  | completing
  | closing
  /-- An exception has got out of the job. -/
  | failing (code : Nat)
  /-- `failed()` is about to remove the new container. -/
  | cleaning
  | ended
  deriving DecidableEq

def RolloutPhase.names : RolloutPhase → List String
  | .forcing names | .removing names => names
  | _ => []

/-- `stop_running_container` with some containers left. -/
def RolloutPhase.remove : List String → RolloutPhase
  | [] => .completing
  | names => .removing names

structure Rollout where
  cfg : RolloutConfig
  containerName : String
  status : DeploymentStatus
  newVersionIsHealthy : Bool
  phase : RolloutPhase
  deriving DecidableEq

structure RolloutServer where
  rollouts : Table Rollout
  /-- `docker ps -a`. -/
  containers : OrderedMap String RolloutHealth
  /-- The `RemoveContainerJob`s that were dispatched. -/
  removals : List String

/-- The code of what is thrown for a cancelled deployment. -/
def cancelledCode : Nat := 69420

def RolloutConfig.supportsRolling (cfg : RolloutConfig) : Bool :=
  !(0 < cfg.portsMappingsArray.length || cfg.isConsistentContainerNameEnabled ||
    cfg.customInternalName != "" || decide ("--ip".toList <:+: cfg.customDockerRunOptions.toList))

/-- `resolveContainerName`. `now`: the time of day. -/
def RolloutConfig.containerName (cfg : RolloutConfig) (uuid now : String) : String :=
  if cfg.customInternalName == "" then
    if cfg.isConsistentContainerNameEnabled then uuid else uuid ++ "-" ++ now
  else cfg.customInternalName

/-- `transitionToStatus`, for a deployment that is not cancelled. -/
def Rollout.transitionToStatus (d : Rollout) (status : DeploymentStatus) : DeploymentStatus :=
  if d.status.isFinal then d.status else status

/-- What became of `docker stop` and `docker rm`. `timedOut`: another job tries later. -/
inductive ContainerRemoval
  | gone | exited | kept | timedOut
  deriving DecidableEq

namespace RolloutServer

/-! ## Steps -/

def moveTo (s : RolloutServer) (j : Nat) (phase : RolloutPhase) : RolloutServer :=
  { s with rollouts := s.rollouts.modify j ({ · with phase := phase }) }

def settleAs (s : RolloutServer) (j : Nat) (status : DeploymentStatus) (phase : RolloutPhase) :
    RolloutServer :=
  { s with rollouts := s.rollouts.modify j ({ · with status := status, phase := phase }) }

/-- A container that is there gets another health. -/
def become (s : RolloutServer) (name : String) (health : RolloutHealth) : RolloutServer :=
  { s with
    containers := if (s.containers.get? name).isSome then s.containers.set name health
      else s.containers }

/-- `graceful_shutdown_container` and `removeContainerWithTimeout`. -/
def takeDown (s : RolloutServer) (name : String) : ContainerRemoval → RolloutServer
  | .gone => { s with containers := s.containers.erase name }
  | .exited => s.become name .exited
  | .kept => s
  | .timedOut => { s.become name .exited with removals := name :: s.removals }

/-- `next_queuable` lets a deployment pass when none is in progress. -/
def deploy (s : RolloutServer) (uuid now : String) (cfg : RolloutConfig) :
    Option RolloutServer :=
  if s.rollouts.rows.any fun r => r.2.status == .inProgress then none
  else some { s with
    rollouts := s.rollouts.insert
      ⟨cfg, cfg.containerName uuid now, .inProgress, false, .preparing⟩ }

/-- The job, as long as its deployment is not cancelled. -/
def running? (s : RolloutServer) (j : Nat) : Option Rollout :=
  (s.rollouts.get? j).filter (·.status != .cancelledByUser)

/-- The containers that `stop_running_container` removes. -/
def toRemove (s : RolloutServer) (d : Rollout) (force : Bool) : List String :=
  if force && (d.cfg.isConsistentContainerNameEnabled || d.cfg.customInternalName != "") then
    (s.containers.keys ++ [d.containerName]).dedup
  else s.containers.keys.filter (· ≠ d.containerName)

/-- `rolling_update`. Without its list (`listed`) it removes nothing and goes on. -/
def begin (s : RolloutServer) (j : Nat) (listed : Bool) : Option RolloutServer := do
  let d ← s.running? j
  if d.phase = .preparing then
    if d.cfg.supportsRolling then return s.moveTo j .starting
    else return s.moveTo j (.forcing (if listed then s.toRemove d true else []))
  else none

/-- The container that `docker compose up` makes. -/
def create (s : RolloutServer) (d : Rollout) : RolloutServer :=
  { s with
    containers := s.containers.set d.containerName
      (if d.cfg.isHealthcheckDisabled && !d.cfg.customHealthcheckFound then .unchecked
        else .starting) }

def start (s : RolloutServer) (j : Nat) : Option RolloutServer := do
  let d ← s.running? j
  if d.phase = .starting then return (s.create d).moveTo j (.checking 1)
  else if d.phase = .forcing [] then return (s.create d).moveTo j .completing
  else none

def accept (s : RolloutServer) (j : Nat) : RolloutServer :=
  { s with rollouts := s.rollouts.modify j ({ · with
      newVersionIsHealthy := true
      phase := .listing }) }

/-- `health_check`: one attempt. `docker inspect` finds a container that has a check, or
fails. -/
def check (s : RolloutServer) (j : Nat) : Option RolloutServer := do
  let d ← s.running? j
  match d.phase with
  | .checking counter =>
      if d.cfg.isHealthcheckDisabled && !d.cfg.customHealthcheckFound then return s.accept j
      else if d.cfg.healthCheckRetries < counter then return s.moveTo j .unhealthy
      else
        match s.containers.get? d.containerName with
        | none | some .unchecked => none
        | some .healthy => return s.accept j
        | some .unhealthy | some .exited => return s.moveTo j .unhealthy
        | some .starting => return s.moveTo j (.checking (counter + 1))
  | _ => none

def list (s : RolloutServer) (j : Nat) (listed : Bool) : Option RolloutServer := do
  let d ← s.running? j
  if d.phase = .listing then
    return s.moveTo j (.remove (if listed then s.toRemove d false else []))
  else none

def remove (s : RolloutServer) (j : Nat) (removal : ContainerRemoval) :
    Option RolloutServer := do
  let d ← s.running? j
  match d.phase with
  | .forcing (name :: names) => return (s.takeDown name removal).moveTo j (.forcing names)
  | .removing (name :: names) => return (s.takeDown name removal).moveTo j (.remove names)
  | _ => none

/-- `failDeployment`, for a new version that is not healthy. -/
def reject (s : RolloutServer) (j : Nat) : Option RolloutServer := do
  let d ← s.running? j
  if d.phase = .unhealthy then
    return s.settleAs j (d.transitionToStatus .failed) .rejecting
  else none

def shutDown (s : RolloutServer) (j : Nat) (removal : ContainerRemoval) :
    Option RolloutServer := do
  let d ← s.running? j
  if d.phase = .rejecting then return (s.takeDown d.containerName removal).moveTo j .completing
  else none

/-- `completeDeployment`. -/
def complete (s : RolloutServer) (j : Nat) : Option RolloutServer := do
  let d ← s.running? j
  if d.phase = .completing then
    return s.settleAs j (d.transitionToStatus .finished) .closing
  else none

def finish (s : RolloutServer) (j : Nat) : Option RolloutServer := do
  let d ← s.running? j
  if d.phase = .closing then return s.moveTo j .ended else none

def isOver : RolloutPhase → Bool
  | .failing _ | .cleaning | .ended => true
  | _ => false

/-- Something is thrown that the job does not catch, or its time is up. `docker compose
up` may have made the container. -/
def throw (s : RolloutServer) (j code : Nat) (created : Bool) : Option RolloutServer := do
  let d ← s.rollouts.get? j
  if isOver d.phase then none
  else return (if created && d.phase = .starting then s.create d else s).moveTo j (.failing code)

/-- The last attempt at a command over ssh fails, which marks the deployment. Where
containers are removed, the loop goes on. -/
def exhaust (s : RolloutServer) (j : Nat) : Option RolloutServer := do
  let d ← s.running? j
  let status : DeploymentStatus := if d.status = .finished then .finished else .failed
  match d.phase with
  | .preparing | .starting | .checking _ => return s.settleAs j status (.failing 0)
  | .forcing (_ :: names) => return s.settleAs j status (.forcing names)
  | .removing (_ :: names) => return s.settleAs j status (.remove names)
  | .rejecting => return s.settleAs j status .completing
  | _ => none

/-- `failed` leaves the container of an image that could not be pushed, and one that has
the name of the last. -/
def keepsContainer (d : Rollout) (code : Nat) : Bool :=
  code == cancelledCode || d.cfg.isConsistentContainerNameEnabled ||
    d.cfg.customInternalName != ""

/-- `failed`. A cancelled deployment throws again, and a notification may (`thrown`). -/
def failed (s : RolloutServer) (j : Nat) (thrown : Bool) : Option RolloutServer := do
  let d ← s.rollouts.get? j
  match d.phase with
  | .failing code =>
      if d.status = .cancelledByUser then return s.moveTo j .ended
      else
        let isOver := keepsContainer d code || thrown && !d.status.isFinal
        return s.settleAs j (d.transitionToStatus .failed) (if isOver then .ended else .cleaning)
  | _ => none

def clean (s : RolloutServer) (j : Nat) (removal : ContainerRemoval) :
    Option RolloutServer := do
  let d ← s.rollouts.get? j
  if d.phase = .cleaning then return (s.takeDown d.containerName removal).moveTo j .ended
  else none

def cancel (s : RolloutServer) (j : Nat) : Option RolloutServer := do
  let d ← (s.rollouts.get? j).filter (·.status == .inProgress)
  return s.settleAs j .cancelledByUser d.phase

/-- Every command of a cancelled deployment throws, and so does `failed`. -/
def abort (s : RolloutServer) (j : Nat) : Option RolloutServer := do
  let _ ← (s.rollouts.get? j).filter (·.status == .cancelledByUser)
  return s.moveTo j .ended

/-- Docker has checked a container. -/
def settle (s : RolloutServer) (name : String) (healthy : Bool) : Option RolloutServer :=
  if s.containers.get? name = some .starting then
    some (s.become name (if healthy then .healthy else .unhealthy))
  else none

/-- `RemoveContainerJob`. -/
def removeLater (s : RolloutServer) (name : String) : Option RolloutServer :=
  if name ∈ s.removals then
    some { s with containers := s.containers.erase name, removals := s.removals.erase name }
  else none

end RolloutServer

inductive RolloutEvent
  | deploy (uuid now : String) (cfg : RolloutConfig)
  | begin (j : Nat) (listed : Bool)
  | start (j : Nat)
  | check (j : Nat)
  | list (j : Nat) (listed : Bool)
  | remove (j : Nat) (removal : ContainerRemoval)
  | reject (j : Nat)
  | shutDown (j : Nat) (removal : ContainerRemoval)
  | complete (j : Nat)
  | finish (j : Nat)
  | throw (j code : Nat) (created : Bool)
  | exhaust (j : Nat)
  | failed (j : Nat) (thrown : Bool)
  | clean (j : Nat) (removal : ContainerRemoval)
  | cancel (j : Nat)
  | abort (j : Nat)
  | settle (name : String) (healthy : Bool)
  | removeLater (name : String)

def RolloutServer.step (s : RolloutServer) : RolloutEvent → Option RolloutServer
  | .deploy uuid now cfg => s.deploy uuid now cfg
  | .begin j listed => s.begin j listed
  | .start j => s.start j
  | .check j => s.check j
  | .list j listed => s.list j listed
  | .remove j removal => s.remove j removal
  | .reject j => s.reject j
  | .shutDown j removal => s.shutDown j removal
  | .complete j => s.complete j
  | .finish j => s.finish j
  | .throw j code created => s.throw j code created
  | .exhaust j => s.exhaust j
  | .failed j thrown => s.failed j thrown
  | .clean j removal => s.clean j removal
  | .cancel j => s.cancel j
  | .abort j => s.abort j
  | .settle name healthy => s.settle name healthy
  | .removeLater name => s.removeLater name

/-! ## What a rolling update keeps -/

/-- The phases of a job that nothing but the user has marked. -/
def RolloutPhase.isEarly : RolloutPhase → Bool
  | .preparing | .starting | .checking _ | .listing | .unhealthy => true
  | _ => false

/-- The phases of a new version that is not known to be healthy. -/
def RolloutPhase.isUnproven : RolloutPhase → Bool
  | .preparing | .starting | .checking _ | .unhealthy | .rejecting | .cleaning => true
  | .failing code => code != cancelledCode
  | _ => false

/-- The phases that only a healthy version or a failed deployment gets to. -/
def RolloutPhase.isDecided : RolloutPhase → Bool
  | .listing | .removing _ | .rejecting | .completing | .cleaning => true
  | _ => false

namespace RolloutServer

variable {s s' : RolloutServer} {j : Nat} {d : Rollout} {name : String}

def Serves (s : RolloutServer) (name : String) : Prop :=
  ∃ health, s.containers.get? name = some health ∧ health.serves = true

/-- The name of a new container is new. -/
def Fresh (s : RolloutServer) (name : String) : Prop :=
  (∀ r ∈ s.rollouts.rows, r.2.containerName ≠ name ∧ name ∉ r.2.phase.names) ∧
    name ∉ s.containers.keys ∧ name ∉ s.removals

/-- Every deployment is rolling, and nothing but a cancellation gets out of one whose new
version is healthy. -/
def Calm (s : RolloutServer) : RolloutEvent → Prop
  | .deploy uuid now cfg => cfg.supportsRolling = true ∧ s.Fresh (cfg.containerName uuid now)
  | .throw j code _ => code = cancelledCode ∨
      ∀ r ∈ s.rollouts.rows, r.1 = j → r.2.newVersionIsHealthy = false
  | _ => True

/-- What holds of each job. -/
structure Proper (s : RolloutServer) (d : Rollout) : Prop where
  rolling : d.cfg.supportsRolling = true
  unforced : ∀ names, d.phase ≠ .forcing names
  early : d.phase.isEarly = true → d.status = .inProgress ∨ d.status = .cancelledByUser
  unproven : d.phase.isUnproven = true → d.newVersionIsHealthy = false
  made {counter : Nat} : d.phase = .checking counter → d.status = .inProgress →
    (d.cfg.isHealthcheckDisabled && !d.cfg.customHealthcheckFound) = true →
      s.containers.get? d.containerName = some .unchecked
  ready : d.phase = .listing → d.status = .inProgress → s.Serves d.containerName
  decided : d.phase.isDecided = true → d.newVersionIsHealthy = true ∨ d.status.isFinal = true
  honest : d.status = .finished → d.newVersionIsHealthy = true

structure Covered (s : RolloutServer) : Prop where
  named {i j : Nat} {d d' : Rollout} : s.rollouts.get? i = some d → s.rollouts.get? j = some d' →
    d.containerName = d'.containerName → i = j
  single {i j : Nat} {d d' : Rollout} : s.rollouts.get? i = some d →
    s.rollouts.get? j = some d' → d.status = .inProgress → d'.status = .inProgress → i = j
  /-- Nobody is after the container of a deployment in progress. -/
  untouched {i j : Nat} {d d' : Rollout} : s.rollouts.get? i = some d →
    s.rollouts.get? j = some d' → d.status = .inProgress →
      d.containerName ∉ d'.phase.names ∧ d.containerName ∉ s.removals
  proper {j : Nat} {d : Rollout} : s.rollouts.get? j = some d → s.Proper d
  /-- A container that serves, and that nobody is after. -/
  guarded : ∃ name, s.Serves name ∧ name ∉ s.removals ∧
    ∀ j d, s.rollouts.get? j = some d → name ∉ d.phase.names ∧
      (d.containerName = name → d.newVersionIsHealthy = true)

/-! ### Jobs -/

/-- A job goes on and has no more containers to remove than before. -/
theorem Covered.modify (h : s.Covered) (hd : s.rollouts.get? j = some d)
    {f : Rollout → Rollout} (hname : (f d).containerName = d.containerName)
    (hstatus : (f d).status = .inProgress → d.status = .inProgress)
    (hnames : ∀ name ∈ (f d).phase.names, name ∈ d.phase.names)
    (hhealthy : d.newVersionIsHealthy = true → (f d).newVersionIsHealthy = true)
    (hproper : s.Proper (f d)) :
    Covered { s with rollouts := s.rollouts.modify j f } := by
  have hback : ∀ {i e'}, (s.rollouts.modify j f).get? i = some e' →
      ∃ e, s.rollouts.get? i = some e ∧ e'.containerName = e.containerName ∧
        (e'.status = .inProgress → e.status = .inProgress) ∧
        (∀ name ∈ e'.phase.names, name ∈ e.phase.names) ∧
        (e.newVersionIsHealthy = true → e'.newVersionIsHealthy = true) ∧
        (s.Proper e → s.Proper e') := by
    intro i e' he'
    obtain ⟨e, he, rfl⟩ := Table.get?_modify_some.mp he'
    refine ⟨e, he, ?_⟩
    split
    · next hi =>
        obtain rfl := Option.some.inj (hd.symm.trans (hi ▸ he))
        exact ⟨hname, hstatus, hnames, hhealthy, fun _ => hproper⟩
    · exact ⟨rfl, id, fun _ => id, id, id⟩
  constructor
  case named =>
    intro i i' e₁ e₂ he₁ he₂ hsame
    obtain ⟨e₁', he₁', hname₁, -⟩ := hback he₁
    obtain ⟨e₂', he₂', hname₂, -⟩ := hback he₂
    exact h.named he₁' he₂' (hname₁.symm.trans (hsame.trans hname₂))
  case single =>
    intro i i' e₁ e₂ he₁ he₂ hstatus₁ hstatus₂
    obtain ⟨e₁', he₁', -, hback₁, -⟩ := hback he₁
    obtain ⟨e₂', he₂', -, hback₂, -⟩ := hback he₂
    exact h.single he₁' he₂' (hback₁ hstatus₁) (hback₂ hstatus₂)
  case untouched =>
    intro i i' e₁ e₂ he₁ he₂ hstatus₁
    obtain ⟨e₁', he₁', hname₁, hback₁, -⟩ := hback he₁
    obtain ⟨e₂', he₂', -, -, hnames₂, -⟩ := hback he₂
    rw [hname₁]
    obtain ⟨hnot, hnever⟩ := h.untouched he₁' he₂' (hback₁ hstatus₁)
    exact ⟨fun hin => hnot (hnames₂ _ hin), hnever⟩
  case proper =>
    intro i e' he'
    obtain ⟨e, he, -, -, -, -, hproper⟩ := hback he'
    obtain ⟨hrolling, hunforced, hearly, hunproven, hmade, hready, hdecided, hhonest⟩ :=
      hproper (h.proper he)
    exact ⟨hrolling, hunforced, hearly, hunproven, hmade, hready, hdecided, hhonest⟩
  case guarded =>
    obtain ⟨name, hserves, hnever, hsafe⟩ := h.guarded
    refine ⟨name, hserves, hnever, fun i e' he' => ?_⟩
    obtain ⟨e, he, hname', -, hnames', hhealthy', -⟩ := hback he'
    obtain ⟨hnot, hmine⟩ := hsafe i e he
    exact ⟨fun hin => hnot (hnames' name hin), fun hsame => hhealthy' (hmine (hname' ▸ hsame))⟩

/-! ### Containers -/

/-- Somebody is after the container: a job that removes it, the job that started it and has
failed, or a removal that was put off. -/
def Doomed (s : RolloutServer) (name : String) : Prop :=
  (∃ j d, s.rollouts.get? j = some d ∧ name ∈ d.phase.names) ∨
    (∃ j d, s.rollouts.get? j = some d ∧ d.containerName = name ∧
      d.newVersionIsHealthy = false ∧ d.status ≠ .inProgress) ∨ name ∈ s.removals

theorem Covered.not_doomed (h : s.Covered) (hd : s.rollouts.get? j = some d)
    (hstatus : d.status = .inProgress) : ¬ s.Doomed d.containerName := by
  rintro (⟨i, e, he, hin⟩ | ⟨i, e, he, hname, -, hother⟩ | hnever)
  · exact (h.untouched hd he hstatus).1 hin
  · obtain rfl := h.named he hd hname
    obtain rfl := Option.some.inj (hd.symm.trans he)
    exact hother hstatus
  · exact (h.untouched hd hd hstatus).2 hnever

/-- What changes is a container that somebody is after. -/
theorem Covered.of_containers (h : s.Covered) {containers : OrderedMap String RolloutHealth}
    {removals : List String} (hname : s.Doomed name)
    (hsame : ∀ n, n ≠ name → containers.get? n = s.containers.get? n)
    (hremovals : ∀ n ∈ removals, n = name ∨ n ∈ s.removals) :
    Covered { s with containers := containers, removals := removals } := by
  have hmine : ∀ {i e}, s.rollouts.get? i = some e → e.status = .inProgress →
      e.containerName ≠ name := by
    rintro i e he hstatus rfl
    exact h.not_doomed he hstatus hname
  refine { h with untouched := ?_, proper := ?_, guarded := ?_ }
  · intro i i' e e' he he' hstatus
    obtain ⟨hnot, hnever⟩ := h.untouched he he' hstatus
    refine ⟨hnot, fun hin => ?_⟩
    rcases hremovals _ hin with heq | hbefore
    · exact hmine he hstatus heq
    · exact hnever hbefore
  · intro i e he
    obtain ⟨hrolling, hunforced, hearly, hunproven, hmade, hready, hdecided, hhonest⟩ := h.proper he
    refine ⟨hrolling, hunforced, hearly, hunproven, fun hphase hstatus hdisabled => ?_,
      fun hphase hstatus => ?_, hdecided, hhonest⟩
    · exact (hsame _ (hmine he hstatus)).trans (hmade hphase hstatus hdisabled)
    · obtain ⟨health, hhealth, hserves⟩ := hready hphase hstatus
      exact ⟨health, (hsame _ (hmine he hstatus)).trans hhealth, hserves⟩
  · obtain ⟨guard, ⟨health, hhealth, hserves⟩, hnever, hsafe⟩ := h.guarded
    have hne : guard ≠ name := by
      rintro rfl
      rcases hname with ⟨i, e, he, hin⟩ | ⟨i, e, he, rfl, hunhealthy, -⟩ | hin
      · exact (hsafe i e he).1 hin
      · rw [(hsafe i e he).2 rfl] at hunhealthy
        cases hunhealthy
      · exact hnever hin
    refine ⟨guard, ⟨health, (hsame guard hne).trans hhealth, hserves⟩, fun hin => ?_, hsafe⟩
    rcases hremovals guard hin with heq | hbefore
    · exact hne heq
    · exact hnever hbefore

theorem get?_become {health : RolloutHealth} {n : String} (hn : n ≠ name) :
    (s.become name health).containers.get? n = s.containers.get? n := by
  rw [become]
  split
  · exact OrderedMap.get?_set_ne _ _ hn
  · rfl

theorem Covered.takeDown (h : s.Covered) (hname : s.Doomed name) (removal : ContainerRemoval) :
    (s.takeDown name removal).Covered := by
  cases removal with
  | gone =>
      exact h.of_containers hname (fun n hn => (OrderedMap.get?_erase ..).trans (if_neg hn))
        fun n hin => .inr hin
  | exited => exact h.of_containers hname (fun n hn => get?_become hn) fun n hin => .inr hin
  | kept => exact h
  | timedOut =>
      exact h.of_containers hname (fun n hn => get?_become hn) fun n hin =>
        List.mem_cons.mp hin

/-- A deployment that is not known to be healthy makes its container. -/
theorem Covered.create (h : s.Covered) (hd : s.rollouts.get? j = some d)
    (hphase : d.phase = .starting) : (s.create d).Covered := by
  have hunhealthy := (h.proper hd).unproven (by rw [hphase]; rfl)
  refine { h with proper := ?_, guarded := ?_ }
  · intro i e he
    obtain ⟨hrolling, hunforced, hearly, hunproven, hmade, hready, hdecided, hhonest⟩ := h.proper he
    have hother : ∀ phase, e.phase = phase → phase ≠ .starting →
        e.containerName ≠ d.containerName := by
      rintro phase hphase' hne hsame
      obtain rfl := h.named he hd hsame
      obtain rfl := Option.some.inj (hd.symm.trans he)
      exact hne (hphase'.symm.trans hphase)
    refine ⟨hrolling, hunforced, hearly, hunproven, fun hchecking hstatus hdisabled => ?_,
      fun hlisting hstatus => ?_, hdecided, hhonest⟩
    · have hne := hother _ hchecking fun heq => by cases heq
      exact (OrderedMap.get?_set_ne _ _ hne).trans (hmade hchecking hstatus hdisabled)
    · have hne := hother _ hlisting fun heq => by cases heq
      obtain ⟨health, hhealth, hserves⟩ := hready hlisting hstatus
      exact ⟨health, (OrderedMap.get?_set_ne _ _ hne).trans hhealth, hserves⟩
  · obtain ⟨guard, ⟨health, hhealth, hserves⟩, hnever, hsafe⟩ := h.guarded
    have hne : guard ≠ d.containerName := by
      rintro rfl
      rw [(hsafe j d hd).2 rfl] at hunhealthy
      cases hunhealthy
    exact ⟨guard, ⟨health, (OrderedMap.get?_set_ne _ _ hne).trans hhealth, hserves⟩, hnever, hsafe⟩

theorem Covered.settle (h : s.Covered) {healthy : Bool} (hstep : s.settle name healthy = some s') :
    s'.Covered := by
  rw [RolloutServer.settle] at hstep
  split at hstep
  · next hstarting =>
    obtain rfl := Option.some.inj hstep
    have hne : ∀ {n health}, s.containers.get? n = some health → health ≠ .starting → n ≠ name := by
      rintro n health hhealth hnot rfl
      exact hnot (Option.some.inj (hhealth.symm.trans hstarting))
    have hserving : ∀ {n}, s.Serves n →
        (s.become name (if healthy then .healthy else .unhealthy)).Serves n := by
      rintro n ⟨health, hhealth, hserves⟩
      refine ⟨health, (get?_become (hne hhealth ?_)).trans hhealth, hserves⟩
      rintro rfl
      cases hserves
    refine { h with proper := ?_, guarded := ?_ }
    · intro i e he
      obtain ⟨hrolling, hunforced, hearly, hunproven, hmade, hready, hdecided, hhonest⟩ :=
        h.proper he
      refine ⟨hrolling, hunforced, hearly, hunproven, fun hchecking hstatus hdisabled => ?_,
        fun hlisting hstatus => hserving (hready hlisting hstatus), hdecided, hhonest⟩
      have hunchecked := hmade hchecking hstatus hdisabled
      exact (get?_become (hne hunchecked fun heq => by cases heq)).trans hunchecked
    · obtain ⟨guard, hserves, hnever, hsafe⟩ := h.guarded
      exact ⟨guard, hserving hserves, hnever, hsafe⟩
  · cases hstep

theorem Covered.removeLater (h : s.Covered) (hstep : s.removeLater name = some s') :
    s'.Covered := by
  rw [RolloutServer.removeLater] at hstep
  split at hstep
  · next hin =>
    obtain rfl := Option.some.inj hstep
    exact h.of_containers (.inr (.inr hin))
      (fun n hn => (OrderedMap.get?_erase ..).trans (if_neg hn))
      fun n hn => .inr (List.mem_of_mem_erase hn)
  · cases hstep

/-! ### Events -/

theorem Covered.moveTo (h : s.Covered) (hd : s.rollouts.get? j = some d) {phase : RolloutPhase}
    (hnames : ∀ n ∈ phase.names, n ∈ d.phase.names)
    (hproper : s.Proper { d with phase := phase }) : (s.moveTo j phase).Covered :=
  h.modify hd rfl id hnames id hproper

theorem get?_of_running (hd : s.running? j = some d) :
    s.rollouts.get? j = some d ∧ d.status ≠ .cancelledByUser := by
  obtain ⟨hd, hstatus⟩ := Option.filter_eq_some_iff.mp hd
  exact ⟨hd, bne_iff_ne.mp hstatus⟩

/-- Phases about which nothing has to hold. -/
theorem Proper.close (h : s.Proper d) {status : DeploymentStatus} {phase : RolloutPhase}
    (hunforced : ∀ names, phase ≠ .forcing names) (hearly : phase.isEarly = false)
    (hunproven : phase.isUnproven = false)
    (hdecided : phase.isDecided = false)
    (hhonest : status = .finished → d.newVersionIsHealthy = true) :
    s.Proper { d with status := status, phase := phase } where
  rolling := h.rolling
  unforced := hunforced
  early hphase := absurd (hearly.symm.trans hphase) Bool.false_ne_true
  unproven hphase := absurd (hunproven.symm.trans hphase) Bool.false_ne_true
  made hphase := by
    obtain rfl : phase = _ := hphase
    cases hearly
  ready hphase := by
    obtain rfl : phase = _ := hphase
    cases hearly
  decided hphase := absurd (hdecided.symm.trans hphase) Bool.false_ne_true
  honest := hhonest

/-- A version that is not known to be healthy goes on to one of the phases of such. -/
theorem Proper.unprovenStep (h : s.Proper d) {phase : RolloutPhase}
    (hunproven : d.phase.isUnproven = true) (hunforced : ∀ names, phase ≠ .forcing names)
    (hearly : phase.isEarly = true → d.phase.isEarly = true)
    (hmade : ∀ counter, phase = .checking counter → d.status = .inProgress →
      (d.cfg.isHealthcheckDisabled && !d.cfg.customHealthcheckFound) = true →
        s.containers.get? d.containerName = some .unchecked)
    (hready : phase ≠ .listing) (hdecided : phase.isDecided = true → d.status.isFinal = true) :
    s.Proper { d with phase := phase } where
  rolling := h.rolling
  unforced := hunforced
  early hphase := h.early (hearly hphase)
  unproven _ := h.unproven hunproven
  made {counter} hphase := hmade counter hphase
  ready hphase := absurd hphase hready
  decided hphase := .inr (hdecided hphase)
  honest := h.honest

theorem Covered.begin (h : s.Covered) {listed : Bool} (hstep : s.begin j listed = some s') :
    s'.Covered := by
  obtain ⟨d, hd, hstep⟩ := Option.bind_eq_some_iff.mp hstep
  obtain ⟨hd, -⟩ := get?_of_running hd
  have hproper := h.proper hd
  split at hstep
  · next hphase =>
    rw [hproper.rolling, if_pos rfl] at hstep
    obtain rfl := Option.some.inj hstep
    refine h.moveTo hd (fun n hn => absurd hn List.not_mem_nil)
      (hproper.unprovenStep (by rw [hphase]; rfl) (fun names hforcing => by cases hforcing)
        (fun _ => by rw [hphase]; rfl) ?_ ?_ ?_)
    · exact fun counter hchecking => by cases hchecking
    · exact fun hlisting => by cases hlisting
    · exact fun hdecided => absurd hdecided Bool.false_ne_true
  · cases hstep

theorem Covered.start (h : s.Covered) (hstep : s.start j = some s') : s'.Covered := by
  obtain ⟨d, hd, hstep⟩ := Option.bind_eq_some_iff.mp hstep
  obtain ⟨hd, hstatus⟩ := get?_of_running hd
  have hproper := h.proper hd
  split at hstep
  · next hphase =>
    obtain rfl := Option.some.inj hstep
    have hcreated := h.create hd hphase
    refine hcreated.moveTo hd (fun n hn => absurd hn List.not_mem_nil)
      ((hcreated.proper hd).unprovenStep (by rw [hphase]; rfl)
        (fun names hforcing => by cases hforcing) (fun _ => by rw [hphase]; rfl) ?_ ?_ ?_)
    · intro counter _ _ hdisabled
      rw [RolloutServer.create, if_pos hdisabled]
      exact OrderedMap.get?_set_self ..
    · exact fun hlisting => by cases hlisting
    · exact fun hdecided => absurd hdecided Bool.false_ne_true
  · split at hstep
    · next hphase => exact absurd hphase (hproper.unforced [])
    · cases hstep

theorem Covered.accept (h : s.Covered) (hd : s.rollouts.get? j = some d)
    (hstatus : d.status = .inProgress) (hserves : s.Serves d.containerName) :
    (s.accept j).Covered := by
  have hproper := h.proper hd
  refine h.modify hd rfl id (fun n hn => absurd hn List.not_mem_nil) (fun _ => rfl) ?_
  exact ⟨hproper.rolling, fun names hforcing => (by cases hforcing), fun _ => .inl hstatus,
    fun hunproven => absurd hunproven Bool.false_ne_true, fun hchecking => (by cases hchecking),
    fun _ _ => hserves, fun _ => .inl rfl, fun _ => rfl⟩

theorem Covered.check (h : s.Covered) (hstep : s.check j = some s') : s'.Covered := by
  obtain ⟨d, hd, hstep⟩ := Option.bind_eq_some_iff.mp hstep
  obtain ⟨hd, hrunning⟩ := get?_of_running hd
  have hproper := h.proper hd
  cases hphase : d.phase with
  | checking counter =>
      rw [hphase] at hstep
      have hstatus := (hproper.early (by rw [hphase]; rfl)).resolve_right hrunning
      have hrejected : (s.moveTo j .unhealthy).Covered :=
        h.moveTo hd (fun n hn => absurd hn List.not_mem_nil)
          (hproper.unprovenStep (by rw [hphase]; rfl) (fun names hforcing => by cases hforcing)
            (fun _ => by rw [hphase]; rfl) (fun counter hchecking => by cases hchecking)
            (fun hlisting => by cases hlisting)
            fun hdecided => absurd hdecided Bool.false_ne_true)
      simp only at hstep
      split at hstep
      · next hdisabled =>
          obtain rfl := Option.some.inj hstep
          exact h.accept hd hstatus ⟨_, hproper.made hphase hstatus hdisabled, rfl⟩
      · next hchecked =>
        split at hstep
        · obtain rfl := Option.some.inj hstep
          exact hrejected
        · split at hstep
          · cases hstep
          · cases hstep
          · next hhealthy =>
              obtain rfl := Option.some.inj hstep
              exact h.accept hd hstatus ⟨_, hhealthy, rfl⟩
          · obtain rfl := Option.some.inj hstep
            exact hrejected
          · obtain rfl := Option.some.inj hstep
            exact hrejected
          · obtain rfl := Option.some.inj hstep
            exact h.moveTo hd (fun n hn => absurd hn List.not_mem_nil)
              (hproper.unprovenStep (by rw [hphase]; rfl)
                (fun names hforcing => by cases hforcing) (fun _ => by rw [hphase]; rfl)
                (fun _ _ _ hdisabled => absurd hdisabled hchecked)
                (fun hlisting => by cases hlisting)
                fun hdecided => absurd hdecided Bool.false_ne_true)
  | preparing | forcing | starting | listing | removing | unhealthy | rejecting | completing
  | closing | failing | cleaning | ended =>
      rw [hphase] at hstep
      cases hstep

@[simp] theorem names_remove (names : List String) : (RolloutPhase.remove names).names = names := by
  cases names <;> rfl

theorem remove_ne_forcing (names names' : List String) :
    RolloutPhase.remove names ≠ .forcing names' := by
  cases names <;> exact fun h => by cases h

theorem isDecided_remove (names : List String) :
    (RolloutPhase.remove names).isDecided = true ∧ (RolloutPhase.remove names).isEarly = false ∧
      (RolloutPhase.remove names).isUnproven = false := by
  cases names <;> exact ⟨rfl, rfl, rfl⟩

/-- A job that has decided removes containers. -/
theorem Proper.remove (h : s.Proper d) (hphase : d.phase.isDecided = true)
    {status : DeploymentStatus} (hfinal : status = d.status ∨ status.isFinal = true)
    (hhonest : status = .finished → d.newVersionIsHealthy = true) (names : List String) :
    s.Proper { d with status := status, phase := .remove names } where
  rolling := h.rolling
  unforced := remove_ne_forcing names
  early hearly := absurd ((isDecided_remove names).2.1.symm.trans hearly) Bool.false_ne_true
  unproven hunproven :=
    absurd ((isDecided_remove names).2.2.symm.trans hunproven) Bool.false_ne_true
  made hchecking := by cases names <;> cases hchecking
  ready hlisting := by cases names <;> cases hlisting
  decided _ := by
    rcases hfinal with rfl | hfinal
    · exact h.decided hphase
    · exact .inr hfinal
  honest := hhonest

/-- A job that lists the containers serves from then on. -/
theorem Covered.list (h : s.Covered) {listed : Bool} (hstep : s.list j listed = some s') :
    s'.Covered := by
  obtain ⟨d, hd, hstep⟩ := Option.bind_eq_some_iff.mp hstep
  obtain ⟨hd, hrunning⟩ := get?_of_running hd
  have hproper := h.proper hd
  split at hstep
  · next hphase =>
    obtain rfl := Option.some.inj hstep
    have hstatus := (hproper.early (by rw [hphase]; rfl)).resolve_right hrunning
    have hdecided : d.phase.isDecided = true := by rw [hphase]; rfl
    have hhealthy : d.newVersionIsHealthy = true := by
      refine (hproper.decided hdecided).resolve_right fun hfinal => ?_
      rw [hstatus] at hfinal
      cases hfinal
    generalize hnames : (if listed then s.toRemove d false else []) = names
    have hown : d.containerName ∉ names := by
      rw [← hnames]
      split
      · exact fun hin => absurd rfl (of_decide_eq_true (List.mem_filter.mp hin).2)
      · exact List.not_mem_nil
    have hback : ∀ {i e'}, (s.moveTo j (.remove names)).rollouts.get? i = some e' →
        ∃ e, s.rollouts.get? i = some e ∧ e'.containerName = e.containerName ∧
          e'.status = e.status ∧ (i ≠ j → e' = e) ∧
          (i = j → e' = { d with phase := .remove names }) := by
      intro i e' he'
      obtain ⟨e, he, rfl⟩ := Table.get?_modify_some.mp he'
      refine ⟨e, he, ?_⟩
      split
      · next hi =>
          obtain rfl := Option.some.inj (hd.symm.trans (hi ▸ he))
          exact ⟨rfl, rfl, fun hne => absurd hi hne, fun _ => rfl⟩
      · next hi => exact ⟨rfl, rfl, fun _ => rfl, fun heq => absurd heq hi⟩
    constructor
    case named =>
      intro i i' e₁ e₂ he₁ he₂ hsame
      obtain ⟨e₁', he₁', hname₁, -⟩ := hback he₁
      obtain ⟨e₂', he₂', hname₂, -⟩ := hback he₂
      exact h.named he₁' he₂' (hname₁.symm.trans (hsame.trans hname₂))
    case single =>
      intro i i' e₁ e₂ he₁ he₂ hstatus₁ hstatus₂
      obtain ⟨e₁', he₁', -, hsame₁, -⟩ := hback he₁
      obtain ⟨e₂', he₂', -, hsame₂, -⟩ := hback he₂
      exact h.single he₁' he₂' (hsame₁ ▸ hstatus₁) (hsame₂ ▸ hstatus₂)
    case untouched =>
      intro i i' e₁ e₂ he₁ he₂ hstatus₁
      obtain ⟨e₁', he₁', hname₁, hsame₁, -⟩ := hback he₁
      obtain ⟨e₂', he₂', -, -, hother₂, hmine₂⟩ := hback he₂
      obtain rfl := h.single he₁' hd (hsame₁ ▸ hstatus₁) hstatus
      obtain rfl := Option.some.inj (hd.symm.trans he₁')
      obtain ⟨hnot, hnever⟩ := h.untouched hd he₂' hstatus
      rw [hname₁]
      refine ⟨?_, hnever⟩
      by_cases hi : i' = i
      · rw [hmine₂ hi]
        simpa using hown
      · rw [hother₂ hi]
        exact hnot
    case proper =>
      intro i e' he'
      obtain ⟨e, he, -, -, hother, hmine⟩ := hback he'
      by_cases hi : i = j
      · rw [hmine hi]
        obtain ⟨hrolling, hunforced, hearly, hunproven, hmade, hready, hproven, hhonest⟩ :=
          hproper.remove hdecided (.inl rfl) hproper.honest names
        exact ⟨hrolling, hunforced, hearly, hunproven, hmade, hready, hproven, hhonest⟩
      · rw [hother hi]
        obtain ⟨hrolling, hunforced, hearly, hunproven, hmade, hready, hproven, hhonest⟩ :=
          h.proper he
        exact ⟨hrolling, hunforced, hearly, hunproven, hmade, hready, hproven, hhonest⟩
    case guarded =>
      refine ⟨d.containerName, hproper.ready hphase hstatus, (h.untouched hd hd hstatus).2,
        fun i e' he' => ?_⟩
      obtain ⟨e, he, hname, -, hother, hmine⟩ := hback he'
      by_cases hi : i = j
      · rw [hmine hi]
        exact ⟨by simpa using hown, fun _ => hhealthy⟩
      · rw [hother hi]
        exact ⟨(h.untouched hd he hstatus).1, fun hsame => absurd (h.named he hd hsame) hi⟩
  · cases hstep

@[simp] theorem rollouts_takeDown (removal : ContainerRemoval) :
    (s.takeDown name removal).rollouts = s.rollouts := by
  cases removal <;> rfl

theorem Covered.remove (h : s.Covered) {removal : ContainerRemoval}
    (hstep : s.remove j removal = some s') : s'.Covered := by
  obtain ⟨d, hd, hstep⟩ := Option.bind_eq_some_iff.mp hstep
  obtain ⟨hd, -⟩ := get?_of_running hd
  have hproper := h.proper hd
  cases hphase : d.phase with
  | removing names =>
      rw [hphase] at hstep
      cases names with
      | nil => cases hstep
      | cons name names =>
          obtain rfl := Option.some.inj hstep
          have hdoomed : s.Doomed name :=
            .inl ⟨j, d, hd, by rw [hphase]; exact List.mem_cons_self ..⟩
          have hdown := h.takeDown hdoomed removal
          have hd' : (s.takeDown name removal).rollouts.get? j = some d := by
            rw [rollouts_takeDown, hd]
          refine hdown.moveTo hd' (fun n hn => ?_) ((hdown.proper hd').remove
            (by rw [hphase]; rfl) (.inl rfl) hproper.honest names)
          rw [names_remove] at hn
          rw [hphase]
          exact List.mem_cons_of_mem _ hn
  | forcing names => exact absurd hphase (hproper.unforced names)
  | preparing | starting | checking | listing | unhealthy | rejecting | completing | closing
  | failing | cleaning | ended =>
      rw [hphase] at hstep
      cases hstep

theorem isFinal_transitionToStatus {status : DeploymentStatus} (hstatus : status.isFinal = true) :
    (d.transitionToStatus status).isFinal = true := by
  rw [Rollout.transitionToStatus]
  split
  · next hfinal => exact hfinal
  · exact hstatus

theorem finished_of_failed (h : d.transitionToStatus .failed = .finished) :
    d.status = .finished := by
  rw [Rollout.transitionToStatus] at h
  split at h
  · exact h
  · cases h

theorem Covered.finalStep (h : s.Covered) (hd : s.rollouts.get? j = some d)
    {status : DeploymentStatus} {phase : RolloutPhase} (hstatus : status.isFinal = true)
    (hnames : ∀ n ∈ phase.names, n ∈ d.phase.names)
    (hproper : s.Proper { d with status := status, phase := phase }) :
    (s.settleAs j status phase).Covered := by
  refine h.modify hd rfl (fun hprogress => ?_) hnames id hproper
  obtain rfl : status = .inProgress := hprogress
  cases hstatus

/-- An unhealthy version whose deployment comes to a final status. -/
theorem Proper.fail (h : s.Proper d) {status : DeploymentStatus} {phase : RolloutPhase}
    (hstatus : status.isFinal = true) (hhonest : status = .finished → d.status = .finished)
    (hunforced : ∀ names, phase ≠ .forcing names) (hearly : phase.isEarly = false)
    (hunproven : phase.isUnproven = true → d.newVersionIsHealthy = false) :
    s.Proper { d with status := status, phase := phase } where
  rolling := h.rolling
  unforced := hunforced
  early hphase := absurd (hearly.symm.trans hphase) Bool.false_ne_true
  unproven := hunproven
  made hphase := by
    obtain rfl : phase = _ := hphase
    cases hearly
  ready hphase := by
    obtain rfl : phase = _ := hphase
    cases hearly
  decided _ := .inr hstatus
  honest hfinished := h.honest (hhonest hfinished)

theorem Covered.reject (h : s.Covered) (hstep : s.reject j = some s') : s'.Covered := by
  obtain ⟨d, hd, hstep⟩ := Option.bind_eq_some_iff.mp hstep
  obtain ⟨hd, -⟩ := get?_of_running hd
  have hproper := h.proper hd
  split at hstep
  · next hphase =>
    obtain rfl := Option.some.inj hstep
    exact h.finalStep hd (isFinal_transitionToStatus rfl)
      (fun n hn => absurd hn List.not_mem_nil)
      (hproper.fail (isFinal_transitionToStatus rfl) finished_of_failed
        (fun names hforcing => by cases hforcing) rfl
        fun _ => hproper.unproven (by rw [hphase]; rfl))
  · cases hstep

/-- The container of a deployment that failed, and was not healthy. -/
theorem Covered.takeDownOwn (h : s.Covered) (hd : s.rollouts.get? j = some d)
    (hunproven : d.phase.isUnproven = true) (hdecided : d.phase.isDecided = true)
    (removal : ContainerRemoval) :
    (s.takeDown d.containerName removal).Covered ∧ d.status.isFinal = true := by
  have hunhealthy := (h.proper hd).unproven hunproven
  have hfinal : d.status.isFinal = true := by
    refine ((h.proper hd).decided hdecided).resolve_left fun hhealthy => ?_
    rw [hunhealthy] at hhealthy
    cases hhealthy
  refine ⟨h.takeDown (.inr (.inl ⟨j, d, hd, rfl, hunhealthy, fun hprogress => ?_⟩)) removal, hfinal⟩
  rw [hprogress] at hfinal
  cases hfinal

theorem Covered.shutDown (h : s.Covered) {removal : ContainerRemoval}
    (hstep : s.shutDown j removal = some s') : s'.Covered := by
  obtain ⟨d, hd, hstep⟩ := Option.bind_eq_some_iff.mp hstep
  obtain ⟨hd, -⟩ := get?_of_running hd
  split at hstep
  · next hphase =>
    obtain rfl := Option.some.inj hstep
    obtain ⟨hdown, hfinal⟩ :=
      h.takeDownOwn hd (by rw [hphase]; rfl) (by rw [hphase]; rfl) removal
    have hd' : (s.takeDown d.containerName removal).rollouts.get? j = some d := by
      rw [rollouts_takeDown, hd]
    exact hdown.moveTo hd' (fun n hn => absurd hn List.not_mem_nil)
      ((hdown.proper hd').fail hfinal id (fun names hforcing => by cases hforcing) rfl
        fun hunproven => absurd hunproven Bool.false_ne_true)
  · cases hstep

theorem Covered.complete (h : s.Covered) (hstep : s.complete j = some s') : s'.Covered := by
  obtain ⟨d, hd, hstep⟩ := Option.bind_eq_some_iff.mp hstep
  obtain ⟨hd, -⟩ := get?_of_running hd
  have hproper := h.proper hd
  split at hstep
  · next hphase =>
    obtain rfl := Option.some.inj hstep
    refine h.finalStep hd (isFinal_transitionToStatus rfl)
      (fun n hn => absurd hn List.not_mem_nil)
      (hproper.close (fun names hforcing => by cases hforcing) rfl rfl rfl fun hfinished => ?_)
    rw [Rollout.transitionToStatus] at hfinished
    split at hfinished
    · exact hproper.honest hfinished
    · next hopen => exact (hproper.decided (by rw [hphase]; rfl)).resolve_right hopen
  · cases hstep

theorem Covered.rest (h : s.Covered) (hd : s.rollouts.get? j = some d) :
    (s.moveTo j .ended).Covered :=
  h.moveTo hd (fun n hn => absurd hn List.not_mem_nil)
    ((h.proper hd).close (fun names hforcing => by cases hforcing) rfl rfl rfl (h.proper hd).honest)

theorem Covered.throw (h : s.Covered) {code : Nat} {created : Bool}
    (hcalm : s.Calm (.throw j code created)) (hstep : s.throw j code created = some s') :
    s'.Covered := by
  obtain ⟨d, hd, hstep⟩ := Option.bind_eq_some_iff.mp hstep
  split at hstep
  · cases hstep
  · obtain rfl := Option.some.inj hstep
    have hproper : ∀ {s₁ : RolloutServer}, s₁.Proper d →
        s₁.Proper { d with phase := .failing code } := by
      intro s₁ h₁
      refine ⟨h₁.rolling, fun names hforcing => (by cases hforcing),
        fun hearly => absurd hearly Bool.false_ne_true, fun hunproven => ?_,
        fun hchecking => (by cases hchecking), fun hlisting => (by cases hlisting),
        fun hdecided => absurd hdecided Bool.false_ne_true, h₁.honest⟩
      rcases hcalm with rfl | hunhealthy
      · cases hunproven
      · exact hunhealthy (j, d) (Table.mem_rows.mpr hd) rfl
    split
    · next hcreated =>
        rw [Bool.and_eq_true] at hcreated
        have hphase : d.phase = .starting := of_decide_eq_true hcreated.2
        have hmade := h.create hd hphase
        exact hmade.moveTo hd (fun n hn => absurd hn List.not_mem_nil) (hproper (hmade.proper hd))
    · exact h.moveTo hd (fun n hn => absurd hn List.not_mem_nil) (hproper (h.proper hd))

theorem Covered.exhaust (h : s.Covered) (hstep : s.exhaust j = some s') : s'.Covered := by
  obtain ⟨d, hd, hstep⟩ := Option.bind_eq_some_iff.mp hstep
  obtain ⟨hd, -⟩ := get?_of_running hd
  have hproper := h.proper hd
  generalize hmark : (if d.status = .finished then .finished else .failed : DeploymentStatus)
    = status at hstep
  have hfinal : status.isFinal = true := by
    rw [← hmark]
    split <;> rfl
  have hhonest : status = .finished → d.status = .finished := by
    rw [← hmark]
    split
    · next hfinished => exact fun _ => hfinished
    · exact fun hfinished => by cases hfinished
  have hearly : d.phase.isUnproven = true → (s.settleAs j status (.failing 0)).Covered :=
    fun hunproven => h.finalStep hd hfinal (fun n hn => absurd hn List.not_mem_nil)
      (hproper.fail hfinal hhonest (fun names hforcing => by cases hforcing) rfl
        fun _ => hproper.unproven hunproven)
  cases hphase : d.phase with
  | removing names =>
      rw [hphase] at hstep
      cases names with
      | nil => cases hstep
      | cons name names =>
          obtain rfl := Option.some.inj hstep
          refine h.finalStep hd hfinal (fun n hn => ?_) (hproper.remove (by rw [hphase]; rfl)
            (.inr hfinal) (fun hfinished => hproper.honest (hhonest hfinished)) names)
          rw [names_remove] at hn
          rw [hphase]
          exact List.mem_cons_of_mem _ hn
  | forcing names => exact absurd hphase (hproper.unforced names)
  | preparing | starting | checking =>
      rw [hphase] at hstep
      obtain rfl := Option.some.inj hstep
      exact hearly (by rw [hphase]; rfl)
  | rejecting =>
      rw [hphase] at hstep
      obtain rfl := Option.some.inj hstep
      exact h.finalStep hd hfinal (fun n hn => absurd hn List.not_mem_nil)
        (hproper.fail hfinal hhonest (fun names hforcing => by cases hforcing) rfl
          fun hunproven => absurd hunproven Bool.false_ne_true)
  | listing | unhealthy | completing | closing | failing | cleaning | ended =>
      rw [hphase] at hstep
      cases hstep

theorem Covered.failed (h : s.Covered) {thrown : Bool} (hstep : s.failed j thrown = some s') :
    s'.Covered := by
  obtain ⟨d, hd, hstep⟩ := Option.bind_eq_some_iff.mp hstep
  have hproper := h.proper hd
  cases hphase : d.phase with
  | failing code =>
      rw [hphase] at hstep
      simp only at hstep
      split at hstep
      · obtain rfl := Option.some.inj hstep
        exact h.rest hd
      · obtain rfl := Option.some.inj hstep
        have hfinal : (d.transitionToStatus .failed).isFinal = true :=
          isFinal_transitionToStatus rfl
        split
        · exact h.finalStep hd hfinal (fun n hn => absurd hn List.not_mem_nil)
            (hproper.fail hfinal finished_of_failed (fun names hforcing => by cases hforcing) rfl
              fun hunproven => absurd hunproven Bool.false_ne_true)
        · next hremoves =>
            refine h.finalStep hd hfinal (fun n hn => absurd hn List.not_mem_nil)
              (hproper.fail hfinal finished_of_failed (fun names hforcing => by cases hforcing)
                rfl fun _ => hproper.unproven ?_)
            rw [hphase]
            refine bne_iff_ne.mpr fun hcode => hremoves ?_
            simp [keepsContainer, hcode]
  | preparing | starting | checking | listing | removing | forcing | unhealthy | rejecting
  | completing | closing | cleaning | ended =>
      rw [hphase] at hstep
      cases hstep

theorem Covered.clean (h : s.Covered) {removal : ContainerRemoval}
    (hstep : s.clean j removal = some s') : s'.Covered := by
  obtain ⟨d, hd, hstep⟩ := Option.bind_eq_some_iff.mp hstep
  split at hstep
  · next hphase =>
    obtain rfl := Option.some.inj hstep
    obtain ⟨hdown, -⟩ := h.takeDownOwn hd (by rw [hphase]; rfl) (by rw [hphase]; rfl) removal
    have hd' : (s.takeDown d.containerName removal).rollouts.get? j = some d := by
      rw [rollouts_takeDown, hd]
    exact hdown.rest hd'
  · cases hstep

theorem Covered.cancel (h : s.Covered) (hstep : s.cancel j = some s') : s'.Covered := by
  obtain ⟨d, hd, hstep⟩ := Option.bind_eq_some_iff.mp hstep
  obtain ⟨hd, -⟩ := Option.filter_eq_some_iff.mp hd
  obtain rfl := Option.some.inj hstep
  have hproper := h.proper hd
  exact h.finalStep hd rfl (fun n hn => hn)
    ⟨hproper.rolling, hproper.unforced, fun _ => .inr rfl, hproper.unproven,
      fun _ hprogress => (by cases hprogress), fun _ hprogress => (by cases hprogress),
      fun _ => .inr rfl, fun hfinished => (by cases hfinished)⟩

/-- Nothing is in progress when a deployment begins, and nobody knows its container. -/
theorem Covered.deploy (h : s.Covered) {uuid now : String} {cfg : RolloutConfig}
    (hcalm : s.Calm (.deploy uuid now cfg)) (hstep : s.deploy uuid now cfg = some s') :
    s'.Covered := by
  rw [RolloutServer.deploy] at hstep
  split at hstep
  · cases hstep
  · next hnone =>
    obtain rfl := Option.some.inj hstep
    obtain ⟨hrolling, hfresh, hnew, hnever⟩ := hcalm
    have hidle : ∀ {i e}, s.rollouts.get? i = some e → e.status ≠ .inProgress := by
      intro i e he hprogress
      refine hnone (List.any_eq_true.mpr ⟨(i, e), Table.mem_rows.mpr he, ?_⟩)
      rw [hprogress]
      rfl
    have hback : ∀ {i e'}, (s.rollouts.insert ⟨cfg, cfg.containerName uuid now, .inProgress, false,
        .preparing⟩).get? i = some e' → s.rollouts.get? i = some e' ∨ i = s.rollouts.nextId ∧
          e' = ⟨cfg, cfg.containerName uuid now, .inProgress, false, .preparing⟩ := by
      intro i e' he'
      rw [Table.get?_insert] at he'
      split at he'
      · next hi => exact .inr ⟨hi, (Option.some.inj he').symm⟩
      · exact .inl he'
    constructor
    case named =>
      intro i i' e e' he he' hsame
      rcases hback he with he | ⟨rfl, rfl⟩ <;> rcases hback he' with he' | ⟨rfl, rfl⟩
      · exact h.named he he' hsame
      · exact absurd hsame (hfresh _ (Table.mem_rows.mpr he)).1
      · exact absurd hsame.symm (hfresh _ (Table.mem_rows.mpr he')).1
      · rfl
    case single =>
      intro i i' e e' he he' hprogress hprogress'
      rcases hback he with he | ⟨rfl, rfl⟩
      · exact absurd hprogress (hidle he)
      · rcases hback he' with he' | ⟨rfl, rfl⟩
        · exact absurd hprogress' (hidle he')
        · rfl
    case untouched =>
      intro i i' e e' he he' hprogress
      rcases hback he with he | ⟨-, rfl⟩
      · exact absurd hprogress (hidle he)
      · refine ⟨?_, hnever⟩
        rcases hback he' with he' | ⟨-, rfl⟩
        · exact (hfresh _ (Table.mem_rows.mpr he')).2
        · exact List.not_mem_nil
    case proper =>
      intro i e' he'
      rcases hback he' with he | ⟨-, rfl⟩
      · obtain ⟨hrolled, hunforced, hearly, hunproven, hmade, hready, hdecided, hhonest⟩ :=
          h.proper he
        exact ⟨hrolled, hunforced, hearly, hunproven, hmade, hready, hdecided, hhonest⟩
      · exact ⟨hrolling, fun names hforcing => (by cases hforcing), fun _ => .inl rfl,
          fun _ => rfl, fun hchecking => (by cases hchecking),
          fun hlisting => (by cases hlisting),
          fun hdecided => absurd hdecided Bool.false_ne_true,
          fun hfinished => (by cases hfinished)⟩
    case guarded =>
      obtain ⟨guard, ⟨health, hhealth, hserves⟩, hsaved, hsafe⟩ := h.guarded
      refine ⟨guard, ⟨health, hhealth, hserves⟩, hsaved, fun i e' he' => ?_⟩
      rcases hback he' with he | ⟨-, rfl⟩
      · exact hsafe i e' he
      · refine ⟨List.not_mem_nil, ?_⟩
        rintro rfl
        exact absurd (OrderedMap.mem_keys.mpr ⟨health, OrderedMap.get?_eq_some_iff.mp hhealth⟩) hnew

theorem Covered.step (h : s.Covered) {event : RolloutEvent} (hcalm : s.Calm event)
    (hstep : s.step event = some s') : s'.Covered := by
  cases event with
  | deploy uuid now cfg => exact h.deploy hcalm hstep
  | begin j listed => exact h.begin hstep
  | start j => exact h.start hstep
  | check j => exact h.check hstep
  | list j listed => exact h.list hstep
  | remove j removal => exact h.remove hstep
  | reject j => exact h.reject hstep
  | shutDown j removal => exact h.shutDown hstep
  | complete j => exact h.complete hstep
  | finish j =>
      obtain ⟨d, hd, hstep⟩ := Option.bind_eq_some_iff.mp hstep
      split at hstep
      · obtain rfl := Option.some.inj hstep
        exact h.rest (get?_of_running hd).1
      · cases hstep
  | throw j code created => exact h.throw hcalm hstep
  | exhaust j => exact h.exhaust hstep
  | failed j thrown => exact h.failed hstep
  | clean j removal => exact h.clean hstep
  | cancel j => exact h.cancel hstep
  | abort j =>
      obtain ⟨d, hd, hstep⟩ := Option.bind_eq_some_iff.mp hstep
      obtain rfl := Option.some.inj hstep
      exact h.rest (Option.filter_eq_some_iff.mp hd).1
  | settle name healthy => exact h.settle hstep
  | removeLater name => exact h.removeLater hstep

/-! ### Runs -/

end RolloutServer

/-- A server on which nothing is going on. -/
def calmServer (containers : OrderedMap String RolloutHealth) : RolloutServer :=
  ⟨.empty, containers, []⟩

namespace RolloutServer

theorem calmServer_covered {containers : OrderedMap String RolloutHealth}
    (hserves : ∃ name, (calmServer containers).Serves name) : (calmServer containers).Covered where
  named hd := by cases hd
  single hd := by cases hd
  untouched hd := by cases hd
  proper hd := by cases hd
  guarded := by
    obtain ⟨name, hname⟩ := hserves
    exact ⟨name, hname, List.not_mem_nil, fun j d hd => by cases hd⟩

/-- Some container serves, and what has finished was found healthy. -/
def IsUp (s : RolloutServer) : Prop :=
  (∃ name, s.Serves name) ∧ ∀ j d, s.rollouts.get? j = some d → d.status = .finished →
    d.newVersionIsHealthy = true

instance : DecidableRel Calm := fun s event =>
  match event with
  | .deploy uuid now cfg => inferInstanceAs (Decidable (cfg.supportsRolling = true ∧
      (∀ r ∈ s.rollouts.rows, r.2.containerName ≠ cfg.containerName uuid now ∧
        cfg.containerName uuid now ∉ r.2.phase.names) ∧
      cfg.containerName uuid now ∉ s.containers.keys ∧
        cfg.containerName uuid now ∉ s.removals))
  | .throw j code _ => inferInstanceAs (Decidable (code = cancelledCode ∨
      ∀ r ∈ s.rollouts.rows, r.1 = j → r.2.newVersionIsHealthy = false))
  | .begin .. | .start _ | .check _ | .list .. | .remove .. | .reject _ | .shutDown ..
  | .complete _ | .finish _ | .exhaust _ | .failed .. | .clean .. | .cancel _ | .abort _
  | .settle .. | .removeLater _ => isTrue trivial

def shopConfig : RolloutConfig where
  portsMappingsArray := []
  isConsistentContainerNameEnabled := false
  customInternalName := ""
  customDockerRunOptions := ""
  isHealthcheckDisabled := false
  customHealthcheckFound := false
  healthCheckRetries := 10

def shopContainers : OrderedMap String RolloutHealth := ⟨[("shop-1", .healthy)], by simp⟩

/-- A deployment up to its end, whose new container becomes healthy. -/
def shopUpdate : List RolloutEvent :=
  [.deploy "shop" "2" shopConfig, .begin 1 true, .start 1, .check 1, .settle "shop-2" true,
    .check 1, .list 1 true, .remove 1 .gone, .complete 1]

theorem shopContainers_serve : ∃ name, (calmServer shopContainers).Serves name :=
  ⟨"shop-1", .healthy, by decide, rfl⟩

/-- A notification throws after the deployment has finished, and `failed` removes the
container that has taken the place of the old one. -/
theorem down_by_late_exception : ∃ trail u,
    Runs step (calmServer shopContainers) trail u ∧ ¬ Throughout IsUp trail u := by
  obtain ⟨trail, u, hrun, -, hu⟩ := exists_runs_of_execIf step Any
    (shopUpdate ++ [.throw 1 0 false, .failed 1 false, .clean 1 .gone])
    (calmServer shopContainers) (fun u => u.containers.entries.isEmpty) (by decide +kernel)
  refine ⟨trail, u, hrun, fun h => ?_⟩
  obtain ⟨name, health, hhealth, -⟩ := h.2.1
  rw [OrderedMap.get?_eq_some_iff, List.isEmpty_iff.mp hu] at hhealth
  cases hhealth

end RolloutServer

end OnePloy
