import Mathlib.Data.List.Sort
import OnePloy.Lib.Table

/-!
# The deployment queue

A deployment is a row of `application_deployment_queues`. Three functions start
what is queued: `queue_application_deployment`, if the new row may run at once,
`queue_next_deployment` at the end of a deployment, and `next_after_cancel`
after a cancellation. Each asks `next_queuable`, of one row after the other.

Here they run from beginning to end without interruption. What a query without
`ORDER BY` returns is the caller's argument, sorted by creation afterwards.
-/

namespace OnePloy

open Conc

/-! ## Rows -/

inductive DeploymentStatus
  | queued | inProgress | finished | failed | cancelledByUser
deriving DecidableEq

/-- The terminal states. -/
def DeploymentStatus.isFinal : DeploymentStatus → Bool
  | .finished => true
  | .failed => true
  | .cancelledByUser => true
  | _ => false

structure Deployment where
  applicationId : Nat
  serverId : Nat
  destinationId : Nat
  pullRequestId : Nat
  commit : String
  dockerRegistryImageTag : Option String
  onlyThisServer : Bool
  buildServerId : Option Nat
  status : DeploymentStatus
  createdAt : Nat
deriving DecidableEq

/-- Deployments exclude each other by application and pull request. -/
def Deployment.lane (d : Deployment) : Nat × Nat := (d.applicationId, d.pullRequestId)

structure Destination where
  id : Nat
  serverId : Nat

structure DeployApplication where
  destination : Destination
  /-- Those in the same team. -/
  additionalDestinations : List Destination
  gitCommitSha : Option String
  isBuildServerEnabled : Bool

structure DeployConfig where
  application : Nat → DeployApplication
  concurrentBuilds : Nat → Nat
  deploymentQueueLimit : Nat → Option Nat
  isSwarm : Nat → Bool

/-- `started` remembers the rows that were set to in progress, in that order. -/
structure DeploymentStore where
  deployments : Table Deployment
  clock : Nat
  /-- By application. -/
  isTenantActive : Nat → Bool
  started : List Nat

structure DeployRequest where
  applicationId : Nat
  pullRequestId : Nat
  commit : Option String
  forceRebuild : Bool
  noQuestionsAsked : Bool
  server : Option Nat
  destination : Option Nat
  onlyThisServer : Bool
  rollback : Bool
  dockerRegistryImageTag : Option String

structure QueueAnswer where
  status : String
  message : String
deriving DecidableEq

def queueBlocked : QueueAnswer :=
  ⟨"blocked", "Deployment blocked because this tenant is suspended or terminated."⟩

def queueFull : QueueAnswer :=
  ⟨"queue_full", "Deployment queue is full. Please wait for existing deployments to complete."⟩

def queueSkipped : QueueAnswer := ⟨"skipped", "Deployment already queued for this commit."⟩

def queueQueued : QueueAnswer := ⟨"queued", "Deployment queued."⟩

namespace DeploymentStore

variable (cfg : DeployConfig) (s : DeploymentStore)

/-! ## Starting what is queued -/

def setStatus (id : Nat) (status : DeploymentStatus) : DeploymentStore :=
  { s with deployments := s.deployments.modify id ({ · with status := status }) }

/-- The job has chosen a build server. -/
def setBuildServer (id serverId : Nat) : DeploymentStore :=
  { s with deployments := s.deployments.modify id ({ · with buildServerId := some serverId }) }

/-- The update that starts a deployment. -/
def start (id : Nat) : DeploymentStore :=
  { s.setStatus id .inProgress with started := s.started ++ [id] }

/-- The first query of `next_queuable`. -/
def isBusy (lane : Nat × Nat) : Bool :=
  (s.deployments.first? fun _ d => d.lane == lane && d.status == .inProgress).isSome

def activeDeployments (serverId : Nat) : Nat :=
  s.deployments.countWhere fun _ d => d.serverId == serverId && d.status == .inProgress

/-- The second query of `next_queuable`. -/
def hasSlot (serverId : Nat) : Bool :=
  decide (s.activeDeployments serverId < cfg.concurrentBuilds serverId)

def nextQueuable (d : Deployment) : Bool :=
  s.isTenantActive d.applicationId && !s.isBusy d.lane && s.hasSlot cfg d.serverId

def queuedOn (serverId : Nat) : List (Nat × Deployment) :=
  s.deployments.select fun _ d => d.serverId == serverId && d.status == .queued

/-- `sortBy('created_at')`, which is stable. -/
def byCreation (rows : List (Nat × Deployment)) : List (Nat × Deployment) :=
  rows.insertionSort fun p q => p.2.createdAt ≤ q.2.createdAt

/-- One turn of the loop. -/
def startNext (q : Nat × Deployment) : DeploymentStore :=
  if s.nextQueuable cfg q.2 then s.start q.1 else s

/-- The loop of `queue_next_deployment` and `next_after_cancel`. -/
def drain (rows : List (Nat × Deployment)) : DeploymentStore :=
  rows.foldl (startNext cfg) s

/-- What `queue_next_deployment` goes through is the main server's queue. -/
def queueNextDeployment (rows : List (Nat × Deployment)) : DeploymentStore :=
  s.drain cfg (byCreation rows)

def nextAfterCancel (rows : List (Nat × Deployment)) : DeploymentStore :=
  s.drain cfg (byCreation rows)

end DeploymentStore

/-! ## queue_application_deployment -/

/-- `$a ?: $b`, of texts. -/
def elvisText (a : Option String) (b : String) : String :=
  (a.filter fun t => t ≠ "" ∧ t ≠ "0").getD b

def DeployRequest.serverId (cfg : DeployConfig) (req : DeployRequest) : Nat :=
  req.server.getD (cfg.application req.applicationId).destination.serverId

def DeployRequest.commitOf (cfg : DeployConfig) (req : DeployRequest) : String :=
  elvisText req.commit (elvisText (cfg.application req.applicationId).gitCommitSha "HEAD")

/-- The row that is created. -/
def DeployRequest.deployment (cfg : DeployConfig) (now : Nat) (req : DeployRequest) :
    Deployment where
  applicationId := req.applicationId
  serverId := req.serverId cfg
  destinationId := req.destination.getD (cfg.application req.applicationId).destination.id
  pullRequestId := req.pullRequestId
  commit := req.commitOf cfg
  dockerRegistryImageTag := req.dockerRegistryImageTag
  onlyThisServer := req.onlyThisServer
  buildServerId := none
  status := .queued
  createdAt := now

namespace DeploymentStore

variable (cfg : DeployConfig) (s : DeploymentStore)

def isQueueFull (serverId : Nat) : Bool :=
  decide ((cfg.deploymentQueueLimit serverId).getD 25 ≤ (s.queuedOn serverId).length)

/-- A deployment of the same commit that is queued or in progress. -/
def hasExisting (req : DeployRequest) : Bool :=
  (s.deployments.first? fun _ d => d.applicationId == req.applicationId &&
    d.commit == req.commitOf cfg && d.pullRequestId == req.pullRequestId &&
    d.dockerRegistryImageTag == req.dockerRegistryImageTag &&
    (d.status == .inProgress || d.status == .queued)).isSome

def isSkipped (req : DeployRequest) : Bool :=
  s.hasExisting cfg req && !req.forceRebuild && !req.rollback && !req.noQuestionsAsked

def enqueue (d : Deployment) : DeploymentStore :=
  { s with deployments := s.deployments.insert d }

def queueApplicationDeployment (req : DeployRequest) : DeploymentStore × QueueAnswer :=
  if !s.isTenantActive req.applicationId then (s, queueBlocked)
  else if s.isQueueFull cfg (req.serverId cfg) then (s, queueFull)
  else if s.isSkipped cfg req then (s, queueSkipped)
  else
    let id := s.deployments.nextId
    let d := req.deployment cfg s.clock
    let s := s.enqueue d
    (if req.noQuestionsAsked then s.start id else s.startNext cfg (id, d), queueQueued)

/-! ## The end of a deployment -/

/-- `deploy_to_additional_destinations`. -/
def deployToAdditionalDestinations (d : Deployment) : DeploymentStore :=
  let additional := (cfg.application d.applicationId).additionalDestinations
  if d.pullRequestId ≠ 0 ∨ cfg.isSwarm d.serverId ∨
      (additional.map (·.id)).contains d.destinationId then s
  else
    additional.foldl (fun s destination => (s.queueApplicationDeployment cfg
      { applicationId := d.applicationId
        pullRequestId := 0
        commit := none
        forceRebuild := false
        noQuestionsAsked := true
        server := some destination.serverId
        destination := some destination.id
        onlyThisServer := false
        rollback := false
        dockerRegistryImageTag := none }).1) s

/-- `transitionToStatus` up to `queue_next_deployment`. -/
def endDeployment (id : Nat) (d : Deployment) (status : DeploymentStatus) : DeploymentStore :=
  let s := s.setStatus id status
  if status = .finished ∧ !d.onlyThisServer then s.deployToAdditionalDestinations cfg d else s

end DeploymentStore

/-- The server whose queue `DeploymentNavbar::cancel` goes on with. -/
def Deployment.cancelServer (cfg : DeployConfig) (d : Deployment) : Nat :=
  if (cfg.application d.applicationId).isBuildServerEnabled then
    d.buildServerId.getD (cfg.application d.applicationId).destination.serverId
  else d.serverId

end OnePloy
