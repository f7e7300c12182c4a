import Mathlib.Tactic.SplitIfs
import OnePloy.Lib.PhpValue

/-!
# Container status, aggregated twice

`ContainerStatusAggregator` reduces a list of containers to one status. It
collects flags and resolves them by priority, and it collects them twice over:
`aggregateFromContainers` compares state and health, `aggregateFromStrings`
searches the status strings that `GetContainersStatus` has built from them.

The searches find the health `starting` where they look for a state, and do
not find it where they look for a health that is not known. `seenAlike` is
exactly where that makes no difference (`aggregators_agree`).
-/

namespace OnePloy

open Php

/-! ## Flags -/

/-- The flags of one aggregation, all of them off at first. -/
structure StatusFlags where
  hasRunning : Bool := false
  hasRestarting : Bool := false
  hasUnhealthy : Bool := false
  hasUnknown : Bool := false
  hasExited : Bool := false
  hasStarting : Bool := false
  hasPaused : Bool := false
  hasDead : Bool := false
  hasDegraded : Bool := false
deriving DecidableEq

/-- `resolveStatus`; the restart count is passed along and not looked at. -/
def StatusFlags.resolveStatus (f : StatusFlags) (_maxRestartCount : Int)
    (preserveRestarting : Bool) : String :=
  if f.hasDegraded then "degraded:unhealthy"
  else if f.hasRestarting then
    if preserveRestarting then "restarting:unknown" else "degraded:unhealthy"
  else if f.hasRunning && f.hasExited then "degraded:unhealthy"
  else if f.hasRunning && f.hasStarting then "starting:unknown"
  else if f.hasRunning then
    if f.hasUnhealthy then "running:unhealthy"
    else if f.hasUnknown then "running:unknown"
    else "running:healthy"
  else if f.hasDead then "degraded:unhealthy"
  else if f.hasPaused then "paused:unknown"
  else if f.hasStarting then "starting:unknown"
  else "exited"

/-! ## aggregateFromStrings -/

/-- One turn of the loop. -/
def StatusFlags.addStatus (f : StatusFlags) (status : String) : StatusFlags :=
  if strContains status "degraded" then
    { f with
      hasDegraded := true
      hasUnhealthy := f.hasUnhealthy || strContains status "unhealthy" }
  else if strContains status "restarting" then { f with hasRestarting := true }
  else if strContains status "running" then
    { f with
      hasRunning := true
      hasUnhealthy := f.hasUnhealthy || strContains status "unhealthy"
      hasUnknown := f.hasUnknown || strContains status "unknown" }
  else if strContains status "exited" then { f with hasExited := true }
  else if strContains status "created" || strContains status "starting" then
    { f with hasStarting := true }
  else if strContains status "paused" then { f with hasPaused := true }
  else if strContains status "dead" || strContains status "removing" then
    { f with hasDead := true }
  else f

def aggregateFromStrings (containerStatuses : List String) (maxRestartCount : Int)
    (preserveRestarting : Bool) : String :=
  if containerStatuses.isEmpty then "exited"
  else
    (containerStatuses.foldl StatusFlags.addStatus {}).resolveStatus (max 0 maxRestartCount)
      preserveRestarting

/-! ## aggregateFromContainers -/

/-- `State.Status` and `State.Health.Status` of a container. -/
structure DockerContainer where
  status : Option String
  health : Option String

def StatusFlags.addContainer (f : StatusFlags) (container : DockerContainer) : StatusFlags :=
  let state := container.status.getD "exited"
  if state = "restarting" then { f with hasRestarting := true }
  else if state = "running" then
    if container.health = some "unhealthy" then
      { f with hasRunning := true, hasUnhealthy := true }
    else if container.health = none ∨ container.health = some "starting" then
      { f with hasRunning := true, hasUnknown := true }
    else { f with hasRunning := true }
  else if state = "exited" then { f with hasExited := true }
  else if state = "created" ∨ state = "starting" then { f with hasStarting := true }
  else if state = "paused" then { f with hasPaused := true }
  else if state = "dead" ∨ state = "removing" then { f with hasDead := true }
  else f

def aggregateFromContainers (containers : List DockerContainer) (maxRestartCount : Int)
    (preserveRestarting : Bool) : String :=
  if containers.isEmpty then "exited"
  else
    (containers.foldl StatusFlags.addContainer {}).resolveStatus (max 0 maxRestartCount)
      preserveRestarting

/-- The status string of a container in `GetContainersStatus`. -/
def DockerContainer.statusString (container : DockerContainer) : String :=
  let containerStatus := container.status.getD ""
  if containerStatus = "restarting" then "restarting:" ++ container.health.getD "unknown"
  else if containerStatus = "exited" then containerStatus
  else containerStatus ++ ":" ++ container.health.getD "unknown"

/-! ## Docker's states -/

inductive ContainerState
  | created | running | paused | restarting | removing | exited | dead
deriving DecidableEq

inductive ContainerHealth
  | starting | healthy | unhealthy
deriving DecidableEq

def ContainerState.text : ContainerState → String
  | .created => "created"
  | .running => "running"
  | .paused => "paused"
  | .restarting => "restarting"
  | .removing => "removing"
  | .exited => "exited"
  | .dead => "dead"

def ContainerHealth.text : ContainerHealth → String
  | .starting => "starting"
  | .healthy => "healthy"
  | .unhealthy => "unhealthy"

/-- State and health; no health without a health check. -/
abbrev ContainerReport := ContainerState × Option ContainerHealth

def ContainerReport.container (c : ContainerReport) : DockerContainer :=
  ⟨some c.1.text, c.2.map (·.text)⟩

/-! ## A loop of flags -/

/-- The flags of either. -/
def StatusFlags.or (f g : StatusFlags) : StatusFlags where
  hasRunning := f.hasRunning || g.hasRunning
  hasRestarting := f.hasRestarting || g.hasRestarting
  hasUnhealthy := f.hasUnhealthy || g.hasUnhealthy
  hasUnknown := f.hasUnknown || g.hasUnknown
  hasExited := f.hasExited || g.hasExited
  hasStarting := f.hasStarting || g.hasStarting
  hasPaused := f.hasPaused || g.hasPaused
  hasDead := f.hasDead || g.hasDead
  hasDegraded := f.hasDegraded || g.hasDegraded

/-- A flag is on where some element has it. -/
def flagsOfAny {α : Type*} (flags : α → StatusFlags) (l : List α) : StatusFlags where
  hasRunning := l.any fun x => (flags x).hasRunning
  hasRestarting := l.any fun x => (flags x).hasRestarting
  hasUnhealthy := l.any fun x => (flags x).hasUnhealthy
  hasUnknown := l.any fun x => (flags x).hasUnknown
  hasExited := l.any fun x => (flags x).hasExited
  hasStarting := l.any fun x => (flags x).hasStarting
  hasPaused := l.any fun x => (flags x).hasPaused
  hasDead := l.any fun x => (flags x).hasDead
  hasDegraded := l.any fun x => (flags x).hasDegraded

theorem StatusFlags.or_right_comm (f g h : StatusFlags) : (f.or g).or h = (f.or h).or g := by
  simp only [StatusFlags.or, StatusFlags.mk.injEq]
  refine ⟨?_, ?_, ?_, ?_, ?_, ?_, ?_, ?_, ?_⟩ <;> exact Bool.or_right_comm ..

/-- A turn of the loop adds the flags of one status to those there are. -/
theorem addStatus_or (f : StatusFlags) (status : String) :
    f.addStatus status = f.or (StatusFlags.addStatus {} status) := by
  unfold StatusFlags.addStatus
  split_ifs <;> simp [StatusFlags.or]

theorem addContainer_or (f : StatusFlags) (container : DockerContainer) :
    f.addContainer container = f.or (StatusFlags.addContainer {} container) := by
  simp only [StatusFlags.addContainer]
  split_ifs <;> simp [StatusFlags.or]

section Loop

variable {α : Type*} {add : StatusFlags → α → StatusFlags}

/-- The loop does not see the order. -/
theorem foldl_flags_perm (hadd : ∀ f x, add f x = f.or (add {} x)) {l l' : List α}
    (h : l.Perm l') (f : StatusFlags) : l.foldl add f = l'.foldl add f := by
  refine h.foldl_eq' (fun x _ y _ g => ?_) f
  rw [hadd (add g y), hadd (add g x), hadd g x, hadd g y, StatusFlags.or_right_comm]

/-- After the loop a flag is on where it was or where some element has it. -/
theorem foldl_flags (hadd : ∀ f x, add f x = f.or (add {} x)) (l : List α) (f : StatusFlags) :
    l.foldl add f = f.or (flagsOfAny (add {}) l) := by
  induction l generalizing f with
  | nil => simp [StatusFlags.or, flagsOfAny]
  | cons x l ih =>
      rw [List.foldl_cons, ih, hadd f x]
      simp only [StatusFlags.or, flagsOfAny, List.any_cons, Bool.or_assoc]

end Loop

/-! ## The flags of Docker's states -/

namespace ContainerReport

variable (c : ContainerReport)

def is (state : ContainerState) : Bool := c.1 == state

/-- Dead, or about to be removed. -/
def isGone : Bool := c.is .dead || c.is .removing

/-- The health check has not come to a result yet. -/
def starts : Bool := c.2 == some .starting

def unchecked : Bool := c.2 == none

/-- A search finds the health `starting` in the place of a state. -/
def stringFlags : StatusFlags where
  hasRunning := c.is .running
  hasRestarting := c.is .restarting
  hasUnhealthy := c.is .running && c.2 == some .unhealthy
  hasUnknown := c.is .running && c.unchecked
  hasExited := c.is .exited
  hasStarting := c.is .created || ((c.is .paused || c.isGone) && c.starts)
  hasPaused := c.is .paused && !c.starts
  hasDead := c.isGone && !c.starts

def containerFlags : StatusFlags where
  hasRunning := c.is .running
  hasRestarting := c.is .restarting
  hasUnhealthy := c.is .running && c.2 == some .unhealthy
  hasUnknown := c.is .running && (c.unchecked || c.starts)
  hasExited := c.is .exited
  hasStarting := c.is .created
  hasPaused := c.is .paused
  hasDead := c.isGone

theorem addStatus_statusString :
    StatusFlags.addStatus {} c.container.statusString = c.stringFlags := by
  obtain ⟨state, _ | health⟩ := c
  · cases state <;> decide +kernel
  · cases state <;> cases health <;> decide +kernel

theorem addContainer_container :
    StatusFlags.addContainer {} c.container = c.containerFlags := by
  obtain ⟨state, _ | health⟩ := c
  · cases state <;> rfl
  · cases state <;> cases health <;> rfl

end ContainerReport

/-- The flags of a list, by searching its strings. -/
def stringFlagsOf (l : List ContainerReport) : StatusFlags :=
  (l.map (·.container.statusString)).foldl StatusFlags.addStatus {}

/-- The flags of a list, by comparing. -/
def containerFlagsOf (l : List ContainerReport) : StatusFlags :=
  (l.map (·.container)).foldl StatusFlags.addContainer {}

theorem stringFlagsOf_eq (l : List ContainerReport) :
    stringFlagsOf l = flagsOfAny ContainerReport.stringFlags l := by
  rw [stringFlagsOf, foldl_flags addStatus_or]
  simp only [flagsOfAny, List.any_map, Function.comp_def, ContainerReport.addStatus_statusString,
    StatusFlags.or, Bool.false_or]

theorem containerFlagsOf_eq (l : List ContainerReport) :
    containerFlagsOf l = flagsOfAny ContainerReport.containerFlags l := by
  rw [containerFlagsOf, foldl_flags addContainer_or]
  simp only [flagsOfAny, List.any_map, Function.comp_def, ContainerReport.addContainer_container,
    StatusFlags.or, Bool.false_or]

/-! ## Where they agree -/

/-- No container that is still starting up makes a difference: there is a
restart, or a container of the same rank that is seen alike. -/
def seenAlike (l : List ContainerReport) : Bool :=
  l.any (·.is .restarting) || (l.any (·.is .running) && l.any (·.is .exited)) ||
    if l.any (·.is .running) then
      l.any (·.is .created) ||
        (!l.any (fun c => (c.is .paused || c.isGone) && c.starts) &&
          (l.any (fun c => c.is .running && c.2 == some .unhealthy) ||
            l.any (fun c => c.is .running && c.unchecked) ||
            !l.any (fun c => c.is .running && c.starts)))
    else if l.any (·.isGone) then l.any fun c => c.isGone && !c.starts
    else !l.any (·.is .paused) || l.any fun c => c.is .paused && !c.starts

theorem any_or {α : Type*} (l : List α) (p q : α → Bool) :
    (l.any fun x => p x || q x) = (l.any p || l.any q) := by
  induction l with
  | nil => rfl
  | cons x l ih =>
      rw [List.any_cons, List.any_cons, List.any_cons, ih]
      cases p x <;> cases q x <;> simp

/-- A predicate splits on another. -/
theorem any_split {α : Type*} (l : List α) (p q : α → Bool) :
    l.any p = ((l.any fun x => p x && q x) || l.any fun x => p x && !q x) := by
  rw [← any_or]
  refine congrArg l.any (funext fun x => ?_)
  cases p x <;> cases q x <;> rfl

theorem resolveStatus_agree (l : List ContainerReport) (maxRestartCount : Int)
    (preserveRestarting : Bool) :
    (stringFlagsOf l).resolveStatus maxRestartCount preserveRestarting =
        (containerFlagsOf l).resolveStatus maxRestartCount preserveRestarting ↔
      seenAlike l = true := by
  have hpaused := any_split l (·.is .paused) (·.starts)
  have hgone := any_split l (·.isGone) (·.starts)
  have hnone : (l.any fun _ => false) = false := by simp
  rw [stringFlagsOf_eq, containerFlagsOf_eq]
  simp only [StatusFlags.resolveStatus, seenAlike, flagsOfAny, ContainerReport.stringFlags,
    ContainerReport.containerFlags, Bool.and_or_distrib_left, Bool.and_or_distrib_right, any_or,
    hpaused, hgone, hnone]
  -- what is left only asks which kinds of container there are
  generalize (l.any fun x => x.is .restarting) = restarting
  generalize (l.any fun x => x.is .running) = running
  generalize (l.any fun x => x.is .exited) = exited
  generalize (l.any fun x => x.is .created) = created
  generalize (l.any fun x => x.is .running && x.2 == some .unhealthy) = unhealthy
  generalize (l.any fun x => x.is .running && x.unchecked) = unchecked
  generalize (l.any fun x => x.is .running && x.starts) = runningStarts
  generalize (l.any fun x => x.is .paused && x.starts) = pausedStarts
  generalize (l.any fun x => x.isGone && x.starts) = goneStarts
  generalize (l.any fun x => x.is .paused && !x.starts) = pausedSettled
  generalize (l.any fun x => x.isGone && !x.starts) = goneSettled
  cases restarting
  case true => simp
  cases running
  case false =>
      cases goneSettled
      case true => simp
      cases goneStarts
      case true => cases pausedSettled <;> simp
      cases pausedSettled
      case true => simp
      cases pausedStarts <;> simp
  cases exited
  case true => simp
  cases created
  case true => simp
  cases unhealthy
  case true => cases pausedStarts <;> cases goneStarts <;> simp
  cases unchecked
  case true => cases pausedStarts <;> cases goneStarts <;> simp
  cases runningStarts <;> cases pausedStarts <;> cases goneStarts <;> simp

theorem seenAlike_nil : seenAlike [] = true := rfl

/-- Over an empty list both stop before the loop. -/
theorem aggregate_eq_iff (l : List ContainerReport) (maxRestartCount : Int)
    (preserveRestarting : Bool) :
    aggregateFromStrings (l.map (·.container.statusString)) maxRestartCount preserveRestarting =
        aggregateFromContainers (l.map (·.container)) maxRestartCount preserveRestarting ↔
      seenAlike l = true := by
  cases l with
  | nil => exact iff_of_true rfl seenAlike_nil
  | cons c l => exact resolveStatus_agree (c :: l) (max 0 maxRestartCount) preserveRestarting

theorem aggregateFromStrings_perm {l l' : List String} (h : l.Perm l') (maxRestartCount : Int)
    (preserveRestarting : Bool) :
    aggregateFromStrings l maxRestartCount preserveRestarting =
      aggregateFromStrings l' maxRestartCount preserveRestarting := by
  have hempty : l.isEmpty = l'.isEmpty := by
    rw [Bool.eq_iff_iff, List.isEmpty_iff_length_eq_zero, List.isEmpty_iff_length_eq_zero,
      h.length_eq]
  rw [aggregateFromStrings, aggregateFromStrings, hempty, foldl_flags_perm addStatus_or h]

theorem aggregateFromContainers_perm {l l' : List DockerContainer} (h : l.Perm l')
    (maxRestartCount : Int) (preserveRestarting : Bool) :
    aggregateFromContainers l maxRestartCount preserveRestarting =
      aggregateFromContainers l' maxRestartCount preserveRestarting := by
  have hempty : l.isEmpty = l'.isEmpty := by
    rw [Bool.eq_iff_iff, List.isEmpty_iff_length_eq_zero, List.isEmpty_iff_length_eq_zero,
      h.length_eq]
  rw [aggregateFromContainers, aggregateFromContainers, hempty,
    foldl_flags_perm addContainer_or h]

/-- Neither aggregation sees the order of the list, and they agree exactly where
no container that is still starting up makes a difference. -/
theorem aggregators_agree (l : List ContainerReport) (maxRestartCount : Int)
    (preserveRestarting : Bool) :
    (aggregateFromStrings (l.map (·.container.statusString)) maxRestartCount preserveRestarting =
        aggregateFromContainers (l.map (·.container)) maxRestartCount preserveRestarting ↔
      seenAlike l = true) ∧
    ∀ l' : List ContainerReport, l.Perm l' →
      aggregateFromStrings (l.map (·.container.statusString)) maxRestartCount
          preserveRestarting =
        aggregateFromStrings (l'.map (·.container.statusString)) maxRestartCount
          preserveRestarting ∧
      aggregateFromContainers (l.map (·.container)) maxRestartCount preserveRestarting =
        aggregateFromContainers (l'.map (·.container)) maxRestartCount preserveRestarting :=
  ⟨aggregate_eq_iff l maxRestartCount preserveRestarting, fun _ h =>
    ⟨aggregateFromStrings_perm (h.map _) .., aggregateFromContainers_perm (h.map _) ..⟩⟩

/-- A single running container whose health check has not come to a result. -/
theorem aggregators_disagree :
    let l : List ContainerReport := [(.running, some .starting)]
    aggregateFromStrings (l.map (·.container.statusString)) 0 true = "running:healthy" ∧
    aggregateFromContainers (l.map (·.container)) 0 true = "running:unknown" ∧
    aggregateFromStrings (l.map (·.container.statusString)) 0 true ≠
      aggregateFromContainers (l.map (·.container)) 0 true := by
  intro l
  have hstrings : aggregateFromStrings (l.map (·.container.statusString)) 0 true =
      "running:healthy" := by decide +kernel
  have hcontainers : aggregateFromContainers (l.map (·.container)) 0 true =
      "running:unknown" := by decide +kernel
  exact ⟨hstrings, hcontainers, by rw [hstrings, hcontainers]; decide⟩

end OnePloy
