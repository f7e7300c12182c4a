import OnePloy.ContainerStatus
import OnePloy.Lib.PhpText

/-!
# When the aggregate is healthy

`running:healthy` outranks what a container that is dead, being removed or
paused would give, and a state that `aggregateFromContainers` does not know
sets no flag. So it says nothing of those: it says that some container runs,
that none restarts, starts or has exited, and that every running one is well
(`healthy_means`).
-/

namespace OnePloy

open Php

namespace DockerContainer

variable (c : DockerContainer)

/-- `State.Status`, with its default. -/
def state : String := c.status.getD "exited"

def isRunning : Bool := c.state = "running"

/-- The states that no running container outranks. -/
def outranksRunning : Bool :=
  c.state = "restarting" ∨ c.state = "exited" ∨ c.state = "created" ∨ c.state = "starting"

/-- The states that any running container outranks. -/
def isOutranked : Bool := c.state = "paused" ∨ c.state = "dead" ∨ c.state = "removing"

/-- A health check without a result, or none at all. -/
def isUnknown : Bool := c.health = none ∨ c.health = some "starting"

def isUnhealthy : Bool := c.health = some "unhealthy"

/-- What does for a running container to count as healthy. -/
def isWell : Bool := !c.isUnhealthy && !c.isUnknown

/-- A running container becomes worse: it runs no more, or it is not healthy
any more. -/
def Worse (c c' : DockerContainer) : Prop :=
  c.isRunning ∧
    (c'.state = "exited" ∨ c'.state = "restarting" ∨ c'.isOutranked ∨
      (c'.isRunning ∧ c.health = some "healthy" ∧ (c'.isUnhealthy ∨ c'.isUnknown)))

/-- The flags that one container sets. -/
def flags : StatusFlags where
  hasRunning := c.isRunning
  hasRestarting := c.state = "restarting"
  hasUnhealthy := c.isRunning && c.isUnhealthy
  hasUnknown := c.isRunning && c.isUnknown
  hasExited := c.state = "exited"
  hasStarting := c.state = "created" ∨ c.state = "starting"
  hasPaused := c.state = "paused"
  hasDead := c.state = "dead" ∨ c.state = "removing"

theorem addContainer_empty : StatusFlags.addContainer {} c = c.flags := by
  obtain ⟨status, health⟩ := c
  simp only [StatusFlags.addContainer, flags, isRunning, isUnhealthy, isUnknown, state]
  split_ifs with _ _ _ _ _ hstarting <;> simp_all
  obtain h | h := hstarting <;> simp [h]

end DockerContainer

/-! ## The list as a whole -/

/-- The flags after the loop. -/
theorem foldl_addContainer (l : List DockerContainer) :
    l.foldl StatusFlags.addContainer {} = flagsOfAny DockerContainer.flags l := by
  rw [foldl_flags addContainer_or]
  simp only [flagsOfAny, DockerContainer.addContainer_empty, StatusFlags.or, Bool.false_or]

/-- Some container runs, and none is in a state that would be heard before it. -/
def someRuns (l : List DockerContainer) : Bool :=
  l.any (·.isRunning) && !l.any (·.outranksRunning)

def runningAreWell (l : List DockerContainer) : Bool :=
  l.all fun c => !c.isRunning || c.isWell

theorem any_outranksRunning (l : List DockerContainer) :
    l.any (·.outranksRunning) =
      ((flagsOfAny DockerContainer.flags l).hasRestarting ||
        ((flagsOfAny DockerContainer.flags l).hasExited ||
          (flagsOfAny DockerContainer.flags l).hasStarting)) := by
  simp only [flagsOfAny, DockerContainer.flags, ← any_or]
  refine congrArg l.any (funext fun c => ?_)
  simp only [DockerContainer.outranksRunning, Bool.decide_or]

theorem runningAreWell_eq (l : List DockerContainer) :
    runningAreWell l =
      (!(flagsOfAny DockerContainer.flags l).hasUnhealthy &&
        !(flagsOfAny DockerContainer.flags l).hasUnknown) := by
  rw [← Bool.not_or]
  simp only [flagsOfAny, DockerContainer.flags, ← any_or]
  rw [runningAreWell, List.not_any_eq_all_not]
  refine congrArg l.all (funext fun c => ?_)
  simp only [DockerContainer.isWell]
  cases c.isRunning <;> cases c.isUnhealthy <;> rfl

/-- An empty list gives what the resolution of no flag gives. -/
theorem aggregateFromContainers_eq (l : List DockerContainer) (maxRestartCount : Int)
    (preserveRestarting : Bool) :
    aggregateFromContainers l maxRestartCount preserveRestarting =
      (flagsOfAny DockerContainer.flags l).resolveStatus (max 0 maxRestartCount)
        preserveRestarting := by
  cases l with
  | nil => rfl
  | cons c l => rw [← foldl_addContainer]; rfl

/-! ## Resolution -/

section Resolve

variable (f : StatusFlags) (maxRestartCount : Int) (preserveRestarting : Bool)

/-- Where the resolution comes to the flag of a running container. -/
def StatusFlags.reachesRunning : Bool :=
  f.hasRunning && !(f.hasRestarting || (f.hasExited || f.hasStarting))

theorem resolveStatus_running (hdegraded : f.hasDegraded = false)
    (h : f.reachesRunning = true) :
    f.resolveStatus maxRestartCount preserveRestarting =
      if f.hasUnhealthy then "running:unhealthy"
      else if f.hasUnknown then "running:unknown" else "running:healthy" := by
  simp only [StatusFlags.reachesRunning, Bool.and_eq_true, Bool.not_eq_true',
    Bool.or_eq_false_iff] at h
  obtain ⟨hrunning, hrestarting, hexited, hstarting⟩ := h
  simp [StatusFlags.resolveStatus, hdegraded, hrunning, hrestarting, hexited, hstarting]

theorem resolveStatus_not_running (hdegraded : f.hasDegraded = false)
    (h : f.reachesRunning = false) :
    f.resolveStatus maxRestartCount preserveRestarting ∈
      ["degraded:unhealthy", "restarting:unknown", "starting:unknown", "paused:unknown",
        "exited"] := by
  unfold StatusFlags.resolveStatus
  unfold StatusFlags.reachesRunning at h
  split_ifs <;> simp_all

end Resolve

theorem reachesRunning_eq (l : List DockerContainer) :
    (flagsOfAny DockerContainer.flags l).reachesRunning = someRuns l := by
  rw [StatusFlags.reachesRunning, ← any_outranksRunning]
  rfl

theorem flagsOfAny_hasDegraded (l : List DockerContainer) :
    (flagsOfAny DockerContainer.flags l).hasDegraded = false := by
  simp [flagsOfAny, DockerContainer.flags]

section Aggregate

variable (l : List DockerContainer) (maxRestartCount : Int) (preserveRestarting : Bool)

theorem aggregate_healthy_iff :
    aggregateFromContainers l maxRestartCount preserveRestarting = "running:healthy" ↔
      someRuns l = true ∧ runningAreWell l = true := by
  rw [aggregateFromContainers_eq, ← reachesRunning_eq, runningAreWell_eq]
  have hdegraded := flagsOfAny_hasDegraded l
  cases h : (flagsOfAny DockerContainer.flags l).reachesRunning with
  | false =>
      have hmem := resolveStatus_not_running _ (max 0 maxRestartCount) preserveRestarting
        hdegraded h
      refine iff_of_false (fun heq => ?_) (by simp)
      rw [heq] at hmem
      exact absurd hmem (by decide)
  | true =>
      rw [resolveStatus_running _ _ _ hdegraded h]
      split_ifs <;> simp_all

theorem aggregate_running_iff :
    strStartsWith (aggregateFromContainers l maxRestartCount preserveRestarting) "running" = true ↔
      someRuns l = true := by
  rw [aggregateFromContainers_eq, ← reachesRunning_eq]
  have hdegraded := flagsOfAny_hasDegraded l
  cases h : (flagsOfAny DockerContainer.flags l).reachesRunning with
  | false =>
      have hmem := resolveStatus_not_running _ (max 0 maxRestartCount) preserveRestarting
        hdegraded h
      have hnone : ["degraded:unhealthy", "restarting:unknown", "starting:unknown",
          "paused:unknown", "exited"].all (fun s => !strStartsWith s "running") = true := by
        decide
      have hs := List.all_eq_true.mp hnone _ hmem
      exact iff_of_false (by simpa using hs) (by simp)
  | true =>
      rw [resolveStatus_running _ _ _ hdegraded h]
      refine iff_of_true ?_ rfl
      split_ifs <;> rfl

end Aggregate

/-! ## One container becomes worse -/

section Worse

variable (l r : List DockerContainer) (maxRestartCount : Int) (preserveRestarting : Bool)

/-- One container and the others. -/
theorem healthy_cons_iff (c : DockerContainer) (others : List DockerContainer) :
    aggregateFromContainers (c :: others) maxRestartCount preserveRestarting =
        "running:healthy" ↔
      ((c.isRunning || others.any (·.isRunning)) = true ∧ c.outranksRunning = false ∧
        others.any (·.outranksRunning) = false) ∧
        (!c.isRunning || c.isWell) = true ∧ runningAreWell others = true := by
  rw [aggregate_healthy_iff, someRuns, runningAreWell, List.any_cons, List.any_cons,
    List.all_cons, ← runningAreWell, Bool.and_eq_true, Bool.and_eq_true, Bool.not_eq_true',
    Bool.or_eq_false_iff]

/-- Where the container stands among the others makes no difference. -/
theorem aggregate_insert (c : DockerContainer) :
    aggregateFromContainers (l ++ c :: r) maxRestartCount preserveRestarting =
      aggregateFromContainers (c :: (l ++ r)) maxRestartCount preserveRestarting :=
  aggregateFromContainers_perm List.perm_middle ..

namespace DockerContainer

/-- The states exclude each other. -/
theorem running_outranksRunning {c : DockerContainer} (h : c.isRunning = true) :
    c.outranksRunning = false ∧ c.isOutranked = false := by
  simp only [isRunning, decide_eq_true_eq] at h
  simp [outranksRunning, isOutranked, h]

theorem outranked_not_running {c : DockerContainer} (h : c.isOutranked = true) :
    c.isRunning = false ∧ c.outranksRunning = false := by
  simp only [isOutranked, decide_eq_true_eq] at h
  obtain h | h | h := h <;> simp [isRunning, outranksRunning, h]

/-- What a container that has become worse is now. -/
theorem Worse.cases {c c' : DockerContainer} (h : c.Worse c') :
    (c'.outranksRunning = true ∧ c'.isOutranked = false) ∨ c'.isOutranked = true ∨
      (c'.isRunning = true ∧ c'.isWell = false) := by
  obtain ⟨-, h | h | h | ⟨hrunning, -, hhealth⟩⟩ := h
  · exact .inl (by simp [outranksRunning, isOutranked, h])
  · exact .inl (by simp [outranksRunning, isOutranked, h])
  · exact .inr (.inl h)
  · refine .inr (.inr ⟨hrunning, ?_⟩)
    obtain h | h := hhealth <;> simp [isWell, h]

end DockerContainer

theorem worse_healthy_iff {c c' : DockerContainer} (h : c.Worse c') :
    (aggregateFromContainers (l ++ c' :: r) maxRestartCount preserveRestarting =
          "running:healthy" ∧
        aggregateFromContainers (l ++ c :: r) maxRestartCount preserveRestarting ≠
          "running:healthy") ↔
      c'.isOutranked = true ∧ c.isWell = false ∧
        aggregateFromContainers (l ++ r) maxRestartCount preserveRestarting =
          "running:healthy" := by
  have hrunning := h.1
  have houtranks := (DockerContainer.running_outranksRunning hrunning).1
  rw [aggregate_insert, aggregate_insert, Ne, healthy_cons_iff, healthy_cons_iff, hrunning,
    houtranks]
  obtain ⟨h', hnot⟩ | h' | ⟨h', hill⟩ := h.cases
  · simp [h', hnot]
  · -- the others alone decide now
    obtain ⟨hr, ho⟩ := DockerContainer.outranked_not_running h'
    rw [aggregate_healthy_iff, someRuns]
    simp only [h', hr, ho, Bool.and_eq_true, Bool.not_eq_true', Bool.not_false, Bool.true_or,
      Bool.false_or, Bool.not_true, true_and]
    cases c.isWell <;> simp
    tauto
  · simp [h', hill, (DockerContainer.running_outranksRunning h').2]

end Worse

/-- What `running:healthy` and `running` say of a list, and how a container that
becomes worse can turn another result into `running:healthy`: one that was not
well has stopped in a state that the running others outrank. -/
theorem healthy_means (maxRestartCount : Int) (preserveRestarting : Bool) :
    (∀ l : List DockerContainer,
      (aggregateFromContainers l maxRestartCount preserveRestarting = "running:healthy" ↔
        someRuns l = true ∧ runningAreWell l = true) ∧
      (strStartsWith (aggregateFromContainers l maxRestartCount preserveRestarting) "running" =
          true ↔
        someRuns l = true)) ∧
    ∀ (l r : List DockerContainer) (c c' : DockerContainer), c.Worse c' →
      ((aggregateFromContainers (l ++ c' :: r) maxRestartCount preserveRestarting =
            "running:healthy" ∧
          aggregateFromContainers (l ++ c :: r) maxRestartCount preserveRestarting ≠
            "running:healthy") ↔
        c'.isOutranked = true ∧ c.isWell = false ∧
          aggregateFromContainers (l ++ r) maxRestartCount preserveRestarting =
            "running:healthy") :=
  ⟨fun l => ⟨aggregate_healthy_iff l .., aggregate_running_iff l ..⟩,
    fun l r _ _ h => worse_healthy_iff l r maxRestartCount preserveRestarting h⟩

/-- An unhealthy container is paused. -/
theorem healthy_means_paused :
    aggregateFromContainers
        ([] ++ ⟨some "paused", some "unhealthy"⟩ :: [⟨some "running", some "healthy"⟩]) 0 false =
      "running:healthy" ∧
    aggregateFromContainers
        ([] ++ ⟨some "running", some "unhealthy"⟩ :: [⟨some "running", some "healthy"⟩]) 0 false ≠
      "running:healthy" :=
  ((healthy_means 0 false).2 [] [⟨some "running", some "healthy"⟩]
    ⟨some "running", some "unhealthy"⟩ ⟨some "paused", some "unhealthy"⟩
    ⟨rfl, .inr (.inr (.inl rfl))⟩).mpr ⟨rfl, rfl, by decide +kernel⟩

/-- A healthy container hides a dead one, and pausing an unhealthy one leaves a
healthy aggregate. -/
theorem healthy_beside_dead :
    let well : DockerContainer := ⟨some "running", some "healthy"⟩
    let ill : DockerContainer := ⟨some "running", some "unhealthy"⟩
    aggregateFromContainers [well, ⟨some "dead", none⟩] 0 false = "running:healthy" ∧
    aggregateFromContainers [ill, well] 0 false = "running:unhealthy" ∧
    aggregateFromContainers [⟨some "paused", some "unhealthy"⟩, well] 0 false =
      "running:healthy" := by
  decide +kernel

end OnePloy
