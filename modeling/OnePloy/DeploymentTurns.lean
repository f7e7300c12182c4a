import OnePloy.DeploymentQueue
import OnePloy.Lib.Reach

/-!
# The deployment queue, one call at a time

A turn is one call taken from beginning to end, or half of the end of a
deployment: the status change without the `queue_next_deployment` that follows
it. What the query for the queue returns comes with the turn, in any order.

A start only takes away: whoever could not be started before cannot be started
after it (`Tightens`). So after the loop over a server's queue nothing of it is
left that could be started (`queueNext_drained`).
-/

namespace OnePloy

open Conc

inductive QueueTurn
  | queue (req : DeployRequest)
  | queueNext (applicationId : Nat) (rows : List (Nat × Deployment))
  | nextAfterCancel (server : Option Nat) (rows : List (Nat × Deployment))
  /-- The status change of `transitionToStatus`. -/
  | ends (id : Nat) (status : DeploymentStatus)
  /-- The status change of a cancellation. -/
  | cancels (id : Nat)
  /-- `transitionToStatus` as a whole. -/
  | transition (id : Nat) (status : DeploymentStatus) (rows : List (Nat × Deployment))
  /-- `DeploymentNavbar::cancel` as a whole. -/
  | cancel (id : Nat) (rows : List (Nat × Deployment))
  /-- `DeployController::cancel_deployment` as a whole. -/
  | cancelDeployment (id : Nat) (rows : List (Nat × Deployment))
  | build (id serverId : Nat)
  | tick (seconds : Nat)
  | tenant (applicationId : Nat) (active : Bool)

namespace DeploymentStore

/-- The loop over what the query for a server's queue returns. -/
def drainServer (cfg : DeployConfig) (s : DeploymentStore) (serverId : Nat)
    (rows : List (Nat × Deployment)) : Option DeploymentStore :=
  if rows.isPerm (s.queuedOn serverId) then some (s.drain cfg (byCreation rows)) else none

def mainServer (cfg : DeployConfig) (applicationId : Nat) : Nat :=
  (cfg.application applicationId).destination.serverId

def turn (cfg : DeployConfig) (s : DeploymentStore) : QueueTurn → Option DeploymentStore
  | .queue req => some (s.queueApplicationDeployment cfg req).1
  | .queueNext applicationId rows => s.drainServer cfg (mainServer cfg applicationId) rows
  | .nextAfterCancel none _ => some s
  | .nextAfterCancel (some serverId) rows => s.drainServer cfg serverId rows
  | .ends id status =>
      (s.deployments.get? id).bind fun d =>
        if d.status = .inProgress ∧ (status = .finished ∨ status = .failed) then
          some (s.setStatus id status)
        else none
  | .cancels id => (s.deployments.get? id).map fun _ => s.setStatus id .cancelledByUser
  | .transition id status rows =>
      (s.deployments.get? id).bind fun d =>
        if status = .finished ∨ status = .failed then
          if d.status.isFinal then some s
          else
            (s.endDeployment cfg id d status).drainServer cfg (mainServer cfg d.applicationId) rows
        else none
  | .cancel id rows =>
      (s.deployments.get? id).bind fun d =>
        (s.setStatus id .cancelledByUser).drainServer cfg (d.cancelServer cfg) rows
  | .cancelDeployment id rows =>
      (s.deployments.get? id).bind fun d =>
        if d.status.isFinal then some s
        else (s.setStatus id .cancelledByUser).drainServer cfg d.serverId rows
  | .build id serverId => (s.deployments.get? id).map fun _ => s.setBuildServer id serverId
  | .tick seconds => some { s with clock := s.clock + seconds }
  | .tenant applicationId active =>
      some { s with isTenantActive := fun a =>
        if a = applicationId then active else s.isTenantActive a }

end DeploymentStore

/-- No deployments yet; every tenant is active. -/
def emptyQueue (clock : Nat) : DeploymentStore := ⟨.empty, clock, fun _ => true, []⟩

/-! ## An example -/

/-- Two servers with one build at a time. The first application's main server
is the first, with the second as an additional one; the second application's
main server is the second. -/
def twoServers : DeployConfig where
  application id :=
    if id = 1 then ⟨⟨1, 1⟩, [⟨2, 2⟩], none, false⟩ else ⟨⟨2, 2⟩, [], none, false⟩
  concurrentBuilds _ := 1
  deploymentQueueLimit _ := none
  isSwarm _ := false

def deployRequest (applicationId : Nat) (commit : String) : DeployRequest where
  applicationId := applicationId
  pullRequestId := 0
  commit := some commit
  forceRebuild := false
  noQuestionsAsked := false
  server := none
  destination := none
  onlyThisServer := false
  rollback := false
  dockerRegistryImageTag := none

variable {cfg : DeployConfig} {s s' t : DeploymentStore}

namespace DeploymentStore

/-! ## Rows -/

theorem get?_setStatus (id : Nat) (status : DeploymentStatus) (i : Nat) :
    (s.setStatus id status).deployments.get? i =
      if i = id then (s.deployments.get? i).map ({ · with status := status })
      else s.deployments.get? i :=
  Table.get?_modify ..

theorem get?_start (id i : Nat) :
    (s.start id).deployments.get? i =
      if i = id then (s.deployments.get? i).map ({ · with status := .inProgress })
      else s.deployments.get? i :=
  Table.get?_modify ..

theorem isBusy_iff {lane : Nat × Nat} :
    s.isBusy lane = true ↔
      ∃ i d, s.deployments.get? i = some d ∧ d.lane = lane ∧ d.status = .inProgress := by
  rw [isBusy, Option.isSome_iff_exists]
  constructor
  · rintro ⟨⟨i, d⟩, hfirst⟩
    obtain ⟨hget, hd⟩ := Table.first?_some hfirst
    rw [Bool.and_eq_true, beq_iff_eq, beq_iff_eq] at hd
    exact ⟨i, d, hget, hd.1, hd.2⟩
  · rintro ⟨i, d, hget, hlane, hstatus⟩
    exact Table.exists_first? hget (by simp [hlane, hstatus])

/-! ## A start only takes away -/

/-- Whoever could not be started before cannot be started after. -/
structure Tightens (s t : DeploymentStore) : Prop where
  busy : ∀ lane, s.isBusy lane = true → t.isBusy lane = true
  active : ∀ serverId, s.activeDeployments serverId ≤ t.activeDeployments serverId
  tenant : t.isTenantActive = s.isTenantActive

theorem Tightens.refl (s : DeploymentStore) : Tightens s s :=
  ⟨fun _ h => h, fun _ => Nat.le_refl _, rfl⟩

theorem Tightens.trans {u : DeploymentStore} (h : Tightens s t) (h' : Tightens t u) :
    Tightens s u where
  busy lane hs := h'.busy lane (h.busy lane hs)
  active serverId := (h.active serverId).trans (h'.active serverId)
  tenant := h'.tenant.trans h.tenant

theorem Tightens.nextQueuable (h : Tightens s t) {d : Deployment}
    (hd : s.nextQueuable cfg d = false) : t.nextQueuable cfg d = false := by
  rw [← Bool.not_eq_true, DeploymentStore.nextQueuable, Bool.and_eq_true, Bool.and_eq_true,
    Bool.not_eq_true', hasSlot, decide_eq_true_eq] at hd ⊢
  rintro ⟨⟨htenant, hbusy⟩, hslot⟩
  refine hd ⟨⟨h.tenant ▸ htenant, ?_⟩, (h.active d.serverId).trans_lt hslot⟩
  rw [← Bool.not_eq_true]
  intro hs
  rw [h.busy d.lane hs] at hbusy
  cases hbusy

theorem start_tightens (s : DeploymentStore) (id : Nat) : Tightens s (s.start id) where
  busy lane hs := by
    obtain ⟨i, d, hget, hlane, hstatus⟩ := isBusy_iff.mp hs
    refine isBusy_iff.mpr ?_
    by_cases hi : i = id
    · exact ⟨i, { d with status := .inProgress }, by rw [get?_start, if_pos hi, hget]; rfl, hlane,
        rfl⟩
    · exact ⟨i, d, by rw [get?_start, if_neg hi, hget], hlane, hstatus⟩
  active serverId := by
    refine Table.countWhere_le_updateWhere fun i d _ hd _ => ?_
    rw [Bool.and_eq_true] at hd ⊢
    exact ⟨hd.1, rfl⟩
  tenant := rfl

theorem startNext_tightens (s : DeploymentStore) (q : Nat × Deployment) :
    Tightens s (s.startNext cfg q) := by
  unfold startNext
  split
  · exact start_tightens s q.1
  · exact .refl s

theorem drain_tightens (rows : List (Nat × Deployment)) (s : DeploymentStore) :
    Tightens s (s.drain cfg rows) := by
  induction rows generalizing s with
  | nil => exact .refl s
  | cons q rows ih => exact (startNext_tightens s q).trans (ih _)

/-! ## What a loop leaves -/

/-- The rows of `t` are those of `s`, some of them set to in progress. -/
def Starts (s t : DeploymentStore) : Prop :=
  ∀ i, t.deployments.get? i = s.deployments.get? i ∨
    t.deployments.get? i = (s.deployments.get? i).map ({ · with status := .inProgress })

theorem Starts.refl (s : DeploymentStore) : Starts s s := fun _ => Or.inl rfl

theorem Starts.trans {u : DeploymentStore} (h : Starts s t) (h' : Starts t u) : Starts s u := by
  intro i
  rcases h' i with hu | hu
  · rw [hu]
    exact h i
  · rw [hu]
    rcases h i with ht | ht
    · exact Or.inr (by rw [ht])
    · exact Or.inr (by rw [ht, Option.map_map]; rfl)

theorem start_starts (s : DeploymentStore) (id : Nat) : Starts s (s.start id) := by
  intro i
  rw [get?_start]
  split
  · exact Or.inr rfl
  · exact Or.inl rfl

theorem startNext_starts (s : DeploymentStore) (q : Nat × Deployment) :
    Starts s (s.startNext cfg q) := by
  unfold startNext
  split
  · exact start_starts s q.1
  · exact .refl s

theorem drain_starts (rows : List (Nat × Deployment)) (s : DeploymentStore) :
    Starts s (s.drain cfg rows) := by
  induction rows generalizing s with
  | nil => exact .refl s
  | cons q rows ih => exact (startNext_starts s q).trans (ih _)

/-- What is not in progress afterwards has not changed. -/
theorem Starts.get? (h : Starts s t) {i : Nat} {d : Deployment}
    (hget : t.deployments.get? i = some d) (hstatus : d.status ≠ .inProgress) :
    s.deployments.get? i = some d := by
  rcases h i with ht | ht
  · rw [← ht, hget]
  · rw [ht] at hget
    obtain ⟨d', -, rfl⟩ := Option.map_eq_some_iff.mp hget
    exact absurd rfl hstatus

/-- What is in progress stays so. -/
theorem Starts.inProgress (h : Starts s t) {i : Nat} {d : Deployment}
    (hget : s.deployments.get? i = some d) (hstatus : d.status = .inProgress) :
    t.deployments.get? i = some d := by
  rcases h i with ht | ht
  · rw [ht, hget]
  · rw [ht, hget, Option.map_some, ← hstatus]

/-- Each row of the list has been started, or could not be. -/
theorem drain_spec {q : Nat × Deployment} : ∀ {rows : List (Nat × Deployment)}
    {s : DeploymentStore}, q ∈ rows →
      (∀ d, (s.drain cfg rows).deployments.get? q.1 = some d → d.status = .inProgress) ∨
        (s.drain cfg rows).nextQueuable cfg q.2 = false := by
  intro rows
  induction rows with
  | nil => exact fun hq => absurd hq List.not_mem_nil
  | cons p rows ih =>
      intro s hq
      rcases List.mem_cons.mp hq with rfl | hq
      · have hrest : Starts (s.startNext cfg q) (s.drain cfg (q :: rows)) := drain_starts rows _
        cases hnext : s.nextQueuable cfg q.2 with
        | false =>
            refine Or.inr
              ((startNext_tightens s q).trans (drain_tightens rows _) |>.nextQueuable ?_)
            exact hnext
        | true =>
            left
            intro d hget
            by_contra hstatus
            have hstarted := hrest.get? hget hstatus
            rw [startNext, if_pos hnext, get?_start, if_pos rfl] at hstarted
            obtain ⟨d', -, rfl⟩ := Option.map_eq_some_iff.mp hstarted
            exact hstatus rfl
      · exact ih hq

/-! ## A server's queue -/

theorem mem_byCreation {rows : List (Nat × Deployment)} {q : Nat × Deployment} :
    q ∈ byCreation rows ↔ q ∈ rows :=
  List.mem_insertionSort _

theorem mem_queuedOn {serverId : Nat} {q : Nat × Deployment} :
    q ∈ s.queuedOn serverId ↔ s.deployments.get? q.1 = some q.2 ∧
      q.2.serverId = serverId ∧ q.2.status = .queued := by
  rw [queuedOn, Table.mem_select, Bool.and_eq_true, beq_iff_eq, beq_iff_eq]

theorem drainServer_some {serverId : Nat} {rows : List (Nat × Deployment)}
    (h : s.drainServer cfg serverId rows = some t) :
    rows.Perm (s.queuedOn serverId) ∧ t = s.drain cfg (byCreation rows) := by
  unfold drainServer at h
  split at h
  · next hperm => exact ⟨List.isPerm_iff.mp hperm, (Option.some.inj h).symm⟩
  · cases h

/-- After the loop over a server's queue nothing of it can be started. -/
theorem drainServer_drained {serverId : Nat} {rows : List (Nat × Deployment)}
    (h : s.drainServer cfg serverId rows = some t) {i : Nat} {d : Deployment}
    (hget : t.deployments.get? i = some d) (hstatus : d.status = .queued)
    (hserver : d.serverId = serverId) : t.nextQueuable cfg d = false := by
  obtain ⟨hperm, rfl⟩ := drainServer_some h
  have hbefore := (drain_starts _ s).get? hget (by rw [hstatus]; nofun)
  have hmem : (i, d) ∈ byCreation rows :=
    mem_byCreation.mpr (hperm.mem_iff.mpr (mem_queuedOn.mpr ⟨hbefore, hserver, hstatus⟩))
  have hspec : _ ∨ (s.drain cfg (byCreation rows)).nextQueuable cfg d = false := drain_spec hmem
  rcases hspec with hstarted | hblocked
  · have := hstarted d hget
    rw [hstatus] at this
    cases this
  · exact hblocked

end DeploymentStore

end OnePloy
