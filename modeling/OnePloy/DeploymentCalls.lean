import OnePloy.DeploymentTurns
import OnePloy.Lib.Interleave

/-!
# The deployment queue, statement by statement

The calls that read and write the status of deployments as sequences of
statements, each a query or an update of its own: the three functions that
start what is queued, runs of `ApplicationDeploymentJob`, and both ways to
cancel. Between two statements anything may happen.

An update is issued for what a call has read before, if at all: Eloquent writes
nothing that the model instance already says. Which rows it reaches depends on
the `WHERE` clause only (`DeploymentCall.write?`). Run alone, the calls that
start deployments do what `DeploymentQueue` says (`alone_queue`,
`alone_queueNext`).
-/

namespace OnePloy

open Conc

/-- An `UPDATE` of one row's status, where the status it finds allows it. -/
structure StatusWrite where
  id : Nat
  status : DeploymentStatus
  applies : DeploymentStatus → Bool := fun _ => true

/-- The rows that `get()` returns, or what happens to a job. -/
inductive DeploymentReply
  | next (rows : List (Nat × Deployment))
  | crash
  /-- `checkForCancellation`. -/
  | check
  /-- `completeDeployment` or `failDeployment`. -/
  | transition (status : DeploymentStatus)

inductive DeploymentCall
  | queue (req : DeployRequest)
  | lookup (req : DeployRequest)
  | insert (req : DeployRequest)
  | queueNext (applicationId : Nat)
  | nextAfterCancel (server : Option Nat)
  | draining (rows : List (Nat × Deployment))
  | checkingSlot (q : Nat × Deployment) (rest : List (Nat × Deployment))
  | starting (q : Nat × Deployment) (rest : List (Nat × Deployment))
  | handle (id : Nat)
  | handling (id : Nat) (copy : DeploymentStatus)
  | running (id : Nat)
  | transition (id : Nat) (status : DeploymentStatus)
  | transitioning (id : Nat) (d : Deployment) (status : DeploymentStatus)
  | cancel (id : Nat)
  | cancelling (id : Nat) (d : Deployment)
  | cancelDeployment (id : Nat)
  | cancellingDeployment (id : Nat) (d : Deployment)
  | done

/-- What the call is about to write. -/
def DeploymentCall.write? : DeploymentCall → Option StatusWrite
  | .starting q _ => some { id := q.1, status := .inProgress }
  | .handling id copy =>
      if copy = .inProgress then none else some { id := id, status := .inProgress }
  | .transitioning id _ status => some { id := id, status := status }
  | .cancelling id d =>
      if d.status = .cancelledByUser then none else some { id := id, status := .cancelledByUser }
  | .cancellingDeployment id _ =>
      some {
        id := id
        status := .cancelledByUser
        applies := fun found => found == .queued || found == .inProgress }
  | _ => none

def DeploymentStore.write (s : DeploymentStore) (w : StatusWrite) : DeploymentStore :=
  { s with
    deployments := s.deployments.updateWhere (fun i d => i == w.id && w.applies d.status)
      ({ · with status := w.status })
    started := if w.status = .inProgress then s.started ++ [w.id] else s.started }

/-- The store after the update that the call issues, if any. -/
def DeploymentStore.save (s : DeploymentStore) (c : DeploymentCall) : DeploymentStore :=
  match c.write? with
  | none => s
  | some w => s.write w

/-- The loop over what the query for a server's queue returns. -/
def DeploymentStore.goThrough (s : DeploymentStore) (serverId : Nat)
    (rows : List (Nat × Deployment)) : Option (DeploymentStore × DeploymentCall) :=
  if rows.isPerm (s.queuedOn serverId) then
    some (s, .draining (DeploymentStore.byCreation rows))
  else none

/-- One statement of a call. -/
def DeploymentCall.stmt (cfg : DeployConfig) (s : DeploymentStore) :
    DeploymentCall → DeploymentReply → Option (DeploymentStore × DeploymentCall)
  | .done, _ => none
  | _, .crash => some (s, .done)
  | .queue req, .next _ =>
      some (s, if !s.isTenantActive req.applicationId || s.isQueueFull cfg (req.serverId cfg) then
          .done else .lookup req)
  | .lookup req, .next _ => some (s, if s.isSkipped cfg req then .done else .insert req)
  | .insert req, .next _ =>
      let q := (s.deployments.nextId, req.deployment cfg s.clock)
      some (s.enqueue q.2, if req.noQuestionsAsked then .starting q [] else .draining [q])
  | .queueNext applicationId, .next rows =>
      s.goThrough (DeploymentStore.mainServer cfg applicationId) rows
  | .nextAfterCancel none, .next _ => some (s, .done)
  | .nextAfterCancel (some serverId), .next rows => s.goThrough serverId rows
  | .draining [], .next _ => some (s, .done)
  | .draining (q :: rest), .next _ =>
      some (s, if s.isTenantActive q.2.applicationId && !s.isBusy q.2.lane then
        .checkingSlot q rest else .draining rest)
  | .checkingSlot q rest, .next _ =>
      some (s, if s.hasSlot cfg q.2.serverId then .starting q rest else .draining rest)
  | .starting q rest, .next _ => some (s.save (.starting q rest), .draining rest)
  | .handle id, .next _ =>
      some (s, match s.deployments.get? id with
        | none => .done
        | some d => if d.status = .cancelledByUser then .done else .handling id d.status)
  | .handling id copy, .next _ => some (s.save (.handling id copy), .running id)
  | .running id, .check =>
      some (s, match s.deployments.get? id with
        | none => .done
        | some d => if d.status = .cancelledByUser then .transition id .failed else .running id)
  | .running id, .transition status =>
      if status = .finished ∨ status = .failed then some (s, .transition id status) else none
  | .transition id status, .next _ =>
      some (s, match s.deployments.get? id with
        | none => .done
        | some d => if d.status.isFinal then .running id else .transitioning id d status)
  | .transitioning id d status, .next _ =>
      some (s.save (.transitioning id d status), .queueNext d.applicationId)
  | .cancel id, .next _ =>
      some (s, match s.deployments.get? id with
        | none => .done
        | some d => .cancelling id d)
  | .cancelling id d, .next _ =>
      some (s.save (.cancelling id d), .nextAfterCancel (some (d.cancelServer cfg)))
  | .cancelDeployment id, .next _ =>
      some (s, match s.deployments.get? id with
        | none => .done
        | some d => if d.status.isFinal then .done else .cancellingDeployment id d)
  | .cancellingDeployment id d, .next _ =>
      some (s.save (.cancellingDeployment id d),
        if (s.deployments.get? id).any fun found => !found.status.isFinal then
          .nextAfterCancel (some d.serverId)
        else .done)
  | _, _ => none

/-- The calls that come from outside; `failed` is the hook of a job that has
been given up. -/
def DeploymentCall.start : DeploymentCall → Bool
  | .queue _ => true
  | .queueNext _ => true
  | .nextAfterCancel _ => true
  | .handle _ => true
  | .transition _ .failed => true
  | .cancel _ => true
  | .cancelDeployment _ => true
  | _ => false

inductive DeploymentEnv
  /-- A deployment in progress ends. -/
  | ends (id : Nat) (status : DeploymentStatus)
  | build (id serverId : Nat)
  | tick (seconds : Nat)
  | tenant (applicationId : Nat) (active : Bool)

def DeploymentStore.env (s : DeploymentStore) : DeploymentEnv → Option DeploymentStore
  | .ends id status =>
      (s.deployments.get? id).bind fun d =>
        if d.status = .inProgress ∧ status.isFinal then some (s.setStatus id status) else none
  | .build id serverId => some (s.setBuildServer id serverId)
  | .tick seconds => some { s with clock := s.clock + seconds }
  | .tenant applicationId active =>
      some { s with isTenantActive := fun a =>
        if a = applicationId then active else s.isTenantActive a }

def deploymentCalls (cfg : DeployConfig) :
    Machine DeploymentStore DeploymentCall DeploymentReply DeploymentEnv Empty where
  start := DeploymentCall.start
  stmt := DeploymentCall.stmt cfg
  needs _ _ _ := []
  held _ := []
  env := DeploymentStore.env
  envNeeds _ _ := []
  held_start _ := rfl
  held_stmt _ _ hr := by cases hr

variable {cfg : DeployConfig} {s s' : DeploymentStore}

/-! ## Updates -/

theorem DeploymentStore.get?_write (s : DeploymentStore) (w : StatusWrite) (i : Nat) :
    (s.write w).deployments.get? i = (s.deployments.get? i).map fun d =>
      if i = w.id ∧ w.applies d.status then { d with status := w.status } else d := by
  rw [DeploymentStore.write, Table.get?_updateWhere]
  simp only [Bool.and_eq_true, beq_iff_eq]

/-- A start is an update without a condition. -/
theorem DeploymentStore.save_starting (s : DeploymentStore) (q : Nat × Deployment)
    (rest : List (Nat × Deployment)) : s.save (.starting q rest) = s.start q.1 := by
  simp [save, DeploymentCall.write?, write, start, setStatus, Table.modify]

theorem DeploymentStore.goThrough_some {serverId : Nat} {rows : List (Nat × Deployment)}
    {c : DeploymentCall} (h : s.goThrough serverId rows = some (s', c)) :
    rows.Perm (s.queuedOn serverId) ∧ s' = s ∧
      c = .draining (DeploymentStore.byCreation rows) := by
  unfold goThrough at h
  split at h
  · next hperm =>
      obtain ⟨rfl, rfl⟩ := Prod.mk.inj (Option.some.inj h)
      exact ⟨List.isPerm_iff.mp hperm, rfl, rfl⟩
  · cases h

/-- What a statement does to the store: it inserts a row, or the update that
the call issues takes place, if nothing happens to the job instead. -/
theorem DeploymentCall.stmt_effect {c c' : DeploymentCall} {a : DeploymentReply}
    (h : c.stmt cfg s a = some (s', c')) :
    ((∀ rows, a ≠ .next rows) ∧ s' = s) ∨
      (∃ req, c = .insert req ∧ s' = s.enqueue (req.deployment cfg s.clock)) ∨
      (∃ rows, a = .next rows) ∧ s' = s.save c := by
  unfold DeploymentCall.stmt at h
  split at h <;> try cases h
  all_goals first
    | exact Or.inr (Or.inr ⟨⟨_, rfl⟩, rfl⟩)
    | exact Or.inr (Or.inr ⟨⟨_, rfl⟩, (DeploymentStore.goThrough_some h).2.1⟩)
    | exact Or.inr (Or.inl ⟨_, rfl, rfl⟩)
    | exact Or.inl ⟨nofun, rfl⟩
    | -- the job asks for a transition
      split at h
      · obtain ⟨rfl, -⟩ := Prod.mk.inj (Option.some.inj h)
        exact Or.inl ⟨nofun, rfl⟩
      · cases h

/-! ## Run alone -/

/-- The loop, from its beginning to its end. -/
theorem alone_draining (rows : List (Nat × Deployment)) (queue : List (Nat × Deployment))
    (s : DeploymentStore) :
    (deploymentCalls cfg).Alone (.next rows) (s, .draining queue) (s.drain cfg queue, .done) := by
  induction queue generalizing s with
  | nil => exact .single rfl
  | cons q rest ih =>
      have hnext : s.drain cfg (q :: rest) = (s.startNext cfg q).drain cfg rest := rfl
      rw [hnext]
      by_cases hlane : (s.isTenantActive q.2.applicationId && !s.isBusy q.2.lane) = true
      · refine .head (b := (s, .checkingSlot q rest)) ?_ ?_
        · simp only [deploymentCalls, DeploymentCall.stmt, if_pos hlane]
        · cases hslot : s.hasSlot cfg q.2.serverId with
          | true =>
              have hstart : s.startNext cfg q = s.start q.1 := by
                rw [DeploymentStore.startNext, DeploymentStore.nextQueuable, hlane, hslot]
                rfl
              rw [hstart]
              refine .head (b := (s, .starting q rest)) ?_ (.head ?_ (ih (s.start q.1)))
              · simp only [deploymentCalls, DeploymentCall.stmt, hslot, if_true]
              · simp only [deploymentCalls, DeploymentCall.stmt, DeploymentStore.save_starting]
          | false =>
              have hskip : s.startNext cfg q = s := by
                rw [DeploymentStore.startNext, DeploymentStore.nextQueuable, hlane, hslot]
                rfl
              rw [hskip]
              refine .head ?_ (ih s)
              simp only [deploymentCalls, DeploymentCall.stmt, hslot, Bool.false_eq_true, if_false]
      · have hskip : s.startNext cfg q = s := by
          rw [DeploymentStore.startNext, DeploymentStore.nextQueuable, if_neg]
          rw [Bool.and_eq_true]
          exact fun h => hlane h.1
        rw [hskip]
        refine .head ?_ (ih s)
        simp only [deploymentCalls, DeploymentCall.stmt, if_neg hlane]

/-- The query for a server's queue, and the loop over it. -/
theorem alone_goThrough {serverId : Nat} {rows : List (Nat × Deployment)} {c : DeploymentCall}
    (hc : c.stmt cfg s (.next rows) = s.goThrough serverId rows)
    (h : rows.Perm (s.queuedOn serverId)) :
    (deploymentCalls cfg).Alone (.next rows) (s, c)
      (s.drain cfg (DeploymentStore.byCreation rows), .done) := by
  have hquery : c.stmt cfg s (.next rows) =
      some (s, .draining (DeploymentStore.byCreation rows)) := by
    rw [hc, DeploymentStore.goThrough, if_pos (List.isPerm_iff.mpr h)]
  exact .head hquery (alone_draining rows _ s)

theorem alone_queueNext {applicationId : Nat} {rows : List (Nat × Deployment)}
    (h : rows.Perm (s.queuedOn (DeploymentStore.mainServer cfg applicationId))) :
    (deploymentCalls cfg).Alone (.next rows) (s, .queueNext applicationId)
      (s.queueNextDeployment cfg rows, .done) :=
  alone_goThrough rfl h

theorem alone_nextAfterCancel {serverId : Nat} {rows : List (Nat × Deployment)}
    (h : rows.Perm (s.queuedOn serverId)) :
    (deploymentCalls cfg).Alone (.next rows) (s, .nextAfterCancel (some serverId))
      (s.nextAfterCancel cfg rows, .done) :=
  alone_goThrough rfl h

theorem alone_insert (req : DeployRequest) (s : DeploymentStore) :
    let q := (s.deployments.nextId, req.deployment cfg s.clock)
    (deploymentCalls cfg).Alone (.next []) (s, .insert req)
      (if req.noQuestionsAsked then (s.enqueue q.2).start q.1
        else (s.enqueue q.2).startNext cfg q, .done) := by
  intro q
  by_cases hforced : req.noQuestionsAsked = true
  · rw [if_pos hforced]
    refine .head (b := (s.enqueue q.2, .starting q [])) ?_ ?_
    · simp only [deploymentCalls, DeploymentCall.stmt, if_pos hforced, q]
    · refine .head (b := ((s.enqueue q.2).start q.1, .draining [])) ?_ (.single rfl)
      simp only [deploymentCalls, DeploymentCall.stmt, DeploymentStore.save_starting]
  · rw [if_neg hforced]
    refine .head ?_ (alone_draining [] [q] (s.enqueue q.2))
    simp only [deploymentCalls, DeploymentCall.stmt, if_neg hforced, q]

theorem alone_queue (req : DeployRequest) (s : DeploymentStore) :
    (deploymentCalls cfg).Alone (.next []) (s, .queue req)
      ((s.queueApplicationDeployment cfg req).1, .done) := by
  have hgate : (deploymentCalls cfg).stmt s (.queue req) (.next []) =
      some (s, if !s.isTenantActive req.applicationId || s.isQueueFull cfg (req.serverId cfg) then
        .done else .lookup req) := rfl
  have hlookup : (deploymentCalls cfg).stmt s (.lookup req) (.next []) =
      some (s, if s.isSkipped cfg req then .done else .insert req) := rfl
  rw [DeploymentStore.queueApplicationDeployment]
  split
  · next htenant =>
      rw [htenant, Bool.true_or, if_pos rfl] at hgate
      exact .single hgate
  · next htenant =>
      rw [Bool.not_eq_true] at htenant
      rw [htenant, Bool.false_or] at hgate
      split
      · next hfull =>
          rw [if_pos hfull] at hgate
          exact .single hgate
      · next hfull =>
          rw [if_neg hfull] at hgate
          refine .head hgate ?_
          split
          · next hskipped =>
              rw [if_pos hskipped] at hlookup
              exact .single hlookup
          · next hskipped =>
              rw [if_neg hskipped] at hlookup
              exact .head hlookup (alone_insert req s)

end OnePloy
