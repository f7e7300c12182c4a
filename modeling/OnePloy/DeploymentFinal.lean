import OnePloy.DeploymentCalls

/-!
# The end of a deployment

A finished, failed or cancelled deployment should stay what it is. Most updates
of the status do not ask what it has become since their call read it, so they
keep it only if the row is not final when they reach it (`openFor`). The
conditional update of `cancel_deployment` always keeps it.
-/

namespace OnePloy

open Conc

variable {cfg : DeployConfig} {s s' t : DeploymentStore}

/-- What is final in `s` has the same status in `s'`. -/
def DeploymentStore.KeepsFinal (s s' : DeploymentStore) : Prop :=
  ∀ i d, s.deployments.get? i = some d → d.status.isFinal = true →
    (s'.deployments.get? i).map (·.status) = some d.status

/-- The row is not final, or has that status already. -/
def DeploymentStore.openFor (s : DeploymentStore) (id : Nat) (status : DeploymentStatus) : Bool :=
  (s.deployments.get? id).all fun d => !d.status.isFinal || d.status == status

/-- The update that the call issues finds a row that is open for it. -/
def DeploymentCall.heedsFinal (s : DeploymentStore) : DeploymentCall → Bool
  | .starting q _ => s.openFor q.1 .inProgress
  | .handling id copy => copy == .inProgress || s.openFor id .inProgress
  | .transitioning id _ status => s.openFor id status
  | .cancelling id d => d.status == .cancelledByUser || s.openFor id .cancelledByUser
  | _ => true

namespace DeploymentStore

/-! ## Updates -/

theorem KeepsFinal.refl (s : DeploymentStore) : s.KeepsFinal s := by
  intro i d hget _
  rw [hget, Option.map_some]

theorem KeepsFinal.trans (h : s.KeepsFinal s') (h' : s'.KeepsFinal t) : s.KeepsFinal t := by
  intro i d hget hfinal
  obtain ⟨e, he, hstatus⟩ := Option.map_eq_some_iff.mp (h i d hget hfinal)
  rw [← hstatus] at hfinal ⊢
  exact h' i e he hfinal

/-- Rows that keep their status, and rows that are new. -/
theorem KeepsFinal.of_get? (h : ∀ i d, s.deployments.get? i = some d →
    (s'.deployments.get? i).map (·.status) = some d.status) : s.KeepsFinal s' :=
  fun i d hget _ => h i d hget

theorem enqueue_keepsFinal (s : DeploymentStore) (d : Deployment) :
    s.KeepsFinal (s.enqueue d) := by
  refine .of_get? fun i e hget => ?_
  rw [enqueue, Table.get?_insert_of_some d hget, Option.map_some]

/-- An update keeps what is final exactly when the row is open for it. -/
theorem write_keepsFinal_iff (s : DeploymentStore) (w : StatusWrite) :
    s.KeepsFinal (s.write w) ↔
      (s.deployments.get? w.id).all (fun d =>
        !w.applies d.status || !d.status.isFinal || d.status == w.status) = true := by
  have hafter : ∀ i d, s.deployments.get? i = some d →
      ((s.write w).deployments.get? i).map (·.status) =
        some (if i = w.id ∧ w.applies d.status = true then w.status else d.status) := by
    intro i d hget
    rw [get?_write, hget, Option.map_some, Option.map_some]
    split <;> rfl
  constructor
  · intro hkeeps
    rw [Option.all_eq_true]
    intro d hget
    rw [Bool.or_eq_true, Bool.or_eq_true, Bool.not_eq_true', Bool.not_eq_true', beq_iff_eq]
    by_cases happlies : w.applies d.status = true
    · by_cases hfinal : d.status.isFinal = true
      · have hsame := (hafter w.id d hget).symm.trans (hkeeps w.id d hget hfinal)
        rw [if_pos ⟨rfl, happlies⟩] at hsame
        exact Or.inr (Option.some.inj hsame).symm
      · exact Or.inl (Or.inr (by simpa using hfinal))
    · exact Or.inl (Or.inl (by simpa using happlies))
  · intro hopen i d hget hfinal
    rw [hafter i d hget]
    split
    · next hreached =>
        obtain ⟨rfl, happlies⟩ := hreached
        rw [Option.all_eq_true] at hopen
        have hd := hopen d hget
        rw [happlies, hfinal, Bool.not_true, Bool.false_or, Bool.false_or, beq_iff_eq] at hd
        rw [hd]
    · rfl

/-- The same for an update without a condition. -/
theorem write_keepsFinal_iff_openFor (s : DeploymentStore) (id : Nat) (status : DeploymentStatus) :
    s.KeepsFinal (s.write { id := id, status := status }) ↔ s.openFor id status = true := by
  rw [write_keepsFinal_iff]
  simp only [Bool.not_true, Bool.false_or, openFor]

theorem save_keepsFinal_iff (s : DeploymentStore) (c : DeploymentCall) :
    s.KeepsFinal (s.save c) ↔ c.heedsFinal s = true := by
  cases c with
  | starting q rest => exact write_keepsFinal_iff_openFor ..
  | transitioning id d status => exact write_keepsFinal_iff_openFor ..
  | handling id copy =>
      rw [save, DeploymentCall.write?, DeploymentCall.heedsFinal]
      by_cases hcopy : copy = .inProgress
      · rw [if_pos hcopy, hcopy]
        exact iff_of_true (.refl s) rfl
      · rw [if_neg hcopy, beq_eq_false_iff_ne.mpr hcopy, Bool.false_or]
        exact write_keepsFinal_iff_openFor ..
  | cancelling id d =>
      rw [save, DeploymentCall.write?, DeploymentCall.heedsFinal]
      by_cases hcopy : d.status = .cancelledByUser
      · rw [if_pos hcopy, hcopy]
        exact iff_of_true (.refl s) rfl
      · rw [if_neg hcopy, beq_eq_false_iff_ne.mpr hcopy, Bool.false_or]
        exact write_keepsFinal_iff_openFor ..
  | cancellingDeployment id d =>
      refine iff_of_true ((write_keepsFinal_iff ..).mpr ?_) rfl
      -- what the `WHERE` clause lets through is not final
      rw [Option.all_eq_true]
      intro e _
      cases e.status <;> rfl
  | _ => exact iff_of_true (.refl s) rfl

theorem env_keepsFinal {e : DeploymentEnv} (h : s.env e = some s') : s.KeepsFinal s' := by
  cases e with
  | ends id status =>
      obtain ⟨d, hget, h⟩ := Option.bind_eq_some_iff.mp h
      split at h
      · next hends =>
          obtain rfl := Option.some.inj h
          intro i e hi hfinal
          rw [get?_setStatus]
          split
          · next heq =>
              rw [heq, hget] at hi
              obtain rfl := Option.some.inj hi
              rw [hends.1] at hfinal
              cases hfinal
          · rw [hi, Option.map_some]
      · cases h
  | build id serverId =>
      obtain rfl := Option.some.inj h
      refine .of_get? fun i d hget => ?_
      rw [setBuildServer, Table.get?_modify, hget]
      split <;> rfl
  | tick seconds =>
      obtain rfl := Option.some.inj h
      exact .refl s
  | tenant applicationId active =>
      obtain rfl := Option.some.inj h
      exact .refl s

end DeploymentStore

/-! ## Runs -/

/-- No statement changes the status of a row that is final. -/
def heedsFinal (w : World DeploymentStore DeploymentCall) :
    Action DeploymentCall DeploymentReply DeploymentEnv → Bool
  | .run i (.next _) => (w.procs[i]?).all fun c => c.heedsFinal w.db
  | _ => true

theorem step_keepsFinal_iff {w w' : World DeploymentStore DeploymentCall}
    {a : Action DeploymentCall DeploymentReply DeploymentEnv}
    (hstep : (deploymentCalls cfg).step w a = some w') :
    w.db.KeepsFinal w'.db ↔ heedsFinal w a = true := by
  cases a with
  | spawn c =>
      obtain ⟨-, rfl⟩ := Machine.step_spawn hstep
      exact iff_of_true (.refl w.db) rfl
  | env e =>
      obtain ⟨d, he, -, rfl⟩ := Machine.step_env hstep
      exact iff_of_true (DeploymentStore.env_keepsFinal he) rfl
  | run i a =>
      obtain ⟨c, s', c', hc, hstmt, -, rfl⟩ := Machine.step_run hstep
      rcases DeploymentCall.stmt_effect hstmt with ⟨hother, rfl⟩ | ⟨req, rfl, rfl⟩ |
        ⟨⟨rows, rfl⟩, rfl⟩
      · refine iff_of_true (.refl w.db) ?_
        cases a with
        | next rows => exact absurd rfl (hother rows)
        | _ => rfl
      · refine iff_of_true (DeploymentStore.enqueue_keepsFinal _ _) ?_
        cases a with
        | next rows => rw [heedsFinal, hc]; rfl
        | _ => rfl
      · rw [heedsFinal, hc]
        exact DeploymentStore.save_keepsFinal_iff w.db c

/-- From any moment on, a final status stays what it is as long as every update
finds a row that is open for it, and the first one that does not changes one. -/
theorem final_iff_heeded {w w' w'' : World DeploymentStore DeploymentCall}
    {a : Action DeploymentCall DeploymentReply DeploymentEnv}
    (hrun : Reaches (deploymentCalls cfg).step (fun w a => heedsFinal w a = true) w w')
    (hstep : (deploymentCalls cfg).step w' a = some w'') :
    w.db.KeepsFinal w'.db ∧ (w'.db.KeepsFinal w''.db ↔ heedsFinal w' a = true) := by
  have hkeeps : w.db.KeepsFinal w'.db :=
    hrun.invariant (I := fun w' => w.db.KeepsFinal w'.db)
      (fun _ _ _ h hok hst => h.trans ((step_keepsFinal_iff hst).mpr hok)) (.refl w.db)
  exact ⟨hkeeps, step_keepsFinal_iff hstep⟩

/-- A deployment starts, and its job comes to the end. -/
def jobEnds : List (Action DeploymentCall DeploymentReply DeploymentEnv) :=
  .spawn (.queue (deployRequest 2 "a")) :: .replicate 7 (.run 0 (.next [])) ++
    .spawn (.handle 1) :: .replicate 2 (.run 1 (.next [])) ++
    [.run 1 (.transition .finished), .run 1 (.next [])]

/-- A cancellation comes too late. -/
theorem final_finished :
    ∃ w w' w'' : World DeploymentStore DeploymentCall,
      (w.db.deployments.get? 1).map (·.status) = some .finished ∧
      (deploymentCalls twoServers).step w' (.run 2 (.next [])) = some w'' ∧
      w.db.KeepsFinal w'.db ∧ w'.db.KeepsFinal w''.db := by
  obtain ⟨w, -, hw, w', hrun, hw'⟩ := exists_reaches_twice (deploymentCalls twoServers).step
    (fun w a => heedsFinal w a = true) (Machine.idle (emptyQueue 0))
    (jobEnds ++ [.run 1 (.next [])])
    (fun w => (w.db.deployments.get? 1).map (·.status) == some .finished)
    [.spawn (.cancelDeployment 1)]
    (fun w => heedsFinal w (.run 2 (.next [])) &&
      ((deploymentCalls twoServers).step w (.run 2 (.next []))).isSome) (by decide +kernel)
  rw [Bool.and_eq_true] at hw'
  obtain ⟨w'', hstep⟩ := Option.isSome_iff_exists.mp hw'.2
  have hkeeps := final_iff_heeded hrun hstep
  exact ⟨w, w', w'', beq_iff_eq.mp hw, hstep, hkeeps.1, hkeeps.2.mpr hw'.1⟩

/-- The calls and job runs as they are, statement by statement. -/
def jobRuns : Action DeploymentCall DeploymentReply DeploymentEnv → Bool
  | .env (.ends ..) => false
  | _ => true

/-- The job has asked whether its deployment is final, `cancel_deployment`
cancels it, and the job goes on to update it to finished. -/
theorem cancelled_then_finished :
    ¬ ∀ (cfg : DeployConfig) (clock : Nat) (w w' : World DeploymentStore DeploymentCall),
      Reaches (deploymentCalls cfg).step (fun _ a => jobRuns a = true)
        (Machine.idle (emptyQueue clock)) w →
      Reaches (deploymentCalls cfg).step (fun _ a => jobRuns a = true) w w' →
      w.db.KeepsFinal w'.db := by
  intro h
  obtain ⟨w, hrun, hw, w', hrun', hw'⟩ := exists_reaches_twice (deploymentCalls twoServers).step
    (fun _ a => jobRuns a = true) (Machine.idle (emptyQueue 0))
    (jobEnds ++ .spawn (.cancelDeployment 1) :: .replicate 2 (.run 2 (.next [])))
    (fun w => (w.db.deployments.get? 1).map (·.status) == some .cancelledByUser)
    [.run 1 (.next [])]
    (fun w => (w.db.deployments.get? 1).map (·.status) == some .finished) (by decide +kernel)
  rw [beq_iff_eq] at hw hw'
  obtain ⟨d, hget, hstatus⟩ := Option.map_eq_some_iff.mp hw
  have hkept := h twoServers 0 w w' hrun hrun' 1 d hget (by rw [hstatus]; rfl)
  rw [hw', hstatus] at hkept
  cases hkept

end OnePloy
