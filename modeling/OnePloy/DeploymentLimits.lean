import OnePloy.DeploymentCalls

/-!
# The limits on deployments in progress

`next_queuable` asks whether an application's pull request is already being
deployed and whether its server has a slot, and its caller updates the row
later. The limits hold as long as both answers are still the same when the row
is updated (`DeploymentStore.mayStart`), and the first update for which they are
not breaks one of them: nothing between the reads and the update locks anything.
-/

namespace OnePloy

open Conc

variable {cfg : DeployConfig} {s s' : DeploymentStore}

namespace DeploymentStore

/-! ## What is in progress -/

/-- How many deployments with `p` are in progress. -/
def inProgress (s : DeploymentStore) (p : Deployment → Bool) : Nat :=
  s.deployments.countWhere fun _ d => p d && d.status == .inProgress

def inProgressIn (s : DeploymentStore) (lane : Nat × Nat) : Nat :=
  s.inProgress (·.lane == lane)

structure WithinLimits (cfg : DeployConfig) (s : DeploymentStore) : Prop where
  builds : ∀ serverId, s.activeDeployments serverId ≤ cfg.concurrentBuilds serverId
  once : ∀ lane, s.inProgressIn lane ≤ 1

/-- The row is in progress already, or the reads of `next_queuable` would let
it start now. -/
def mayStart (cfg : DeployConfig) (s : DeploymentStore) (id : Nat) : Bool :=
  (s.deployments.get? id).all fun d =>
    d.status == .inProgress || !s.isBusy d.lane && s.hasSlot cfg d.serverId

theorem isBusy_eq_false_iff {lane : Nat × Nat} :
    s.isBusy lane = false ↔ s.inProgressIn lane = 0 := by
  rw [← Bool.not_eq_true, isBusy_iff, inProgressIn, inProgress, Table.countWhere,
    List.length_eq_zero_iff, List.eq_nil_iff_forall_not_mem]
  constructor
  · rintro hfree ⟨i, d⟩ hmem
    rw [Table.mem_select, Bool.and_eq_true, beq_iff_eq, beq_iff_eq] at hmem
    exact hfree ⟨i, d, hmem.1, hmem.2.1, hmem.2.2⟩
  · rintro hnone ⟨i, d, hget, hlane, hstatus⟩
    exact hnone (i, d) (Table.mem_select.mpr ⟨hget, by simp [hlane, hstatus]⟩)

theorem hasSlot_iff {serverId : Nat} :
    s.hasSlot cfg serverId = true ↔
      s.activeDeployments serverId < cfg.concurrentBuilds serverId := by
  rw [hasSlot, decide_eq_true_eq]

/-! ## How it moves -/

/-- `p` asks only what no update changes. -/
def Fixed (p : Deployment → Bool) : Prop :=
  ∀ d e : Deployment, d.serverId = e.serverId → d.lane = e.lane → p d = p e

theorem fixed_serverId (serverId : Nat) : Fixed (·.serverId == serverId) :=
  fun _ _ hserver _ => by simp only [hserver]

theorem fixed_lane (lane : Nat × Nat) : Fixed (·.lane == lane) :=
  fun _ _ _ hlane => by simp only [hlane]

/-- A start adds the row, unless it was in progress. -/
theorem inProgress_start {p : Deployment → Bool} {id : Nat} {d : Deployment} (hp : Fixed p)
    (hget : s.deployments.get? id = some d) :
    (s.start id).inProgress p + (if p d ∧ d.status = .inProgress then 1 else 0) =
      s.inProgress p + if p d then 1 else 0 := by
  have hsum : (s.deployments.modify id ({ · with status := .inProgress })).sumWhere
      (fun _ d => p d && d.status == .inProgress) (fun _ => 1) + _ = _ + _ :=
    Table.sumWhere_modify _ hget
  have hsame : p { d with status := .inProgress } = p d := hp _ d rfl rfl
  simp only [Bool.and_eq_true, beq_iff_eq, ← Table.countWhere_eq, hsame, and_true] at hsum
  exact hsum

/-- An update that sets nothing to in progress adds nothing. -/
theorem inProgress_updateWhere_le {p : Deployment → Bool} (u : Nat → Deployment → Bool)
    (f : Deployment → Deployment)
    (hs : s'.deployments = s.deployments.updateWhere u f)
    (hf : ∀ i d, s.deployments.get? i = some d → u i d = true → p (f d) = true →
      (f d).status = .inProgress → p d = true ∧ d.status = .inProgress) :
    s'.inProgress p ≤ s.inProgress p := by
  rw [inProgress, inProgress, hs, Table.countWhere_eq, Table.countWhere_eq]
  refine Table.sumWhere_updateWhere_le (M := Nat) fun i d hget hu => ?_
  by_cases hafter : p (f d) = true ∧ (f d).status = .inProgress
  · have hbefore := hf i d hget hu hafter.1 hafter.2
    simp [hafter, hbefore]
  · rw [if_neg (by simpa using hafter)]
    exact Nat.zero_le _

theorem inProgress_write_le {p : Deployment → Bool} {w : StatusWrite}
    (hw : w.status ≠ .inProgress) : (s.write w).inProgress p ≤ s.inProgress p :=
  inProgress_updateWhere_le (fun i d => i == w.id && w.applies d.status)
    ({ · with status := w.status }) rfl fun _ _ _ _ _ hstatus => absurd hstatus hw

theorem inProgress_enqueue {d : Deployment} (hd : d.status = .queued)
    (p : Deployment → Bool) : (s.enqueue d).inProgress p = s.inProgress p := by
  rw [inProgress, enqueue, Table.countWhere_insert, if_neg (by simp [hd])]
  rfl

theorem WithinLimits.of_le (h : s.WithinLimits cfg)
    (hle : ∀ p, Fixed p → s'.inProgress p ≤ s.inProgress p) : s'.WithinLimits cfg where
  builds serverId := (hle _ (fixed_serverId serverId)).trans (h.builds serverId)
  once lane := (hle _ (fixed_lane lane)).trans (h.once lane)

/-- A start keeps the limits exactly when `next_queuable` would still let it
happen. -/
theorem start_withinLimits_iff (h : s.WithinLimits cfg) (id : Nat) :
    (s.start id).WithinLimits cfg ↔ s.mayStart cfg id = true := by
  cases hget : s.deployments.get? id with
  | none =>
      refine iff_of_true (h.of_le fun p _ => ?_) (by rw [mayStart, hget]; rfl)
      refine inProgress_updateWhere_le (fun i _ => i == id) ({ · with status := .inProgress }) rfl
        fun i d hd hi => ?_
      rw [beq_iff_eq.mp hi, hget] at hd
      cases hd
  | some d =>
      have hmay : s.mayStart cfg id = true ↔ d.status = .inProgress ∨
          s.inProgressIn d.lane = 0 ∧
            s.activeDeployments d.serverId < cfg.concurrentBuilds d.serverId := by
        rw [mayStart, hget, Option.all_some, Bool.or_eq_true, beq_iff_eq, Bool.and_eq_true,
          Bool.not_eq_true', isBusy_eq_false_iff, hasSlot_iff]
      rw [hmay]
      by_cases hstatus : d.status = .inProgress
      · refine iff_of_true (h.of_le fun p hp => ?_) (Or.inl hstatus)
        have hmoved := inProgress_start hp hget
        simp only [hstatus, and_true] at hmoved
        omega
      · have hadds : ∀ p, Fixed p →
            (s.start id).inProgress p = s.inProgress p + if p d then 1 else 0 := by
          intro p hp
          have hmoved := inProgress_start hp hget
          simpa only [hstatus, and_false, if_false, Nat.add_zero] using hmoved
        have hbuilds : ∀ serverId, (s.start id).activeDeployments serverId =
            s.activeDeployments serverId + if d.serverId == serverId then 1 else 0 :=
          fun serverId => hadds _ (fixed_serverId serverId)
        have hlanes : ∀ lane, (s.start id).inProgressIn lane =
            s.inProgressIn lane + if d.lane == lane then 1 else 0 :=
          fun lane => hadds _ (fixed_lane lane)
        constructor
        · intro hafter
          have hone := hafter.once d.lane
          have hslot := hafter.builds d.serverId
          rw [hlanes, beq_self_eq_true, if_pos rfl] at hone
          rw [hbuilds, beq_self_eq_true, if_pos rfl] at hslot
          exact Or.inr ⟨by omega, by omega⟩
        · intro hfree
          obtain ⟨hlane, hslot⟩ := hfree.resolve_left hstatus
          constructor
          · intro serverId
            rw [hbuilds]
            split
            · next hserver =>
                rw [← beq_iff_eq.mp hserver]
                exact hslot
            · exact h.builds serverId
          · intro lane
            rw [hlanes]
            split
            · next hsame => rw [← beq_iff_eq.mp hsame, hlane]
            · exact h.once lane

end DeploymentStore

/-! ## Statements -/

/-- A call that is about to set a row to in progress may do so. -/
def DeploymentCall.heedsLimits (cfg : DeployConfig) (s : DeploymentStore) (c : DeploymentCall) :
    Bool :=
  c.write?.all fun w => w.status != .inProgress || s.mayStart cfg w.id

/-- Whoever updates a row to in progress does so whatever it finds. -/
theorem DeploymentCall.applies_inProgress {c : DeploymentCall} {w : StatusWrite}
    (h : c.write? = some w) (hw : w.status = .inProgress) : w.applies = fun _ => true := by
  cases c with
  | cancellingDeployment id d =>
      obtain rfl := Option.some.inj h
      cases hw
  | handling id copy =>
      simp only [write?] at h
      split at h
      · cases h
      · obtain rfl := Option.some.inj h
        rfl
  | cancelling id d =>
      simp only [write?] at h
      split at h
      · cases h
      · obtain rfl := Option.some.inj h
        rfl
  | starting q rest =>
      obtain rfl := Option.some.inj h
      rfl
  | transitioning id d status =>
      obtain rfl := Option.some.inj h
      rfl
  | _ => cases h

theorem DeploymentStore.write_eq_start {w : StatusWrite} (hw : w.status = .inProgress)
    (happlies : w.applies = fun _ => true) : s.write w = s.start w.id := by
  simp [write, start, setStatus, Table.modify, hw, happlies]

theorem DeploymentStore.save_withinLimits_iff (h : s.WithinLimits cfg) (c : DeploymentCall) :
    (s.save c).WithinLimits cfg ↔ c.heedsLimits cfg s = true := by
  unfold save DeploymentCall.heedsLimits
  cases hw : c.write? with
  | none => exact iff_of_true h rfl
  | some w =>
      simp only
      rw [Option.all_some, Bool.or_eq_true, bne_iff_ne]
      by_cases hstatus : w.status = .inProgress
      · rw [write_eq_start hstatus (DeploymentCall.applies_inProgress hw hstatus),
          start_withinLimits_iff h]
        simp [hstatus]
      · exact iff_of_true (h.of_le fun _ _ => inProgress_write_le hstatus) (Or.inl hstatus)

theorem DeploymentStore.env_withinLimits {e : DeploymentEnv} (h : s.WithinLimits cfg)
    (he : s.env e = some s') : s'.WithinLimits cfg := by
  cases e with
  | ends id status =>
      obtain ⟨d, -, he⟩ := Option.bind_eq_some_iff.mp he
      split at he
      · next hends =>
          obtain rfl := Option.some.inj he
          refine h.of_le fun p _ => inProgress_updateWhere_le (fun i _ => i == id)
            ({ · with status := status }) rfl fun _ _ _ _ _ hstatus => ?_
          have hnever : status.isFinal = false := by
            rw [show status = .inProgress from hstatus]
            rfl
          rw [hends.2] at hnever
          cases hnever
      · cases he
  | build id serverId =>
      obtain rfl := Option.some.inj he
      refine h.of_le fun p hp => inProgress_updateWhere_le (fun i _ => i == id)
        ({ · with buildServerId := some serverId }) rfl fun i d _ _ hafter hstatus => ?_
      have hsame : p { d with buildServerId := some serverId } = p d := hp _ d rfl rfl
      exact ⟨hsame.symm.trans hafter, hstatus⟩
  | tick seconds =>
      obtain rfl := Option.some.inj he
      exact ⟨h.builds, h.once⟩
  | tenant applicationId active =>
      obtain rfl := Option.some.inj he
      exact ⟨h.builds, h.once⟩

/-! ## Runs -/

/-- No statement sets a row to in progress against the limits. -/
def heedsLimits (cfg : DeployConfig) (w : World DeploymentStore DeploymentCall) :
    Action DeploymentCall DeploymentReply DeploymentEnv → Bool
  | .run i (.next _) => (w.procs[i]?).all fun c => c.heedsLimits cfg w.db
  | _ => true

theorem step_withinLimits_iff {w w' : World DeploymentStore DeploymentCall}
    {a : Action DeploymentCall DeploymentReply DeploymentEnv} (h : w.db.WithinLimits cfg)
    (hstep : (deploymentCalls cfg).step w a = some w') :
    w'.db.WithinLimits cfg ↔ heedsLimits cfg w a = true := by
  cases a with
  | spawn c =>
      obtain ⟨-, rfl⟩ := Machine.step_spawn hstep
      exact iff_of_true h rfl
  | env e =>
      obtain ⟨d, he, -, rfl⟩ := Machine.step_env hstep
      exact iff_of_true (DeploymentStore.env_withinLimits h he) rfl
  | run i a =>
      obtain ⟨c, s', c', hc, hstmt, -, rfl⟩ := Machine.step_run hstep
      rcases DeploymentCall.stmt_effect hstmt with ⟨hother, rfl⟩ | ⟨req, rfl, rfl⟩ |
        ⟨⟨rows, rfl⟩, rfl⟩
      · refine iff_of_true h ?_
        cases a with
        | next rows => exact absurd rfl (hother rows)
        | _ => rfl
      · refine iff_of_true (h.of_le fun p _ => (DeploymentStore.inProgress_enqueue rfl p).le) ?_
        cases a with
        | next rows => rw [heedsLimits, hc]; rfl
        | _ => rfl
      · rw [heedsLimits, hc]
        exact DeploymentStore.save_withinLimits_iff h c

/-- The limits hold in every run without a start against them, and the first
such start breaks one of them. -/
theorem withinLimits_iff_heeded {w w' : World DeploymentStore DeploymentCall}
    {a : Action DeploymentCall DeploymentReply DeploymentEnv} (hs : s.WithinLimits cfg)
    (hrun : Reaches (deploymentCalls cfg).step (fun w a => heedsLimits cfg w a = true)
      (Machine.idle s) w)
    (hstep : (deploymentCalls cfg).step w a = some w') :
    w.db.WithinLimits cfg ∧ (w'.db.WithinLimits cfg ↔ heedsLimits cfg w a = true) := by
  have hw : w.db.WithinLimits cfg :=
    hrun.invariant (I := fun w => w.db.WithinLimits cfg)
      (fun _ _ _ h hok hst => (step_withinLimits_iff h hst).mpr hok) hs
  exact ⟨hw, step_withinLimits_iff hw hstep⟩

/-- The calls that ask `next_queuable` before they start a deployment. -/
def DeploymentCall.asks : DeploymentCall → Bool
  | .queue req => !req.noQuestionsAsked
  | .queueNext _ => true
  | .nextAfterCancel _ => true
  | _ => false

def asking : Action DeploymentCall DeploymentReply DeploymentEnv → Bool
  | .spawn c => c.asks
  | _ => true

/-- One call up to the update that starts its deployment. -/
def askedOnce : List (Action DeploymentCall DeploymentReply DeploymentEnv) :=
  .spawn (.queue (deployRequest 2 "a")) :: .replicate 5 (.run 0 (.next []))

theorem withinLimits_askedOnce :
    ∃ w w', (deploymentCalls twoServers).step w (.run 0 (.next [])) = some w' ∧
      w'.db.started = [1] ∧ w'.db.WithinLimits twoServers := by
  obtain ⟨w, hrun, hw⟩ := exists_reaches_of_execIf (deploymentCalls twoServers).step
    (fun w a => heedsLimits twoServers w a = true) (Machine.idle (emptyQueue 0)) askedOnce
    (fun w => heedsLimits twoServers w (.run 0 (.next [])) &&
      ((deploymentCalls twoServers).step w (.run 0 (.next []))).any fun w' => w'.db.started == [1])
    (by decide +kernel)
  rw [Bool.and_eq_true] at hw
  obtain ⟨w', hstep, hstarted⟩ := (Option.any_eq_true ..).mp hw.2
  have hempty : (emptyQueue 0).WithinLimits twoServers :=
    ⟨fun _ => Nat.zero_le _, fun _ => Nat.zero_le _⟩
  exact ⟨w, w', hstep, beq_iff_eq.mp hstarted,
    (withinLimits_iff_heeded hempty hrun hstep).2.mpr hw.1⟩

/-- Two commits of one application are queued at the same time: each call reads
before the other one updates its row, and both deployments start on a server
with one slot. -/
theorem started_together :
    ¬ ∀ (cfg : DeployConfig) (clock : Nat) (w : World DeploymentStore DeploymentCall),
      Reaches (deploymentCalls cfg).step (fun _ a => asking a = true)
        (Machine.idle (emptyQueue clock)) w → w.db.WithinLimits cfg := by
  intro h
  obtain ⟨w, hrun, hw⟩ := exists_reaches_of_execIf (deploymentCalls twoServers).step
    (fun _ a => asking a = true) (Machine.idle (emptyQueue 0))
    (askedOnce ++ .spawn (.queue (deployRequest 2 "b")) :: .replicate 6 (.run 1 (.next [])) ++
      [.run 0 (.next [])])
    (fun w => w.db.activeDeployments 2 == 2 && w.db.inProgressIn (2, 0) == 2) (by decide +kernel)
  rw [Bool.and_eq_true, beq_iff_eq, beq_iff_eq] at hw
  have hbuilds := (h twoServers 0 w hrun).builds 2
  rw [hw.1] at hbuilds
  exact absurd hbuilds (by decide)

end OnePloy
