import OnePloy.DeploymentTurns

/-!
# No startable deployment is left waiting

The call that ends a deployment goes through one server's queue: the main
server's of the application, or the one that a cancellation picks. Nothing of
that queue is left that could be started. What the end makes startable on
another server stays where it is (`drained_of_freesOnly`).
-/

namespace OnePloy

open Conc

variable {cfg : DeployConfig} {s t : DeploymentStore}

/-! ## The invariant and its condition -/

/-- Nothing that is queued could be started. -/
def DeploymentStore.Drained (cfg : DeployConfig) (s : DeploymentStore) : Prop :=
  ∀ i d, s.deployments.get? i = some d → d.status = .queued → s.nextQueuable cfg d = false

/-- Calls from beginning to end; no tenant is suspended. -/
def QueueTurn.isWhole : QueueTurn → Bool
  | .ends _ _ => false
  | .cancels _ => false
  | .tenant _ _ => false
  | _ => true

/-- With the deployment ended, what is queued off the server could not be
started. -/
def DeploymentStore.freesOnly (cfg : DeployConfig) (s : DeploymentStore) (id : Nat)
    (status : DeploymentStatus) (serverId : Nat) : Bool :=
  let s := s.setStatus id status
  (s.deployments.select fun _ d => d.status == .queued && d.serverId != serverId).all
    fun q => !s.nextQueuable cfg q.2

/-- What the turn ends makes nothing startable off the server whose queue it
goes through. -/
def DeploymentStore.leavesNone (cfg : DeployConfig) (s : DeploymentStore) : QueueTurn → Bool
  | .transition id status _ => (s.deployments.get? id).all fun d =>
      d.status.isFinal || s.freesOnly cfg id status (DeploymentStore.mainServer cfg d.applicationId)
  | .cancel id _ => (s.deployments.get? id).all fun d =>
      s.freesOnly cfg id .cancelledByUser (d.cancelServer cfg)
  | .cancelDeployment id _ => (s.deployments.get? id).all fun d =>
      d.status.isFinal || s.freesOnly cfg id .cancelledByUser d.serverId
  | _ => true

namespace DeploymentStore

theorem freesOnly_iff {id serverId : Nat} {status : DeploymentStatus} :
    s.freesOnly cfg id status serverId = true ↔
      ∀ i d, (s.setStatus id status).deployments.get? i = some d → d.status = .queued →
        d.serverId ≠ serverId → (s.setStatus id status).nextQueuable cfg d = false := by
  simp only [freesOnly, List.all_eq_true, Bool.not_eq_true']
  constructor
  · intro h i d hget hstatus hserver
    exact h (i, d) (Table.mem_select.mpr ⟨hget, by simp [hstatus, hserver]⟩)
  · rintro h ⟨i, d⟩ hq
    obtain ⟨hget, hd⟩ := Table.mem_select.mp hq
    rw [Bool.and_eq_true, beq_iff_eq, bne_iff_ne] at hd
    exact h i d hget hd.1 hd.2

/-! ## What adds no waiting deployment -/

/-- Nothing new is queued, and starting has become no easier. -/
structure Adds (s t : DeploymentStore) : Prop where
  queued : ∀ i d, t.deployments.get? i = some d → d.status = .queued →
    s.deployments.get? i = some d
  tightens : Tightens s t

theorem Adds.refl (s : DeploymentStore) : Adds s s := ⟨fun _ _ h _ => h, .refl s⟩

theorem Adds.trans {u : DeploymentStore} (h : Adds s t) (h' : Adds t u) : Adds s u where
  queued i d hget hstatus := h.queued i d (h'.queued i d hget hstatus) hstatus
  tightens := h.tightens.trans h'.tightens

theorem Adds.drained (h : Adds s t) (hs : s.Drained cfg) : t.Drained cfg := by
  intro i d hget hstatus
  exact h.tightens.nextQueuable (hs i d (h.queued i d hget hstatus) hstatus)

theorem enqueue_tightens (s : DeploymentStore) (d : Deployment) :
    Tightens s (s.enqueue d) where
  busy lane hs := by
    obtain ⟨i, e, hget, he⟩ := isBusy_iff.mp hs
    exact isBusy_iff.mpr ⟨i, e, Table.get?_insert_of_some _ hget, he⟩
  active serverId := by
    have hcount : (s.enqueue d).activeDeployments serverId = s.activeDeployments serverId + _ :=
      Table.countWhere_insert ..
    rw [hcount]
    exact Nat.le_add_right _ _
  tenant := rfl

/-- The new row of a call that asks no questions is in progress at once. -/
theorem enqueue_start_adds (s : DeploymentStore) (d : Deployment) :
    Adds s ((s.enqueue d).start s.deployments.nextId) where
  queued i e hget hstatus := by
    rw [get?_start] at hget
    split at hget
    · obtain ⟨e', -, rfl⟩ := Option.map_eq_some_iff.mp hget
      cases hstatus
    · next hi =>
        have hold : (s.deployments.insert d).get? i = some e := hget
        rwa [Table.get?_insert, if_neg hi] at hold
  tightens := (enqueue_tightens s d).trans (start_tightens _ _)

/-! ## The turns -/

theorem queueApplicationDeployment_drained (req : DeployRequest) (hs : s.Drained cfg) :
    (s.queueApplicationDeployment cfg req).1.Drained cfg := by
  unfold queueApplicationDeployment
  split
  · exact hs
  split
  · exact hs
  split
  · exact hs
  dsimp only
  split
  · exact (enqueue_start_adds s _).drained hs
  · rw [startNext]
    split
    · exact (enqueue_start_adds s _).drained hs
    · next hnext =>
        intro i d hget hstatus
        have hrow : (s.deployments.insert (req.deployment cfg s.clock)).get? i = some d := hget
        rw [Table.get?_insert] at hrow
        split at hrow
        · obtain rfl := Option.some.inj hrow
          exact (Bool.not_eq_true _).mp hnext
        · exact (enqueue_tightens s _).nextQueuable (hs i d hrow hstatus)

theorem queueApplicationDeployment_adds (s : DeploymentStore) {req : DeployRequest}
    (hreq : req.noQuestionsAsked = true) : Adds s (s.queueApplicationDeployment cfg req).1 := by
  unfold queueApplicationDeployment
  split
  · exact .refl s
  split
  · exact .refl s
  split
  · exact .refl s
  exact enqueue_start_adds s _

theorem foldl_adds {α : Type*} {f : DeploymentStore → α → DeploymentStore}
    (hf : ∀ s a, Adds s (f s a)) (l : List α) (s : DeploymentStore) : Adds s (l.foldl f s) := by
  induction l generalizing s with
  | nil => exact .refl s
  | cons a l ih => exact (hf s a).trans (ih _)

theorem endDeployment_adds (s : DeploymentStore) (id : Nat) (d : Deployment)
    (status : DeploymentStatus) :
    Adds (s.setStatus id status) (s.endDeployment cfg id d status) := by
  unfold endDeployment
  dsimp only
  split
  · unfold deployToAdditionalDestinations
    dsimp only
    split
    · exact .refl _
    · exact foldl_adds (fun s _ => queueApplicationDeployment_adds s rfl) _ _
  · exact .refl _

/-- The end of a deployment and the loop over one server's queue. -/
theorem drained_of_end {id serverId : Nat} {status : DeploymentStatus}
    {u : DeploymentStore} {rows : List (Nat × Deployment)}
    (hfrees : s.freesOnly cfg id status serverId = true)
    (hu : Adds (s.setStatus id status) u) (ht : u.drainServer cfg serverId rows = some t) :
    t.Drained cfg := by
  intro i d hget hstatus
  by_cases hserver : d.serverId = serverId
  · exact drainServer_drained ht hget hstatus hserver
  · obtain ⟨-, rfl⟩ := drainServer_some ht
    have hrow := hu.queued i d ((drain_starts _ u).get? hget (by rw [hstatus]; nofun)) hstatus
    have hblocked := freesOnly_iff.mp hfrees i d hrow hstatus hserver
    exact (hu.tightens.trans (drain_tightens _ u)).nextQueuable hblocked

/-- A loop alone ends nothing. -/
theorem drained_of_drainServer {serverId : Nat} {rows : List (Nat × Deployment)}
    (hs : s.Drained cfg) (ht : s.drainServer cfg serverId rows = some t) : t.Drained cfg := by
  obtain ⟨-, rfl⟩ := drainServer_some ht
  intro i d hget hstatus
  have hrow := (drain_starts _ s).get? hget (by rw [hstatus]; nofun)
  exact (drain_tightens _ s).nextQueuable (hs i d hrow hstatus)

/-- Which build server a deployment uses plays no part in starting any. -/
theorem build_drained (hs : s.Drained cfg) (id serverId : Nat) :
    (s.setBuildServer id serverId).Drained cfg := by
  have htight : Tightens s (s.setBuildServer id serverId) := by
    refine ⟨fun lane hbusy => ?_, fun server => ?_, rfl⟩
    · obtain ⟨i, d, hget, hlane, hstatus⟩ := isBusy_iff.mp hbusy
      refine isBusy_iff.mpr ?_
      by_cases hi : i = id
      · subst hi
        exact ⟨i, { d with buildServerId := some serverId }, Table.get?_modify_self _ hget, hlane,
          hstatus⟩
      · exact ⟨i, d, (Table.get?_modify_ne _ hi).trans hget, hlane, hstatus⟩
    · exact Table.countWhere_le_updateWhere fun _ _ _ hd _ => hd
  intro i d hget hstatus
  have hrow : (s.deployments.modify id ({ · with buildServerId := some serverId })).get? i
    = some d := hget
  rw [Table.get?_modify] at hrow
  split at hrow
  · obtain ⟨d', hd', rfl⟩ := Option.map_eq_some_iff.mp hrow
    exact htight.nextQueuable (hs i d' hd' hstatus)
  · exact htight.nextQueuable (hs i d hrow hstatus)

theorem turn_drained {a : QueueTurn} (hs : s.Drained cfg) (hwhole : a.isWhole = true)
    (hleaves : s.leavesNone cfg a = true) (h : s.turn cfg a = some t) : t.Drained cfg := by
  cases a with
  | queue req =>
      obtain rfl := Option.some.inj h
      exact queueApplicationDeployment_drained req hs
  | queueNext applicationId rows => exact drained_of_drainServer hs h
  | nextAfterCancel server rows =>
      cases server with
      | none =>
          obtain rfl := Option.some.inj h
          exact hs
      | some serverId => exact drained_of_drainServer hs h
  | ends id status => cases hwhole
  | cancels id => cases hwhole
  | tenant applicationId active => cases hwhole
  | transition id status rows =>
      obtain ⟨d, hget, h⟩ := Option.bind_eq_some_iff.mp h
      rw [leavesNone, hget, Option.all_some, Bool.or_eq_true] at hleaves
      split at h
      · split at h
        · obtain rfl := Option.some.inj h
          exact hs
        · next hfinal =>
            exact drained_of_end (hleaves.resolve_left hfinal) (endDeployment_adds ..) h
      · cases h
  | cancel id rows =>
      obtain ⟨d, hget, h⟩ := Option.bind_eq_some_iff.mp h
      rw [leavesNone, hget, Option.all_some] at hleaves
      exact drained_of_end hleaves (.refl _) h
  | cancelDeployment id rows =>
      obtain ⟨d, hget, h⟩ := Option.bind_eq_some_iff.mp h
      rw [leavesNone, hget, Option.all_some, Bool.or_eq_true] at hleaves
      split at h
      · obtain rfl := Option.some.inj h
        exact hs
      · next hfinal => exact drained_of_end (hleaves.resolve_left hfinal) (.refl _) h
  | build id serverId =>
      obtain ⟨_, -, rfl⟩ := Option.map_eq_some_iff.mp h
      exact build_drained hs id serverId
  | tick seconds =>
      obtain rfl := Option.some.inj h
      exact hs

end DeploymentStore

/-! ## Runs -/

/-- In every run of whole calls, nothing queued could be started, as long as
what a call ends makes nothing startable off the server whose queue it goes
through. -/
theorem drained_of_freesOnly {clock : Nat}
    (h : Reaches (DeploymentStore.turn cfg)
      (fun s a => a.isWhole = true ∧ s.leavesNone cfg a = true) (emptyQueue clock) s) :
    s.Drained cfg := by
  refine h.invariant (I := DeploymentStore.Drained cfg)
    (fun _ _ _ hs hok hstep => DeploymentStore.turn_drained hs hok.1 hok.2 hstep) ?_
  intro i d hget
  cases hget

/-- The second of two commits starts when the first one has failed. -/
def endsOnMainServer : List QueueTurn :=
  [.queue (deployRequest 2 "a"), .queue (deployRequest 2 "b"),
    .transition 1 .failed [(2, (deployRequest 2 "b").deployment twoServers 0)]]

theorem drained_endsOnMainServer :
    ∃ s, Reaches (DeploymentStore.turn twoServers)
        (fun s a => a.isWhole = true ∧ s.leavesNone twoServers a = true) (emptyQueue 0) s ∧
      s.started = [1, 2] ∧ s.Drained twoServers := by
  obtain ⟨s, hrun, hs⟩ := exists_reaches_of_execIf (DeploymentStore.turn twoServers)
    (fun s a => a.isWhole = true ∧ s.leavesNone twoServers a = true) (emptyQueue 0)
    endsOnMainServer (fun s => s.started == [1, 2]) (by decide +kernel)
  exact ⟨s, hrun, beq_iff_eq.mp hs, drained_of_freesOnly hrun⟩

/-- The first application finishes on its main server and goes on with the
second one. When it is done there too, only the main server's queue is gone
through, and the second application waits for a server that is free. -/
def endsOnAdditionalServer : List QueueTurn :=
  [.queue (deployRequest 1 "a"), .transition 1 .finished [], .queue (deployRequest 2 "a"),
    .transition 2 .finished []]

theorem startable_left_waiting :
    ¬ ∀ (cfg : DeployConfig) (clock : Nat) (s : DeploymentStore),
      Reaches (DeploymentStore.turn cfg) (fun _ a => a.isWhole = true) (emptyQueue clock) s →
        s.Drained cfg := by
  intro h
  obtain ⟨s, hrun, hs⟩ := exists_reaches_of_execIf (DeploymentStore.turn twoServers)
    (fun _ a => a.isWhole = true) (emptyQueue 0) endsOnAdditionalServer
    (fun s => (s.deployments.get? 3).any fun d =>
      d.status == .queued && s.nextQueuable twoServers d) (by decide +kernel)
  obtain ⟨d, hget, hd⟩ := (Option.any_eq_true ..).mp hs
  rw [Bool.and_eq_true, beq_iff_eq] at hd
  have hblocked := h twoServers 0 s hrun 3 d hget hd.1
  rw [hd.2] at hblocked
  cases hblocked

end OnePloy
