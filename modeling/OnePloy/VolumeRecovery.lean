import OnePloy.VolumeBackups
import Mathlib.Data.List.Nodup

/-!
# Containers that a backup has stopped

Every container that is down because of a backup should be listed for an execution
that somebody will come back to. Three kinds of steps may lose one: a cleanup that
looks at deleted archives alone, a `failed()` that takes the execution of a job
still at work, and a script that is run again and ends before it has listed what
the run before left stopped. In a run without these none is lost (`Tracked`): a
mark is only taken from an execution whose state file is gone.
-/

namespace OnePloy

open Conc

/-- Each stopped container is listed for an execution that is running or to be
recovered. -/
def NoneForgotten (s : VolumeState) : Prop :=
  ∀ c, s.stopped c = true → ∃ row ∈ s.executions,
    (row.status = .running ∨ row.stopRecoveryPending = true) ∧ c ∈ s.listed row.id

/-! ## Steps that forget none -/

/-- The task of a backup job that works on an execution, if the lock is held for
one. -/
def workedOn (s : VolumeState) (backup id : Nat) : Bool :=
  ((s.lock backup).bind s.tasks).any fun task =>
    task.kind == .backup && task.execution == id && task.phase != .stored

/-- A row that is the only way back for a stopped container, as far as it lists one. -/
def IsNeeded (s : VolumeState) (row : VolumeExecution) : Prop :=
  row.stopRecoveryPending = true ∧ ∃ c ∈ s.listed row.id, s.stopped c = true

instance (s : VolumeState) (row : VolumeExecution) : Decidable (IsNeeded s row) :=
  inferInstanceAs (Decidable (_ ∧ _))

/-- The containers a script is about to stop. -/
def VolumePhase.toStop : VolumePhase → List Nat
  | .marked containers => containers
  | _ => []

/-- Cleanups delete no execution that is needed, `failed` takes none that a job works
on, and a script that is run again lists what it has left stopped. -/
def Careful (s : VolumeState) : VolumeAction → Prop
  | .cleanupDeleted backup => ∀ row ∈ s.executions, deletedRemovable backup row = true →
      ¬ IsNeeded s row
  | .failed _ backup => ∀ row ∈ latestRunning s backup, workedOn s backup row.id = false
  | .task t (.retain locally s3 true) => ∀ task ∈ s.tasks t,
      ∀ row ∈ (s.noteExpired task.backup locally s3).executions,
        isExpired task.backup row = true → ¬ IsNeeded s row
  | .task t (.archive run) => ∀ task ∈ s.tasks t,
      ∀ c ∈ s.listed task.execution, s.stopped c = true → c ∈ task.phase.toStop.take run.listed
  | _ => True

instance : DecidableRel Careful
  | s, .cleanupDeleted _ => inferInstanceAs (Decidable (∀ row ∈ s.executions, _))
  | s, .failed _ _ => inferInstanceAs (Decidable (∀ row ∈ latestRunning s _, _))
  | s, .task t (.retain _ _ true) => inferInstanceAs (Decidable (∀ task ∈ s.tasks t, _))
  | s, .task t (.archive _) => inferInstanceAs (Decidable (∀ task ∈ s.tasks t, _))
  | _, .task _ (.retain _ _ false) => isTrue trivial
  | _, .task _ (.mark _) | _, .task _ .archivePlain | _, .task _ .clear | _, .task _ .upload
  | _, .task _ (.store _) | _, .task _ .throw | _, .task _ (.restart _) | _, .task _ .cleanS3
  | _, .task _ .settle | _, .task _ (.finish _) | _, .task _ .remove | _, .task _ .die =>
      isTrue trivial
  | _, .start _ _ | _, .recover _ _ | _, .expire _ | _, .cleanupFailed _ | _, .deleteBackup _ _
  | _, .deleteSchedule _ | _, .up _ => isTrue trivial

/-! ## The invariant -/

def VolumeState.Has (s : VolumeState) (id : Nat) (p : VolumeExecution → Prop) : Prop :=
  ∃ row ∈ s.executions, row.id = id ∧ p row

/-- A backup job that has not written its outcome. -/
def VolumeTask.Working (task : VolumeTask) : Prop := task.kind = .backup ∧ task.phase ≠ .stored

/-- The phases of each kind. -/
def VolumeTask.Phased (task : VolumeTask) : Prop :=
  (task.phase = .checked ↔ task.kind = .deletion) ∧
    (task.kind ≠ .backup → task.phase = .caught ∨ task.phase = .restarted ∨
      task.phase = .settled ∨ task.phase = .checked)

structure Tracked (s : VolumeState) : Prop where
  ids : ∀ row ∈ s.executions, row.id < s.nextId
  nodup : (s.executions.map VolumeExecution.id).Nodup
  kept : ∀ row ∈ s.executions, row.status = .running → row.localStorageDeleted = false
  known : ∀ t task, s.tasks t = some task → task.execution < s.nextId
  /-- Every stopped container is listed for an execution that is to be recovered. -/
  listed : ∀ c, s.stopped c = true →
    ∃ row ∈ s.executions, row.stopRecoveryPending = true ∧ c ∈ s.listed row.id
  held : ∀ t task, s.tasks t = some task → task.kind = .backup ∨ task.kind = .recovery →
    s.lock task.backup = some t
  /-- The execution of a job at work is running, and marked before its script is run. -/
  working : ∀ t task, s.tasks t = some task → task.Working → s.Has task.execution fun row =>
    row.backup = task.backup ∧ row.status = .running ∧
      ∀ containers, task.phase = .marked containers → row.stopRecoveryPending = true
  /-- No other task touches it. -/
  alone : ∀ t task, s.tasks t = some task → task.Working →
    ∀ t' task', s.tasks t' = some task' → t' ≠ t → task'.execution ≠ task.execution
  /-- Where a mark is about to be taken away, the state file is gone. -/
  gone : ∀ t task, s.tasks t = some task → task.phase = .archived ∨ task.phase = .restarted →
    s.stateFile task.execution = none
  removable : ∀ t task, s.tasks t = some task → task.kind = .deletion →
    ∀ row ∈ s.executions, row.id = task.execution →
      row.status ≠ .running ∧ row.stopRecoveryPending = false
  phased : ∀ t task, s.tasks t = some task → task.Phased

namespace Tracked

variable {s : VolumeState}

theorem noneForgotten (h : Tracked s) : NoneForgotten s := by
  intro c hc
  obtain ⟨row, hrow, hpending, hlisted⟩ := h.listed c hc
  exact ⟨row, hrow, .inr hpending, hlisted⟩

theorem unique (h : Tracked s) {row row' : VolumeExecution} (hrow : row ∈ s.executions)
    (hrow' : row' ∈ s.executions) (hid : row.id = row'.id) : row = row' :=
  List.inj_on_of_nodup_map h.nodup hrow hrow' hid

/-! ### Rows -/

/-- Rows that are neither running nor needed may go. -/
theorem deleteWhere (h : Tracked s) {p : VolumeExecution → Bool}
    (hp : ∀ row ∈ s.executions, p row = true → row.status ≠ .running ∧ ¬ IsNeeded s row) :
    Tracked (s.deleteWhere p) := by
  have hkeep : ∀ row ∈ s.executions, row.status = .running ∨ IsNeeded s row →
      row ∈ (s.deleteWhere p).executions := by
    intro row hrow hbusy
    refine List.mem_filter.mpr ⟨hrow, ?_⟩
    rw [Bool.not_eq_true', ← Bool.not_eq_true]
    intro hpr
    obtain ⟨hstatus, hunneeded⟩ := hp row hrow hpr
    rcases hbusy with hrunning | hneeded
    · exact hstatus hrunning
    · exact hunneeded hneeded
  have hold : ∀ row ∈ (s.deleteWhere p).executions, row ∈ s.executions := fun row hrow =>
    (List.mem_filter.mp hrow).1
  exact {
    ids := fun row hrow => h.ids row (hold row hrow)
    nodup := h.nodup.sublist (List.Sublist.map _ List.filter_sublist)
    kept := fun row hrow => h.kept row (hold row hrow)
    known := h.known
    listed := by
      intro c hc
      obtain ⟨row, hrow, hpending, hlisted⟩ := h.listed c hc
      exact ⟨row, hkeep row hrow (.inr ⟨hpending, c, hlisted, hc⟩), hpending, hlisted⟩
    held := h.held
    working := by
      intro t task ht hworking
      obtain ⟨row, hrow, hid, hback, hstatus, hmark⟩ := h.working t task ht hworking
      exact ⟨row, hkeep row hrow (.inl hstatus), hid, hback, hstatus, hmark⟩
    alone := h.alone
    gone := h.gone
    removable := fun t task ht hkind row hrow => h.removable t task ht hkind row (hold row hrow)
    phased := h.phased }

theorem not_needed {row : VolumeExecution} (hpending : row.stopRecoveryPending = false) :
    ¬ IsNeeded s row := by
  rintro ⟨hmarked, -⟩
  rw [hpending] at hmarked
  cases hmarked

theorem mem_update {id : Nat} {f : VolumeExecution → VolumeExecution} {row' : VolumeExecution} :
    row' ∈ (s.update id f).executions ↔
      ∃ row ∈ s.executions, (if row.id = id then f row else row) = row' :=
  List.mem_map

theorem update_same {id : Nat} {f : VolumeExecution → VolumeExecution} (hf : ∀ row, f row = row) :
    s.update id f = s := by
  rw [VolumeState.update]
  simp [hf]

/-- A task writes its row and goes on to another phase, or ends. -/
theorem write (h : Tracked s) {t : Nat} {task : VolumeTask} (ht : s.tasks t = some task)
    {f : VolumeExecution → VolumeExecution} {next : Option VolumeTask}
    (hid : ∀ row, (f row).id = row.id) (hbackup : ∀ row, (f row).backup = row.backup)
    (hkept : ∀ row ∈ s.executions, row.id = task.execution → (f row).status = .running →
      (f row).localStorageDeleted = false)
    (hmarks : (∀ row, row.stopRecoveryPending = true → (f row).stopRecoveryPending = true) ∨
      s.stateFile task.execution = none)
    (hothers : task.Working ∨ ∀ row,
      (row.status ≠ .running → (f row).status ≠ .running) ∧
        (row.stopRecoveryPending = false → (f row).stopRecoveryPending = false))
    (hnext : ∀ task', next = some task' →
      (task'.kind = task.kind ∧ task'.backup = task.backup ∧ task'.execution = task.execution) ∧
        (task'.Working → task.Working ∧ ∀ row ∈ s.executions, row.id = task.execution →
          row.status = .running → (f row).status = .running ∧
            ∀ containers, task'.phase = .marked containers → (f row).stopRecoveryPending = true) ∧
        (task'.phase = .archived ∨ task'.phase = .restarted →
          s.stateFile task.execution = none) ∧ task'.Phased) :
    Tracked ((s.update task.execution f).setTask t next) := by
  have hid' : ∀ row, (if row.id = task.execution then f row else row).id = row.id := by
    intro row
    split
    · exact hid row
    · rfl
  have htasks : ∀ t' task', ((s.update task.execution f).setTask t next).tasks t' = some task' →
      t' = t ∧ next = some task' ∨ t' ≠ t ∧ s.tasks t' = some task' := by
    intro t' task' ht'
    by_cases heq : t' = t
    · subst heq
      exact .inl ⟨rfl, by simpa [VolumeState.setTask] using ht'⟩
    · exact .inr ⟨heq, by simpa [VolumeState.setTask, VolumeState.update, heq] using ht'⟩
  exact {
    ids := by
      intro row' hrow'
      obtain ⟨row, hrow, rfl⟩ := mem_update.mp hrow'
      rw [hid']
      exact h.ids row hrow
    nodup := by
      have hsame : (s.update task.execution f).executions.map VolumeExecution.id =
          s.executions.map VolumeExecution.id := by
        rw [VolumeState.update, List.map_map]
        exact List.map_congr_left fun row _ => hid' row
      show ((s.update task.execution f).executions.map VolumeExecution.id).Nodup
      rw [hsame]
      exact h.nodup
    kept := by
      intro row' hrow' hrunning
      obtain ⟨row, hrow, rfl⟩ := mem_update.mp hrow'
      split at hrunning
      · next hown =>
          rw [if_pos hown]
          exact hkept row hrow hown hrunning
      · next hother =>
          rw [if_neg hother]
          exact h.kept row hrow hrunning
    known := by
      intro t' task' ht'
      rcases htasks t' task' ht' with ⟨-, hsome⟩ | ⟨-, hold⟩
      · rw [(hnext task' hsome).1.2.2]
        exact h.known t task ht
      · exact h.known t' task' hold
    listed := by
      intro c hc
      obtain ⟨row, hrow, hpending, hlisted⟩ := h.listed c hc
      refine ⟨_, mem_update.mpr ⟨row, hrow, rfl⟩, ?_, by rw [hid']; exact hlisted⟩
      split
      · next hown =>
          rcases hmarks with hmarks | hgone
          · exact hmarks row hpending
          · have hlisted' : c ∈ (s.stateFile row.id).getD [] := hlisted
            rw [hown, hgone] at hlisted'
            cases hlisted'
      · exact hpending
    held := by
      intro t' task' ht' hkind
      rcases htasks t' task' ht' with ⟨rfl, hsome⟩ | ⟨-, hold⟩
      · obtain ⟨⟨hsame, hback, -⟩, -⟩ := hnext task' hsome
        rw [hsame] at hkind
        rw [hback]
        exact h.held t' task ht hkind
      · exact h.held t' task' hold hkind
    working := by
      intro t' task' ht' hworking
      rcases htasks t' task' ht' with ⟨-, hsome⟩ | ⟨hne, hold⟩
      · obtain ⟨⟨-, hback, hexec⟩, hwork, -⟩ := hnext task' hsome
        obtain ⟨howner, hwrite⟩ := hwork hworking
        obtain ⟨row, hrow, hrowId, hrowBackup, hrunning, -⟩ := h.working t task ht howner
        obtain ⟨hstill, hmarked⟩ := hwrite row hrow hrowId hrunning
        refine ⟨_, mem_update.mpr ⟨row, hrow, rfl⟩, ?_, ?_⟩
        · rw [hid', hexec]
          exact hrowId
        · rw [if_pos hrowId]
          exact ⟨(hbackup row).trans (hrowBackup.trans hback.symm), hstill, hmarked⟩
      · obtain ⟨row, hrow, hrowId, hrest⟩ := h.working t' task' hold hworking
        have hne' : row.id ≠ task.execution := by
          rw [hrowId]
          exact (h.alone t' task' hold hworking t task ht (Ne.symm hne)).symm
        refine ⟨_, mem_update.mpr ⟨row, hrow, rfl⟩, ?_⟩
        rw [if_neg hne']
        exact ⟨hrowId, hrest⟩
    alone := by
      intro t₁ task₁ ht₁ hworking t₂ task₂ ht₂ hne
      rcases htasks t₁ task₁ ht₁ with ⟨rfl, hsome₁⟩ | ⟨hne₁, hold₁⟩
      · rcases htasks t₂ task₂ ht₂ with ⟨rfl, -⟩ | ⟨-, hold₂⟩
        · exact absurd rfl hne
        · obtain ⟨⟨-, -, hexec⟩, hwork, -⟩ := hnext task₁ hsome₁
          rw [hexec]
          exact h.alone t₁ task ht (hwork hworking).1 t₂ task₂ hold₂ hne
      · rcases htasks t₂ task₂ ht₂ with ⟨rfl, hsome₂⟩ | ⟨-, hold₂⟩
        · rw [(hnext task₂ hsome₂).1.2.2]
          exact h.alone t₁ task₁ hold₁ hworking t₂ task ht hne
        · exact h.alone t₁ task₁ hold₁ hworking t₂ task₂ hold₂ hne
    gone := by
      intro t' task' ht' hphase
      rcases htasks t' task' ht' with ⟨-, hsome⟩ | ⟨-, hold⟩
      · obtain ⟨⟨-, -, hexec⟩, -, hgone, -⟩ := hnext task' hsome
        rw [hexec]
        exact hgone hphase
      · exact h.gone t' task' hold hphase
    removable := by
      intro t' task' ht' hkind row' hrow' hrowId
      obtain ⟨row, hrow, rfl⟩ := mem_update.mp hrow'
      rw [hid'] at hrowId
      -- who is about to delete the row was so before
      obtain ⟨t₀, task₀, hold, hkind₀, hexec₀, hsame⟩ : ∃ t₀ task₀, s.tasks t₀ = some task₀ ∧
          task₀.kind = .deletion ∧ row.id = task₀.execution ∧
            (t₀ = t ∧ task₀ = task ∨ t₀ ≠ t) := by
        rcases htasks t' task' ht' with ⟨rfl, hsome⟩ | ⟨hne, hold⟩
        · obtain ⟨⟨hk, -, hexec⟩, -⟩ := hnext task' hsome
          exact ⟨t', task, ht, hk ▸ hkind, hexec ▸ hrowId, .inl ⟨rfl, rfl⟩⟩
        · exact ⟨t', task', hold, hkind, hrowId, .inr hne⟩
      obtain ⟨hstatus, hpending⟩ := h.removable t₀ task₀ hold hkind₀ row hrow hexec₀
      split
      · next hown =>
          rcases hothers with hworking | hall
          · exfalso
            rcases hsame with ⟨-, rfl⟩ | hne
            · rw [hworking.1] at hkind₀
              cases hkind₀
            · exact h.alone t task ht hworking t₀ task₀ hold hne (hexec₀.symm.trans hown)
          · exact ⟨(hall row).1 hstatus, (hall row).2 hpending⟩
      · exact ⟨hstatus, hpending⟩
    phased := by
      intro t' task' ht'
      rcases htasks t' task' ht' with ⟨-, hsome⟩ | ⟨-, hold⟩
      · exact (hnext task' hsome).2.2.2
      · exact h.phased t' task' hold }

/-- A task ends, or goes on to another phase, and writes nothing. -/
theorem setTask (h : Tracked s) {t : Nat} {task : VolumeTask} (ht : s.tasks t = some task)
    {next : Option VolumeTask}
    (hnext : ∀ task', next = some task' →
      (task'.kind = task.kind ∧ task'.backup = task.backup ∧ task'.execution = task.execution) ∧
        (task'.Working → task.Working ∧
          ∀ containers, task'.phase = .marked containers → task.phase = .marked containers) ∧
        (task'.phase = .archived ∨ task'.phase = .restarted →
          s.stateFile task.execution = none) ∧ task'.Phased) :
    Tracked (s.setTask t next) := by
  have hsame : s.update task.execution id = s := update_same fun _ => rfl
  have : Tracked ((s.update task.execution id).setTask t next) :=
    h.write ht (fun _ => rfl) (fun _ => rfl) (fun row hrow _ => h.kept row hrow)
      (.inl fun _ hp => hp)
    (.inr fun _ => ⟨fun hs => hs, fun hp => hp⟩) ?_
  · rwa [hsame] at this
  · intro task' hsome
    obtain ⟨hsame, hwork, hgone, hphased⟩ := hnext task' hsome
    refine ⟨hsame, fun hworking => ?_, hgone, hphased⟩
    obtain ⟨howner, hmark⟩ := hwork hworking
    refine ⟨howner, fun row hrow hrowId hrunning => ⟨hrunning, fun containers hphase => ?_⟩⟩
    obtain ⟨row', hrow', hrowId', -, -, hmarked⟩ := h.working t task ht howner
    rw [id, h.unique hrow hrow' (hrowId.trans hrowId'.symm)]
    exact hmarked containers (hmark containers hphase)

/-! ### Locks -/

theorem releaseLock (h : Tracked s) {backup : Nat}
    (hfree : ∀ t task, s.tasks t = some task → task.kind = .backup ∨ task.kind = .recovery →
      task.backup ≠ backup) : Tracked (s.setLock backup none) := by
  refine { h with held := fun t task ht hkind => ?_ }
  rw [VolumeState.setLock]
  dsimp only
  rw [Function.update_of_ne (hfree t task ht hkind)]
  exact h.held t task ht hkind

theorem takeLock (h : Tracked s) {backup t : Nat} (hfree : s.lock backup = none) :
    Tracked (s.setLock backup (some t)) := by
  refine { h with held := fun t' task ht hkind => ?_ }
  have hheld := h.held t' task ht hkind
  have hne : task.backup ≠ backup := by
    rintro rfl
    rw [hfree] at hheld
    cases hheld
  rw [VolumeState.setLock]
  dsimp only
  rw [Function.update_of_ne hne]
  exact hheld

/-- A task that ends releases its lock. -/
theorem end_task {t : Nat} {task : VolumeTask} (hended : Tracked (s.setTask t none))
    (hheld : task.kind = .backup ∨ task.kind = .recovery → s.lock task.backup = some t) :
    Tracked (endTask s t task) := by
  unfold endTask
  split
  · next hkind =>
      refine hended.releaseLock fun t' task' ht' hkind' hback => ?_
      have hne : t' ≠ t := by
        rintro rfl
        simp [VolumeState.setTask] at ht'
      have hother : s.lock task'.backup = some t' := hended.held t' task' ht' hkind'
      rw [hback, hheld hkind] at hother
      exact hne (Option.some.inj hother).symm
  · exact hended

/-! ### The server -/

theorem listed_update {id id' : Nat} {file : Option (List Nat)} :
    ({ s with stateFile := Function.update s.stateFile id file } : VolumeState).listed id' =
      if id' = id then file.getD [] else s.listed id' := by
  rw [VolumeState.listed]
  dsimp only
  rw [Function.update_apply]
  split <;> rfl

/-- The script of a job lists what it stops, and all that was listed and is stopped. -/
theorem archive (h : Tracked s) {t : Nat} {task : VolumeTask} (ht : s.tasks t = some task)
    {containers : List Nat} (hkind : task.kind = .backup)
    (hphase : task.phase = .marked containers) {run : ArchiveRun}
    (hpossible : run.Possible containers)
    (hagain : ∀ c ∈ s.listed task.execution, s.stopped c = true →
      c ∈ containers.take run.listed) :
    Tracked (runArchive s task.execution containers run) := by
  have hworking : task.Working := ⟨hkind, by rw [hphase]; nofun⟩
  obtain ⟨own, hown, hownId, -, -, hmarked⟩ := h.working t task ht hworking
  obtain ⟨hhalted, hstarted, hfinished⟩ := hpossible
  have hlisted : ∀ id, (runArchive s task.execution containers run).listed id =
      if id = task.execution then
        (if run.finished then none else some (containers.take run.listed)).getD []
      else s.listed id := fun id => listed_update
  -- what is listed and not started again is in the file
  have hcovered : ∀ c ∈ containers.take run.listed, c ∉ run.started →
      c ∈ (runArchive s task.execution containers run).listed task.execution := by
    intro c hc hdown
    rw [hlisted, if_pos rfl]
    split
    · next hdone => exact absurd (hfinished hdone c (List.mem_of_mem_take hc)) hdown
    · exact hc
  refine { h with listed := ?_, gone := ?_ }
  · intro c hc
    have hdown : c ∉ run.started := by
      intro hstart
      simp [runArchive, hstart] at hc
    by_cases hhalt : c ∈ run.halted
    · refine ⟨own, hown, hmarked containers hphase, ?_⟩
      rw [hownId]
      exact hcovered c (hhalted c hhalt) hdown
    · have hbefore : s.stopped c = true := by
        simpa [runArchive, hdown, hhalt] using hc
      obtain ⟨row, hrow, hpending, hfile⟩ := h.listed c hbefore
      refine ⟨row, hrow, hpending, ?_⟩
      by_cases hid : row.id = task.execution
      · rw [hid] at hfile ⊢
        exact hcovered c (hagain c hfile hbefore) hdown
      · rw [hlisted, if_neg hid]
        exact hfile
  · intro t' task' ht' hphase'
    have hne : task'.execution ≠ task.execution := by
      intro hexec
      by_cases heq : t' = t
      · subst heq
        obtain rfl : task = task' := Option.some.inj (ht.symm.trans ht')
        rw [hphase] at hphase'
        rcases hphase' with hp | hp <;> cases hp
      · exact h.alone t task ht hworking t' task' ht' heq hexec
    show Function.update s.stateFile _ _ _ = none
    rw [Function.update_of_ne hne]
    exact h.gone t' task' ht' hphase'

/-- A recovery takes a container from the list only once it has been started. -/
theorem recovery (h : Tracked s) {id : Nat} {run : RecoveryRun}
    (hpossible : run.Possible s id) : Tracked (runRecovery s id run) := by
  obtain ⟨-, hremaining⟩ := hpossible
  have hfile : ∀ id', (runRecovery s id run).listed id' =
      if id' = id then (run.file (s.stateFile id)).getD [] else s.listed id' :=
    fun id' => listed_update
  have hlisted : ∀ c ∈ s.listed id, s.stopped c = true → c ∉ run.started →
      c ∈ (runRecovery s id run).listed id := by
    intro c hc hstopped hdown
    rw [hfile, if_pos rfl]
    cases hrun : run.remaining with
    | none =>
        rw [RecoveryRun.file, hrun]
        exact hc
    | some remaining =>
        have hmem := ((hremaining remaining hrun).2 c hc hstopped).resolve_left hdown
        rw [RecoveryRun.file, hrun]
        cases remaining with
        | nil => cases hmem
        | cons d rest => exact hmem
  refine { h with listed := ?_, gone := ?_ }
  · intro c hc
    have hdown : c ∉ run.started := by
      intro hstart
      simp [runRecovery, hstart] at hc
    have hbefore : s.stopped c = true := by
      simpa [runRecovery, hdown] using hc
    obtain ⟨row, hrow, hpending, hbeforeFile⟩ := h.listed c hbefore
    refine ⟨row, hrow, hpending, ?_⟩
    by_cases hid : row.id = id
    · rw [hid] at hbeforeFile ⊢
      exact hlisted c hbeforeFile hbefore hdown
    · rw [hfile, if_neg hid]
      exact hbeforeFile
  · intro t' task' ht' hphase
    have hnone := h.gone t' task' ht' hphase
    show Function.update s.stateFile id (run.file (s.stateFile id)) task'.execution = none
    by_cases hid : task'.execution = id
    · rw [hid] at hnone ⊢
      -- where there is no file, nothing can remain of it
      have hempty : s.listed id = [] := by
        rw [VolumeState.listed, hnone]
        rfl
      rw [Function.update_self, RecoveryRun.file]
      cases hrun : run.remaining with
      | none => exact hnone
      | some remaining =>
          have hsub := (hremaining remaining hrun).1
          rw [hempty] at hsub
          cases remaining with
          | nil => rfl
          | cons c rest => cases hsub c (.head _)
    · rw [Function.update_of_ne hid]
      exact hnone

/-! ### New tasks -/

/-- A task other than a backup, on an execution no job works on. -/
theorem addTask (h : Tracked s) {t : Nat} {task : VolumeTask} (hkind : task.kind ≠ .backup)
    (hknown : task.execution < s.nextId)
    (hfree : ∀ t' task', s.tasks t' = some task' → task'.Working →
      task'.execution ≠ task.execution)
    (hheld : task.kind = .recovery → s.lock task.backup = some t)
    (hphase : task.phase ≠ .archived ∧ task.phase ≠ .restarted)
    (hremovable : task.kind = .deletion → ∀ row ∈ s.executions, row.id = task.execution →
      row.status ≠ .running ∧ row.stopRecoveryPending = false)
    (hphased : task.Phased) : Tracked (s.setTask t (some task)) := by
  have htasks : ∀ t' task', (s.setTask t (some task)).tasks t' = some task' →
      t' = t ∧ task = task' ∨ t' ≠ t ∧ s.tasks t' = some task' := by
    intro t' task' ht'
    by_cases heq : t' = t
    · subst heq
      exact .inl ⟨rfl, by simpa [VolumeState.setTask] using ht'⟩
    · exact .inr ⟨heq, by simpa [VolumeState.setTask, heq] using ht'⟩
  refine { h with
    known := ?_, held := ?_, working := ?_, alone := ?_, gone := ?_, removable := ?_
    phased := ?_ }
  · intro t' task' ht'
    rcases htasks t' task' ht' with ⟨-, rfl⟩ | ⟨-, hold⟩
    · exact hknown
    · exact h.known t' task' hold
  · intro t' task' ht' hholder
    rcases htasks t' task' ht' with ⟨rfl, rfl⟩ | ⟨-, hold⟩
    · exact hheld (hholder.resolve_left hkind)
    · exact h.held t' task' hold hholder
  · intro t' task' ht' hworking
    rcases htasks t' task' ht' with ⟨-, rfl⟩ | ⟨-, hold⟩
    · exact absurd hworking.1 hkind
    · exact h.working t' task' hold hworking
  · intro t₁ task₁ ht₁ hworking t₂ task₂ ht₂ hne
    rcases htasks t₁ task₁ ht₁ with ⟨-, rfl⟩ | ⟨-, hold₁⟩
    · exact absurd hworking.1 hkind
    · rcases htasks t₂ task₂ ht₂ with ⟨-, rfl⟩ | ⟨-, hold₂⟩
      · exact (hfree t₁ task₁ hold₁ hworking).symm
      · exact h.alone t₁ task₁ hold₁ hworking t₂ task₂ hold₂ hne
  · intro t' task' ht' hdone
    rcases htasks t' task' ht' with ⟨-, rfl⟩ | ⟨-, hold⟩
    · rcases hdone with hp | hp
      · exact absurd hp hphase.1
      · exact absurd hp hphase.2
    · exact h.gone t' task' hold hdone
  · intro t' task' ht' hdeletion
    rcases htasks t' task' ht' with ⟨-, rfl⟩ | ⟨-, hold⟩
    · exact hremovable hdeletion
    · exact h.removable t' task' hold hdeletion
  · intro t' task' ht'
    rcases htasks t' task' ht' with ⟨-, rfl⟩ | ⟨-, hold⟩
    · exact hphased
    · exact h.phased t' task' hold

/-- A row that is not running is no job's. -/
theorem not_working_of_row (h : Tracked s) {row : VolumeExecution} (hrow : row ∈ s.executions)
    (hstatus : row.status ≠ .running) {t : Nat} {task : VolumeTask} (ht : s.tasks t = some task)
    (hworking : task.Working) : task.execution ≠ row.id := by
  intro hexec
  obtain ⟨row', hrow', hid, -, hrunning, -⟩ := h.working t task ht hworking
  rw [h.unique hrow hrow' (hexec.symm.trans hid.symm)] at hstatus
  exact hstatus hrunning

/-- A job at work holds the lock of the schedule its row belongs to. -/
theorem lock_of_working (h : Tracked s) {row : VolumeExecution} (hrow : row ∈ s.executions)
    {t : Nat} {task : VolumeTask} (ht : s.tasks t = some task) (hworking : task.Working)
    (hexec : task.execution = row.id) : s.lock row.backup = some t := by
  obtain ⟨row', hrow', hid, hback, -⟩ := h.working t task ht hworking
  rw [h.unique hrow hrow' (hexec.symm.trans hid.symm), hback]
  exact h.held t task ht (.inl hworking.1)

/-- A backup job begins. -/
theorem start (h : Tracked s) {t backup : Nat} (htask : s.tasks t = none)
    (hlock : s.lock backup = none) :
    Tracked { (s.setTask t (some (taskOf .backup .created (newExecution s.nextId backup)))).setLock
        backup (some t) with
      executions := s.executions ++ [newExecution s.nextId backup]
      nextId := s.nextId + 1 } := by
  have hlocked := h.takeLock (t := t) hlock
  have htasks : ∀ t' task', Function.update s.tasks t
        (some (taskOf .backup .created (newExecution s.nextId backup))) t' = some task' →
      t' = t ∧ taskOf .backup .created (newExecution s.nextId backup) = task' ∨
        t' ≠ t ∧ s.tasks t' = some task' := by
    intro t' task' ht'
    by_cases heq : t' = t
    · subst heq
      exact .inl ⟨rfl, by simpa using ht'⟩
    · exact .inr ⟨heq, by simpa [heq] using ht'⟩
  have hrows : ∀ row ∈ s.executions ++ [newExecution s.nextId backup],
      row ∈ s.executions ∨ row = newExecution s.nextId backup := by
    intro row hrow
    rcases List.mem_append.mp hrow with hold | hnew
    · exact .inl hold
    · exact .inr (List.mem_singleton.mp hnew)
  exact {
    ids := by
      intro row hrow
      rcases hrows row hrow with hold | rfl
      · exact Nat.lt_succ_of_lt (h.ids row hold)
      · exact Nat.lt_succ_self _
    nodup := by
      show ((s.executions ++ [newExecution s.nextId backup]).map VolumeExecution.id).Nodup
      rw [List.map_append, List.nodup_append]
      refine ⟨h.nodup, List.nodup_singleton _, ?_⟩
      intro id hid id' hid'
      obtain ⟨row, hrow, rfl⟩ := List.mem_map.mp hid
      obtain rfl : id' = s.nextId := by simpa [newExecution] using hid'
      exact Nat.ne_of_lt (h.ids row hrow)
    kept := by
      intro row hrow hrunning
      rcases hrows row hrow with hold | rfl
      · exact h.kept row hold hrunning
      · rfl
    known := by
      intro t' task' ht'
      rcases htasks t' task' ht' with ⟨-, rfl⟩ | ⟨-, hold⟩
      · exact Nat.lt_succ_self _
      · exact Nat.lt_succ_of_lt (h.known t' task' hold)
    listed := by
      intro c hc
      obtain ⟨row, hrow, hrest⟩ := h.listed c hc
      exact ⟨row, List.mem_append_left _ hrow, hrest⟩
    held := by
      intro t' task' ht' hholder
      rcases htasks t' task' ht' with ⟨rfl, rfl⟩ | ⟨-, hold⟩
      · exact Function.update_self ..
      · exact hlocked.held t' task' hold hholder
    working := by
      intro t' task' ht' hworking
      rcases htasks t' task' ht' with ⟨-, rfl⟩ | ⟨-, hold⟩
      · exact ⟨newExecution s.nextId backup, List.mem_append_right _ (List.mem_singleton_self _),
          rfl, rfl, rfl, nofun⟩
      · obtain ⟨row, hrow, hrest⟩ := h.working t' task' hold hworking
        exact ⟨row, List.mem_append_left _ hrow, hrest⟩
    alone := by
      intro t₁ task₁ ht₁ hworking t₂ task₂ ht₂ hne
      rcases htasks t₁ task₁ ht₁ with ⟨rfl, rfl⟩ | ⟨-, hold₁⟩
      · rcases htasks t₂ task₂ ht₂ with ⟨rfl, -⟩ | ⟨-, hold₂⟩
        · exact absurd rfl hne
        · exact Nat.ne_of_lt (h.known t₂ task₂ hold₂)
      · rcases htasks t₂ task₂ ht₂ with ⟨-, rfl⟩ | ⟨-, hold₂⟩
        · exact (Nat.ne_of_lt (h.known t₁ task₁ hold₁)).symm
        · exact h.alone t₁ task₁ hold₁ hworking t₂ task₂ hold₂ hne
    gone := by
      intro t' task' ht' hdone
      rcases htasks t' task' ht' with ⟨-, rfl⟩ | ⟨-, hold⟩
      · rcases hdone with hp | hp <;> cases hp
      · exact h.gone t' task' hold hdone
    removable := by
      intro t' task' ht' hdeletion row hrow hrowId
      rcases htasks t' task' ht' with ⟨-, rfl⟩ | ⟨-, hold⟩
      · cases hdeletion
      · rcases hrows row hrow with holdRow | rfl
        · exact h.removable t' task' hold hdeletion row holdRow hrowId
        · exact absurd hrowId (Nat.ne_of_gt (h.known t' task' hold))
    phased := by
      intro t' task' ht'
      rcases htasks t' task' ht' with ⟨-, rfl⟩ | ⟨-, hold⟩
      · exact ⟨⟨nofun, nofun⟩, fun hne => absurd rfl hne⟩
      · exact h.phased t' task' hold }

/-! ### Steps of a task -/

theorem kind_of_phase (h : Tracked s) {t : Nat} {task : VolumeTask} (ht : s.tasks t = some task)
    (hphase : task.phase ≠ .caught ∧ task.phase ≠ .restarted ∧ task.phase ≠ .settled ∧
      task.phase ≠ .checked) : task.kind = .backup := by
  by_contra hkind
  rcases (h.phased t task ht).2 hkind with hp | hp | hp | hp
  · exact hphase.1 hp
  · exact hphase.2.1 hp
  · exact hphase.2.2.1 hp
  · exact hphase.2.2.2 hp

theorem phased_backup {task : VolumeTask} (hkind : task.kind = .backup)
    (hphase : task.phase ≠ .checked) : task.Phased := by
  refine ⟨⟨fun hp => absurd hp hphase, fun hk => ?_⟩, fun hne => absurd hkind hne⟩
  rw [hkind] at hk
  cases hk

/-- The phases in which every kind of task may be, but the deletion of an execution. -/
theorem phased_late {task task' : VolumeTask} (hphased : task.Phased)
    (hkind : task'.kind = task.kind) (hbefore : task.phase ≠ .checked)
    (hphase : task'.phase = .caught ∨ task'.phase = .restarted ∨ task'.phase = .settled) :
    task'.Phased := by
  have hnot : task'.kind ≠ .deletion := by
    rw [hkind]
    exact fun hdeletion => hbefore (hphased.1.mpr hdeletion)
  refine ⟨⟨fun hp => ?_, fun hdeletion => absurd hdeletion hnot⟩, fun _ => ?_⟩
  · rw [hp] at hphase
    rcases hphase with hp | hp | hp <;> cases hp
  · rcases hphase with hp | hp | hp
    · exact .inl hp
    · exact .inr (.inl hp)
    · exact .inr (.inr (.inl hp))

/-- A job goes on to a phase in which its script is not run. -/
theorem goOn (h : Tracked s) {t : Nat} {task : VolumeTask} (ht : s.tasks t = some task)
    {phase : VolumePhase} (hwork : phase ≠ .stored → task.phase ≠ .stored)
    (hmarked : ∀ containers, phase = .marked containers → task.phase = .marked containers)
    (hgone : phase = .archived ∨ phase = .restarted → s.stateFile task.execution = none)
    (hphased : ({ task with phase := phase } : VolumeTask).Phased) :
    Tracked (s.setTask t (some { task with phase := phase })) := by
  refine h.setTask ht fun task' hsome => ?_
  obtain rfl := Option.some.inj hsome
  exact ⟨⟨rfl, rfl, rfl⟩, fun hworking => ⟨⟨hworking.1, hwork hworking.2⟩, hmarked⟩, hgone,
    hphased⟩

/-- The mark is taken away where the state file is gone. -/
theorem clear (h : Tracked s) {t : Nat} {task : VolumeTask} (ht : s.tasks t = some task)
    (hgone : s.stateFile task.execution = none) {phase : VolumePhase} {pending : Bool}
    (hwork : task.phase ≠ .stored) (hmarked : ∀ containers, phase ≠ .marked containers)
    (hphase : phase ≠ .archived ∧ phase ≠ .restarted)
    (hphased : ({ task with phase := phase, stopRecoveryPending := pending } :
      VolumeTask).Phased) :
    Tracked ((s.update task.execution fun row => { row with stopRecoveryPending := false }).setTask
      t (some { task with phase := phase, stopRecoveryPending := pending })) := by
  refine h.write ht (fun _ => rfl) (fun _ => rfl) (fun row hrow _ => h.kept row hrow) (.inr hgone)
    (.inr fun row => ⟨id, fun _ => rfl⟩) fun task' hsome => ?_
  obtain rfl := Option.some.inj hsome
  refine ⟨⟨rfl, rfl, rfl⟩, fun hworking => ⟨⟨hworking.1, hwork⟩, fun row _ _ hrunning => ?_⟩, ?_,
    hphased⟩
  · exact ⟨hrunning, fun containers hp => absurd hp (hmarked containers)⟩
  · rintro (hp | hp)
    · exact absurd hp hphase.1
    · exact absurd hp hphase.2

/-- A row that keeps its mark and its status is written. -/
theorem writeFlags (h : Tracked s) {t : Nat} {task : VolumeTask} (ht : s.tasks t = some task)
    {f : VolumeExecution → VolumeExecution} (hid : ∀ row, (f row).id = row.id)
    (hbackup : ∀ row, (f row).backup = row.backup) (hstatus : ∀ row, (f row).status = row.status)
    (hlocal : ∀ row, (f row).localStorageDeleted = row.localStorageDeleted)
    (hpending : ∀ row, row.stopRecoveryPending = true → (f row).stopRecoveryPending = true)
    (hothers : task.Working ∨ ∀ row, (f row).stopRecoveryPending = row.stopRecoveryPending)
    {task' : VolumeTask} (hsame : task'.kind = task.kind ∧ task'.backup = task.backup ∧
      task'.execution = task.execution)
    (hwork : task'.Working → task.Working)
    (hmarked : ∀ containers, task'.phase = .marked containers →
      ∀ row, (f row).stopRecoveryPending = true)
    (hphase : task'.phase ≠ .archived ∧ task'.phase ≠ .restarted) (hphased : task'.Phased) :
    Tracked ((s.update task.execution f).setTask t (some task')) := by
  refine h.write ht hid hbackup ?_ (.inl hpending) ?_ fun next hsome => ?_
  · intro row hrow _ hrunning
    rw [hstatus] at hrunning
    rw [hlocal]
    exact h.kept row hrow hrunning
  · refine hothers.imp_right fun hall row => ?_
    rw [hstatus, hall]
    exact ⟨id, id⟩
  · obtain rfl := Option.some.inj hsome
    refine ⟨hsame, fun hworking => ⟨hwork hworking, fun row _ _ hrunning => ?_⟩, ?_, hphased⟩
    · rw [hstatus]
      exact ⟨hrunning, fun containers hp => hmarked containers hp row⟩
    · rintro (hp | hp)
      · exact absurd hp hphase.1
      · exact absurd hp hphase.2

/-- A task writes an outcome that is not "running". -/
theorem writeOutcome (h : Tracked s) {t : Nat} {task : VolumeTask} (ht : s.tasks t = some task)
    {f : VolumeExecution → VolumeExecution} (hid : ∀ row, (f row).id = row.id)
    (hbackup : ∀ row, (f row).backup = row.backup) (hstatus : ∀ row, (f row).status ≠ .running)
    (hpending : ∀ row, (f row).stopRecoveryPending = row.stopRecoveryPending)
    {next : Option VolumeTask}
    (hnext : ∀ task', next = some task' →
      (task'.kind = task.kind ∧ task'.backup = task.backup ∧ task'.execution = task.execution) ∧
        ¬ task'.Working ∧ (task'.phase ≠ .archived ∧ task'.phase ≠ .restarted) ∧
          task'.Phased) :
    Tracked ((s.update task.execution f).setTask t next) := by
  refine h.write ht hid hbackup (fun row _ _ hrunning => absurd hrunning (hstatus row))
    (.inl fun row hp => (hpending row).trans hp)
    (.inr fun row => ⟨fun _ => hstatus row, fun hp => (hpending row).trans hp⟩)
    fun task' hsome => ?_
  obtain ⟨hsame, hidle, hphase, hphased⟩ := hnext task' hsome
  refine ⟨hsame, fun hworking => absurd hworking hidle, ?_, hphased⟩
  rintro (hp | hp)
  · exact absurd hp hphase.1
  · exact absurd hp hphase.2

/-- What retention notes about archives touches no row that is running. -/
theorem noteExpired (h : Tracked s) (backup : Nat) (locally s3 : List Nat) :
    Tracked (s.noteExpired backup locally s3) := by
  have hrows : ∀ row' ∈ (s.noteExpired backup locally s3).executions,
      ∃ row ∈ s.executions, OnePloy.noteExpired backup locally s3 row = row' := fun row' hrow' =>
    List.mem_map.mp hrow'
  have hmem : ∀ row ∈ s.executions, OnePloy.noteExpired backup locally s3 row ∈
      (s.noteExpired backup locally s3).executions := fun row hrow =>
    List.mem_map_of_mem hrow
  refine { h with ids := ?_, nodup := ?_, kept := ?_, listed := ?_, working := ?_, removable := ?_ }
  · intro row' hrow'
    obtain ⟨row, hrow, rfl⟩ := hrows row' hrow'
    exact h.ids row hrow
  · have hsame : (s.noteExpired backup locally s3).executions.map VolumeExecution.id =
        s.executions.map VolumeExecution.id := by
      rw [VolumeState.noteExpired, List.map_map]
      rfl
    rw [hsame]
    exact h.nodup
  · intro row' hrow' hrunning
    obtain ⟨row, hrow, rfl⟩ := hrows row' hrow'
    have hstatus : row.status = .running := hrunning
    simp [OnePloy.noteExpired, hstatus, h.kept row hrow hstatus]
  · intro c hc
    obtain ⟨row, hrow, hpending, hlisted⟩ := h.listed c hc
    exact ⟨_, hmem row hrow, hpending, hlisted⟩
  · intro t task ht hworking
    obtain ⟨row, hrow, hid, hrest⟩ := h.working t task ht hworking
    exact ⟨_, hmem row hrow, hid, hrest⟩
  · intro t task ht hkind row' hrow' hid
    obtain ⟨row, hrow, rfl⟩ := hrows row' hrow'
    exact h.removable t task ht hkind row hrow hid

theorem dropTask (h : Tracked s) {t : Nat} {task : VolumeTask} (ht : s.tasks t = some task) :
    Tracked (s.setTask t none) :=
  h.setTask ht fun _ hsome => nomatch hsome

/-- Retention leaves what is to be recovered. -/
theorem retain (h : Tracked s) {t : Nat} {task : VolumeTask} (ht : s.tasks t = some task)
    {locally s3 : List Nat} {complete : Bool}
    (hcareful : complete = true → ∀ row ∈ (s.noteExpired task.backup locally s3).executions,
      isExpired task.backup row = true → ¬ IsNeeded s row) :
    Tracked (endTask (if complete then
      (s.noteExpired task.backup locally s3).deleteWhere (isExpired task.backup)
      else s.noteExpired task.backup locally s3) t task) := by
  have hnoted := h.noteExpired task.backup locally s3
  cases complete with
  | false =>
      rw [if_neg Bool.false_ne_true]
      exact end_task (hnoted.dropTask ht) (h.held t task ht)
  | true =>
      rw [if_pos rfl]
      refine end_task (dropTask (hnoted.deleteWhere fun row hrow hexpired => ⟨?_, ?_⟩) ht)
        (h.held t task ht)
      · intro hrunning
        simp only [isExpired, Bool.and_eq_true] at hexpired
        rw [hnoted.kept row hrow hrunning] at hexpired
        cases hexpired.1.2
      · exact hcareful rfl row hrow hexpired

/-- The last update of a task, and its end. -/
theorem finishTask (h : Tracked s) {t : Nat} {task : VolumeTask} (ht : s.tasks t = some task)
    (archiveDeleted : Bool) :
    Tracked (endTask (s.update task.execution (writeFailed task.kind archiveDeleted)) t task) := by
  refine end_task ?_ (h.held t task ht)
  have hsplit : ∀ row, writeFailed .failed archiveDeleted row =
      { row with
        status := .failed
        filename := if row.filename && archiveDeleted then row.s3CleanupPending else row.filename
        localStorageDeleted := row.filename && archiveDeleted || row.localStorageDeleted } := by
    intro row
    rw [writeFailed]
    split
    · next hboth => simp [hboth]
    · next hboth => simp [hboth]
  have hended : ∀ task', (none : Option VolumeTask) = some task' →
      (task'.kind = task.kind ∧ task'.backup = task.backup ∧ task'.execution = task.execution) ∧
        ¬ task'.Working ∧ (task'.phase ≠ .archived ∧ task'.phase ≠ .restarted) ∧
          task'.Phased := fun _ hsome => nomatch hsome
  cases hkind : task.kind with
  | backup =>
      refine h.writeOutcome ht (f := writeFailed .backup archiveDeleted) ?_ ?_ ?_ ?_ hended
      · intro row
        rfl
      · intro row
        rfl
      · intro row
        rw [writeFailed]
        nofun
      · intro row
        rfl
  | failed =>
      refine h.writeOutcome ht (f := writeFailed .failed archiveDeleted) ?_ ?_ ?_ ?_ hended
      · intro row
        rw [hsplit]
      · intro row
        rw [hsplit]
      · intro row
        rw [hsplit]
        nofun
      · intro row
        rw [hsplit]
  | recovery =>
      have hsame : s.update task.execution (writeFailed .recovery archiveDeleted) = s :=
        update_same fun _ => rfl
      rw [hsame]
      exact h.dropTask ht
  | deletion =>
      have hsame : s.update task.execution (writeFailed .deletion archiveDeleted) = s :=
        update_same fun _ => rfl
      rw [hsame]
      exact h.dropTask ht

theorem storeTask (h : Tracked s) {t : Nat} {task : VolumeTask} (ht : s.tasks t = some task)
    {upload : Upload} (hphase : task.phase ≠ .caught ∧ task.phase ≠ .restarted ∧
      task.phase ≠ .settled ∧ task.phase ≠ .checked) :
    Tracked ((s.update task.execution upload.write).setTask t
      (some { task with phase := .stored })) := by
  have hkind := h.kind_of_phase ht hphase
  refine h.writeOutcome (f := upload.write) ht (fun _ => rfl) (fun _ => rfl) (fun _ => nofun)
    (fun _ => rfl) fun task' hsome => ?_
  obtain rfl := Option.some.inj hsome
  exact ⟨⟨rfl, rfl, rfl⟩, fun hworking => hworking.2 rfl, ⟨nofun, nofun⟩,
    phased_backup hkind nofun⟩

theorem throwTask (h : Tracked s) {t : Nat} {task : VolumeTask} (ht : s.tasks t = some task)
    (hphase : task.phase ≠ .stored ∧ task.phase ≠ .checked) :
    Tracked (s.setTask t (some { task with phase := .caught })) :=
  h.goOn ht (fun _ => hphase.1) nofun nofun
    (phased_late (h.phased t task ht) rfl hphase.2 (.inl rfl))

/-- Each step of a task keeps track of the stopped containers. -/
theorem taskStep (h : Tracked s) {t : Nat} {task : VolumeTask} (ht : s.tasks t = some task)
    {event : TaskEvent} {s' : VolumeState} (hcareful : Careful s (.task t event))
    (hok : taskStep s t task event = some s') : Tracked s' := by
  unfold OnePloy.taskStep at hok
  split at hok
  · next containers hphase =>
      -- mark
      split at hok
      · cases hok
      · obtain rfl := Option.some.inj hok
        have hkind := h.kind_of_phase ht (by rw [hphase]; exact ⟨nofun, nofun, nofun, nofun⟩)
        have hworking : task.Working := ⟨hkind, by rw [hphase]; nofun⟩
        refine h.writeFlags (f := fun row => { row with stopRecoveryPending := true }) ht
          (fun _ => rfl) (fun _ => rfl) (fun _ => rfl) (fun _ => rfl) (fun _ _ => rfl)
          (.inl hworking) ⟨rfl, rfl, rfl⟩ (fun _ => hworking) (fun _ _ _ => rfl) ?_ ?_
        · exact ⟨nofun, nofun⟩
        · exact phased_backup hkind nofun
  · next hphase =>
      -- archivePlain
      obtain rfl := Option.some.inj hok
      have hkind := h.kind_of_phase ht (by rw [hphase]; exact ⟨nofun, nofun, nofun, nofun⟩)
      exact h.goOn ht (fun _ => by rw [hphase]; nofun) (fun _ hp => nomatch hp) nofun
        (phased_backup hkind nofun)
  · next run containers hphase =>
      -- archive
      split at hok
      · next hpossible =>
          obtain rfl := Option.some.inj hok
          have hkind := h.kind_of_phase ht (by rw [hphase]; exact ⟨nofun, nofun, nofun, nofun⟩)
          have hagain := hcareful task ht
          rw [hphase] at hagain
          have hran := h.archive ht hkind hphase hpossible hagain
          have hworking : task.phase ≠ .stored := by
            rw [hphase]
            nofun
          split
          · next hfinished =>
              refine hran.goOn ht (fun _ => hworking) nofun (fun _ => ?_)
                (phased_backup hkind nofun)
              simp [runArchive, hfinished]
          · exact hran.goOn ht (fun _ => hworking) (fun _ hp => hphase.trans hp) nofun
              (phased_backup hkind nofun)
      · cases hok
  · next hphase =>
      -- clear, after the script
      obtain rfl := Option.some.inj hok
      have hkind := h.kind_of_phase ht (by rw [hphase]; exact ⟨nofun, nofun, nofun, nofun⟩)
      refine h.clear ht (h.gone t task ht (.inl hphase)) ?_ nofun ⟨nofun, nofun⟩
        (phased_backup hkind nofun)
      rw [hphase]
      nofun
  · next hphase =>
      -- upload
      obtain rfl := Option.some.inj hok
      have hkind := h.kind_of_phase ht (by rw [hphase]; exact ⟨nofun, nofun, nofun, nofun⟩)
      have hworking : task.Working := ⟨hkind, by rw [hphase]; nofun⟩
      refine h.writeFlags (f := fun row => { row with s3CleanupPending := true }) ht
        (fun _ => rfl) (fun _ => rfl) (fun _ => rfl) (fun _ => rfl) (fun _ hp => hp)
        (.inl hworking) ⟨rfl, rfl, rfl⟩ (fun _ => hworking) nofun ?_ ?_
      · exact ⟨nofun, nofun⟩
      · exact phased_backup hkind nofun
  · next hphase =>
      obtain rfl := Option.some.inj hok
      exact h.storeTask ht (by rw [hphase]; exact ⟨nofun, nofun, nofun, nofun⟩)
  · next deleted hphase =>
      obtain rfl := Option.some.inj hok
      exact h.storeTask ht (by rw [hphase]; exact ⟨nofun, nofun, nofun, nofun⟩)
  · next cleaned hphase =>
      obtain rfl := Option.some.inj hok
      exact h.storeTask ht (by rw [hphase]; exact ⟨nofun, nofun, nofun, nofun⟩)
  · next locally s3 complete hphase =>
      obtain rfl := Option.some.inj hok
      refine h.retain ht fun hcomplete => ?_
      subst hcomplete
      exact hcareful task ht
  · next hphase =>
      obtain rfl := Option.some.inj hok
      exact h.throwTask ht (by rw [hphase]; exact ⟨nofun, nofun⟩)
  · next containers hphase =>
      obtain rfl := Option.some.inj hok
      exact h.throwTask ht (by rw [hphase]; exact ⟨nofun, nofun⟩)
  · next hphase =>
      obtain rfl := Option.some.inj hok
      exact h.throwTask ht (by rw [hphase]; exact ⟨nofun, nofun⟩)
  · next hphase =>
      obtain rfl := Option.some.inj hok
      exact h.throwTask ht (by rw [hphase]; exact ⟨nofun, nofun⟩)
  · next hphase =>
      obtain rfl := Option.some.inj hok
      exact h.throwTask ht (by rw [hphase]; exact ⟨nofun, nofun⟩)
  · next run hphase =>
      -- restart
      split at hok
      · next hallowed =>
          obtain rfl := Option.some.inj hok
          have hran := h.recovery hallowed.2
          have hopen : task.phase ≠ .stored ∧ task.phase ≠ .checked := by
            rw [hphase]
            exact ⟨nofun, nofun⟩
          have hphased := h.phased t task ht
          split
          · next hnone =>
              refine hran.goOn ht (fun _ => hopen.1) nofun (fun _ => ?_)
                (phased_late hphased rfl hopen.2 (.inr (.inl rfl)))
              simp [runRecovery, RecoveryRun.file, hnone]
          · exact hran.goOn ht (fun _ => hopen.1) nofun nofun
              (phased_late hphased rfl hopen.2 (.inl rfl))
      · cases hok
  · next hphase =>
      -- clear, after the recovery
      obtain rfl := Option.some.inj hok
      refine h.clear ht (h.gone t task ht (.inr hphase)) ?_ nofun ⟨nofun, nofun⟩ ?_
      · rw [hphase]
        nofun
      · exact phased_late (h.phased t task ht) rfl (by rw [hphase]; nofun) (.inl rfl)
  · next hphase =>
      -- cleanS3
      split at hok
      · obtain rfl := Option.some.inj hok
        refine h.writeFlags (f := fun row =>
            { row with s3CleanupPending := false, s3StorageDeleted := true }) ht
          (fun _ => rfl) (fun _ => rfl) (fun _ => rfl) (fun _ => rfl) (fun _ hp => hp)
          (.inr fun _ => rfl) ⟨rfl, rfl, rfl⟩ (fun hworking => hworking) ?_ ?_ ?_
        · intro containers hp
          exact nomatch hphase.symm.trans hp
        · show task.phase ≠ _ ∧ task.phase ≠ _
          rw [hphase]
          exact ⟨nofun, nofun⟩
        · exact h.phased t task ht
      · cases hok
  · next hphase =>
      obtain rfl := Option.some.inj hok
      exact h.goOn ht (fun _ => by rw [hphase]; nofun) nofun nofun
        (phased_late (h.phased t task ht) rfl (by rw [hphase]; nofun) (.inr (.inr rfl)))
  · next hphase =>
      obtain rfl := Option.some.inj hok
      exact h.goOn ht (fun _ => by rw [hphase]; nofun) nofun nofun
        (phased_late (h.phased t task ht) rfl (by rw [hphase]; nofun) (.inr (.inr rfl)))
  · next archiveDeleted hphase =>
      -- finish
      obtain rfl := Option.some.inj hok
      have hended := h.finishTask ht archiveDeleted
      split
      · exact { hended with }
      · exact hended
  · next hphase =>
      -- remove
      obtain rfl := Option.some.inj hok
      have hdeletion := (h.phased t task ht).1.mp hphase
      refine end_task (dropTask (h.deleteWhere fun row hrow hown => ?_) ht) (h.held t task ht)
      have hidle := h.removable t task ht hdeletion row hrow (beq_iff_eq.mp hown)
      exact ⟨hidle.1, not_needed hidle.2⟩
  · -- die
      obtain rfl := Option.some.inj hok
      exact { h.dropTask ht with }
  · cases hok

/-! ### Steps of the system -/

theorem mem_of_latestRunning {backup : Nat} {row : VolumeExecution}
    (hlatest : latestRunning s backup = some row) :
    row ∈ s.executions ∧ row.backup = backup ∧ row.status = .running := by
  obtain ⟨hrow, hp⟩ := List.mem_filter.mp (List.mem_of_getLast? hlatest)
  rw [Bool.and_eq_true, beq_iff_eq, beq_iff_eq] at hp
  exact ⟨hrow, hp⟩

theorem not_busy {row : VolumeExecution} (hidle : isBusy row = false) :
    row.status ≠ .running ∧ row.stopRecoveryPending = false := by
  simp only [isBusy, Bool.or_eq_false_iff, beq_eq_false_iff_ne] at hidle
  exact hidle.1

theorem volumeStep (h : Tracked s) {a : VolumeAction} {s' : VolumeState} (hcareful : Careful s a)
    (hok : volumeStep s a = some s') : Tracked s' := by
  cases a with
  | start t backup =>
      rw [OnePloy.volumeStep] at hok
      split at hok
      · next hfree =>
          obtain rfl := Option.some.inj hok
          exact h.start hfree.2.1 hfree.2.2
      · cases hok
  | recover t id =>
      rw [OnePloy.volumeStep] at hok
      split at hok
      · next row hfound =>
          split at hok
          · next hfree =>
              obtain rfl := Option.some.inj hok
              have hrow := List.mem_of_find?_eq_some hfound
              refine (h.takeLock (t := t) hfree.2).addTask nofun (h.ids row hrow) ?_
                (fun _ => Function.update_self ..) ⟨nofun, nofun⟩ nofun
                ⟨⟨nofun, nofun⟩, fun _ => .inl rfl⟩
              intro t' task' ht' hworking hexec
              have hheld := h.lock_of_working hrow ht' hworking hexec
              rw [hfree.2] at hheld
              cases hheld
          · cases hok
      · cases hok
  | failed t backup =>
      rw [OnePloy.volumeStep] at hok
      split at hok
      · next hfree =>
          have hcalled : Tracked { s with failing := s.failing.erase backup } := { h with }
          dsimp only at hok
          split at hok
          · next row hlatest =>
              obtain rfl := Option.some.inj hok
              obtain ⟨hrow, hback, -⟩ := mem_of_latestRunning hlatest
              refine hcalled.addTask nofun (h.ids row hrow) ?_ nofun ⟨nofun, nofun⟩ nofun
                ⟨⟨nofun, nofun⟩, fun _ => .inl rfl⟩
              intro t' task' ht' hworking hexec
              -- a job at work on the row holds the lock
              have hlock := h.lock_of_working hrow ht' hworking hexec
              have hidle := hcareful row hlatest
              rw [workedOn, ← hback, hlock, Option.bind_some, show s.tasks t' = some task' from ht',
                Option.any_some] at hidle
              have hstored : (task'.phase != .stored) = true := bne_iff_ne.mpr hworking.2
              rw [hworking.1, show task'.execution = row.id from hexec, hstored] at hidle
              simp at hidle
          · obtain rfl := Option.some.inj hok
            exact hcalled
      · cases hok
  | task t event =>
      rw [OnePloy.volumeStep] at hok
      split at hok
      · next task ht => exact h.taskStep ht hcareful hok
      · cases hok
  | expire backup =>
      rw [OnePloy.volumeStep] at hok
      split at hok
      · next t hlock =>
          split at hok
          · next hdead =>
              obtain rfl := Option.some.inj hok
              refine h.releaseLock fun t' task' ht' hkind hback => ?_
              have hheld := h.held t' task' ht' hkind
              rw [hback, hlock] at hheld
              obtain rfl := Option.some.inj hheld
              rw [hdead] at ht'
              cases ht'
          · cases hok
      · cases hok
  | cleanupFailed backup =>
      obtain rfl := Option.some.inj hok
      refine h.deleteWhere fun row _ hp => ?_
      simp only [failedRemovable, Bool.and_eq_true, beq_iff_eq, Bool.not_eq_true'] at hp
      refine ⟨?_, not_needed hp.1.1.2⟩
      rw [hp.1.1.1.2]
      nofun
  | cleanupDeleted backup =>
      obtain rfl := Option.some.inj hok
      refine h.deleteWhere fun row hrow hp => ⟨fun hrunning => ?_, hcareful row hrow hp⟩
      simp only [deletedRemovable, Bool.and_eq_true] at hp
      rw [h.kept row hrow hrunning] at hp
      cases hp.1.2
  | deleteBackup t id =>
      rw [OnePloy.volumeStep] at hok
      split at hok
      · next row hfound =>
          split at hok
          · next hfree =>
              obtain rfl := Option.some.inj hok
              have hrow := List.mem_of_find?_eq_some hfound
              obtain ⟨hstatus, hpending⟩ := not_busy hfree.2
              refine h.addTask nofun (h.ids row hrow) (fun t' task' ht' hworking =>
                h.not_working_of_row hrow hstatus ht' hworking) nofun ⟨nofun, nofun⟩ ?_
                ⟨⟨fun _ => rfl, fun _ => rfl⟩, fun _ => .inr (.inr (.inr rfl))⟩
              intro _ row' hrow' hid
              rw [h.unique hrow' hrow hid]
              exact ⟨hstatus, hpending⟩
          · cases hok
      · cases hok
  | deleteSchedule backup =>
      rw [OnePloy.volumeStep] at hok
      split at hok
      · next hfree =>
          obtain rfl := Option.some.inj hok
          have hleft := h.deleteWhere (p := (·.backup == backup)) fun row hrow hback =>
            (not_busy (hfree.2 row hrow (beq_iff_eq.mp hback))).imp_right not_needed
          exact { hleft with }
      · cases hok
  | up container =>
      obtain rfl := Option.some.inj hok
      refine { h with listed := fun c hc => ?_ }
      by_cases heq : c = container
      · subst heq
        simp at hc
      · exact h.listed c (by simpa [heq] using hc)

end Tracked

/-! ## Every run -/

/-- No job is at work and nothing is down because of one. -/
structure VolumeState.AtRest (s : VolumeState) : Prop where
  ids : ∀ row ∈ s.executions, row.id < s.nextId
  nodup : (s.executions.map VolumeExecution.id).Nodup
  kept : ∀ row ∈ s.executions, row.status = .running → row.localStorageDeleted = false
  idle : ∀ t, s.tasks t = none
  up : ∀ c, s.stopped c = false

theorem VolumeState.AtRest.tracked {s : VolumeState} (h : s.AtRest) : Tracked s := by
  have hidle : ∀ t task, s.tasks t ≠ some task := by
    intro t task ht
    rw [h.idle t] at ht
    cases ht
  exact {
    ids := h.ids
    nodup := h.nodup
    kept := h.kept
    known := fun t task ht => absurd ht (hidle t task)
    listed := by
      intro c hc
      rw [h.up c] at hc
      cases hc
    held := fun t task ht => absurd ht (hidle t task)
    working := fun t task ht => absurd ht (hidle t task)
    alone := fun t task ht => absurd ht (hidle t task)
    gone := fun t task ht => absurd ht (hidle t task)
    removable := fun t task ht => absurd ht (hidle t task)
    phased := fun t task ht => absurd ht (hidle t task) }

/-- In a careful run no container that a backup has stopped is forgotten. -/
theorem careful_run_forgets_none {s₀ s : VolumeState} (h₀ : s₀.AtRest)
    (hrun : Reaches volumeStep Careful s₀ s) : NoneForgotten s :=
  (hrun.invariant (I := Tracked) (fun _ _ _ h hcareful hok => h.volumeStep hcareful hok)
    h₀.tracked).noneForgotten

def oneSchedule : VolumeState where
  backups := [1]
  executions := []
  nextId := 0
  tasks := fun _ => none
  lock := fun _ => none
  failing := []
  stateFile := fun _ => none
  stopped := fun _ => false

theorem oneSchedule_atRest : oneSchedule.AtRest where
  ids := by
    intro row hrow
    cases hrow
  nodup := List.nodup_nil
  kept := by
    intro row hrow
    cases hrow
  idle := fun _ => rfl
  up := fun _ => rfl

/-- A worker that dies while two containers are down. -/
theorem dead_worker_forgets_none : ∃ s, Reaches volumeStep Careful oneSchedule s ∧
    (s.stopped 7 = true ∧ s.tasks 0 = none) ∧ NoneForgotten s := by
  obtain ⟨s, hrun, hs⟩ := exists_reaches_of_execIf volumeStep Careful oneSchedule
    [.start 0 1, .task 0 (.mark [7, 8]), .task 0 (.archive ⟨2, [7, 8], [8], false⟩), .task 0 .die,
      .expire 1]
    (fun s => s.stopped 7 && s.tasks 0 == none) (by decide +kernel)
  rw [Bool.and_eq_true, beq_iff_eq] at hs
  exact ⟨s, hrun, hs, careful_run_forgets_none oneSchedule_atRest hrun⟩

/-- Nobody will come back to a container that is down. -/
def isForgotten (s : VolumeState) (c : Nat) : Bool :=
  s.stopped c && s.executions.all fun row =>
    !((row.status == .running || row.stopRecoveryPending) && (s.listed row.id).contains c)

theorem not_noneForgotten {s : VolumeState} {c : Nat} (h : isForgotten s c = true) :
    ¬ NoneForgotten s := by
  intro hnone
  rw [isForgotten, Bool.and_eq_true, List.all_eq_true] at h
  obtain ⟨row, hrow, hbusy, hlisted⟩ := hnone c h.1
  have hlost := h.2 row hrow
  rw [List.contains_iff_mem.mpr hlisted, Bool.and_true, Bool.not_eq_true',
    Bool.or_eq_false_iff, beq_eq_false_iff_ne] at hlost
  rcases hbusy with hrunning | hpending
  · exact hlost.1 hrunning
  · rw [hlost.2] at hpending
    cases hpending

/-- A backup whose script is killed with container 7 down. -/
def brokenBackup : List VolumeAction :=
  [.start 0 1, .task 0 (.mark [7]), .task 0 (.archive ⟨1, [7], [], false⟩)]

/-- It fails; its archive is deleted and its recovery is still to come. -/
def failedBackup : List VolumeAction :=
  brokenBackup ++ [.task 0 .throw, .task 0 .settle, .task 0 (.finish true)]

/-- The actions run from one schedule to a state in which a container is forgotten. -/
def Forgetful (as : List VolumeAction) : Prop :=
  ∃ s, execIf volumeStep Any oneSchedule as = some s ∧ Reaches volumeStep Any oneSchedule s ∧
    ¬ NoneForgotten s

theorem forgetful_of_any {as : List VolumeAction}
    (h : (execIf volumeStep Any oneSchedule as).any (isForgotten · 7) = true) : Forgetful as := by
  obtain ⟨s, hs, hforgotten⟩ := (Option.any_eq_true ..).mp h
  exact ⟨s, hs, execIf_reaches hs, not_noneForgotten hforgotten⟩

/-- The runs that forget container 7: retention or `cleanupDeleted` takes the row,
the `failed()` of a dead job takes the mark of the next one, or the script is run
again and ends before it lists the container. -/
theorem forgetful_runs :
    Forgetful (failedBackup ++ [.start 1 1, .task 1 .archivePlain, .task 1 (.store .none),
      .task 1 (.retain [] [] true)]) ∧
    Forgetful (failedBackup ++ [.cleanupDeleted 1]) ∧
    Forgetful [.start 0 1, .task 0 .die, .expire 1, .start 1 1, .task 1 (.mark [7]), .failed 2 1,
      .task 2 (.restart ⟨[], some []⟩), .task 2 .clear, .task 2 .settle, .task 2 (.finish false),
      .task 1 (.archive ⟨1, [7], [], false⟩)] ∧
    Forgetful (brokenBackup ++ [.task 0 (.archive ⟨0, [], [], false⟩)]) := by
  refine ⟨forgetful_of_any ?_, forgetful_of_any ?_, forgetful_of_any ?_, forgetful_of_any ?_⟩
  all_goals decide +kernel

end OnePloy
