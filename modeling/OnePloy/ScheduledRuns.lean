import OnePloy.ScheduledJobManager

/-!
# Backups run once per due time

Each turn of the job touches one row's cache entry only, so one execution does
to a backup what the pre-check and `shouldRunCronNow` do to it alone
(`processChunks_spec`), and evaluates each enabled row once.
-/

namespace OnePloy

open Conc

variable {ev : Evaluation} {s : ScheduleStore} {i : Nat}

/-- What an execution leaves of one backup: its entry, and how often it has been
dispatched. -/
def ScheduleStore.about (s : ScheduleStore) (i : Nat) : Option CacheEntry × Nat :=
  (s.cache (.backup i), s.dispatched.count (.backup i))

namespace Evaluation

/-- The server is functional, and nothing else skips the row. -/
def isFunctional (ev : Evaluation) (server : ScheduleServer) : Bool :=
  (ev.serverSkipReason server).isNone

/-- What `shouldDispatch` and the dispatch that follows it do to a backup. -/
def fire (ev : Evaluation) (b : ScheduledDatabaseBackup) (server : ScheduleServer)
    (p : Option CacheEntry × Nat) : Option CacheEntry × Nat :=
  let cron := ev.expression b.frequency server
  let t := ev.executionTime
  if ev.isFunctional server then
    (some (CronExpression.newEntry t
        (if cron.fires t p.1 then t else cron.getPreviousRunDate t)),
      p.2 + if cron.fires t p.1 then 1 else 0)
  else p

/-- What an execution does to a backup. -/
def tick (ev : Evaluation) (b : ScheduledDatabaseBackup) (server : ScheduleServer)
    (p : Option CacheEntry × Nat) : Option CacheEntry × Nat :=
  let cron := ev.expression b.frequency server
  let t := ev.executionTime
  (cron.entryAfter t (ev.isFunctional server) p.1,
    p.2 + if cron.fires t p.1 && ev.isFunctional server then 1 else 0)

/-! ## One row -/

theorem processScheduledBackup_some {b : ScheduledDatabaseBackup} {server : ScheduleServer}
    (hb : b.server = some server) (id : Nat) :
    ev.processScheduledBackup s id b (some server) =
      if ev.isFunctional server then
        let fired := ev.shouldDispatch s b.frequency server (.backup id)
        { s with
          cache := fired.2
          dispatched := if fired.1 then s.dispatched ++ [.backup id] else s.dispatched }
      else s := by
  have hdatabase : b.hasDatabase = true := by
    by_contra hnone
    rw [ScheduledDatabaseBackup.server, if_neg hnone] at hb
    cases hb
  unfold processScheduledBackup getBackupSkipReason isFunctional
  simp only [hdatabase, Bool.not_true, Bool.false_eq_true, if_false, Option.some_or]
  cases ev.serverSkipReason server <;> rfl

theorem processScheduledBackup_none {b : ScheduledDatabaseBackup} (hb : b.server = none)
    (id : Nat) :
    ev.processScheduledBackup s id b none =
      { s with backups := s.backups.deleteWhere fun i _ => i == id } := by
  unfold processScheduledBackup getBackupSkipReason
  rw [Option.none_or, hb]
  cases b.hasDatabase <;> rfl

/-- A backup that is due. -/
theorem about_processScheduledBackup {b : ScheduledDatabaseBackup} {server : ScheduleServer}
    (hb : b.server = some server) (id : Nat) :
    (ev.processScheduledBackup s id b (some server)).about i =
      if id = i then ev.fire b server (s.about i) else s.about i := by
  rw [processScheduledBackup_some hb]
  unfold fire ScheduleStore.about shouldDispatch
  rw [ScheduleCache.shouldRunCronNow_some]
  by_cases hi : id = i
  · subst hi
    rw [if_pos rfl]
    cases ev.isFunctional server with
    | false => rfl
    | true =>
        simp only [if_true, Function.update_self]
        split <;> simp
  · have hne : ScheduleKey.backup i ≠ .backup id := by
      intro h
      injection h with h
      exact hi h.symm
    rw [if_neg hi]
    cases ev.isFunctional server with
    | false => rfl
    | true =>
        simp only [if_true, Function.update_of_ne hne]
        split <;> simp [hi]

/-! ## What is evaluated, and what is deleted -/

/-- The rows `es` are evaluated, and rows are deleted at most where `pb` and `pt`
do not hold. -/
structure Goes (pb pt : Nat → Bool) (es : List ScheduleKey) (s s' : ScheduleStore) : Prop where
  evaluated : s'.evaluated = s.evaluated ++ es
  backups : s'.backups.rows.filter (fun q => pb q.1) = s.backups.rows.filter fun q => pb q.1
  tasks : s'.tasks.rows.filter (fun q => pt q.1) = s.tasks.rows.filter fun q => pt q.1

variable {pb pt : Nat → Bool} {es es' : List ScheduleKey}

theorem Goes.refl (s : ScheduleStore) : Goes pb pt [] s s := ⟨(List.append_nil _).symm, rfl, rfl⟩

theorem Goes.trans {s' s'' : ScheduleStore} (h : Goes pb pt es s s') (h' : Goes pb pt es' s' s'') :
    Goes pb pt (es ++ es') s s'' where
  evaluated := by rw [h'.evaluated, h.evaluated, List.append_assoc]
  backups := h'.backups.trans h.backups
  tasks := h'.tasks.trans h.tasks

theorem deleteWhere_filter {ρ : Type*} (t : Table ρ) {p : Nat → Bool} {id : Nat}
    (hid : p id = false) :
    (t.deleteWhere fun i _ => i == id).rows.filter (fun q => p q.1) =
      t.rows.filter fun q => p q.1 := by
  rw [Table.deleteWhere, List.filter_filter]
  refine List.filter_congr fun q _ => ?_
  by_cases hq : q.1 = id
  · rw [hq, hid, Bool.false_and]
  · rw [beq_eq_false_iff_ne.mpr hq, Bool.not_false, Bool.and_true]

theorem goes_deleteBackup {id : Nat} (hid : pb id = false) (s : ScheduleStore) :
    Goes pb pt [] s { s with backups := s.backups.deleteWhere fun i _ => i == id } :=
  ⟨(List.append_nil _).symm, deleteWhere_filter _ hid, rfl⟩

theorem goes_deleteTask {id : Nat} (hid : pt id = false) (s : ScheduleStore) :
    Goes pb pt [] s { s with tasks := s.tasks.deleteWhere fun i _ => i == id } :=
  ⟨(List.append_nil _).symm, rfl, deleteWhere_filter _ hid⟩

theorem processScheduledBackup_goes {id : Nat} (hid : pb id = false) (s : ScheduleStore)
    (b : ScheduledDatabaseBackup) (server : Option ScheduleServer) :
    Goes pb pt [] s (ev.processScheduledBackup s id b server) := by
  have hskip : ∀ server, Goes pb pt [] s (ev.getBackupSkipReason s id b server).2 := by
    intro server
    unfold getBackupSkipReason
    split
    · exact goes_deleteBackup hid s
    · split
      · exact goes_deleteBackup hid s
      · exact .refl s
  unfold processScheduledBackup
  dsimp only
  split
  · exact ⟨(hskip _).evaluated, (hskip _).backups, (hskip _).tasks⟩
  · exact hskip _

theorem processScheduledTask_goes {id : Nat} (hid : pt id = false) (s : ScheduleStore)
    (task : ScheduledTask) (server : Option ScheduleServer) :
    Goes pb pt [] s (ev.processScheduledTask s id task server) := by
  have hskip : ∀ server, Goes pb pt [] s (ev.getTaskCriticalSkipReason s id task server).2 := by
    intro server
    unfold getTaskCriticalSkipReason
    dsimp only
    split
    · exact goes_deleteTask hid s
    · split
      · exact .refl s
      · split
        · exact goes_deleteTask hid s
        · exact .refl s
  unfold processScheduledTask
  dsimp only
  split
  · exact ⟨(hskip _).evaluated, (hskip _).backups, (hskip _).tasks⟩
  · exact hskip _

theorem dueScheduledBackup_goes {q : Nat × ScheduledDatabaseBackup} (hid : pb q.1 = false)
    (acc : ScheduleStore × DueBackups) :
    Goes pb pt [.backup q.1] acc.1 (ev.dueScheduledBackup acc q).1 := by
  have hlog : Goes pb pt [.backup q.1] acc.1
      { acc.1 with evaluated := acc.1.evaluated ++ [.backup q.1] } := ⟨rfl, rfl, rfl⟩
  unfold dueScheduledBackup
  dsimp only
  split
  · exact hlog.trans (processScheduledBackup_goes hid _ _ _)
  · exact ⟨hlog.evaluated, hlog.backups, hlog.tasks⟩

theorem dueScheduledTask_goes {q : Nat × ScheduledTask} (hid : pt q.1 = false)
    (acc : ScheduleStore × DueTasks) :
    Goes pb pt [.task q.1] acc.1 (ev.dueScheduledTask acc q).1 := by
  have hlog : Goes pb pt [.task q.1] acc.1
      { acc.1 with evaluated := acc.1.evaluated ++ [.task q.1] } := ⟨rfl, rfl, rfl⟩
  unfold dueScheduledTask
  dsimp only
  split
  · exact hlog.trans (processScheduledTask_goes hid _ _ _)
  · exact ⟨hlog.evaluated, hlog.backups, hlog.tasks⟩

/-- A loop whose turns evaluate a row each. -/
theorem foldl_goes {β γ : Type} {turn : ScheduleStore × γ → β → ScheduleStore × γ}
    {key : β → ScheduleKey} {rows : List β}
    (hturn : ∀ q ∈ rows, ∀ acc, Goes pb pt [key q] acc.1 (turn acc q).1)
    (acc : ScheduleStore × γ) : Goes pb pt (rows.map key) acc.1 (rows.foldl turn acc).1 := by
  induction rows generalizing acc with
  | nil => exact .refl acc.1
  | cons q rows ih =>
      have hfirst := hturn q (List.mem_cons_self ..) acc
      have hrest := ih (fun p hp => hturn p (List.mem_cons_of_mem _ hp)) (turn acc q)
      exact hfirst.trans hrest

/-- What is due comes from the chunk. -/
theorem mem_dueScheduledBackups {q : Nat × ScheduledDatabaseBackup × ScheduleServer}
    {rows : List (Nat × ScheduledDatabaseBackup)} {acc : ScheduleStore × DueBackups}
    (h : q ∈ (rows.foldl ev.dueScheduledBackup acc).2) :
    q ∈ acc.2 ∨ (q.1, q.2.1) ∈ rows ∧ q.2.1.server = some q.2.2 := by
  induction rows generalizing acc with
  | nil => exact Or.inl h
  | cons p rows ih =>
      rcases ih h with hacc | ⟨hmem, hserver⟩
      · unfold dueScheduledBackup at hacc
        dsimp only at hacc
        split at hacc
        · exact Or.inl hacc
        · next server hp =>
            dsimp only at hacc
            split at hacc
            · rcases List.mem_append.mp hacc with hacc | hacc
              · exact Or.inl hacc
              · obtain rfl := List.mem_singleton.mp hacc
                exact Or.inr ⟨List.mem_cons_self .., hp⟩
            · exact Or.inl hacc
      · exact Or.inr ⟨List.mem_cons_of_mem _ hmem, hserver⟩

theorem mem_dueScheduledTasks {q : Nat × ScheduledTask × ScheduleServer}
    {rows : List (Nat × ScheduledTask)} {acc : ScheduleStore × DueTasks}
    (h : q ∈ (rows.foldl ev.dueScheduledTask acc).2) :
    q ∈ acc.2 ∨ (q.1, q.2.1) ∈ rows := by
  induction rows generalizing acc with
  | nil => exact Or.inl h
  | cons p rows ih =>
      rcases ih h with hacc | hmem
      · unfold dueScheduledTask at hacc
        dsimp only at hacc
        split at hacc
        · exact Or.inl hacc
        · dsimp only at hacc
          split at hacc
          · rcases List.mem_append.mp hacc with hacc | hacc
            · exact Or.inl hacc
            · obtain rfl := List.mem_singleton.mp hacc
              exact Or.inr (List.mem_cons_self ..)
          · exact Or.inl hacc
      · exact Or.inr (List.mem_cons_of_mem _ hmem)

theorem processInterleavedDueSchedules_goes {dueBackups : DueBackups} {dueTasks : DueTasks}
    (hb : ∀ q ∈ dueBackups, pb q.1 = false) (ht : ∀ q ∈ dueTasks, pt q.1 = false)
    (s : ScheduleStore) :
    Goes pb pt [] s (ev.processInterleavedDueSchedules s dueBackups dueTasks) := by
  have hturn : ∀ s index, Goes pb pt [] s (ev.processInterleaved dueBackups dueTasks s index) := by
    intro s index
    have hfirst : Goes pb pt [] s ((dueBackups[index]?).elim s fun q =>
        ev.processScheduledBackup s q.1 q.2.1 (some q.2.2)) := by
      cases hq : dueBackups[index]? with
      | none => exact .refl s
      | some q => exact processScheduledBackup_goes (hb q (List.mem_of_getElem? hq)) s _ _
    refine hfirst.trans ?_
    unfold processInterleaved
    dsimp only
    cases hq : dueTasks[index]? with
    | none => exact .refl _
    | some q => exact processScheduledTask_goes (ht q (List.mem_of_getElem? hq)) _ _ _
  unfold processInterleavedDueSchedules
  dsimp only
  induction List.range (max dueBackups.length dueTasks.length) generalizing s with
  | nil => exact .refl s
  | cons index rest ih => exact (hturn s index).trans (ih _)

/-- A chunk is evaluated row by row, and nothing outside it is deleted. -/
theorem processChunk_goes {backups : List (Nat × ScheduledDatabaseBackup)}
    {tasks : List (Nat × ScheduledTask)} (hb : ∀ q ∈ backups, pb q.1 = false)
    (ht : ∀ q ∈ tasks, pt q.1 = false) (s : ScheduleStore) :
    Goes pb pt (backups.map (fun q => .backup q.1) ++ tasks.map fun q => .task q.1) s
      (ev.processChunk s backups tasks) := by
  have hbackups : Goes pb pt _ s (ev.dueScheduledBackups s backups).1 :=
    foldl_goes (fun q hq acc => dueScheduledBackup_goes (hb q hq) acc) (s, [])
  have htasks :
      Goes pb pt _ _ (ev.dueScheduledTasks (ev.dueScheduledBackups s backups).1 tasks).1 :=
    foldl_goes (fun q hq acc => dueScheduledTask_goes (ht q hq) acc) (_, [])
  have hdueBackups : ∀ q ∈ (ev.dueScheduledBackups s backups).2, pb q.1 = false := by
    intro q hq
    rcases mem_dueScheduledBackups hq with hnil | ⟨hmem, -⟩
    · cases hnil
    · exact hb _ hmem
  have hdueTasks : ∀ q ∈ (ev.dueScheduledTasks (ev.dueScheduledBackups s backups).1 tasks).2,
      pt q.1 = false := by
    intro q hq
    rcases mem_dueScheduledTasks hq with hnil | hmem
    · cases hnil
    · exact ht _ hmem
  have hprocess : Goes pb pt (_ ++ []) s (ev.processChunk s backups tasks) :=
    (hbackups.trans htasks).trans (processInterleavedDueSchedules_goes hdueBackups hdueTasks _)
  rwa [List.append_nil] at hprocess

/-! ## What happens to one backup -/

theorem about_processScheduledTask (s : ScheduleStore) (id : Nat) (task : ScheduledTask)
    (server : Option ScheduleServer) :
    (ev.processScheduledTask s id task server).about i = s.about i := by
  have hskip : ∀ server, (ev.getTaskCriticalSkipReason s id task server).2.about i = s.about i := by
    intro server
    unfold getTaskCriticalSkipReason
    dsimp only
    split
    · rfl
    · split
      · rfl
      · split <;> rfl
  unfold processScheduledTask
  dsimp only
  split
  · rw [← hskip (server.or task.server)]
    unfold ScheduleStore.about shouldDispatch
    rw [ScheduleCache.shouldRunCronNow_some]
    dsimp only
    rw [Function.update_of_ne (by nofun)]
    split <;> simp
  · exact hskip _

theorem about_dueScheduledTask (acc : ScheduleStore × DueTasks) (q : Nat × ScheduledTask) :
    (ev.dueScheduledTask acc q).1.about i = acc.1.about i := by
  unfold dueScheduledTask
  dsimp only
  split
  · rw [about_processScheduledTask]
    rfl
  · next server _ =>
      unfold isDueCandidate ScheduleStore.about
      rw [ScheduleCache.precheck_eq]
      dsimp only
      split
      · rfl
      · rw [Function.update_of_ne (by nofun)]

theorem about_foldl_dueScheduledTask (rows : List (Nat × ScheduledTask))
    (acc : ScheduleStore × DueTasks) :
    (rows.foldl ev.dueScheduledTask acc).1.about i = acc.1.about i := by
  induction rows generalizing acc with
  | nil => rfl
  | cons q rows ih => rw [List.foldl_cons, ih, about_dueScheduledTask]

/-- What is known of backup `i` while a chunk is pre-checked. -/
def dueView (i : Nat) (acc : ScheduleStore × DueBackups) : (Option CacheEntry × Nat) × DueBackups :=
  (acc.1.about i, acc.2.filter fun q => q.1 == i)

theorem dueView_other {q : Nat × ScheduledDatabaseBackup} (hq : q.1 ≠ i)
    (acc : ScheduleStore × DueBackups) :
    dueView i (ev.dueScheduledBackup acc q) = dueView i acc := by
  have hne : ScheduleKey.backup i ≠ .backup q.1 := by
    intro h
    injection h with h
    exact hq h.symm
  unfold dueScheduledBackup dueView
  dsimp only
  split
  · next hnone =>
      rw [processScheduledBackup_none hnone]
      rfl
  · unfold isDueCandidate ScheduleStore.about
    rw [ScheduleCache.precheck_eq]
    dsimp only
    split
    · rw [List.filter_append, List.filter_cons_of_neg (by simpa using hq), List.filter_nil,
        List.append_nil]
    · rw [Function.update_of_ne hne]

/-- What the pre-check does to it. -/
def checkView (ev : Evaluation) (i : Nat) (b : ScheduledDatabaseBackup) (server : ScheduleServer)
    (view : (Option CacheEntry × Nat) × DueBackups) : (Option CacheEntry × Nat) × DueBackups :=
  let cron := ev.expression b.frequency server
  let t := ev.executionTime
  if cron.fires t view.1.1 then (view.1, view.2 ++ [(i, b, server)])
  else ((some (CronExpression.newEntry t (cron.getPreviousRunDate t)), view.1.2), view.2)

theorem dueView_self {b : ScheduledDatabaseBackup} {server : ScheduleServer}
    (hb : b.server = some server) (acc : ScheduleStore × DueBackups) :
    dueView i (ev.dueScheduledBackup acc (i, b)) = ev.checkView i b server (dueView i acc) := by
  unfold checkView
  unfold dueScheduledBackup dueView
  dsimp only
  rw [hb]
  dsimp only
  unfold isDueCandidate ScheduleStore.about
  rw [ScheduleCache.precheck_eq]
  dsimp only
  split
  · rw [List.filter_append, List.filter_cons_of_pos (by simp), List.filter_nil]
  · rw [Function.update_self]

/-- A backup that is due is processed once, whatever its index. -/
theorem about_processInterleavedDueSchedules {dueBackups : DueBackups} {dueTasks : DueTasks}
    (hserver : ∀ q ∈ dueBackups, q.2.1.server = some q.2.2) (s : ScheduleStore) :
    (ev.processInterleavedDueSchedules s dueBackups dueTasks).about i =
      (dueBackups.filter fun q => q.1 == i).foldl (fun p q => ev.fire q.2.1 q.2.2 p)
        (s.about i) := by
  let turn := fun (p : Option CacheEntry × Nat)
      (q : Nat × ScheduledDatabaseBackup × ScheduleServer) =>
    if (q.1 == i) = true then ev.fire q.2.1 q.2.2 p else p
  have hturn : ∀ (s : ScheduleStore) (index : Nat),
      (dueBackups[index]?).elim (s.about i) (turn (s.about i)) =
        (ev.processInterleaved dueBackups dueTasks s index).about i := by
    intro s index
    unfold processInterleaved
    dsimp only
    have hsecond : ∀ s : ScheduleStore, ((dueTasks[index]?).elim s fun q =>
        ev.processScheduledTask s q.1 q.2.1 (some q.2.2)).about i = s.about i := by
      intro s
      cases dueTasks[index]? with
      | none => rfl
      | some q => exact about_processScheduledTask s _ _ _
    rw [hsecond]
    cases hq : dueBackups[index]? with
    | none => rfl
    | some q =>
        simp only [Option.elim_some, turn, beq_iff_eq]
        rw [about_processScheduledBackup (hserver q (List.mem_of_getElem? hq))]
  have hindices := foldl_range_getElem? turn
    (Nat.le_max_left dueBackups.length dueTasks.length) (s.about i)
  rw [List.foldl_filter, ← show dueBackups.foldl turn (s.about i) = _ from rfl, ← hindices]
  exact (List.foldl_hom (fun s : ScheduleStore => s.about i) hturn).symm

/-- A row without a server is not due. -/
theorem dueView_unserved {q : Nat × ScheduledDatabaseBackup} (hq : q.2.server = none)
    (acc : ScheduleStore × DueBackups) :
    dueView i (ev.dueScheduledBackup acc q) = dueView i acc := by
  unfold dueScheduledBackup dueView
  dsimp only
  rw [hq]
  dsimp only
  rw [processScheduledBackup_none hq]
  rfl

theorem about_processChunk_of_unserved {backups : List (Nat × ScheduledDatabaseBackup)}
    {tasks : List (Nat × ScheduledTask)} (hi : ∀ b, (i, b) ∈ backups → b.server = none)
    (s : ScheduleStore) : (ev.processChunk s backups tasks).about i = s.about i := by
  have hview : dueView i (ev.dueScheduledBackups s backups) = dueView i (s, []) := by
    refine foldl_unchanged (fun q hq acc => ?_) (s, [])
    by_cases hqi : q.1 = i
    · exact dueView_unserved (hi q.2 (hqi ▸ hq)) acc
    · exact dueView_other hqi acc
  obtain ⟨habout, hdue⟩ := Prod.mk.inj hview
  unfold processChunk
  dsimp only
  rw [about_processInterleavedDueSchedules]
  · rw [hdue, List.filter_nil, List.foldl_nil, dueScheduledTasks, about_foldl_dueScheduledTask,
      habout]
  · intro q hq
    rcases mem_dueScheduledBackups hq with hnil | ⟨-, hserver⟩
    · cases hnil
    · exact hserver

theorem about_processChunk_of_mem {backups : List (Nat × ScheduledDatabaseBackup)}
    {tasks : List (Nat × ScheduledTask)} {b : ScheduledDatabaseBackup} {server : ScheduleServer}
    (hnodup : (backups.map Prod.fst).Nodup) (hmem : (i, b) ∈ backups)
    (hb : b.server = some server) (s : ScheduleStore) :
    (ev.processChunk s backups tasks).about i = ev.tick b server (s.about i) := by
  have hview : dueView i (ev.dueScheduledBackups s backups) =
      ev.checkView i b server (dueView i (s, [])) := by
    have hother : ∀ (acc : ScheduleStore × DueBackups) (q : Nat × ScheduledDatabaseBackup),
        Prod.fst q ≠ i → dueView i (ev.dueScheduledBackup acc q) = dueView i acc :=
      fun acc _ hq => dueView_other hq acc
    exact foldl_of_mem hother (dueView_self hb) rfl hnodup hmem (s, [])
  have hserver : ∀ q ∈ (ev.dueScheduledBackups s backups).2, q.2.1.server = some q.2.2 := by
    intro q hq
    rcases mem_dueScheduledBackups hq with hnil | ⟨-, hserver⟩
    · cases hnil
    · exact hserver
  unfold processChunk
  dsimp only
  rw [about_processInterleavedDueSchedules hserver, dueScheduledTasks, about_foldl_dueScheduledTask]
  unfold dueView checkView at hview
  dsimp only at hview
  unfold tick CronExpression.entryAfter
  split at hview
  · next hfires =>
      obtain ⟨habout, hdue⟩ := Prod.mk.inj hview
      rw [hdue, habout]
      simp only [List.filter_nil, List.nil_append, List.foldl_cons, List.foldl_nil, fire, hfires,
        if_true, Bool.true_and]
      cases ev.isFunctional server <;> rfl
  · next hquiet =>
      obtain ⟨habout, hdue⟩ := Prod.mk.inj hview
      rw [hdue, habout, List.filter_nil, List.foldl_nil]
      simp only [hquiet, Bool.false_eq_true, if_false, Bool.false_and, Nat.add_zero]

end Evaluation

/-! ## The loop over the chunks -/

namespace ScheduleStore

/-- The enabled rows of a table behind a key, and what the next query finds of
them once the chunk has been gone through. -/
theorem select_isAfter {ρ : Type*} {t : Table ρ} (t' : Table ρ) (isEnabled : ρ → Bool)
    (lastId : Option Nat) (m : Nat) {rows : List (Nat × ρ)} {nextId : Option Nat}
    (hrows : rows = t.select fun id r => isEnabled r && isAfter lastId id)
    (hnext : nextId = ((rows.take m).getLast?.map (·.1)).or lastId) :
    (∀ q ∈ rows.take m, isAfter nextId q.1 = false) ∧
      (t'.rows.filter (fun q => isAfter nextId q.1) = t.rows.filter (fun q => isAfter nextId q.1) →
        t'.select (fun id r => isEnabled r && isAfter nextId id) = rows.drop m) := by
  have hselect : ∀ t : Table ρ, (t.select fun id r => isEnabled r && isAfter nextId id) =
      (t.rows.filter fun q => isAfter nextId q.1).filter fun q => isEnabled q.2 := by
    intro t
    rw [Table.select, List.filter_filter]
  have hsorted : (rows.map Prod.fst).Pairwise (· < ·) := by
    rw [hrows]
    exact t.sorted.sublist (List.filter_sublist.map Prod.fst)
  cases hlast : (rows.take m).getLast? with
  | none =>
      rw [List.getLast?_eq_none_iff] at hlast
      rw [hlast, List.getLast?_nil, Option.map_none, Option.none_or] at hnext
      subst hnext
      refine ⟨by simp [hlast], fun hsame => ?_⟩
      rw [hselect t', hsame, ← hselect t, ← hrows]
      calc rows = rows.take m ++ rows.drop m := (List.take_append_drop m rows).symm
        _ = rows.drop m := by rw [hlast, List.nil_append]
  | some q =>
      rw [hlast, Option.map_some, Option.some_or] at hnext
      subst hnext
      have hq : q ∈ rows := List.mem_of_mem_take (List.mem_of_getLast? hlast)
      have hafter : isAfter lastId q.1 = true := by
        rw [hrows, Table.mem_select, Bool.and_eq_true] at hq
        exact hq.2.2
      constructor
      · intro p hp
        have hle := le_getLast (hsorted.sublist ((List.take_sublist m rows).map _)) hlast p hp
        simpa [isAfter] using hle
      · intro hsame
        rw [hselect t', hsame, ← hselect t, ← filter_lt_getLast hsorted hlast, hrows, Table.select,
          Table.select, List.filter_filter]
        refine List.filter_congr fun p _ => ?_
        by_cases hlt : q.1 < p.1
        · have hp : isAfter lastId p.1 = true := by
            cases lastId with
            | none => rfl
            | some n =>
                simp only [isAfter, Option.all_some, decide_eq_true_eq] at hafter ⊢
                omega
          simp [isAfter, hlt, show Option.all (fun x => decide (x < p.1)) lastId = true from hp]
        · simp [isAfter, hlt]

end ScheduleStore

/-- The rows `backups` and `tasks` have been evaluated, each once. -/
structure Swept (ev : Evaluation) (backups : List (Nat × ScheduledDatabaseBackup))
    (tasks : List (Nat × ScheduledTask)) (s s' : ScheduleStore) : Prop where
  evaluated : s'.evaluated.Perm
    (s.evaluated ++ (backups.map (fun q => .backup q.1) ++ tasks.map fun q => .task q.1))
  about_of_unserved : ∀ {i}, (∀ b, (i, b) ∈ backups → b.server = none) → s'.about i = s.about i
  about_of_mem : ∀ {i b server}, (i, b) ∈ backups → b.server = some server →
    s'.about i = ev.tick b server (s.about i)

theorem Swept.append {backups backups' : List (Nat × ScheduledDatabaseBackup)}
    {tasks tasks' : List (Nat × ScheduledTask)} {s' s'' : ScheduleStore}
    (hnodup : ((backups ++ backups').map Prod.fst).Nodup) (h : Swept ev backups tasks s s')
    (h' : Swept ev backups' tasks' s' s'') :
    Swept ev (backups ++ backups') (tasks ++ tasks') s s'' := by
  rw [List.map_append, List.nodup_append] at hnodup
  have hapart : ∀ q ∈ backups, ∀ q' ∈ backups', q.1 ≠ q'.1 := fun q hq q' hq' =>
    hnodup.2.2 q.1 (List.mem_map_of_mem hq) q'.1 (List.mem_map_of_mem hq')
  refine ⟨?_, fun hi => ?_, fun hmem hb => ?_⟩
  · refine h'.evaluated.trans ((h.evaluated.append_right _).trans ?_)
    simp only [List.map_append, List.append_assoc]
    refine (List.Perm.refl _).append ((List.Perm.refl _).append ?_)
    rw [← List.append_assoc, ← List.append_assoc]
    exact List.perm_append_comm.append_right _
  · rw [h'.about_of_unserved fun b hb => hi b (List.mem_append_right _ hb),
      h.about_of_unserved fun b hb => hi b (List.mem_append_left _ hb)]
  · rcases List.mem_append.mp hmem with hmem | hmem
    · rw [h'.about_of_unserved fun _ hq => (hapart _ hmem _ hq rfl).elim, h.about_of_mem hmem hb]
    · rw [h'.about_of_mem hmem hb, h.about_of_unserved fun _ hq => (hapart _ hq _ hmem rfl).elim]

namespace Evaluation

theorem processChunk_swept {backups : List (Nat × ScheduledDatabaseBackup)}
    {tasks : List (Nat × ScheduledTask)} (hnodup : (backups.map Prod.fst).Nodup)
    (s : ScheduleStore) : Swept ev backups tasks s (ev.processChunk s backups tasks) where
  evaluated := by
    have hgoes : Goes (fun _ => false) (fun _ => false) _ s (ev.processChunk s backups tasks) :=
      processChunk_goes (fun _ _ => rfl) (fun _ _ => rfl) s
    rw [hgoes.evaluated]
  about_of_unserved hi := about_processChunk_of_unserved hi s
  about_of_mem hmem hb := about_processChunk_of_mem hnodup hmem hb s

/-- One turn of the loop evaluates the first chunks of what is pending, and the rest
is pending behind the last rows of them. -/
theorem processChunk_pending (s : ScheduleStore) (lastBackupId lastTaskId : Option Nat) :
    let s₁ := ev.processChunk s (s.scheduledBackupQuery lastBackupId)
      (s.scheduledTaskQuery lastTaskId)
    s₁.pendingBackups (((s.scheduledBackupQuery lastBackupId).getLast?.map (·.1)).or lastBackupId) =
        (s.pendingBackups lastBackupId).drop ScheduleStore.chunkSize ∧
      s₁.pendingTasks (((s.scheduledTaskQuery lastTaskId).getLast?.map (·.1)).or lastTaskId) =
        (s.pendingTasks lastTaskId).drop ScheduleStore.chunkSize ∧
      Swept ev ((s.pendingBackups lastBackupId).take ScheduleStore.chunkSize)
        ((s.pendingTasks lastTaskId).take ScheduleStore.chunkSize) s s₁ := by
  intro s₁
  have hnodup : ((s.pendingBackups lastBackupId).map Prod.fst).Nodup := s.backups.select_nodup _
  obtain ⟨hpastBackups, hnextBackups⟩ := ScheduleStore.select_isAfter s₁.backups
    (·.enabled) lastBackupId ScheduleStore.chunkSize rfl rfl
  obtain ⟨hpastTasks, hnextTasks⟩ := ScheduleStore.select_isAfter s₁.tasks
    (·.enabled) lastTaskId ScheduleStore.chunkSize rfl rfl
  have hgoes : Goes _ _ _ s s₁ := processChunk_goes hpastBackups hpastTasks s
  exact ⟨hnextBackups hgoes.backups, hnextTasks hgoes.tasks,
    processChunk_swept (hnodup.sublist ((List.take_sublist _ _).map _)) s⟩

/-- Enough turns end the loop, and what was pending has been evaluated. -/
theorem processChunks_spec {fuel : Nat} {lastBackupId lastTaskId : Option Nat}
    (hfuel : (s.pendingBackups lastBackupId).length + (s.pendingTasks lastTaskId).length < fuel) :
    ∃ s', ev.processChunks fuel lastBackupId lastTaskId s = some s' ∧
      Swept ev (s.pendingBackups lastBackupId) (s.pendingTasks lastTaskId) s s' := by
  induction fuel generalizing lastBackupId lastTaskId s with
  | zero => exact absurd hfuel (Nat.not_lt_zero _)
  | succ fuel ih =>
      have hnodup : ((s.pendingBackups lastBackupId).map Prod.fst).Nodup :=
        s.backups.select_nodup _
      let nextBackupId := ((s.scheduledBackupQuery lastBackupId).getLast?.map (·.1)).or lastBackupId
      let nextTaskId := ((s.scheduledTaskQuery lastTaskId).getLast?.map (·.1)).or lastTaskId
      let s₁ := ev.processChunk s (s.scheduledBackupQuery lastBackupId)
        (s.scheduledTaskQuery lastTaskId)
      obtain ⟨hbackups, htasks, hchunk⟩ : s₁.pendingBackups nextBackupId = _ ∧
        s₁.pendingTasks nextTaskId = _ ∧ Swept ev _ _ s s₁ :=
          processChunk_pending s lastBackupId lastTaskId
      have hstep : ev.processChunks (fuel + 1) lastBackupId lastTaskId s =
          if (s.scheduledBackupQuery lastBackupId).isEmpty &&
            (s.scheduledTaskQuery lastTaskId).isEmpty then some s₁
          else ev.processChunks fuel nextBackupId nextTaskId s₁ := rfl
      rw [hstep]
      split
      · next hdone =>
          rw [Bool.and_eq_true, List.isEmpty_iff, List.isEmpty_iff] at hdone
          have hnil : ∀ {α : Type} {l : List α}, l.take ScheduleStore.chunkSize = [] → l = [] := by
            intro α l hl
            rcases List.take_eq_nil_iff.mp hl with h | h
            · cases h
            · exact h
          have hb := hnil hdone.1
          have ht := hnil hdone.2
          rw [hb, ht, List.take_nil, List.take_nil] at hchunk
          rw [hb, ht]
          exact ⟨s₁, rfl, hchunk⟩
      · next hmore =>
          have hlen : (s₁.pendingBackups nextBackupId).length +
              (s₁.pendingTasks nextTaskId).length < fuel := by
            have hsome : 0 < (s.pendingBackups lastBackupId).length +
                (s.pendingTasks lastTaskId).length := by
              by_contra hzero
              have hb : s.pendingBackups lastBackupId = [] := List.length_eq_zero_iff.mp (by omega)
              have ht : s.pendingTasks lastTaskId = [] := List.length_eq_zero_iff.mp (by omega)
              refine hmore ?_
              rw [ScheduleStore.scheduledBackupQuery, ScheduleStore.scheduledTaskQuery, hb, ht]
              rfl
            rw [hbackups, htasks, List.length_drop, List.length_drop, ScheduleStore.chunkSize]
            omega
          obtain ⟨s', hs', hrest⟩ := ih hlen
          rw [hbackups, htasks] at hrest
          refine ⟨s', hs', ?_⟩
          rw [← List.take_append_drop ScheduleStore.chunkSize (s.pendingBackups lastBackupId),
            ← List.take_append_drop ScheduleStore.chunkSize (s.pendingTasks lastTaskId)]
          refine hchunk.append ?_ hrest
          rw [List.take_append_drop]
          exact hnodup

end Evaluation

end OnePloy
