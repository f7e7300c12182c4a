import OnePloy.ScheduledRuns

/-!
# Backups run once per due time

A run is a list of executions, each with the rows and servers it finds. What
one of them leaves of a backup's cache entry is what `ScheduledCron` says of one
schedule, so a backup is dispatched if and only if something has become due since
the last execution that found its server functional (`backups_once_per_due_time`).
An outage must not outlast the cache entry: what became due in it is caught up as
long as the entry, last written before the first of it, is less than 30 days old.
-/

namespace OnePloy

open Conc

/-- The job at a time, with the rows it finds. -/
structure Execution where
  time : Int
  backups : Table ScheduledDatabaseBackup
  tasks : Table ScheduledTask

namespace Execution

variable (cron : CronLibrary) (cfg : ScheduleConfig) (e : Execution)

def evaluation : Evaluation := ⟨cron, cfg, e.time⟩

def store (cache : ScheduleCache) : ScheduleStore := ⟨e.backups, e.tasks, cache, [], []⟩

def run (cache : ScheduleCache) : Option ScheduleStore :=
  (e.evaluation cron cfg).processScheduledBackupsAndTasks (e.store cache)

/-- The cache after some executions. -/
def runs (cache : ScheduleCache) (es : List Execution) : Option ScheduleCache :=
  es.foldlM (fun cache e => (e.run cron cfg cache).map (·.cache)) cache

def isEnabled : ScheduleKey → Bool
  | .backup id => (e.backups.get? id).any (·.enabled)
  | .task id => (e.tasks.get? id).any (·.enabled)

/-- Backup `i` is enabled, has a server, and is due by this expression and timezone. -/
def Schedules (i : Nat) (expression timezone : String) : Prop :=
  ∃ b server, e.backups.get? i = some b ∧ b.enabled = true ∧ b.server = some server ∧
    normalizeFrequency b.frequency = expression ∧ server.timezone cfg = timezone

/-- The backup's server is functional. -/
def isFunctional (i : Nat) : Bool :=
  (e.backups.get? i).any fun b => b.server.any (e.evaluation cron cfg).isFunctional

/-- Later, by less than 30 days. -/
def Next (a b : Execution) : Prop := a.time < b.time ∧ b.time < a.time + cacheTtl

/-- What the schedule of a backup sees of an execution. -/
def tick (i : Nat) (e : Execution) : Tick := ⟨e.time, e.isFunctional cron cfg i⟩

end Execution

variable {cron : CronLibrary} {cfg : ScheduleConfig} {e : Execution} {cache : ScheduleCache}
  {i : Nat} {expression timezone : String}

namespace Execution

/-! ## One execution -/

theorem run_swept (cron : CronLibrary) (cfg : ScheduleConfig) (e : Execution)
    (cache : ScheduleCache) :
    ∃ s, e.run cron cfg cache = some s ∧
      Swept (e.evaluation cron cfg) ((e.store cache).pendingBackups none)
        ((e.store cache).pendingTasks none) (e.store cache) s :=
  Evaluation.processChunks_spec (Nat.lt_succ_self _)

theorem mem_pending (key : ScheduleKey) :
    key ∈ ((e.store cache).pendingBackups none).map (fun q => .backup q.1) ++
        ((e.store cache).pendingTasks none).map (fun q => .task q.1) ↔ e.isEnabled key = true := by
  cases key with
  | backup id =>
      simp only [ScheduleStore.pendingBackups, ScheduleStore.pendingTasks, ScheduleStore.isAfter,
        store, isEnabled, List.mem_append, List.mem_map, Prod.exists, Table.mem_select,
        Option.any_eq_true]
      simp
  | task id =>
      simp only [ScheduleStore.pendingBackups, ScheduleStore.pendingTasks, ScheduleStore.isAfter,
        store, isEnabled, List.mem_append, List.mem_map, Prod.exists, Table.mem_select,
        Option.any_eq_true]
      simp

theorem nodup_pending :
    (((e.store cache).pendingBackups none).map (fun q => ScheduleKey.backup q.1) ++
      ((e.store cache).pendingTasks none).map fun q => ScheduleKey.task q.1).Nodup := by
  have hbackups := (e.store cache).backups.select_nodup fun id b =>
    b.enabled && ScheduleStore.isAfter none id
  have htasks := (e.store cache).tasks.select_nodup fun id task =>
    task.enabled && ScheduleStore.isAfter none id
  refine List.nodup_append.mpr ⟨?_, ?_, ?_⟩
  · have := hbackups.map (f := ScheduleKey.backup) fun a b h => by injection h
    rwa [List.map_map] at this
  · have := htasks.map (f := ScheduleKey.task) fun a b h => by injection h
    rwa [List.map_map] at this
  · intro a ha b hb
    obtain ⟨q, -, rfl⟩ := List.mem_map.mp ha
    obtain ⟨r, -, rfl⟩ := List.mem_map.mp hb
    nofun

/-- The loop ends, and each enabled row has been evaluated once. -/
theorem run_evaluates (cron : CronLibrary) (cfg : ScheduleConfig) (e : Execution)
    (cache : ScheduleCache) :
    ∃ s, e.run cron cfg cache = some s ∧
      ∀ key, s.evaluated.count key = if e.isEnabled key then 1 else 0 := by
  obtain ⟨s, hs, hswept⟩ := e.run_swept cron cfg cache
  refine ⟨s, hs, fun key => ?_⟩
  have hnone : (e.store cache).evaluated = [] := rfl
  have hevaluated := hswept.evaluated.count_eq key
  rw [hnone, List.nil_append] at hevaluated
  rw [hevaluated, nodup_pending.count]
  exact if_congr (mem_pending key) rfl rfl

/-- What it does to one backup. -/
theorem run_schedule (h : e.Schedules cfg i expression timezone) {s : ScheduleStore}
    (hs : e.run cron cfg cache = some s) :
    s.cache (.backup i) = (cron expression timezone).entryAfter e.time
        (e.isFunctional cron cfg i) (cache (.backup i)) ∧
      s.dispatched.count (.backup i) =
        if (cron expression timezone).fires e.time (cache (.backup i)) &&
          e.isFunctional cron cfg i then 1 else 0 := by
  obtain ⟨b, server, hget, henabled, hserver, rfl, rfl⟩ := h
  obtain ⟨s', hs', hswept⟩ := e.run_swept cron cfg cache
  obtain rfl := Option.some.inj (hs.symm.trans hs')
  have hmem : (i, b) ∈ (e.store cache).pendingBackups none :=
    Table.mem_select.mpr ⟨hget, by rw [henabled]; rfl⟩
  have hfunctional : e.isFunctional cron cfg i = (e.evaluation cron cfg).isFunctional server := by
    rw [isFunctional, hget, Option.any_some, hserver, Option.any_some]
  obtain ⟨hcache, hcount⟩ := Prod.mk.inj (hswept.about_of_mem hmem hserver)
  rw [hfunctional]
  refine ⟨hcache, hcount.trans ?_⟩
  rw [ScheduleStore.about, store, List.count_nil, Nat.zero_add]
  rfl

/-! ## Runs -/

theorem runs_append (cache : ScheduleCache) (es es' : List Execution) :
    runs cron cfg cache (es ++ es') =
      (runs cron cfg cache es).bind fun cache => runs cron cfg cache es' := by
  rw [runs, List.foldlM_append]
  rfl

theorem runs_isSome (cache : ScheduleCache) (es : List Execution) :
    ∃ cache', runs cron cfg cache es = some cache' := by
  induction es generalizing cache with
  | nil => exact ⟨cache, rfl⟩
  | cons e es ih =>
      obtain ⟨s, hs, -⟩ := e.run_swept cron cfg cache
      obtain ⟨cache', hrest⟩ := ih s.cache
      refine ⟨cache', ?_⟩
      rw [runs, List.foldlM_cons, hs]
      exact hrest

/-- What a run does to the entry of one backup. -/
theorem runs_schedule {es : List Execution} (h : ∀ e ∈ es, e.Schedules cfg i expression timezone)
    {cache' : ScheduleCache} (hruns : runs cron cfg cache es = some cache') :
    cache' (.backup i) = (cron expression timezone).run (es.map (tick cron cfg i))
      (cache (.backup i)) := by
  induction es generalizing cache with
  | nil =>
      obtain rfl := Option.some.inj hruns
      rfl
  | cons e es ih =>
      obtain ⟨s, hs, -⟩ := e.run_swept cron cfg cache
      have hrest : runs cron cfg s.cache es = some cache' := by
        rw [runs, List.foldlM_cons, hs] at hruns
        exact hruns
      rw [ih (fun e he => h e (List.mem_cons_of_mem _ he)) hrest,
        (run_schedule (h e (List.mem_cons_self ..)) hs).1]
      rfl

end Execution

/-- In every run, from one functional execution to the next: the loops end, the
backup is dispatched if and only if something has become due in between, and then
once; the pre-check lets through what `shouldRunCronNow` would fire; each enabled
row is evaluated once. -/
theorem backups_once_per_due_time (cron : CronLibrary) (cfg : ScheduleConfig)
    (cache : ScheduleCache) (before ms : List Execution) (f e : Execution) (i : Nat)
    {due : Int → Prop} (hdue : (cron expression timezone).DueAt due)
    (hnext : (before ++ f :: (ms ++ [e])).IsChain Execution.Next)
    (hrow : ∀ x ∈ f :: (ms ++ [e]), x.Schedules cfg i expression timezone)
    (hf : f.isFunctional cron cfg i = true) (hms : ∀ m ∈ ms, m.isFunctional cron cfg i = false)
    (he : e.isFunctional cron cfg i = true)
    (hfresh : ∃ u ∈ f :: ms, (∀ d, due d → d ≤ u.time → d ≤ f.time) ∧
      e.time < u.time + cacheTtl) :
    (∃ cache' s, Execution.runs cron cfg cache (before ++ f :: ms) = some cache' ∧
      e.run cron cfg cache' = some s ∧
      (.backup i ∈ s.dispatched ↔ ∃ d, due d ∧ f.time < d ∧ d ≤ e.time) ∧
      s.dispatched.count (.backup i) ≤ 1) ∧
    (∀ (cache : ScheduleCache) (cron : CronExpression) (key : ScheduleKey) (t : Int),
      (cache.isDueCandidateBeforeExpensiveChecks cron key t).1 =
        (cache.shouldRunCronNow cron (some key) t).1) ∧
    ∀ (x : Execution) (cache : ScheduleCache), ∃ s, x.run cron cfg cache = some s ∧
      ∀ key, s.evaluated.count key = if x.isEnabled key then 1 else 0 := by
  refine ⟨?_, fun cache cron key t => ?_, fun x cache => x.run_evaluates cron cfg cache⟩
  · obtain ⟨cache₀, hbefore⟩ : ∃ cache₀, Execution.runs cron cfg cache before = some cache₀ :=
      Execution.runs_isSome cache before
    obtain ⟨cache', hsince⟩ : ∃ cache', Execution.runs cron cfg cache₀ (f :: ms) = some cache' :=
      Execution.runs_isSome cache₀ (f :: ms)
    obtain ⟨s, hs, -⟩ := e.run_swept cron cfg cache'
    have hentry := Execution.runs_schedule (fun x hx => hrow x (List.mem_append_left [e] hx)) hsince
    have hcount := (Execution.run_schedule (hrow e (by simp)) hs).2
    let tick := Execution.tick cron cfg i
    have hticks : (tick f :: (ms.map tick ++ [tick e])).IsChain Tick.Next := by
      have hlist : (f :: (ms ++ [e])).map tick = tick f :: (ms.map tick ++ [tick e]) := by
        rw [List.map_cons, List.map_append, List.map_singleton]
      rw [← hlist, List.isChain_map]
      exact (List.isChain_append.mp hnext).2.1
    have hskipped : ∀ m ∈ ms.map tick, m.isFunctional = false := by
      intro m hm
      obtain ⟨x, hx, rfl⟩ := List.mem_map.mp hm
      exact hms x hx
    have hwritten : ∃ u ∈ tick f :: ms.map tick,
        (∀ d, due d → d ≤ u.time → d ≤ (tick f).time) ∧ (tick e).time < u.time + cacheTtl := by
      obtain ⟨u, hu, hquiet, hfresh⟩ := hfresh
      refine ⟨tick u, ?_, hquiet, hfresh⟩
      rw [← List.map_cons]
      exact List.mem_map_of_mem hu
    have hfires := fires_iff_due hdue hticks hf hskipped hwritten (cache₀ (.backup i))
    rw [← List.map_cons, ← hentry] at hfires
    refine ⟨cache', s, ?_, hs, ?_, ?_⟩
    · rw [Execution.runs_append, hbefore, Option.bind_some, hsince]
    · rw [← List.count_pos_iff, hcount, he, Bool.and_true]
      refine Iff.trans ?_ hfires
      split
      · next hfired => exact iff_of_true Nat.one_pos hfired
      · next hquiet => exact iff_of_false (Nat.lt_irrefl 0) hquiet
    · rw [hcount]
      split <;> omega
  · rw [ScheduleCache.precheck_eq, ScheduleCache.shouldRunCronNow_some]

/-! ## An example -/

/-- Every day at two. -/
def dailyAtTwo : CronExpression where
  isDue t := (t / minute - 120) % 1440 == 0
  getPreviousRunDate t := (t - 120 * minute) / (1440 * minute) * (1440 * minute) + 120 * minute

def IsTwo (d : Int) : Prop := (d - 120 * minute) % (1440 * minute) = 0

instance : DecidablePred IsTwo := fun d =>
  inferInstanceAs (Decidable ((d - 120 * minute) % (1440 * minute) = 0))

theorem dailyAtTwo_dueAt : dailyAtTwo.DueAt IsTwo where
  whole d hd := by
    unfold IsTwo minute second at hd
    unfold minute second
    omega
  isDue t := by
    rw [dailyAtTwo, beq_iff_eq, IsTwo]
    unfold minute second
    omega
  previous t := by
    unfold IsTwo dailyAtTwo minute second
    dsimp only
    omega
  previous_le t := by
    unfold dailyAtTwo minute second
    dsimp only
    omega
  le_previous t d hd hle := by
    unfold IsTwo minute second at hd
    unfold dailyAtTwo minute second
    dsimp only
    omega

def utc : ScheduleConfig := ⟨"UTC", fun _ => true, false⟩

/-- One backup every day at two, on a server that is functional or not. -/
def backupAt (day : Int) (isFunctional : Bool) : Execution where
  time := day * 1440 * minute + 180 * minute
  backups := Table.empty.insert ⟨true, "0 2 * * *", true, some ⟨isFunctional, none, false⟩⟩
  tasks := .empty

theorem backupAt_schedules (day : Int) (isFunctional : Bool) :
    (backupAt day isFunctional).Schedules utc 1 "0 2 * * *" "UTC" :=
  ⟨_, _, rfl, rfl, rfl, rfl, rfl⟩

theorem backupAt_next {a b : Int} (hlt : a < b) (hgap : b < a + 30) (f g : Bool) :
    (backupAt a f).Next (backupAt b g) := by
  unfold backupAt Execution.Next cacheTtl minute second
  dsimp only
  omega

/-- A day's outage is caught up. -/
theorem backups_once_after_outage :
    ∃ cache s, Execution.runs (fun _ _ => dailyAtTwo) utc (fun _ => none)
        [backupAt 0 true, backupAt 1 false] = some cache ∧
      (backupAt 2 true).run (fun _ _ => dailyAtTwo) utc cache = some s ∧
      .backup 1 ∈ s.dispatched := by
  have hnext : [backupAt 0 true, backupAt 1 false, backupAt 2 true].IsChain Execution.Next := by
    refine List.isChain_cons_cons.mpr ⟨backupAt_next (by decide) (by decide) .., ?_⟩
    exact List.isChain_pair.mpr (backupAt_next (by decide) (by decide) ..)
  have hrow : ∀ x ∈ [backupAt 0 true, backupAt 1 false, backupAt 2 true],
      x.Schedules utc 1 "0 2 * * *" "UTC" := by
    simp [backupAt_schedules]
  obtain ⟨⟨cache, s, hruns, hs, hdispatched, -⟩, -, -⟩ :=
    backups_once_per_due_time (fun _ _ => dailyAtTwo) utc (fun _ => none) [] [backupAt 1 false]
      (backupAt 0 true) (backupAt 2 true) 1 dailyAtTwo_dueAt hnext hrow rfl (by simp; rfl) rfl
      ⟨backupAt 0 true, List.mem_cons_self .., fun _ _ hle => hle, by decide⟩
  refine ⟨cache, s, hruns, hs, hdispatched.mpr ⟨1440 * minute + 120 * minute, ?_, ?_, ?_⟩⟩
  all_goals decide

/-- A server is out of order for 35 days. The due times it misses are not caught
up: the cache entry has expired in between. -/
theorem long_outage_not_caught_up :
    ¬ ∀ (cron : CronLibrary) (cfg : ScheduleConfig) (cache : ScheduleCache)
      (before ms : List Execution) (f e : Execution) (i : Nat) (expression timezone : String)
      (due : Int → Prop) (cache' : ScheduleCache) (s : ScheduleStore),
      (cron expression timezone).DueAt due →
      (before ++ f :: (ms ++ [e])).IsChain Execution.Next →
      (∀ x ∈ f :: (ms ++ [e]), x.Schedules cfg i expression timezone) →
      f.isFunctional cron cfg i = true → (∀ m ∈ ms, m.isFunctional cron cfg i = false) →
      e.isFunctional cron cfg i = true →
      Execution.runs cron cfg cache (before ++ f :: ms) = some cache' →
      e.run cron cfg cache' = some s →
      (.backup i ∈ s.dispatched ↔ ∃ d, due d ∧ f.time < d ∧ d ≤ e.time) := by
  intro h
  have hnext : [backupAt 0 true, backupAt 20 false, backupAt 35 true].IsChain Execution.Next := by
    refine List.isChain_cons_cons.mpr ⟨backupAt_next (by decide) (by decide) .., ?_⟩
    exact List.isChain_pair.mpr (backupAt_next (by decide) (by decide) ..)
  have hrow : ∀ x ∈ [backupAt 0 true, backupAt 20 false, backupAt 35 true],
      x.Schedules utc 1 "0 2 * * *" "UTC" := by
    simp [backupAt_schedules]
  have hmissed : ((Execution.runs (fun _ _ => dailyAtTwo) utc (fun _ => none)
      [backupAt 0 true, backupAt 20 false]).bind
        ((backupAt 35 true).run (fun _ _ => dailyAtTwo) utc)).any (·.dispatched.isEmpty) = true := by
    decide +kernel
  obtain ⟨s, hs, hnone⟩ := (Option.any_eq_true ..).mp hmissed
  obtain ⟨cache', hruns, hrun⟩ := Option.bind_eq_some_iff.mp hs
  have hiff := h (fun _ _ => dailyAtTwo) utc (fun _ => none) [] [backupAt 20 false]
    (backupAt 0 true) (backupAt 35 true) 1 _ _ IsTwo cache' s dailyAtTwo_dueAt hnext hrow rfl
    (by simp; rfl) rfl hruns hrun
  rw [List.isEmpty_iff.mp hnone] at hiff
  refine absurd (hiff.mpr ⟨1440 * minute + 120 * minute, ?_, ?_, ?_⟩) List.not_mem_nil
  all_goals decide

end OnePloy
