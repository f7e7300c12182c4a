import OnePloy.ScheduledBackups

/-!
# A backup whose frequency is edited

The cache entry of a backup holds an instant that the old frequency, or an
execution, has put there, and the first execution after an edit compares it with
what is due under the new frequency. So the backup is dispatched for an instant
before the edit whenever the new frequency is due between the two, and not again
since the edit (`edit_fires_iff`).
-/

namespace OnePloy

open Conc

/-- Nothing has become due since the edit, but something is overdue: under the new
frequency an instant lies between the cached one and the edit, or, where no
instant is cached, the minute of the execution is due. -/
def OverdueAtEdit (due : Int → Prop) (entry : Option CacheEntry) (edit t : Int) : Prop :=
  (∀ d, due d → d ≤ t → d ≤ edit) ∧
    match entry.filter (·.isAlive t) with
    | some cached => ∃ d, due d ∧ cached.value < d ∧ d ≤ edit
    | none => due (t / minute * minute)

theorem minute_le (t : Int) : t / minute * minute ≤ t := by
  unfold minute second
  omega

/-- The schedule fires for what is due since the edit, and for what is overdue. -/
theorem fires_after_edit {cron : CronExpression} {due : Int → Prop} (hdue : cron.DueAt due)
    {edit t : Int} (hedit : edit ≤ t) (entry : Option CacheEntry) :
    (cron.fires t entry = true → ∃ d, due d ∧ edit < d ∧ d ≤ t) ↔
      ¬ OverdueAtEdit due entry edit t := by
  unfold CronExpression.fires OverdueAtEdit
  constructor
  · rintro hfires ⟨hquiet, hoverdue⟩
    have hpast : ¬ ∃ d, due d ∧ edit < d ∧ d ≤ t := by
      rintro ⟨d, hd, hlt, hle⟩
      have := hquiet d hd hle
      omega
    refine hpast (hfires ?_)
    cases hentry : entry.filter (·.isAlive t) with
    | none =>
        rw [hentry] at hoverdue
        exact (hdue.isDue t).mpr hoverdue
    | some cached =>
        rw [hentry] at hoverdue
        obtain ⟨d, hd, hlt, hle⟩ := hoverdue
        have := hdue.le_previous t d hd (hle.trans hedit)
        simp only [Option.map_some, decide_eq_true_eq]
        omega
  · intro hsettled hfires
    by_contra hpast
    refine hsettled ⟨fun d hd hle => ?_, ?_⟩
    · by_contra hlt
      exact hpast ⟨d, hd, by omega, hle⟩
    · cases hentry : entry.filter (·.isAlive t) with
      | none =>
          rw [hentry] at hfires
          exact (hdue.isDue t).mp hfires
      | some cached =>
          rw [hentry] at hfires
          simp only [Option.map_some, decide_eq_true_eq] at hfires
          refine ⟨_, hdue.previous t, hfires, ?_⟩
          by_contra hlt
          exact hpast ⟨_, hdue.previous t, by omega, hdue.previous_le t⟩

variable {cron : CronLibrary} {cfg : ScheduleConfig} {i : Nat}

/-- A backup that is not enabled or has no server is not dispatched. -/
theorem Execution.run_unscheduled {e : Execution} {cache : ScheduleCache}
    (h : ∀ expression timezone, ¬ e.Schedules cfg i expression timezone) {s : ScheduleStore}
    (hs : e.run cron cfg cache = some s) : .backup i ∉ s.dispatched := by
  obtain ⟨s', hs', hswept⟩ := e.run_swept cron cfg cache
  obtain rfl := Option.some.inj (hs.symm.trans hs')
  have hunserved : ∀ b, (i, b) ∈ (e.store cache).pendingBackups none → b.server = none := by
    intro b hb
    obtain ⟨hget, henabled⟩ := Table.mem_select.mp hb
    cases hserver : b.server with
    | none => rfl
    | some server =>
        rw [Bool.and_eq_true] at henabled
        exact absurd ⟨b, server, hget, henabled.1, hserver, rfl, rfl⟩ (h _ _)
  have habout := hswept.about_of_unserved hunserved
  have hcount : s.dispatched.count (.backup i) = 0 := (Prod.mk.inj habout).2
  rwa [List.count_eq_zero] at hcount

theorem Execution.Schedules.unique {e : Execution}
    {expression timezone expression' timezone' : String}
    (h : e.Schedules cfg i expression timezone) (h' : e.Schedules cfg i expression' timezone') :
    expression = expression' ∧ timezone = timezone' := by
  obtain ⟨b, server, hget, -, hserver, rfl, rfl⟩ := h
  obtain ⟨b', server', hget', -, hserver', rfl, rfl⟩ := h'
  obtain rfl := Option.some.inj (hget.symm.trans hget')
  obtain rfl := Option.some.inj (hserver.symm.trans hserver')
  exact ⟨rfl, rfl⟩

/-- After any history, the first execution after an edit dispatches a backup for
what is due since the edit only, exactly where nothing is overdue or the backup is
skipped. The rows of `e` are those after the edit. -/
theorem edit_fires_iff (cron : CronLibrary) (cfg : ScheduleConfig) (cache : ScheduleCache)
    (es : List Execution) (e : Execution) (i : Nat) (edit : Int)
    (due : String → String → Int → Prop)
    (hdue : ∀ expression timezone, e.Schedules cfg i expression timezone →
      (cron expression timezone).DueAt (due expression timezone))
    (hedit : edit ≤ e.time) :
    ∃ cache' s, Execution.runs cron cfg cache es = some cache' ∧ e.run cron cfg cache' = some s ∧
      ((.backup i ∈ s.dispatched → ∃ expression timezone d,
          e.Schedules cfg i expression timezone ∧ due expression timezone d ∧
            edit < d ∧ d ≤ e.time) ↔
        ∀ expression timezone, e.Schedules cfg i expression timezone →
          e.isFunctional cron cfg i = true →
            ¬ OverdueAtEdit (due expression timezone) (cache' (.backup i)) edit e.time) := by
  obtain ⟨cache', hruns⟩ : ∃ cache', Execution.runs cron cfg cache es = some cache' :=
    Execution.runs_isSome cache es
  obtain ⟨s, hs, -⟩ := e.run_swept cron cfg cache'
  refine ⟨cache', s, hruns, hs, ?_⟩
  by_cases hscheduled : ∃ expression timezone, e.Schedules cfg i expression timezone
  · obtain ⟨expression, timezone, hrow⟩ := hscheduled
    have hfires := fires_after_edit (hdue _ _ hrow) hedit (cache' (.backup i))
    have hdispatched : .backup i ∈ s.dispatched ↔
        (cron expression timezone).fires e.time (cache' (.backup i)) = true ∧
          e.isFunctional cron cfg i = true := by
      rw [← List.count_pos_iff, (Execution.run_schedule hrow hs).2, ← Bool.and_eq_true]
      split
      · next h => exact iff_of_true Nat.one_pos h
      · next h => exact iff_of_false (Nat.lt_irrefl 0) h
    rw [hdispatched]
    constructor
    · intro h expression' timezone' hrow' hfunctional
      obtain ⟨rfl, rfl⟩ := hrow.unique hrow'
      refine hfires.mp fun hfired => ?_
      obtain ⟨expression', timezone', d, hrow'', hd, hlt, hle⟩ := h ⟨hfired, hfunctional⟩
      obtain ⟨rfl, rfl⟩ := hrow.unique hrow''
      exact ⟨d, hd, hlt, hle⟩
    · rintro h ⟨hfired, hfunctional⟩
      obtain ⟨d, hd, hlt, hle⟩ := hfires.mpr (h _ _ hrow hfunctional) hfired
      exact ⟨expression, timezone, d, hrow, hd, hlt, hle⟩
  · have hnone : ∀ expression timezone, ¬ e.Schedules cfg i expression timezone :=
      fun expression timezone hrow => hscheduled ⟨expression, timezone, hrow⟩
    exact iff_of_true (fun h => absurd h (Execution.run_unscheduled hnone hs))
      fun expression timezone hrow => absurd hrow (hnone expression timezone)

/-! ## An example -/

/-- Every day, so many minutes after midnight. -/
def dailyAt (m : Int) : CronExpression where
  isDue t := (t / minute - m) % 1440 == 0
  getPreviousRunDate t := (t - m * minute) / (1440 * minute) * (1440 * minute) + m * minute

def DueDaily (m d : Int) : Prop := (d - m * minute) % (1440 * minute) = 0

instance (m : Int) : DecidablePred (DueDaily m) := fun d =>
  inferInstanceAs (Decidable ((d - m * minute) % (1440 * minute) = 0))

theorem dailyAt_dueAt (m : Int) : (dailyAt m).DueAt (DueDaily m) where
  whole d hd := by
    unfold DueDaily minute second at hd
    unfold minute second
    omega
  isDue t := by
    rw [dailyAt, beq_iff_eq, DueDaily]
    unfold minute second
    omega
  previous t := by
    unfold DueDaily dailyAt minute second
    dsimp only
    omega
  previous_le t := by
    unfold dailyAt minute second
    dsimp only
    omega
  le_previous t d hd hle := by
    unfold DueDaily minute second at hd
    unfold dailyAt minute second
    dsimp only
    omega

/-- At two, or at ten. -/
def twoOrTen : CronLibrary := fun expression _ =>
  if expression = "0 2 * * *" then dailyAt 120 else dailyAt 600

/-- One backup, some minutes after midnight. -/
def backupWith (frequency : String) (m : Int) : Execution where
  time := m * minute
  backups := Table.empty.insert ⟨true, frequency, true, some ⟨true, none, false⟩⟩
  tasks := .empty

/-- At noon a backup is moved from two to ten o'clock; it is next due at ten the
day after. -/
theorem edit_fires_iff_overnight :
    ∃ cache s, Execution.runs twoOrTen utc (fun _ => none) [backupWith "0 2 * * *" 180] =
        some cache ∧
      (backupWith "0 10 * * *" 2040).run twoOrTen utc cache = some s ∧
      (.backup 1 ∈ s.dispatched → ∃ expression timezone d,
        (backupWith "0 10 * * *" 2040).Schedules utc 1 expression timezone ∧ DueDaily 600 d ∧
          720 * minute < d ∧ d ≤ 2040 * minute) := by
  have hschedules : ∀ expression timezone,
      (backupWith "0 10 * * *" 2040).Schedules utc 1 expression timezone →
        expression = "0 10 * * *" := by
    intro expression timezone h
    exact (Execution.Schedules.unique h ⟨_, _, rfl, rfl, rfl, rfl, rfl⟩).1
  obtain ⟨cache, s, hruns, hs, hiff⟩ := edit_fires_iff twoOrTen utc (fun _ => none)
    [backupWith "0 2 * * *" 180] (backupWith "0 10 * * *" 2040) 1 (720 * minute)
    (fun _ _ => DueDaily 600)
    (fun expression timezone h => by rw [hschedules _ _ h]; exact dailyAt_dueAt 600)
    (by decide)
  refine ⟨cache, s, hruns, hs, hiff.mpr fun _ _ _ _ hoverdue => ?_⟩
  have hdue : DueDaily 600 (2040 * minute) := by decide
  exact absurd (hoverdue.1 _ hdue (by decide)) (by decide)

/-- At noon it is moved from two to ten o'clock, and dispatched a minute later. -/
theorem edit_fires_for_the_past :
    ((Execution.runs twoOrTen utc (fun _ => none) [backupWith "0 2 * * *" 180]).bind
      ((backupWith "0 10 * * *" 721).run twoOrTen utc)).any
        (·.dispatched.contains (.backup 1)) = true ∧
    ¬ ∃ d, DueDaily 600 d ∧ 720 * minute < d ∧ d ≤ 721 * minute := by
  refine ⟨by decide +kernel, ?_⟩
  rintro ⟨d, hd, hlt, hle⟩
  unfold DueDaily minute second at hd
  unfold minute second at hlt hle
  omega

end OnePloy
