import Mathlib

/-!
# Schedules and their cache entries

A scheduled row has one cache entry: a time that all due times up to have been
dealt with. `shouldRunCronNow` reads and writes it, and so does the pre-check,
which lets through exactly what `shouldRunCronNow` would fire. The cron library is
a parameter, of which `DueAt` is what its documentation says. Times are
microseconds.

`Settles` is the invariant of the entry, from one execution that finds the
server functional to the next; `fires_iff_due` is what follows from it.
-/

namespace OnePloy

inductive ScheduleKey
  | backup (id : Nat)
  | task (id : Nat)
deriving DecidableEq

/-- `Cron\CronExpression`, for one expression and timezone. -/
structure CronExpression where
  isDue : Int → Bool
  /-- With `allowCurrentDate`. -/
  getPreviousRunDate : Int → Int

/-- By expression and timezone. -/
abbrev CronLibrary := String → String → CronExpression

structure CacheEntry where
  value : Int
  expiresAt : Int
deriving DecidableEq

abbrev ScheduleCache := ScheduleKey → Option CacheEntry

def second : Int := 1000000

def minute : Int := 60 * second

/-- 30 days. -/
def cacheTtl : Int := 2592000 * second

/-- `Carbon::parse($t->toIso8601String())`: the text ends with the seconds. -/
def isoTime (t : Int) : Int := t / second * second

def CacheEntry.isAlive (now : Int) (entry : CacheEntry) : Bool := decide (now < entry.expiresAt)

namespace ScheduleCache

variable (cache : ScheduleCache)

def get (now : Int) (key : ScheduleKey) : Option Int :=
  ((cache key).filter (·.isAlive now)).map (·.value)

def put (now : Int) (key : ScheduleKey) (time : Int) : ScheduleCache :=
  Function.update cache key (some ⟨isoTime time, now + cacheTtl⟩)

/-- Whether the schedule fires, and the cache afterwards. -/
def shouldRunCronNow (cron : CronExpression) (dedupKey : Option ScheduleKey) (t : Int) :
    Bool × ScheduleCache :=
  match dedupKey with
  | none => (cron.isDue t, cache)
  | some key =>
      let previousDue := cron.getPreviousRunDate t
      let shouldFire := match cache.get t key with
        | none => cron.isDue t
        | some lastDispatched => decide (lastDispatched < previousDue)
      (shouldFire, cache.put t key (if shouldFire then t else previousDue))

def isDueCandidateBeforeExpensiveChecks (cron : CronExpression) (key : ScheduleKey) (t : Int) :
    Bool × ScheduleCache :=
  let previousDue := cron.getPreviousRunDate t
  match cache.get t key with
  | none =>
      let isDue := cron.isDue t
      (isDue, if isDue then cache else cache.put t key previousDue)
  | some lastDispatched =>
      let shouldFire := decide (lastDispatched < previousDue)
      (shouldFire, if shouldFire then cache else cache.put t key previousDue)

end ScheduleCache

/-! ## One entry -/

namespace CronExpression

variable (cron : CronExpression)

def newEntry (now time : Int) : CacheEntry := ⟨isoTime time, now + cacheTtl⟩

/-- What both functions ask of the entry they read. -/
def fires (t : Int) (entry : Option CacheEntry) : Bool :=
  match (entry.filter (·.isAlive t)).map (·.value) with
  | none => cron.isDue t
  | some lastDispatched => decide (lastDispatched < cron.getPreviousRunDate t)

/-- The entry after an execution: the pre-check, and `shouldRunCronNow` if the
row is not skipped between the two. -/
def entryAfter (t : Int) (isFunctional : Bool) (entry : Option CacheEntry) : Option CacheEntry :=
  if cron.fires t entry then
    if isFunctional then some (newEntry t t) else entry
  else some (newEntry t (cron.getPreviousRunDate t))

end CronExpression

namespace ScheduleCache

variable {cron : CronExpression} {cache : ScheduleCache} {key : ScheduleKey} {t : Int}

theorem shouldRunCronNow_some :
    cache.shouldRunCronNow cron (some key) t =
      (cron.fires t (cache key), Function.update cache key (some (CronExpression.newEntry t
        (if cron.fires t (cache key) then t else cron.getPreviousRunDate t)))) := rfl

theorem precheck_eq :
    cache.isDueCandidateBeforeExpensiveChecks cron key t =
      (cron.fires t (cache key), if cron.fires t (cache key) then cache else
        Function.update cache key
          (some (CronExpression.newEntry t (cron.getPreviousRunDate t)))) := by
  unfold isDueCandidateBeforeExpensiveChecks CronExpression.fires get
  cases ((cache key).filter (·.isAlive t)).map (·.value) <;> rfl

end ScheduleCache

/-! ## What the library promises -/

/-- The expression is due at the whole minutes in `due`: `isDue` asks about the
minute that has begun, `getPreviousRunDate` finds the latest of them. -/
structure CronExpression.DueAt (cron : CronExpression) (due : Int → Prop) : Prop where
  whole : ∀ d, due d → minute ∣ d
  isDue : ∀ t, cron.isDue t = true ↔ due (t / minute * minute)
  previous : ∀ t, due (cron.getPreviousRunDate t)
  previous_le : ∀ t, cron.getPreviousRunDate t ≤ t
  le_previous : ∀ t d, due d → d ≤ t → d ≤ cron.getPreviousRunDate t

theorem isoTime_le (t : Int) : isoTime t ≤ t := by
  unfold isoTime second
  omega

theorem isoTime_whole {d : Int} (h : minute ∣ d) : isoTime d = d := by
  unfold minute second at h
  unfold isoTime second
  omega

theorem le_isoTime {d t : Int} (h : minute ∣ d) (hle : d ≤ t) : d ≤ isoTime t := by
  unfold minute second at h
  unfold isoTime second
  omega

/-! ## The invariant of an entry -/

/-- All due times up to `last` are dealt with, and none after it. -/
structure CacheEntry.Settles (cron : CronExpression) (last : Int) (entry : CacheEntry) : Prop where
  previous_le : cron.getPreviousRunDate last ≤ entry.value
  value_le : entry.value ≤ last

/-- There is such an entry, written at `since` or later. -/
def Held (cron : CronExpression) (last since : Int) (entry : Option CacheEntry) : Prop :=
  ∃ c, entry = some c ∧ c.Settles cron last ∧ since + cacheTtl ≤ c.expiresAt

variable {cron : CronExpression} {due : Int → Prop} {last since t : Int}
  {entry : Option CacheEntry}

theorem Held.fires_eq (h : Held cron last since entry) (hfresh : t < since + cacheTtl) :
    ∃ c, entry = some c ∧ c.Settles cron last ∧
      cron.fires t entry = decide (c.value < cron.getPreviousRunDate t) := by
  obtain ⟨c, rfl, hsettles, hexpires⟩ := h
  have halive : c.isAlive t = true := by
    rw [CacheEntry.isAlive, decide_eq_true_eq]
    omega
  exact ⟨c, rfl, hsettles, by simp [CronExpression.fires, Option.filter, halive]⟩

/-- Fires if and only if something has become due. -/
theorem Held.fires_iff (hdue : cron.DueAt due) (h : Held cron last since entry)
    (hfresh : t < since + cacheTtl) :
    cron.fires t entry = true ↔ ∃ d, due d ∧ last < d ∧ d ≤ t := by
  obtain ⟨c, -, hsettles, hfires⟩ := h.fires_eq hfresh
  rw [hfires, decide_eq_true_eq]
  constructor
  · intro hlt
    refine ⟨_, hdue.previous t, ?_, hdue.previous_le t⟩
    by_contra hle
    have := hdue.le_previous last _ (hdue.previous t) (by omega)
    have := hsettles.previous_le
    omega
  · rintro ⟨d, hd, hlast, hle⟩
    have := hdue.le_previous t d hd hle
    have := hsettles.value_le
    omega

/-- Whatever an execution finds, it leaves a settled entry if the server is
functional. -/
theorem held_functional (hdue : cron.DueAt due) (t : Int) (entry : Option CacheEntry) :
    Held cron t t (cron.entryAfter t true entry) := by
  unfold CronExpression.entryAfter
  split
  · refine ⟨_, if_pos rfl, ⟨?_, isoTime_le t⟩, le_refl _⟩
    exact le_isoTime (hdue.whole _ (hdue.previous t)) (hdue.previous_le t)
  · have hvalue := isoTime_whole (hdue.whole _ (hdue.previous t))
    exact ⟨_, rfl, ⟨hvalue.ge, hvalue.le.trans (hdue.previous_le t)⟩, le_refl _⟩

/-- One that is skipped keeps it, and writes it anew unless something has become
due. -/
theorem Held.skipped (hdue : cron.DueAt due) (h : Held cron last since entry)
    (hlast : last ≤ t) (hsince : since ≤ t) (hfresh : t < since + cacheTtl) :
    Held cron last since (cron.entryAfter t false entry) ∧
      ((∀ d, due d → d ≤ t → d ≤ last) → Held cron last t (cron.entryAfter t false entry)) := by
  have hiff := h.fires_iff hdue hfresh
  obtain ⟨c, rfl, hsettles, hfires⟩ := h.fires_eq hfresh
  have hvalue := isoTime_whole (hdue.whole _ (hdue.previous t))
  unfold CronExpression.entryAfter
  split
  · next hfired =>
      refine ⟨h, fun hnone => ?_⟩
      obtain ⟨d, hd, hlt, hle⟩ := hiff.mp hfired
      have := hnone d hd hle
      omega
  · next hquiet =>
      rw [hfires, decide_eq_true_eq, not_lt] at hquiet
      have hprevious := hdue.le_previous t _ (hdue.previous last)
        ((hdue.previous_le last).trans hlast)
      have hnew : (CronExpression.newEntry t (cron.getPreviousRunDate t)).Settles cron last :=
        ⟨hprevious.trans hvalue.ge, hvalue.le.trans (hquiet.trans hsettles.value_le)⟩
      refine ⟨⟨_, rfl, hnew, ?_⟩, fun _ => ⟨_, rfl, hnew, le_refl _⟩⟩
      exact Int.add_le_add_right hsince _

/-! ## Executions -/

/-- One execution, as the schedule sees it. -/
structure Tick where
  time : Int
  isFunctional : Bool

/-- Later, by less than 30 days. -/
def Tick.Next (a b : Tick) : Prop := a.time < b.time ∧ b.time < a.time + cacheTtl

def CronExpression.run (cron : CronExpression) (ticks : List Tick) (entry : Option CacheEntry) :
    Option CacheEntry :=
  ticks.foldl (fun entry tick => cron.entryAfter tick.time tick.isFunctional entry) entry

theorem Tick.lt_of_isChain {ticks : List Tick} (h : ticks.IsChain Tick.Next) :
    ticks.Pairwise fun a b => a.time < b.time := by
  have htrans : IsTrans Tick fun a b => a.time < b.time := ⟨fun _ _ _ => lt_trans⟩
  exact List.isChain_iff_pairwise.mp (h.imp fun _ _ hnext => hnext.1)

/-- Nothing has become due up to `u`: each execution writes the entry anew. -/
theorem Held.run_quiet (hdue : cron.DueAt due) {u : Tick}
    (hquiet : ∀ d, due d → d ≤ u.time → d ≤ last) {ticks : List Tick} {first : Tick}
    (hchain : (first :: (ticks ++ [u])).IsChain Tick.Next)
    (hticks : ∀ m ∈ ticks ++ [u], m.isFunctional = false) (hlast : last ≤ first.time)
    (h : Held cron last first.time entry) :
    Held cron last u.time (cron.run (ticks ++ [u]) entry) := by
  induction ticks generalizing first entry with
  | nil =>
      obtain ⟨⟨hlt, hgap⟩, -⟩ := List.isChain_cons_cons.mp hchain
      have hnext := (h.skipped hdue (hlast.trans hlt.le) hlt.le hgap).2 hquiet
      rwa [← hticks u (List.mem_singleton_self u)] at hnext
  | cons m ticks ih =>
      obtain ⟨⟨hlt, hgap⟩, hrest⟩ := List.isChain_cons_cons.mp hchain
      have hbefore : m.time < u.time :=
        List.rel_of_pairwise_cons (Tick.lt_of_isChain hrest) (by simp)
      have hnone : ∀ d, due d → d ≤ m.time → d ≤ last :=
        fun d hd hdm => hquiet d hd (hdm.trans hbefore.le)
      have hnext := (h.skipped hdue (hlast.trans hlt.le) hlt.le hgap).2 hnone
      rw [← hticks m (List.mem_cons_self ..)] at hnext
      exact ih hrest (fun n hn => hticks n (List.mem_cons_of_mem _ hn)) (hlast.trans hlt.le) hnext

/-- Less than 30 days after it was written the entry is still there. -/
theorem Held.run_kept (hdue : cron.DueAt due) {ticks : List Tick}
    (hticks : ∀ m ∈ ticks, m.isFunctional = false ∧ last ≤ m.time ∧ since ≤ m.time ∧
      m.time < since + cacheTtl)
    (h : Held cron last since entry) : Held cron last since (cron.run ticks entry) := by
  induction ticks generalizing entry with
  | nil => exact h
  | cons m ticks ih =>
      obtain ⟨hm, hlast, hsince, hfresh⟩ := hticks m (List.mem_cons_self ..)
      have hnext := (h.skipped hdue hlast hsince hfresh).1
      rw [← hm] at hnext
      exact ih (fun n hn => hticks n (List.mem_cons_of_mem _ hn)) hnext

/-- From one functional execution to the next: it fires if and only if something
has become due since, provided that some execution before all that is less than 30
days ago. -/
theorem fires_iff_due (hdue : cron.DueAt due) {f e : Tick} {ms : List Tick}
    (hchain : (f :: (ms ++ [e])).IsChain Tick.Next) (hf : f.isFunctional = true)
    (hms : ∀ m ∈ ms, m.isFunctional = false)
    (hfresh : ∃ u ∈ f :: ms, (∀ d, due d → d ≤ u.time → d ≤ f.time) ∧
      e.time < u.time + cacheTtl) (entry : Option CacheEntry) :
    cron.fires e.time (cron.run (f :: ms) entry) = true ↔
      ∃ d, due d ∧ f.time < d ∧ d ≤ e.time := by
  obtain ⟨u, hu, hquiet, hfresh⟩ := hfresh
  have hsorted := List.pairwise_cons.mp (Tick.lt_of_isChain hchain)
  obtain ⟨hafter, hsorted⟩ := hsorted
  have hbefore : ∀ m ∈ ms, m.time < e.time :=
    fun m hm => (List.pairwise_append.mp hsorted).2.2 m hm e (List.mem_singleton_self e)
  have hfirst : Held cron f.time f.time (cron.entryAfter f.time f.isFunctional entry) := by
    rw [hf]
    exact held_functional hdue f.time entry
  have hheld : Held cron f.time u.time (cron.run (f :: ms) entry) := by
    rcases List.mem_cons.mp hu with rfl | hu
    · rw [CronExpression.run, List.foldl_cons]
      refine hfirst.run_kept hdue fun m hm => ⟨hms m hm, ?_, ?_, ?_⟩
      · exact (hafter m (List.mem_append_left _ hm)).le
      · exact (hafter m (List.mem_append_left _ hm)).le
      · exact (hbefore m hm).trans hfresh
    · -- up to `u` nothing is due, so `u` has written the entry
      obtain ⟨as, bs, rfl⟩ := List.append_of_mem hu
      have hsplit : as ++ u :: bs = (as ++ [u]) ++ bs := by simp
      rw [hsplit] at hms hafter hsorted hchain hbefore ⊢
      have hstart := List.IsChain.prefix hchain (⟨bs ++ [e], by simp⟩ : f :: (as ++ [u]) <+: _)
      have hquietRun := hfirst.run_quiet hdue hquiet hstart
        (fun m hm => hms m (List.mem_append_left _ hm)) (le_refl _)
      have hrun : cron.run (f :: ((as ++ [u]) ++ bs)) entry =
          cron.run bs (cron.run (as ++ [u]) (cron.entryAfter f.time f.isFunctional entry)) := by
        simp only [CronExpression.run, List.foldl_cons, List.foldl_append]
      rw [hrun]
      refine hquietRun.run_kept hdue fun m hm => ⟨hms m (by simp [hm]), ?_, ?_, ?_⟩
      · exact (hafter m (by simp [hm])).le
      · rw [List.append_assoc, List.append_assoc] at hsorted
        have := (List.pairwise_append.mp hsorted).2.1
        exact (List.rel_of_pairwise_cons this (by simp [hm])).le
      · exact (hbefore m (by simp [hm])).trans hfresh
  exact hheld.fires_iff hdue hfresh

end OnePloy
