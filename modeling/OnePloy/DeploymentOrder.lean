import OnePloy.DeploymentTurns
import OnePloy.Lib.StableSort

/-!
# The order in which deployments start

Deployments of one application and pull request on one server stand in line.
The loop over a server's queue starts at most the first of each line: the rest
is blocked by it, or by whatever blocked it. `queue_application_deployment`
does not look at the line, and a query whose rows tie in `created_at` may
return them in any order; `inOrder_of_heedsLine` is about runs in which
neither matters.
-/

namespace OnePloy

open Conc

variable {cfg : DeployConfig} {s t : DeploymentStore}

/-! ## Lines -/

/-- Application, pull request and server. -/
def Deployment.line (d : Deployment) : (Nat × Nat) × Nat := (d.lane, d.serverId)

/-- Row `a` was set to in progress before row `b` first was. -/
def StartedBefore (started : List Nat) (a b : Nat) : Prop :=
  a ∈ started.takeWhile (· != b)

theorem startedBefore_append_self {started : List Nat} {a b : Nat} (hb : b ∉ started)
    (ha : a ∈ started) : StartedBefore (started ++ [b]) a b := by
  have hall : ∀ c ∈ started, (c != b) = true := by
    intro c hc
    rw [bne_iff_ne]
    rintro rfl
    exact hb hc
  rw [StartedBefore, List.takeWhile_append_of_pos hall]
  exact List.mem_append_left _ ha

theorem StartedBefore.append {started : List Nat} {a b : Nat} (h : StartedBefore started a b)
    (c : Nat) : StartedBefore (started ++ [c]) a b := by
  rw [StartedBefore, List.takeWhile_append]
  split
  · exact List.mem_append_left _ ((List.takeWhile_sublist _).subset h)
  · exact h

/-- Whoever has started did so after all older ones of the line that were not
cancelled. -/
def DeploymentStore.InOrder (s : DeploymentStore) : Prop :=
  ∀ a b da db, s.deployments.get? a = some da → s.deployments.get? b = some db → a < b →
    da.line = db.line → b ∈ s.started →
      StartedBefore s.started a b ∨ da.status = .cancelledByUser

/-- No `no_questions_asked`; the end of a deployment is a turn of its own. -/
def QueueTurn.isSplit : QueueTurn → Bool
  | .queue req => !req.noQuestionsAsked
  | .transition _ _ _ => false
  | .cancel _ _ => false
  | .cancelDeployment _ _ => false
  | _ => true

namespace DeploymentStore

/-- The call starts what it queues. -/
def startsAtOnce (cfg : DeployConfig) (s : DeploymentStore) (req : DeployRequest) : Bool :=
  s.isTenantActive req.applicationId && !s.isQueueFull cfg (req.serverId cfg) &&
    !s.isSkipped cfg req && s.nextQueuable cfg (req.deployment cfg s.clock)

/-- Someone stands in the line. -/
def hasLine (s : DeploymentStore) (line : (Nat × Nat) × Nat) : Bool :=
  (s.deployments.first? fun _ d => d.line == line && d.status == .queued).isSome

/-- Rows of one line with the same `created_at` come in the order of their keys. -/
def TiesInOrder (rows : List (Nat × Deployment)) : Prop :=
  rows.Pairwise fun p q => p.2.line = q.2.line → p.2.createdAt = q.2.createdAt → p.1 < q.1

instance : DecidablePred TiesInOrder := fun rows =>
  inferInstanceAs (Decidable (rows.Pairwise fun p q =>
    p.2.line = q.2.line → p.2.createdAt = q.2.createdAt → p.1 < q.1))

/-- Nothing is started at once past its line, and no tie is out of order. -/
def heedsLine (cfg : DeployConfig) (s : DeploymentStore) : QueueTurn → Bool
  | .queue req =>
      !(s.startsAtOnce cfg req && s.hasLine (req.deployment cfg s.clock).line)
  | .queueNext _ rows => decide (TiesInOrder rows)
  | .nextAfterCancel _ rows => decide (TiesInOrder rows)
  | _ => true

/-! ## The invariant -/

structure OrderInv (s : DeploymentStore) : Prop where
  created : ∀ {a b da db}, s.deployments.get? a = some da → s.deployments.get? b = some db →
    a < b → da.createdAt ≤ db.createdAt
  clock : ∀ {a da}, s.deployments.get? a = some da → da.createdAt ≤ s.clock
  started : ∀ {b}, b ∈ s.started → ∃ db, s.deployments.get? b = some db ∧ db.status ≠ .queued
  settled : ∀ {a da}, s.deployments.get? a = some da → da.status ≠ .queued →
    a ∈ s.started ∨ da.status = .cancelledByUser
  inOrder : s.InOrder

/-- The next of its line is started. -/
theorem OrderInv.start (hs : s.OrderInv) {b : Nat} {db : Deployment}
    (hget : s.deployments.get? b = some db) (hqueued : db.status = .queued)
    (hnext : ∀ a da, s.deployments.get? a = some da → a < b → da.line = db.line →
      da.status ≠ .queued) : (s.start b).OrderInv := by
  -- a row of the new store, and what it was before
  have hrow : ∀ {a da}, (s.start b).deployments.get? a = some da →
      ∃ da', s.deployments.get? a = some da' ∧ da.createdAt = da'.createdAt ∧
        da.line = da'.line ∧ (da = da' ∨ (a = b ∧ da.status = .inProgress)) := by
    intro a da ha
    rw [get?_start] at ha
    split at ha
    · next heq =>
        obtain ⟨da', ha', rfl⟩ := Option.map_eq_some_iff.mp ha
        exact ⟨da', ha', rfl, rfl, Or.inr ⟨heq, rfl⟩⟩
    · exact ⟨da, ha, rfl, rfl, Or.inl rfl⟩
  have hnot : b ∉ s.started := by
    intro hb
    obtain ⟨db', hb', hstatus⟩ := hs.started hb
    obtain rfl := Option.some.inj (hget.symm.trans hb')
    exact hstatus hqueued
  refine ⟨fun ha hb hlt => ?_, fun ha => ?_, fun {c} hc => ?_, fun {a da} ha hstatus => ?_, ?_⟩
  · obtain ⟨_, ha', hca, -⟩ := hrow ha
    obtain ⟨_, hb', hcb, -⟩ := hrow hb
    rw [hca, hcb]
    exact hs.created ha' hb' hlt
  · obtain ⟨_, ha', hca, -⟩ := hrow ha
    rw [hca]
    exact hs.clock ha'
  · rw [get?_start]
    by_cases hcb : c = b
    · subst hcb
      exact ⟨{ db with status := .inProgress }, by rw [if_pos rfl, hget]; rfl, nofun⟩
    · rcases List.mem_append.mp hc with hc | hc
      · obtain ⟨dc, hgetc, hstatus⟩ := hs.started hc
        exact ⟨dc, by rw [if_neg hcb, hgetc], hstatus⟩
      · exact absurd (List.mem_singleton.mp hc) hcb
  · obtain ⟨da', ha', -, -, rfl | ⟨rfl, -⟩⟩ := hrow ha
    · rcases hs.settled ha' hstatus with hmem | hcancelled
      · exact Or.inl (List.mem_append_left _ hmem)
      · exact Or.inr hcancelled
    · exact Or.inl (List.mem_append_right _ (List.mem_singleton.mpr rfl))
  · intro a c da dc ha hc hlt hline hstarted
    obtain ⟨da', ha', -, hla, hda⟩ := hrow ha
    obtain ⟨dc', hc', -, hlc, -⟩ := hrow hc
    have hline' : da'.line = dc'.line := by rw [← hla, ← hlc, hline]
    by_cases hcb : c = b
    · -- the one that starts now: all older ones have started, or are cancelled
      subst hcb
      obtain rfl := Option.some.inj (hget.symm.trans hc')
      have hda' : da = da' := hda.resolve_right fun h => absurd h.1 (Nat.ne_of_lt hlt)
      subst hda'
      rcases hs.settled ha' (hnext a da ha' hlt hline') with hmem | hcancelled
      · exact Or.inl (startedBefore_append_self hnot hmem)
      · exact Or.inr hcancelled
    · have hold : c ∈ s.started :=
        (List.mem_append.mp hstarted).resolve_right fun h => hcb (List.mem_singleton.mp h)
      rcases hs.inOrder a c da' dc' ha' hc' hlt hline' hold with hbefore | hcancelled
      · exact Or.inl (hbefore.append b)
      · rcases hda with rfl | ⟨rfl, -⟩
        · exact Or.inr hcancelled
        · -- what starts now was queued
          obtain rfl := Option.some.inj (hget.symm.trans ha')
          rw [hqueued] at hcancelled
          cases hcancelled

/-! ## The loop -/

/-- Lines and keys: what was created later stands behind. -/
theorem OrderInv.byCreation_pairwise (hs : s.OrderInv) {rows : List (Nat × Deployment)}
    (hrows : ∀ q ∈ rows, s.deployments.get? q.1 = some q.2) (hties : TiesInOrder rows) :
    (byCreation rows).Pairwise fun p q => p.2.line = q.2.line → p.1 < q.1 := by
  have : Std.Total fun p q : Nat × Deployment => p.2.createdAt ≤ q.2.createdAt :=
    ⟨fun p q => Nat.le_total ..⟩
  have : IsTrans (Nat × Deployment) fun p q => p.2.createdAt ≤ q.2.createdAt :=
    ⟨fun _ _ _ => Nat.le_trans⟩
  -- created strictly earlier means a smaller key
  have hearlier : ∀ p ∈ rows, ∀ q ∈ rows, p.2.createdAt < q.2.createdAt → p.1 < q.1 := by
    intro p hp q hq hlt
    rcases Nat.lt_trichotomy p.1 q.1 with h | h | h
    · exact h
    · have hget := hrows p hp
      rw [h, hrows q hq] at hget
      rw [Option.some.inj hget] at hlt
      exact absurd hlt (Nat.lt_irrefl _)
    · have := hs.created (hrows q hq) (hrows p hp) h
      omega
  refine insertionSort_pairwise ?_
  refine List.Pairwise.imp_of_mem (fun {p q} hp hq htie => ⟨fun hle hline => ?_, fun hgt _ => ?_⟩)
    hties
  · rcases Nat.lt_or_eq_of_le hle with hlt | heq
    · exact hearlier p hp q hq hlt
    · exact htie hline heq
  · exact hearlier q hq p hp (Nat.lt_of_not_le hgt)

/-- What the loop still has before it. -/
structure Ahead (cfg : DeployConfig) (s : DeploymentStore) (rows : List (Nat × Deployment)) :
    Prop where
  queued : ∀ q ∈ rows, s.deployments.get? q.1 = some q.2 ∧ q.2.status = .queued
  nodup : (rows.map Prod.fst).Nodup
  sorted : rows.Pairwise fun p q => p.2.line = q.2.line → p.1 < q.1
  /-- An older one of the line is still to come, or blocks. -/
  older : ∀ q ∈ rows, ∀ a da, s.deployments.get? a = some da → da.status = .queued →
    da.line = q.2.line → a < q.1 → (∃ p ∈ rows, p.1 = a) ∨ s.nextQueuable cfg q.2 = false

theorem nextQueuable_congr {d d' : Deployment} (h : d.line = d'.line) :
    s.nextQueuable cfg d = s.nextQueuable cfg d' := by
  obtain ⟨hlane, hserver⟩ := Prod.mk.inj h
  have happ : d.applicationId = d'.applicationId := congrArg Prod.fst hlane
  rw [nextQueuable, nextQueuable, happ, hlane, hserver]

theorem OrderInv.startNext (hs : s.OrderInv) {q : Nat × Deployment}
    {rows : List (Nat × Deployment)} (hahead : Ahead cfg s (q :: rows)) :
    (s.startNext cfg q).OrderInv ∧ Ahead cfg (s.startNext cfg q) rows := by
  obtain ⟨hget, hqueued⟩ := hahead.queued q (List.mem_cons_self ..)
  have hsorted := List.pairwise_cons.mp hahead.sorted
  have hnodup := List.nodup_cons.mp hahead.nodup
  rw [DeploymentStore.startNext]
  cases hnext : s.nextQueuable cfg q.2 with
  | true =>
      -- no older one of the line is queued: it would block, or come first
      have hfirst : ∀ a da, s.deployments.get? a = some da → a < q.1 → da.line = q.2.line →
          da.status ≠ .queued := by
        intro a da ha hlt hline hstatus
        rcases hahead.older q (List.mem_cons_self ..) a da ha hstatus hline hlt with
          ⟨p, hp, rfl⟩ | hblocked
        · rcases List.mem_cons.mp hp with rfl | hp
          · exact absurd hlt (Nat.lt_irrefl _)
          · obtain ⟨hp', -⟩ := hahead.queued p (List.mem_cons_of_mem _ hp)
            obtain rfl := Option.some.inj (ha.symm.trans hp')
            have := hsorted.1 p hp hline.symm
            omega
        · rw [hnext] at hblocked
          cases hblocked
      rw [if_pos rfl]
      refine ⟨hs.start hget hqueued hfirst, fun p hp => ?_, hnodup.2, hsorted.2,
        fun p hp a da ha hstatus hline hlt => ?_⟩
      · have hne : p.1 ≠ q.1 := fun h => hnodup.1 (h ▸ List.mem_map_of_mem hp)
        obtain ⟨hp', hstatus⟩ := hahead.queued p (List.mem_cons_of_mem _ hp)
        exact ⟨by rw [get?_start, if_neg hne, hp'], hstatus⟩
      · have hold := (start_starts s q.1).get? ha (by rw [hstatus]; intro h; cases h)
        rcases hahead.older p (List.mem_cons_of_mem _ hp) a da hold hstatus hline hlt with
          ⟨p', hp', rfl⟩ | hblocked
        · rcases List.mem_cons.mp hp' with rfl | hp'
          · rw [get?_start, if_pos rfl, hget] at ha
            obtain rfl := Option.some.inj ha
            cases hstatus
          · exact Or.inl ⟨p', hp', rfl⟩
        · exact Or.inr ((start_tightens s q.1).nextQueuable hblocked)
  | false =>
      rw [if_neg Bool.false_ne_true]
      refine ⟨hs, fun p hp => hahead.queued p (List.mem_cons_of_mem _ hp), hnodup.2, hsorted.2,
        fun p hp a da ha hstatus hline hlt => ?_⟩
      rcases hahead.older p (List.mem_cons_of_mem _ hp) a da ha hstatus hline hlt with
        ⟨p', hp', rfl⟩ | hblocked
      · rcases List.mem_cons.mp hp' with rfl | hp'
        · obtain rfl := Option.some.inj (ha.symm.trans hget)
          exact Or.inr ((nextQueuable_congr hline).symm.trans hnext)
        · exact Or.inl ⟨p', hp', rfl⟩
      · exact Or.inr hblocked

theorem OrderInv.drain : ∀ {rows : List (Nat × Deployment)} {s : DeploymentStore},
    s.OrderInv → Ahead cfg s rows → (s.drain cfg rows).OrderInv := by
  intro rows
  induction rows with
  | nil => exact fun hs _ => hs
  | cons q rows ih =>
      intro s hs hahead
      obtain ⟨hs', hahead'⟩ := hs.startNext hahead
      exact ih hs' hahead'

theorem OrderInv.drainServer (hs : s.OrderInv) {serverId : Nat}
    {rows : List (Nat × Deployment)} (hties : TiesInOrder rows)
    (h : s.drainServer cfg serverId rows = some t) : t.OrderInv := by
  obtain ⟨hperm, rfl⟩ := drainServer_some h
  have hkeys : (rows.map Prod.fst).Nodup :=
    ((hperm.map Prod.fst).nodup_iff).mpr (s.deployments.select_nodup _)
  have hmem : ∀ q, q ∈ byCreation rows ↔ s.deployments.get? q.1 = some q.2 ∧
      q.2.serverId = serverId ∧ q.2.status = .queued := fun q =>
    mem_byCreation.trans (hperm.mem_iff.trans mem_queuedOn)
  refine hs.drain ⟨fun q hq => ⟨((hmem q).mp hq).1, ((hmem q).mp hq).2.2⟩, ?_,
    hs.byCreation_pairwise (fun q hq => ((hmem q).mp (mem_byCreation.mpr hq)).1) hties,
    fun q hq a da ha hstatus hline _ => Or.inl ⟨(a, da), ?_, rfl⟩⟩
  · exact (((List.perm_insertionSort _ rows).map Prod.fst).nodup_iff).mpr hkeys
  · have hserver : da.serverId = q.2.serverId := congrArg Prod.snd hline
    exact (hmem (a, da)).mpr ⟨ha, hserver.trans ((hmem q).mp hq).2.1, hstatus⟩

/-! ## The turns -/

/-- A row changes, but not where it stands, and it does not leave the queue
without having started unless it is cancelled. -/
theorem OrderInv.modify (hs : s.OrderInv) {id : Nat} {d : Deployment}
    {f : Deployment → Deployment} (hget : s.deployments.get? id = some d)
    (hcreated : (f d).createdAt = d.createdAt) (hline : (f d).line = d.line)
    (hkeeps : d.status ≠ .queued → (f d).status ≠ .queued)
    (hleaves : (f d).status ≠ .queued → d.status ≠ .queued ∨ (f d).status = .cancelledByUser)
    (hcancelled : d.status = .cancelledByUser → (f d).status = .cancelledByUser) :
    OrderInv { s with deployments := s.deployments.modify id f } := by
  have hrow : ∀ {a da}, (s.deployments.modify id f).get? a = some da →
      ∃ da', s.deployments.get? a = some da' ∧ da.createdAt = da'.createdAt ∧
        da.line = da'.line ∧ (da'.status ≠ .queued → da.status ≠ .queued) ∧
        (da.status ≠ .queued → da'.status ≠ .queued ∨ da.status = .cancelledByUser) ∧
        (da'.status = .cancelledByUser → da.status = .cancelledByUser) := by
    intro a da ha
    rw [Table.get?_modify] at ha
    split at ha
    · next heq =>
        subst heq
        rw [hget] at ha
        obtain rfl := Option.some.inj ha
        exact ⟨d, hget, hcreated, hline, hkeeps, hleaves, hcancelled⟩
    · exact ⟨da, ha, rfl, rfl, fun h => h, Or.inl, fun h => h⟩
  refine ⟨fun ha hb hlt => ?_, fun ha => ?_, fun {b} hb => ?_, fun ha hstatus => ?_, ?_⟩
  · obtain ⟨_, ha', hca, -⟩ := hrow ha
    obtain ⟨_, hb', hcb, -⟩ := hrow hb
    rw [hca, hcb]
    exact hs.created ha' hb' hlt
  · obtain ⟨_, ha', hca, -⟩ := hrow ha
    rw [hca]
    exact hs.clock ha'
  · obtain ⟨db, hb', hstatus⟩ := hs.started hb
    rw [Table.get?_modify]
    by_cases hid : b = id
    · subst hid
      obtain rfl := Option.some.inj (hget.symm.trans hb')
      exact ⟨f d, by rw [if_pos rfl, hget]; rfl, hkeeps hstatus⟩
    · exact ⟨db, by rw [if_neg hid, hb'], hstatus⟩
  · obtain ⟨_, ha', -, -, -, hleft, hstays⟩ := hrow ha
    rcases hleft hstatus with hstatus' | hc
    · exact (hs.settled ha' hstatus').imp_right hstays
    · exact Or.inr hc
  · intro a b da db ha hb hlt hl hstarted
    obtain ⟨_, ha', -, hla, -, -, hstays⟩ := hrow ha
    obtain ⟨_, hb', -, hlb, -⟩ := hrow hb
    exact (hs.inOrder a b _ _ ha' hb' hlt (by rw [← hla, ← hlb, hl]) hstarted).imp_right hstays

theorem OrderInv.enqueue (hs : s.OrderInv) {d : Deployment} (hqueued : d.status = .queued)
    (hcreated : d.createdAt = s.clock) : (s.enqueue d).OrderInv := by
  have hrow : ∀ {a da}, (s.deployments.insert d).get? a = some da →
      (a = s.deployments.nextId ∧ da = d) ∨ s.deployments.get? a = some da := by
    intro a da ha
    rw [Table.get?_insert] at ha
    split at ha
    · next heq => exact Or.inl ⟨heq, (Option.some.inj ha).symm⟩
    · exact Or.inr ha
  refine ⟨fun ha hb hlt => ?_, fun ha => ?_, fun hb => ?_, fun ha hstatus => ?_, ?_⟩
  · rcases hrow ha with ⟨rfl, rfl⟩ | ha'
    · rcases hrow hb with ⟨rfl, rfl⟩ | hb'
      · exact Nat.le_refl _
      · have := Table.get?_lt hb'
        omega
    · rcases hrow hb with ⟨rfl, rfl⟩ | hb'
      · rw [hcreated]
        exact hs.clock ha'
      · exact hs.created ha' hb' hlt
  · rcases hrow ha with ⟨-, rfl⟩ | ha'
    · exact Nat.le_of_eq hcreated
    · exact hs.clock ha'
  · obtain ⟨db, hb', hstatus⟩ := hs.started hb
    exact ⟨db, Table.get?_insert_of_some _ hb', hstatus⟩
  · rcases hrow ha with ⟨-, rfl⟩ | ha
    · exact absurd hqueued hstatus
    · exact hs.settled ha hstatus
  · intro a b da db ha hb hlt hline hstarted
    obtain ⟨db', hb', -⟩ := hs.started hstarted
    have hblt := Table.get?_lt hb'
    rcases hrow ha with ⟨rfl, -⟩ | ha
    · exact absurd hlt (by omega)
    · rcases hrow hb with ⟨rfl, -⟩ | hb
      · exact absurd hblt (Nat.lt_irrefl _)
      · exact hs.inOrder a b da db ha hb hlt hline hstarted

/-- A row that waits changes nothing for the others. -/
theorem nextQueuable_enqueue {d : Deployment} (hqueued : d.status = .queued) (e : Deployment) :
    (s.enqueue d).nextQueuable cfg e = s.nextQueuable cfg e := by
  have hbusy : (s.enqueue d).isBusy e.lane = s.isBusy e.lane := by
    rw [Bool.eq_iff_iff, isBusy_iff, isBusy_iff]
    constructor
    · rintro ⟨i, r, hget, hlane, hstatus⟩
      have hrow : (s.deployments.insert d).get? i = some r := hget
      rw [Table.get?_insert] at hrow
      split at hrow
      · obtain rfl := Option.some.inj hrow
        rw [hqueued] at hstatus
        cases hstatus
      · exact ⟨i, r, hrow, hlane, hstatus⟩
    · rintro ⟨i, r, hget, hlane, hstatus⟩
      exact ⟨i, r, Table.get?_insert_of_some _ hget, hlane, hstatus⟩
  have hactive : (s.enqueue d).activeDeployments e.serverId = s.activeDeployments e.serverId := by
    have hcount : (s.enqueue d).activeDeployments e.serverId
      = s.activeDeployments e.serverId + _ := Table.countWhere_insert ..
    rw [hcount, hqueued]
    simp
  rw [nextQueuable, nextQueuable, hbusy, hasSlot, hasSlot, hactive]
  rfl

theorem hasLine_of_queued {a : Nat} {da : Deployment} (hget : s.deployments.get? a = some da)
    (hqueued : da.status = .queued) : s.hasLine da.line = true := by
  rw [hasLine, Option.isSome_iff_exists]
  exact Table.exists_first? hget (by simp [hqueued])

theorem OrderInv.queueApplicationDeployment (hs : s.OrderInv) {req : DeployRequest}
    (hreq : req.noQuestionsAsked = false)
    (hheeds : s.heedsLine cfg (.queue req) = true) :
    (s.queueApplicationDeployment cfg req).1.OrderInv := by
  unfold DeploymentStore.queueApplicationDeployment
  split
  · exact hs
  next htenant =>
  split
  · exact hs
  next hfull =>
  split
  · exact hs
  next hskipped =>
  dsimp only
  rw [hreq, if_neg Bool.false_ne_true, DeploymentStore.startNext,
    nextQueuable_enqueue (d := req.deployment cfg s.clock) rfl]
  have henqueued : (s.enqueue (req.deployment cfg s.clock)).OrderInv := hs.enqueue rfl rfl
  split
  · next hnext =>
      have hstarts : s.startsAtOnce cfg req = true := by
        simp only [startsAtOnce, Bool.and_eq_true, Bool.not_eq_true']
        exact ⟨⟨⟨by simpa using htenant, (Bool.not_eq_true _).mp hfull⟩,
          (Bool.not_eq_true _).mp hskipped⟩, hnext⟩
      refine henqueued.start (Table.get?_insert_self ..) rfl fun a da ha hlt hline hstatus => ?_
      have hold : s.deployments.get? a = some da := by
        have hrow : (s.deployments.insert (req.deployment cfg s.clock)).get? a = some da := ha
        rwa [Table.get?_insert, if_neg (Nat.ne_of_lt hlt)] at hrow
      have hsomeone := hasLine_of_queued hold hstatus
      rw [hline] at hsomeone
      rw [heedsLine, hstarts, hsomeone] at hheeds
      cases hheeds
  · exact henqueued

theorem OrderInv.turn {a : QueueTurn} (hs : s.OrderInv) (hsplit : a.isSplit = true)
    (hheeds : s.heedsLine cfg a = true) (h : s.turn cfg a = some t) : t.OrderInv := by
  cases a with
  | queue req =>
      obtain rfl := Option.some.inj h
      exact hs.queueApplicationDeployment (by simpa [QueueTurn.isSplit] using hsplit) hheeds
  | queueNext applicationId rows => exact hs.drainServer (of_decide_eq_true hheeds) h
  | nextAfterCancel server rows =>
      cases server with
      | none =>
          obtain rfl := Option.some.inj h
          exact hs
      | some serverId => exact hs.drainServer (of_decide_eq_true hheeds) h
  | ends id status =>
      obtain ⟨d, hget, h⟩ := Option.bind_eq_some_iff.mp h
      split at h
      · next hstatus =>
          obtain rfl := Option.some.inj h
          refine hs.modify hget rfl rfl (fun _ => ?_) (fun _ => Or.inl ?_) fun hc => ?_
          · rcases hstatus.2 with rfl | rfl <;> nofun
          · rw [hstatus.1]
            nofun
          · rw [hstatus.1] at hc
            cases hc
      · cases h
  | cancels id =>
      obtain ⟨d, hget, rfl⟩ := Option.map_eq_some_iff.mp h
      exact hs.modify hget rfl rfl (fun _ => nofun) (fun _ => Or.inr rfl) fun _ => rfl
  | transition id status rows => cases hsplit
  | cancel id rows => cases hsplit
  | cancelDeployment id rows => cases hsplit
  | build id serverId =>
      obtain ⟨d, hget, rfl⟩ := Option.map_eq_some_iff.mp h
      exact hs.modify hget rfl rfl (fun h => h) Or.inl fun h => h
  | tick seconds =>
      obtain rfl := Option.some.inj h
      exact ⟨hs.created, fun ha => (hs.clock ha).trans (Nat.le_add_right ..), hs.started,
        hs.settled, hs.inOrder⟩
  | tenant applicationId active =>
      obtain rfl := Option.some.inj h
      exact ⟨hs.created, hs.clock, hs.started, hs.settled, hs.inOrder⟩

end DeploymentStore

/-! ## Runs -/

theorem orderInv_emptyQueue (clock : Nat) : (emptyQueue clock).OrderInv := by
  have hget : ∀ i, (emptyQueue clock).deployments.get? i = none := fun i => Table.get?_empty i
  refine ⟨fun ha => ?_, fun ha => ?_, fun hb => ?_, fun ha => ?_, fun a b _ _ ha => ?_⟩
  · rw [hget] at ha
    cases ha
  · rw [hget] at ha
    cases ha
  · exact absurd hb List.not_mem_nil
  · rw [hget] at ha
    cases ha
  · rw [hget] at ha
    cases ha

/-- In every run, deployments of a line start in the order they were queued, as
long as nothing is started at once past its line and no tie is out of order. -/
theorem inOrder_of_heedsLine {clock : Nat}
    (h : Reaches (DeploymentStore.turn cfg)
      (fun s a => a.isSplit = true ∧ s.heedsLine cfg a = true) (emptyQueue clock) s) :
    s.InOrder := by
  have hinv : s.OrderInv := by
    exact h.invariant (I := DeploymentStore.OrderInv)
      (fun _ _ _ hs hok hstep => hs.turn hok.1 hok.2 hstep) (orderInv_emptyQueue clock)
  exact hinv.inOrder

/-- Two commits, the second started by the end of the first. -/
def oneAfterTheOther : List QueueTurn :=
  [.queue (deployRequest 2 "a"), .queue (deployRequest 2 "b"), .ends 1 .finished,
    .queueNext 2 [(2, (deployRequest 2 "b").deployment twoServers 0)]]

theorem inOrder_oneAfterTheOther :
    ∃ s, Reaches (DeploymentStore.turn twoServers)
        (fun s a => a.isSplit = true ∧ s.heedsLine twoServers a = true) (emptyQueue 0) s ∧
      s.started = [1, 2] ∧ s.InOrder := by
  obtain ⟨s, hrun, hs⟩ := exists_reaches_of_execIf (DeploymentStore.turn twoServers)
    (fun s a => a.isSplit = true ∧ s.heedsLine twoServers a = true) (emptyQueue 0)
    oneAfterTheOther (fun s => s.started == [1, 2]) (by decide +kernel)
  exact ⟨s, hrun, beq_iff_eq.mp hs, inOrder_of_heedsLine hrun⟩

/-- A third commit arrives between the end of the first and what follows it: it
finds the server free and starts, and the second one, the older, comes after. -/
def arrivesBeforeTheDrain : List QueueTurn :=
  [.queue (deployRequest 2 "a"), .queue (deployRequest 2 "b"), .ends 1 .finished,
    .queue (deployRequest 2 "c")]

theorem newer_started_first :
    ¬ ∀ (cfg : DeployConfig) (clock : Nat) (s : DeploymentStore),
      Reaches (DeploymentStore.turn cfg) (fun _ a => a.isSplit = true) (emptyQueue clock) s →
        s.InOrder := by
  intro h
  obtain ⟨s, hrun, hs⟩ := exists_reaches_of_execIf (DeploymentStore.turn twoServers)
    (fun _ a => a.isSplit = true) (emptyQueue 0) arrivesBeforeTheDrain
    (fun s => s.started == [1, 3] &&
      s.deployments.get? 2 == some ((deployRequest 2 "b").deployment twoServers 0) &&
      s.deployments.get? 3 == some { (deployRequest 2 "c").deployment twoServers 0 with
        status := .inProgress }) (by decide +kernel)
  simp only [Bool.and_eq_true, beq_iff_eq] at hs
  obtain ⟨⟨hstarted, hsecond⟩, hthird⟩ := hs
  rcases h twoServers 0 s hrun 2 3 _ _ hsecond hthird (by decide) rfl (by simp [hstarted]) with
    hbefore | hcancelled
  · rw [hstarted] at hbefore
    revert hbefore
    simp [StartedBefore]
  · cases hcancelled

end OnePloy
